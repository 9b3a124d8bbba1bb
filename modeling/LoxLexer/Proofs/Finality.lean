import LoxLexer.Proofs.Extent

/-!
# What is settled before the source ends

A scan of a source that is still growing can already rely on some items: those
behind which there are two characters.  Whether a tile ends is decided by the
two characters behind it, and so is whether the next one begins there.

* `Tile.endsBefore_append_iff`: the statement for one tile.
* `IsFinal`, with `exists_final`: every continuation of a source has the same
  items up to two characters before its end, and all others end later.
* `itemEnds_final`: the statement for scans.

One character is not enough, since behind a numeral there may be a point that a
digit follows.
-/

namespace LoxLexer

/-- The first two characters decide. -/
theorem Tile.endsBefore_cons_cons {t : Tile} {d e : Char} {more : List Char} :
    t.EndsBefore (d :: e :: more) ↔
      t.takes d = false ∧ (t.isWhole → d = '.' → e.isDigit = false) := by
  constructor
  · intro h
    refine ⟨h.stops d (e :: more) rfl, ?_⟩
    rintro hwhole rfl
    exact h.noPlaces hwhole e more rfl
  · rintro ⟨hstop, hplaces⟩
    constructor
    · intro d' more' heq
      cases heq
      exact hstop
    · intro hwhole e' more' heq
      cases heq
      exact hplaces hwhole rfl

/-- Whether a tile ends before a text is settled by the first two characters of the text. -/
theorem Tile.endsBefore_append_iff {t : Tile} {rest : List Char} (h : 2 ≤ rest.length)
    (more : List Char) : t.EndsBefore (rest ++ more) ↔ t.EndsBefore rest := by
  match rest, h with
  | d :: e :: rest, _ =>
      rw [List.cons_append, List.cons_append, endsBefore_cons_cons, endsBefore_cons_cons]

/-- A first tile with two characters behind it is settled. -/
theorem FirstTile.append_iff {source rest : List Char} {t : Tile} (h : 2 ≤ rest.length)
    (more : List Char) : FirstTile (source ++ more) t (rest ++ more) ↔ FirstTile source t rest := by
  rw [firstTile_iff_endsBefore, firstTile_iff_endsBefore, Tile.endsBefore_append_iff h,
    ← List.append_assoc, List.append_left_inj]

/-- A first tile that is not settled stays so: whatever is appended to its
source, the first tile ends less than two characters before that. -/
theorem FirstTile.length_lt {source rest more rest' : List Char} {t t' : Tile}
    (h : FirstTile source t rest) (hshort : rest.length < 2)
    (h' : FirstTile (source ++ more) t' rest') : source.length < t'.text.length + 2 := by
  by_contra hlong
  have hsplit := (firstTile_iff_endsBefore.mp h').1
  obtain ⟨rest'', rfl⟩ : t'.text <+: source := by
    refine List.prefix_of_prefix_length_le ⟨rest', hsplit.symm⟩ (List.prefix_append _ more) ?_
    omega
  rw [List.length_append] at hlong
  rw [List.append_assoc] at hsplit
  rw [← List.append_cancel_left hsplit] at h'
  have hsettled := (FirstTile.append_iff (by omega) more).mp h'
  obtain ⟨c, cs, heq⟩ := h.exists_cons
  rw [heq, firstTile_iff] at h hsettled
  rw [hsettled] at h
  cases h
  omega

/-- Every continuation of the source begins with this row of items. They end at
least two characters before the end of the source, and all other items end
later. There are `n` characters before the source, and it begins on `line`. -/
def IsFinal (source : List Char) (n line : Nat) (final : List (Item × Nat)) : Prop :=
  ∀ more, ∃ later,
    itemEndsOf n line (tilesOf (source ++ more)) = final ++ later ∧
    (∀ entry ∈ final, entry.2 + 2 ≤ n + source.length) ∧
    ∀ entry ∈ later, n + source.length < entry.2 + 2

/-- A settled first tile goes in front of what is final behind it. -/
theorem IsFinal.cons {source rest : List Char} {t : Tile} {n line : Nat}
    {final : List (Item × Nat)} (hfirst : FirstTile source t rest) (hlong : 2 ≤ rest.length)
    (h : IsFinal rest (n + t.text.length) (line + newlines t.text) final) :
    IsFinal source n line ((t.item? line).toList.map (·, n + t.text.length) ++ final) := by
  have hsplit := congrArg List.length (firstTile_iff_endsBefore.mp hfirst).1
  rw [List.length_append] at hsplit
  intro more
  obtain ⟨later, htail, hbefore, hafter⟩ := h more
  refine ⟨later, ?_, ?_, ?_⟩
  · rw [tilesOf_of_firstTile ((FirstTile.append_iff hlong more).mpr hfirst), itemEndsOf, htail,
      List.append_assoc]
  · intro entry hentry
    rcases List.mem_append.mp hentry with hhere | hlater
    · obtain ⟨item, -, rfl⟩ := List.mem_map.mp hhere
      dsimp only
      omega
    · have hle := hbefore entry hlater
      omega
  · intro entry hentry
    have hlt := hafter entry hentry
    omega

/-- Where the first tile is not settled, nothing is final. -/
theorem isFinal_nil {source rest : List Char} {t : Tile} (hfirst : FirstTile source t rest)
    (hshort : rest.length < 2) (n line : Nat) : IsFinal source n line [] := by
  intro more
  refine ⟨_, rfl, by simp, ?_⟩
  obtain ⟨c, cs, rfl⟩ := hfirst.exists_cons
  -- The first tile of the continuation may be another one, but it ends late enough.
  have hfirst' := Tile.first_firstTile c (cs ++ more)
  have hlength := hfirst.length_lt hshort hfirst'
  intro entry hentry
  rw [List.cons_append, tilesOf_of_firstTile hfirst', itemEndsOf] at hentry
  rcases List.mem_append.mp hentry with hhere | hlater
  · obtain ⟨item, -, rfl⟩ := List.mem_map.mp hhere
    dsimp only
    omega
  · have hlt := lt_of_mem_itemEndsOf (fits_tilesOf _) hlater
    omega

/-- **What is final.**  Every source has such a row of items. -/
theorem exists_final (source : List Char) (n line : Nat) :
    ∃ final, IsFinal source n line final := by
  fun_induction tilesOf source generalizing n line with
  | case1 =>
      refine ⟨[], fun more => ⟨_, rfl, by simp, ?_⟩⟩
      intro entry hentry
      have hlt := lt_of_mem_itemEndsOf (fits_tilesOf _) hentry
      rw [List.length_nil]
      omega
  | case2 c cs ih =>
      have hfirst := Tile.first_firstTile c cs
      by_cases hlong : 2 ≤ (Tile.first c cs).2.length
      · obtain ⟨final, hfinal⟩ := ih _ _
        exact ⟨_, hfinal.cons hfirst hlong⟩
      · exact ⟨[], isFinal_nil hfirst (Nat.lt_of_not_le hlong) n line⟩

section Source

variable {source : List Char} {final : List (Item × Nat)}

/-- The items of a continuation that end early enough are the final ones. -/
theorem IsFinal.filter_itemEnds (h : IsFinal source 0 1 final) (more : List Char) :
    (itemEnds (source ++ more)).filter (fun entry => entry.2 + 2 ≤ source.length) = final := by
  obtain ⟨later, heq, hbefore, hafter⟩ := h more
  rw [Nat.zero_add] at hbefore hafter
  have hnone : later.filter (fun entry => entry.2 + 2 ≤ source.length) = [] := by
    rw [List.filter_eq_nil_iff]
    intro entry hentry
    have hlt := hafter entry hentry
    simpa using hlt
  rw [itemEnds_eq, heq, List.filter_append, hnone, List.append_nil, List.filter_eq_self]
  intro entry hentry
  simpa using hbefore entry hentry

/-- They stand at the same indices as in the final row. -/
theorem IsFinal.getElem?_itemEnds (h : IsFinal source 0 1 final) (more : List Char) {k : Nat}
    {entry : Item × Nat} (hentry : entry.2 + 2 ≤ source.length) :
    (itemEnds (source ++ more))[k]? = some entry ↔ final[k]? = some entry := by
  obtain ⟨later, heq, -, hafter⟩ := h more
  rw [itemEnds_eq, heq]
  by_cases hk : k < final.length
  · rw [List.getElem?_append_left hk]
  · rw [List.getElem?_append_right (Nat.le_of_not_lt hk),
      List.getElem?_eq_none (Nat.le_of_not_lt hk)]
    constructor
    · intro hlater
      have hlt := hafter entry (List.mem_of_getElem? hlater)
      omega
    · intro hnone
      cases hnone

end Source

/-- **Two characters of lookahead.**  Whatever is appended to a source, the
items that end at least two characters before its end are the same: the same
list of them, and the same item at every index.  Of all items, a scan returns
the tokens with the end mark behind them and reports the errors. -/
theorem itemEnds_final (source more more' : List Char) :
    (itemEnds (source ++ more)).filter (fun entry => entry.2 + 2 ≤ source.length) =
        (itemEnds (source ++ more')).filter (fun entry => entry.2 + 2 ≤ source.length) ∧
      (∀ (k : Nat) (entry : Item × Nat), entry.2 + 2 ≤ source.length →
        ((itemEnds (source ++ more))[k]? = some entry ↔
          (itemEnds (source ++ more'))[k]? = some entry)) ∧
      ∀ text, (scan text).tokens = (itemEnds text).filterMap (·.1.token?) ++
          [.endOfFile (1 + newlines text)] ∧
        (scan text).sink.toList = (itemEnds text).filterMap (·.1.error?) := by
  obtain ⟨final, hfinal⟩ := exists_final source 0 1
  refine ⟨?_, ?_, ?_⟩
  · rw [hfinal.filter_itemEnds, hfinal.filter_itemEnds]
  · intro k entry hentry
    rw [hfinal.getElem?_itemEnds more hentry, hfinal.getElem?_itemEnds more' hentry]
  · exact fun text => ⟨tokens_scan_itemEnds text, errors_scan_itemEnds text⟩

/-- One character behind a numeral does not settle it. -/
example : (itemEnds ['1', '.'])[0]? ≠ (itemEnds (['1', '.'] ++ ['5']))[0]? := by decide +kernel

end LoxLexer
