import LoxLexer.Proofs.Opacity
import LoxLexer.Proofs.Recovery

/-!
# Stray characters inside and outside

Every character of a text stands in one of its tiles.  Strings and comments,
whether they come to their end or not, enclose what stands in them; other tiles
do not.  For a stray character that makes all the difference.  Where nothing
encloses it, it is a tile by itself, and one error ends behind it and nothing
else does.  In a string or a comment nobody calls it unexpected, and the string
or comment goes on behind it; only where the next character ends the line, a
comment to the end of that line is over.

* `exists_standsIn`: every character stands in a tile.
* `StandsIn.stray_cases`: a stray character is enclosed or by itself.
* `filter_itemEnds_of_not_enclosed`: the error of one by itself.
* `StandsIn.not_isUnexpectedAt`, `StandsIn.goes_on`: one that is enclosed.
-/

namespace LoxLexer

/-- The tile is a string or a comment, and whether it is brought to its end does
not matter. -/
inductive Tile.Encloses : Tile → Prop
  | string {contents : List Char} :
      Encloses ⟨'"' :: contents ++ ['"'], .token .string (some (.string contents))⟩
  | lineComment {body : List Char} : Encloses ⟨'#' :: body, .blank⟩
  | blockComment {body : List Char} : Encloses ⟨'/' :: '*' :: body, .blank⟩
  | openString {body : List Char} : Encloses ⟨'"' :: body, .fault .unterminatedString⟩
  | openComment {body : List Char} :
      Encloses ⟨'/' :: '*' :: body, .fault .unterminatedBlockComment⟩

/-- The character at place `p` of the text stands in the tile `t`, which a scan
comes upon between `before` and `behind`. -/
structure StandsIn (text : List Char) (p : Nat) (before : List Char) (t : Tile)
    (behind : List Char) : Prop where
  text_eq : text = before ++ t.text ++ behind
  meets : Meets before t behind
  le : before.length ≤ p
  lt : p < before.length + t.text.length

/-- The character at place `p` of the text is in a string or a comment. -/
def IsEnclosedAt (text : List Char) (p : Nat) : Prop :=
  ∃ before t behind, StandsIn text p before t behind ∧ t.Encloses

/-! ### Every character stands in a tile -/

/-- A place in the text of a row is in one of its tiles. -/
theorem exists_tile_at {tiles : List Tile} {p : Nat} (h : p < (tiles.flatMap Tile.text).length) :
    ∃ ts t us, tiles = ts ++ t :: us ∧ (ts.flatMap Tile.text).length ≤ p ∧
      p < (ts.flatMap Tile.text).length + t.text.length := by
  induction tiles generalizing p with
  | nil => exact absurd h (Nat.not_lt_zero p)
  | cons t tiles ih =>
      rw [List.flatMap_cons, List.length_append] at h
      rcases Nat.lt_or_ge p t.text.length with hhere | hlater
      · exact ⟨[], t, tiles, rfl, Nat.zero_le p, by simpa using hhere⟩
      · obtain ⟨ts, u, us, rfl, hle, hlt⟩ := ih (p := p - t.text.length) (by omega)
        refine ⟨t :: ts, u, us, rfl, ?_, ?_⟩
        · rw [List.flatMap_cons, List.length_append]
          omega
        · rw [List.flatMap_cons, List.length_append]
          omega

/-- Every character of a text stands in a tile. -/
theorem exists_standsIn {text : List Char} {p : Nat} (h : p < text.length) :
    ∃ before t behind, StandsIn text p before t behind := by
  rw [← flatMap_text_tilesOf text] at h
  obtain ⟨ts, t, us, htiles, hle, hlt⟩ := exists_tile_at h
  have htext : text = ts.flatMap Tile.text ++ t.text ++ us.flatMap Tile.text := by
    rw [← flatMap_text_tilesOf text, htiles, List.flatMap_append, List.flatMap_cons,
      List.append_assoc]
  exact ⟨_, t, us.flatMap Tile.text, htext, ⟨ts, us, htext ▸ htiles, rfl⟩, hle, hlt⟩

/-- A tile in a row that fits, and the row behind it. -/
theorem Fits.middle {ts us : List Tile} {t : Tile} (h : Fits (ts ++ t :: us)) :
    t.Alone ∧ t.EndsBefore (us.flatMap Tile.text) ∧ Fits us := by
  induction ts with
  | nil =>
      cases h with
      | cons halone hends htail => exact ⟨halone, hends, htail⟩
  | cons _ ts ih =>
      cases h with
      | cons _ _ htail => exact ih htail

/-! ### Enclosed or by itself -/

theorem IsStray.ne_star {c : Char} (h : IsStray c) : c ≠ '*' := by
  intro heq
  subst heq
  cases h.ofChar?

theorem IsStray.not_isWordPart {c : Char} (h : IsStray c) : isWordPart c = false := by
  rw [isWordPart, h.isWordStart, h.isDigit]
  rfl

/-- A stray character is in a lexeme only if that is a string. -/
theorem Lexeme.kind_of_stray {text : List Char} {kind : Kind} {literal : Option Literal} {c : Char}
    (h : Lexeme text kind literal) (hc : c ∈ text) (hstray : IsStray c) : kind = .string := by
  by_contra hkind
  rcases h.mem_cases hkind c hc with hpart | hsymbol
  · rw [hstray.not_isWordPart] at hpart
    cases hpart
  · rw [hstray.ofChar?] at hsymbol
    cases hsymbol

/-- A tile with a stray character in it is a string or a comment, or it is that
character. -/
theorem Tile.Alone.stray_cases {t : Tile} {c : Char} (h : t.Alone) (hc : c ∈ t.text)
    (hstray : IsStray c) : t.Encloses ∨ t = ⟨[c], .fault (.unexpectedCharacter c)⟩ := by
  obtain ⟨text, reading⟩ := t
  cases h with
  | space hsplit hspace =>
      obtain rfl := List.mem_singleton.mp hc
      rw [← isSpace_iff, hstray.isSpace] at hspace
      cases hspace
  | lineComment => exact Or.inl .lineComment
  | blockComment hsplit hcomplete =>
      obtain ⟨body, rfl⟩ := hcomplete.1
      exact Or.inl .blockComment
  | openComment hopen =>
      obtain ⟨body, rfl⟩ := hopen
      exact Or.inl .openComment
  | openString hsplit =>
      obtain rfl : text = '"' :: _ := hsplit
      exact Or.inl .openString
  | lexeme hplain hsplit hlexeme =>
      obtain rfl := hlexeme.kind_of_stray hc hstray
      obtain ⟨contents, rfl, rfl, -⟩ := hlexeme.exists_contents
      exact Or.inl .string
  | stray =>
      obtain rfl := List.mem_singleton.mp hc
      exact Or.inr rfl

/-! ### What ends behind a character -/

/-- The ends of items are found part by part, behind what is before each part. -/
theorem itemEndsOf_append (n line : Nat) (ts us : List Tile) :
    itemEndsOf n line (ts ++ us) =
      itemEndsOf n line ts ++
        itemEndsOf (n + (ts.flatMap Tile.text).length)
          (line + newlines (ts.flatMap Tile.text)) us := by
  induction ts generalizing n line with
  | nil => rfl
  | cons t ts ih =>
      rw [List.cons_append, itemEndsOf, itemEndsOf, ih, List.flatMap_cons, List.length_append,
        newlines_append, List.append_assoc, Nat.add_assoc, Nat.add_assoc]

/-- What a row of tiles stands for ends in the text of the row. -/
theorem le_of_mem_itemEndsOf {n line : Nat} {ts : List Tile} {entry : Item × Nat}
    (h : entry ∈ itemEndsOf n line ts) : entry.2 ≤ n + (ts.flatMap Tile.text).length := by
  induction ts generalizing n line with
  | nil => cases h
  | cons t ts ih =>
      rw [List.flatMap_cons, List.length_append, ← Nat.add_assoc]
      rcases List.mem_append.mp h with hhere | hlater
      · obtain ⟨item, -, rfl⟩ := List.mem_map.mp hhere
        exact Nat.le_add_right _ _
      · exact ih hlater

namespace StandsIn

variable {text before behind : List Char} {p : Nat} {t : Tile} {c : Char}

/-- The tile is one of a row, and what is before it and behind it are the texts of
the other ones. -/
theorem exists_row (h : StandsIn text p before t behind) :
    ∃ ts us, tilesOf text = ts ++ t :: us ∧ ts.flatMap Tile.text = before ∧
      us.flatMap Tile.text = behind := by
  obtain ⟨ts, us, htiles, rfl⟩ := h.meets
  rw [← h.text_eq] at htiles
  refine ⟨ts, us, htiles, rfl, ?_⟩
  have htext := flatMap_text_tilesOf text
  rw [htiles, List.flatMap_append, List.flatMap_cons, ← List.append_assoc, h.text_eq] at htext
  exact List.append_cancel_left htext

/-- The tile is one alone and ends where the text behind it begins. -/
theorem alone_endsBefore (h : StandsIn text p before t behind) : t.Alone ∧ t.EndsBefore behind := by
  obtain ⟨ts, us, htiles, -, rfl⟩ := h.exists_row
  have hfits : Fits (ts ++ t :: us) := htiles ▸ fits_tilesOf text
  exact ⟨hfits.middle.1, hfits.middle.2.1⟩

/-- The character is in the text of the tile. -/
theorem getElem?_text (h : StandsIn text p before t behind) :
    t.text[p - before.length]? = text[p]? := by
  rw [h.text_eq, List.append_assoc, List.getElem?_append_right h.le,
    List.getElem?_append_left (Nat.sub_lt_left_of_lt_add h.le h.lt)]

/-- **Enclosed or by itself.**  A stray character stands in a string or a comment,
or it is a tile. -/
theorem stray_cases (h : StandsIn text p before t behind) (hchar : text[p]? = some c)
    (hstray : IsStray c) : t.Encloses ∨ t = ⟨[c], .fault (.unexpectedCharacter c)⟩ :=
  h.alone_endsBefore.1.stray_cases
    (List.mem_of_getElem? (h.getElem?_text.trans hchar)) hstray

/-- Only the tile in which a character stands can end behind it. -/
theorem filter_itemEnds (h : StandsIn text p before t behind) :
    (itemEnds text).filter (·.2 = p + 1) =
      ((t.item? (1 + newlines before)).toList.map
        (·, before.length + t.text.length)).filter (·.2 = p + 1) := by
  obtain ⟨ts, us, htiles, rfl, -⟩ := h.exists_row
  have hle := h.le
  have hlt := h.lt
  have hfits : Fits (ts ++ t :: us) := htiles ▸ fits_tilesOf text
  have hearlier : (itemEndsOf 0 1 ts).filter (·.2 = p + 1) = [] := by
    refine List.filter_eq_nil_iff.mpr fun entry hentry => ?_
    have hend := le_of_mem_itemEndsOf hentry
    simp only [decide_eq_true_eq]
    omega
  have hlater : (itemEndsOf ((ts.flatMap Tile.text).length + t.text.length)
      (1 + newlines (ts.flatMap Tile.text) + newlines t.text) us).filter (·.2 = p + 1) = [] := by
    refine List.filter_eq_nil_iff.mpr fun entry hentry => ?_
    have hend := lt_of_mem_itemEndsOf hfits.middle.2.2 hentry
    simp only [decide_eq_true_eq]
    omega
  rw [itemEnds_eq, htiles, itemEndsOf_append, itemEndsOf, Nat.zero_add, List.filter_append,
    List.filter_append, hearlier, hlater, List.nil_append, List.append_nil]

/-- A stray character that nothing encloses costs one error, which ends behind it,
and nothing else ends there. -/
theorem filter_itemEnds_of_stray
    (h : StandsIn text p before ⟨[c], .fault (.unexpectedCharacter c)⟩ behind) :
    (itemEnds text).filter (·.2 = p + 1) =
      [(.error ⟨.unexpectedCharacter c, 1 + newlines (text.take p)⟩, p + 1)] := by
  have hplace : p = before.length := Nat.le_antisymm (Nat.le_of_lt_succ h.lt) h.le
  have hbefore : text.take p = before := by
    rw [h.text_eq, List.append_assoc, hplace, List.take_left]
  have hline : newlines [c] = 0 := newlines_cons_of_ne h.alone_endsBefore.1.isStray.2.ne_newline []
  rw [h.filter_itemEnds, hbefore, hplace]
  simp [Tile.item?, hline]

/-- No character in a string or a comment is called unexpected. -/
theorem not_isUnexpectedAt (h : StandsIn text p before t behind) (hencloses : t.Encloses) :
    ¬ IsUnexpectedAt text p := by
  rintro ⟨d, line, hmem⟩
  have hfilter : (Item.error ⟨.unexpectedCharacter d, line⟩, p + 1) ∈
      (itemEnds text).filter (·.2 = p + 1) := by
    exact List.mem_filter.mpr ⟨hmem, decide_eq_true rfl⟩
  rw [h.filter_itemEnds] at hfilter
  obtain ⟨item, hitem, heq⟩ := List.mem_map.mp (List.mem_filter.mp hfilter).1
  obtain ⟨rfl, -⟩ := Prod.mk.inj heq
  rw [Option.mem_toList] at hitem
  cases hencloses <;> cases hitem

/-- **Nothing is closed by a stray character.**  What encloses it encloses the next
character too, unless the text ends there, or the line at whose end a comment ends. -/
theorem goes_on (h : StandsIn text p before t behind) (hencloses : t.Encloses)
    (hchar : text[p]? = some c) (hstray : IsStray c) :
    StandsIn text (p + 1) before t behind ∨ p + 1 = text.length ∨
      text[p + 1]? = some '\n' ∧ t.text.head? = some '#' := by
  have hle := h.le
  have hlt := h.lt
  by_cases hinside : p + 1 < before.length + t.text.length
  · exact Or.inl ⟨h.text_eq, h.meets, Nat.le_succ_of_le hle, hinside⟩
  right
  have hend : p + 1 = (before ++ t.text).length := by
    rw [List.length_append]
    omega
  have hlast : t.text.getLast? = some c := by
    rw [List.getLast?_eq_getElem?, ← hchar, ← h.getElem?_text]
    congr 1
    omega
  obtain ⟨halone, hends⟩ := h.alone_endsBefore
  cases behind with
  | nil =>
      left
      rw [h.text_eq, hend, List.append_nil]
  | cons d more =>
      right
      have hnext : text[p + 1]? = some d := by
        rw [h.text_eq, hend, List.getElem?_append_right (Nat.le_refl _), Nat.sub_self]
        rfl
      have hstop := hends.stops d more rfl
      -- No stray character is the last one of a string or a complete comment, and what
      -- is left open takes in everything.
      cases hencloses with
      | string =>
          rw [List.getLast?_concat] at hlast
          exact absurd (Option.some.inj hlast).symm hstray.ne_quote
      | lineComment =>
          have hnewline : d = '\n' := by simpa [Tile.takes] using hstop
          exact ⟨by rw [hnext, hnewline], rfl⟩
      | @blockComment body =>
          obtain ⟨front, hfront⟩ : ∃ front, '/' :: '*' :: body = front ++ [c] :=
            List.getLast?_eq_some_iff.mp hlast
          cases halone with
          | blockComment _ hcomplete =>
              rw [hfront] at hcomplete
              exact absurd hcomplete (not_completeComment_snoc hstray.ne_star hstray.ne_slash)
      | openString => cases hstop
      | openComment => cases hstop

end StandsIn

/-- A stray character in no string and no comment costs one error, which ends behind
it, and nothing else ends there. -/
theorem filter_itemEnds_of_not_enclosed {text : List Char} {p : Nat} {c : Char}
    (hchar : text[p]? = some c) (hstray : IsStray c) (h : ¬ IsEnclosedAt text p) :
    (itemEnds text).filter (·.2 = p + 1) =
      [(.error ⟨.unexpectedCharacter c, 1 + newlines (text.take p)⟩, p + 1)] := by
  obtain ⟨hplace, -⟩ := List.getElem?_eq_some_iff.mp hchar
  obtain ⟨before, t, behind, hstands⟩ := exists_standsIn hplace
  rcases hstands.stray_cases hchar hstray with hencloses | rfl
  · exact absurd ⟨before, t, behind, hstands, hencloses⟩ h
  · exact hstands.filter_itemEnds_of_stray

end LoxLexer
