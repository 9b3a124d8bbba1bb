import LoxLexer.Proofs.LongestMatch

/-!
# Rows of tiles

A tile is the first one of a text if it is one alone and ends where the rest of
the text begins.  So a row of tiles, each of which ends where the text of the
next ones begins, is the row that its text is cut into.

* `firstTile_iff_endsBefore`: the rule for the first tile, split into the two
  questions.
* `tilesOf_flatMap_text`: the statement for a row.

Laws about two texts are proved in later files by turning the row of one text
into the row of the other, and asking of each tile whether it still ends.
-/

namespace LoxLexer

/-- The tile is what its own text is read as. -/
def Tile.Alone (t : Tile) : Prop := FirstTile t.text t []

theorem Tile.Alone.length_pos {t : Tile} (h : t.Alone) : 0 < t.text.length := by
  obtain ⟨c, cs, heq⟩ := FirstTile.exists_cons h
  rw [heq]
  exact Nat.succ_pos cs.length

/-! ### Stray characters -/

/-- A character that nothing but a fault begins with. -/
structure IsStray (c : Char) : Prop where
  isSpace : isSpace c = false
  ne_hash : c ≠ '#'
  ne_quote : c ≠ '"'
  isDigit : c.isDigit = false
  isWordStart : isWordStart c = false
  ofChar? : Symbol.ofChar? c = none

/-- A slash is no stray character, for it is a symbol. -/
theorem IsStray.ne_slash {c : Char} (h : IsStray c) : c ≠ '/' := by
  intro heq
  subst heq
  cases h.ofChar?

/-- A stray character is a tile whatever stands behind it. -/
theorem IsStray.firstTile {c : Char} (h : IsStray c) (rest : List Char) :
    FirstTile (c :: rest) ⟨[c], .fault (.unexpectedCharacter c)⟩ rest := by
  have hopen : ¬ ['/', '*'] <+: c :: rest := Tile.not_opening_of_ne h.ne_slash
  rw [firstTile_iff,
    Tile.first_other rest h.isSpace h.ne_hash h.ne_quote h.isDigit h.isWordStart hopen,
    Tile.symbol_of_none rest fun d _ _ => Symbol.ofPair?_of_none h.ofChar? d,
    Tile.single_of_none rest h.ofChar?]

/-- The rule calls no other character stray. -/
theorem isStray_of_plain {c : Char} {rest : List Char} (hplain : Plain (c :: rest))
    (hnone : ∀ front, front <+: c :: rest → ¬ IsLexeme front) : IsStray c := by
  have hsingle : ¬ IsLexeme [c] := hnone [c] ⟨rest, rfl⟩
  obtain ⟨hspace, hhash⟩ := hplain.noSpace c rest rfl
  refine ⟨?_, hhash, ?_, ?_, ?_, ?_⟩
  · rw [← isSpace_iff] at hspace
    exact Bool.eq_false_iff.mpr hspace
  · intro heq
    subst heq
    obtain ⟨contents, more, rfl, hcontents⟩ := List.eq_append_cons_of_mem (hplain.closed rest rfl)
    exact hnone ('"' :: contents ++ ['"']) ⟨more, by simp⟩ ⟨_, _, .string hcontents⟩
  · exact Bool.eq_false_iff.mpr fun hdigit =>
      hsingle ⟨_, _, .whole ⟨List.cons_ne_nil c [], by simpa using hdigit⟩⟩
  · exact Bool.eq_false_iff.mpr fun hword =>
      hsingle ⟨_, _, .ofWord ⟨c, [], rfl, hword, by simp⟩⟩
  · exact Option.eq_none_iff_forall_ne_some.mpr fun s hs =>
      hsingle ⟨_, _, Tile.lexeme_ofChar? hs⟩

/-! ### The rule in two questions -/

/-- A tile that follows the rule ends where the rest begins. -/
theorem FirstTile.endsBefore {source rest : List Char} {t : Tile} (h : FirstTile source t rest) :
    t.EndsBefore rest := by
  cases h with
  | space hsplit hspace =>
      refine ⟨?_, fun hwhole => by cases hwhole⟩
      intro d more _
      rw [← isSpace_iff] at hspace
      simp [Tile.takes, (class_of_isSpace hspace).1]
  | lineComment hsplit hbody hrest =>
      refine ⟨?_, fun hwhole => by cases hwhole⟩
      intro d more heq
      rcases hrest with rfl | ⟨more', rfl⟩
      · cases heq
      · obtain ⟨rfl, -⟩ := List.cons.inj heq
        rfl
  | blockComment hsplit hcomplete =>
      refine ⟨?_, fun hwhole => by cases hwhole⟩
      intro d more _
      obtain ⟨body, rfl⟩ := hcomplete.1
      rfl
  | openComment => exact Tile.endsBefore_nil _
  | openString => exact Tile.endsBefore_nil _
  | lexeme hplain hsplit hlexeme hlongest =>
      rw [hsplit] at hlongest
      exact hlexeme.endsBefore (hsplit ▸ hplain.noOpening) hlongest
  | stray => exact ⟨fun _ _ _ => rfl, fun hwhole => by cases hwhole⟩

/-- A tile that follows the rule in front of other text does so alone. -/
theorem FirstTile.alone {source rest : List Char} {t : Tile} (h : FirstTile source t rest) :
    t.Alone := by
  cases h with
  | space hsplit hspace => exact .space rfl hspace
  | lineComment hsplit hbody _ => exact .lineComment (by simp) hbody (Or.inl rfl)
  | blockComment hsplit hcomplete => exact .blockComment (by simp) hcomplete
  | openComment hopen hnever => exact .openComment hopen hnever
  | openString hsplit hbody => exact .openString hsplit hbody
  | lexeme _ _ hlexeme _ =>
      have hfirst := hlexeme.firstTile (Tile.endsBefore_nil _)
      rwa [List.append_nil] at hfirst
  | stray hplain hsplit hnone =>
      subst hsplit
      exact (isStray_of_plain hplain hnone).firstTile []

/-- A tile that is one alone is the first tile in front of any text before
which it ends. -/
theorem Tile.Alone.firstTile {t : Tile} {rest : List Char} (h : t.Alone)
    (hends : t.EndsBefore rest) : FirstTile (t.text ++ rest) t rest := by
  obtain ⟨text, reading⟩ := t
  cases h with
  | space hsplit hspace => exact .space rfl hspace
  | @lineComment body rest' hsplit hbody _ =>
      refine .lineComment rfl hbody ?_
      cases rest with
      | nil => exact Or.inl rfl
      | cons d more =>
          have hnewline : d = '\n' := by simpa [Tile.takes] using hends.stops d more rfl
          exact Or.inr ⟨more, by rw [hnewline]⟩
  | blockComment hsplit hcomplete => exact .blockComment rfl hcomplete
  | openComment hopen hnever =>
      cases rest with
      | nil => rw [List.append_nil]; exact .openComment hopen hnever
      | cons d more => cases hends.stops d more rfl
  | openString hsplit hbody =>
      cases rest with
      | nil => rw [List.append_nil]; exact .openString hsplit hbody
      | cons d more => cases hends.stops d more rfl
  | lexeme _ _ hlexeme _ => exact hlexeme.firstTile hends
  | stray hplain hsplit hnone =>
      exact (isStray_of_plain hplain hnone).firstTile rest

/-- **Where a tile ends.**  The rule asks for a tile in front of some text if the
tile is one alone and ends where that text begins, and for no other tile. -/
theorem firstTile_iff_endsBefore {source rest : List Char} {t : Tile} :
    FirstTile source t rest ↔ source = t.text ++ rest ∧ t.Alone ∧ t.EndsBefore rest := by
  constructor
  · intro h
    refine ⟨?_, h.alone, h.endsBefore⟩
    obtain ⟨c, cs, rfl⟩ := h.exists_cons
    have hsplit := Tile.text_first_append c cs
    rw [firstTile_iff.mp h] at hsplit
    exact hsplit.symm
  · rintro ⟨rfl, halone, hends⟩
    exact halone.firstTile hends

/-! ### Rows of tiles -/

/-- A row of tiles, each of which is one alone and ends where the text of the
next ones begins. -/
inductive Fits : List Tile → Prop
  | nil : Fits []
  | cons {t : Tile} {ts : List Tile} (halone : t.Alone)
      (hends : t.EndsBefore (ts.flatMap Tile.text)) (htail : Fits ts) : Fits (t :: ts)

/-- The tiles of a text fit. -/
theorem fits_tilesOf (source : List Char) : Fits (tilesOf source) := by
  fun_induction tilesOf source with
  | case1 => exact .nil
  | case2 c cs ih =>
      have hfirst := Tile.first_firstTile c cs
      refine .cons hfirst.alone ?_ ih
      rw [flatMap_text_tilesOf]
      exact hfirst.endsBefore

/-- Tiles that fit are the tiles of their text. -/
theorem tilesOf_flatMap_text {ts : List Tile} (h : Fits ts) :
    tilesOf (ts.flatMap Tile.text) = ts := by
  induction h with
  | nil => rw [List.flatMap_nil, tilesOf]
  | cons halone hends _ ih =>
      rw [List.flatMap_cons, tilesOf_of_firstTile (halone.firstTile hends), ih]

end LoxLexer
