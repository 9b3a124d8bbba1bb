import Mathlib.Data.Finset.Basic
import Mathlib.Data.List.Forall2
import LoxLexer.Proofs.Extent

/-!
# Recovery from unexpected characters

A character that has no place in a source costs one error and does nothing
else.  What stands before it ends there as it would before a blank, and what
stands behind it begins as it would behind one.  So blanks can be written over
any of these characters: the tokens stay what and where they are, and of the
errors only those of the characters that are gone are missing.

* `Cleared`: the tiles of a source and those of the source with the blanks,
  side by side.
* `Cleared.fits`: the second row fits if the first one does.
* `cleared_blankOut`: the two rows are the tiles of the two sources.
* `scan_blankOut`: the statement for scans.
-/

namespace LoxLexer

/-- A scan of the source reports the character at place `p` as unexpected. -/
def IsUnexpectedAt (source : List Char) (p : Nat) : Prop :=
  ∃ c line, (Item.error ⟨.unexpectedCharacter c, line⟩, p + 1) ∈ itemEnds source

/-- The text with blanks written at some places, its first character being at
place `n`. -/
def blankFrom (places : Finset Nat) (n : Nat) (text : List Char) : List Char :=
  text.mapIdx fun i c => if n + i ∈ places then ' ' else c

/-- The source with blanks written at some places. -/
def blankOut (places : Finset Nat) (source : List Char) : List Char :=
  source.mapIdx fun p c => if p ∈ places then ' ' else c

/-- The second row of tiles is the first one with blanks for the stray
characters at some places, and there are no other places in it. The rows begin
at place `n`. -/
inductive Cleared (places : Finset Nat) : Nat → List Tile → List Tile → Prop
  | nil {n : Nat} : Cleared places n [] []
  | keep {n : Nat} {t : Tile} {ts us : List Tile}
      (hfree : ∀ p ∈ places, n ≤ p → n + t.text.length ≤ p)
      (htail : Cleared places (n + t.text.length) ts us) : Cleared places n (t :: ts) (t :: us)
  | clear {n : Nat} {c : Char} {ts us : List Tile} (hplace : n ∈ places) (hstray : IsStray c)
      (htail : Cleared places (n + 1) ts us) :
      Cleared places n (⟨[c], .fault (.unexpectedCharacter c)⟩ :: ts) (⟨[' '], .blank⟩ :: us)

/-- The second character is the first one, or a blank for one that ends no line. -/
def Blanked (c d : Char) : Prop := d = c ∨ c ≠ '\n' ∧ d = ' '

theorem IsStray.ne_newline {c : Char} (h : IsStray c) : c ≠ '\n' :=
  ne_newline_of_isSpace h.isSpace

theorem Tile.firstTile_blank (rest : List Char) : FirstTile (' ' :: rest) ⟨[' '], .blank⟩ rest :=
  .space rfl (by decide)

/-! ### Where a tile ends, a blank may stand -/

/-- A tile that ends before some character ends before a blank in its place. -/
theorem Tile.takes_blank {t : Tile} {c : Char} (h : t.takes c = false) (hc : c ≠ '\n') :
    t.takes ' ' = false := by
  obtain ⟨text, reading⟩ := t
  cases reading with
  | blank => simpa [takes, hc] using h
  | token kind literal => exact takes_token_of_isSpace rfl
  | fault fault =>
      cases fault with
      | unterminatedString => cases h
      | unterminatedBlockComment => cases h
      | _ => rfl

/-- What ends before a text ends before it with blanks written in it. -/
theorem Tile.EndsBefore.of_blanked {t : Tile} {rest rest' : List Char} (h : t.EndsBefore rest)
    (hblanked : List.Forall₂ Blanked rest rest') : t.EndsBefore rest' := by
  constructor
  · intro d more heq
    subst heq
    cases hblanked with
    | @cons c _ cs _ hd _ =>
        have hstop := h.stops c cs rfl
        rcases hd with rfl | ⟨hc, rfl⟩
        · exact hstop
        · exact t.takes_blank hstop hc
  · intro hwhole d more heq
    subst heq
    -- No blank is a point, so the point was there before, with no digit behind it.
    cases hblanked with
    | @cons _ _ _ _ hpoint htail =>
        cases htail with
        | @cons c _ cs _ hd _ =>
            rcases hpoint with rfl | ⟨-, hpoint⟩
            · rcases hd with rfl | ⟨-, rfl⟩
              · exact h.noPlaces hwhole d cs rfl
              · decide
            · cases hpoint

/-- Writing blanks changes no line. -/
theorem newlines_of_blanked {text text' : List Char} (h : List.Forall₂ Blanked text text') :
    newlines text' = newlines text := by
  induction h with
  | nil => rfl
  | @cons c d cs ds hd _ ih =>
      rcases hd with rfl | ⟨hc, rfl⟩
      · have hhead := congrArg (newlines [d] + ·) ih
        rwa [← newlines_append, ← newlines_append] at hhead
      · rw [newlines_cons_of_ne (by decide), newlines_cons_of_ne hc, ih]

/-! ### The two rows of tiles -/

theorem blankFrom_append (places : Finset Nat) (n : Nat) (text more : List Char) :
    blankFrom places n (text ++ more) =
      blankFrom places n text ++ blankFrom places (n + text.length) more := by
  simp only [blankFrom, List.mapIdx_append, Nat.add_assoc, Nat.add_comm text.length]

/-- A text that has none of the places stays as it is. -/
theorem blankFrom_of_free {places : Finset Nat} {n : Nat} {text : List Char}
    (h : ∀ p ∈ places, n ≤ p → n + text.length ≤ p) : blankFrom places n text = text := by
  apply List.ext_getElem
  · simp [blankFrom]
  · intro i hi hi'
    have hfree : n + i ∉ places := by
      intro hmem
      have hle := h (n + i) hmem (Nat.le_add_right n i)
      omega
    simp [blankFrom, hfree]

namespace Cleared

variable {places : Finset Nat} {n : Nat} {ts us : List Tile}

/-- Between the texts of the two rows there are only blanks that make a difference. -/
theorem blanked (h : Cleared places n ts us) :
    List.Forall₂ Blanked (ts.flatMap Tile.text) (us.flatMap Tile.text) := by
  induction h with
  | nil => exact .nil
  | @keep n t ts us _ _ ih =>
      have hsame : List.Forall₂ Blanked t.text t.text :=
        List.forall₂_same.mpr fun c _ => Or.inl rfl
      exact List.rel_append hsame ih
  | clear _ hstray _ ih => exact .cons (Or.inr ⟨hstray.ne_newline, rfl⟩) ih

/-- The text of the second row is that of the first one with blanks written in it. -/
theorem text_eq (h : Cleared places n ts us) :
    us.flatMap Tile.text = blankFrom places n (ts.flatMap Tile.text) := by
  induction h with
  | nil => rfl
  | keep hfree _ ih =>
      rw [List.flatMap_cons, List.flatMap_cons, blankFrom_append, blankFrom_of_free hfree, ih]
  | @clear n c ts us hplace _ _ ih =>
      have hblank : blankFrom places n [c] = [' '] := by simp [blankFrom, hplace]
      rw [List.flatMap_cons, List.flatMap_cons, blankFrom_append, hblank, ih]
      rfl

/-- The row with the blanks fits. -/
theorem fits (h : Cleared places n ts us) (hfits : Fits ts) : Fits us := by
  induction h with
  | nil => exact .nil
  | keep _ htail ih =>
      cases hfits with
      | cons halone hends hrest => exact .cons halone (hends.of_blanked htail.blanked) (ih hrest)
  | clear _ _ _ ih =>
      cases hfits with
      | cons _ _ hrest =>
          exact .cons (Tile.firstTile_blank []) (Tile.firstTile_blank _).endsBefore (ih hrest)

/-- The items of the row with the blanks are those of the other row, without
the errors that end behind one of the places. -/
theorem itemEndsOf_eq (h : Cleared places n ts us) (hfits : Fits ts) (line : Nat) :
    itemEndsOf n line us =
      (itemEndsOf n line ts).filter fun entry => ∀ p ∈ places, entry.2 ≠ p + 1 := by
  induction h generalizing line with
  | nil => rfl
  | @keep n t ts us hfree _ ih =>
      cases hfits with
      | cons halone _ hrest =>
          have hpos := halone.length_pos
          have hhere : ∀ p ∈ places, n + t.text.length ≠ p + 1 := by
            intro p hp heq
            have hle := hfree p hp (by omega)
            omega
          rw [itemEndsOf, itemEndsOf, ih hrest, List.filter_append]
          congr 1
          cases t.item? line with
          | none => rfl
          | some item => exact (List.filter_eq_self.mpr (by simpa using hhere)).symm
  | @clear n c ts us hplace hstray _ ih =>
      cases hfits with
      | cons _ _ hrest =>
          have hlines : newlines [c] = newlines [' '] := newlines_cons_of_ne hstray.ne_newline []
          have hgone : ¬ ∀ p ∈ places, n + 1 ≠ p + 1 := fun hall => hall n hplace rfl
          rw [itemEndsOf, itemEndsOf, List.filter_append, hlines]
          simp only [Tile.item?, Option.toList_none, Option.toList_some, List.map_nil,
            List.map_cons, List.length_singleton, List.filter_cons, hgone]
          exact ih hrest _

/-- Only errors are missing from the row with the blanks. -/
theorem tokens_eq (h : Cleared places n ts us) (line : Nat) :
    (itemsOf line us).filterMap Item.token? = (itemsOf line ts).filterMap Item.token? := by
  induction h generalizing line with
  | nil => rfl
  | keep _ _ ih => rw [itemsOf, itemsOf, List.filterMap_append, List.filterMap_append, ih]
  | @clear n c ts us _ hstray _ ih =>
      have hlines : newlines [c] = newlines [' '] := newlines_cons_of_ne hstray.ne_newline []
      rw [itemsOf, itemsOf, List.filterMap_append, List.filterMap_append, ih, hlines]
      rfl

end Cleared

/-! ### Finding the places in a row -/

/-- A tile that is an unexpected character is stray. -/
theorem Tile.Alone.isStray {text : List Char} {c : Char}
    (h : Tile.Alone ⟨text, .fault (.unexpectedCharacter c)⟩) : text = [c] ∧ IsStray c := by
  cases h with
  | stray hplain hsplit hnone => exact ⟨rfl, isStray_of_plain hplain hnone⟩

/-- An unexpected character in a row is its first tile or stands behind that. -/
theorem unexpected_cases {n line line' p : Nat} {c : Char} {t : Tile} {ts : List Tile}
    (halone : t.Alone) (hfits : Fits ts)
    (h : (Item.error ⟨.unexpectedCharacter c, line'⟩, p + 1) ∈ itemEndsOf n line (t :: ts)) :
    (p = n ∧ IsStray c ∧ t = ⟨[c], .fault (.unexpectedCharacter c)⟩) ∨
      (n + t.text.length ≤ p ∧ (Item.error ⟨.unexpectedCharacter c, line'⟩, p + 1) ∈
        itemEndsOf (n + t.text.length) (line + newlines t.text) ts) := by
  rcases List.mem_append.mp h with hhere | hlater
  · obtain ⟨item, hitem, heq⟩ := List.mem_map.mp hhere
    obtain ⟨rfl, hend⟩ := Prod.mk.inj heq
    rw [Option.mem_toList] at hitem
    obtain ⟨text, reading⟩ := t
    cases reading with
    | blank => cases hitem
    | token kind literal => cases hitem
    | fault fault =>
        cases hitem
        obtain ⟨rfl, hstray⟩ := halone.isStray
        exact Or.inl ⟨(Nat.succ.inj hend).symm, hstray, rfl⟩
  · exact Or.inr ⟨Nat.le_of_lt_succ (lt_of_mem_itemEndsOf hfits hlater), hlater⟩

/-- The character that is called unexpected stands where the error ends. -/
theorem getElem?_of_unexpected {n line line' p : Nat} {c : Char} {ts : List Tile} (hfits : Fits ts)
    (h : (Item.error ⟨.unexpectedCharacter c, line'⟩, n + p + 1) ∈ itemEndsOf n line ts) :
    (ts.flatMap Tile.text)[p]? = some c := by
  induction hfits generalizing n line p with
  | nil => cases h
  | @cons t ts halone _ hrest ih =>
      rw [List.flatMap_cons]
      rcases unexpected_cases halone hrest h with ⟨heq, -, rfl⟩ | ⟨hle, hlater⟩
      · obtain rfl : p = 0 := by omega
        rfl
      · have hsplit : n + p = n + t.text.length + (p - t.text.length) := by omega
        rw [hsplit] at hlater
        rw [List.getElem?_append_right (by omega)]
        exact ih hlater

/-- Where unexpected characters are, blanks can be written. -/
theorem exists_cleared {places : Finset Nat} {n line : Nat} {ts : List Tile} (hfits : Fits ts)
    (h : ∀ p ∈ places, n ≤ p → ∃ c line',
      (Item.error ⟨.unexpectedCharacter c, line'⟩, p + 1) ∈ itemEndsOf n line ts) :
    ∃ us, Cleared places n ts us := by
  induction hfits generalizing n line with
  | nil => exact ⟨[], .nil⟩
  | @cons t ts halone _ hrest ih =>
      -- The row begins with one of the places, or its first tile is free of them.
      by_cases hplace : n ∈ places
      · obtain ⟨c, line', hentry⟩ := h n hplace (Nat.le_refl n)
        rcases unexpected_cases halone hrest hentry with ⟨-, hstray, rfl⟩ | ⟨hle, -⟩
        · have hbehind : ∀ p ∈ places, n + 1 ≤ p → ∃ d line',
              (Item.error ⟨.unexpectedCharacter d, line'⟩, p + 1) ∈
                itemEndsOf (n + 1) (line + newlines [c]) ts := by
            intro p hp hle
            obtain ⟨d, line', hentry'⟩ := h p hp (by omega)
            rcases unexpected_cases halone hrest hentry' with ⟨rfl, -, -⟩ | ⟨-, hlater⟩
            · omega
            · exact ⟨d, line', hlater⟩
          obtain ⟨us, hus⟩ := ih hbehind
          exact ⟨_, .clear hplace hstray hus⟩
        · have hpos := halone.length_pos
          omega
      · have hbehind : ∀ p ∈ places, n ≤ p → n + t.text.length ≤ p ∧ ∃ c line',
            (Item.error ⟨.unexpectedCharacter c, line'⟩, p + 1) ∈
              itemEndsOf (n + t.text.length) (line + newlines t.text) ts := by
          intro p hp hle
          obtain ⟨c, line', hentry⟩ := h p hp hle
          rcases unexpected_cases halone hrest hentry with ⟨rfl, -, -⟩ | ⟨hle', hlater⟩
          · exact absurd hp hplace
          · exact ⟨hle', c, line', hlater⟩
        obtain ⟨us, hus⟩ := ih fun p hp hle => (hbehind p hp (by omega)).2
        exact ⟨_, .keep (fun p hp hle => (hbehind p hp hle).1) hus⟩

/-! ### Scans -/

/-- The tiles of a source with blanks over unexpected characters. -/
theorem cleared_blankOut {source : List Char} {places : Finset Nat}
    (h : ∀ p ∈ places, IsUnexpectedAt source p) :
    Cleared places 0 (tilesOf source) (tilesOf (blankOut places source)) := by
  have hfits := fits_tilesOf source
  have hplaces : ∀ p ∈ places, 0 ≤ p → ∃ c line,
      (Item.error ⟨.unexpectedCharacter c, line⟩, p + 1) ∈ itemEndsOf 0 1 (tilesOf source) := by
    intro p hp _
    rw [← itemEnds_eq]
    exact h p hp
  obtain ⟨us, hus⟩ := exists_cleared hfits hplaces
  have htext : blankOut places source = us.flatMap Tile.text := by
    rw [hus.text_eq, flatMap_text_tilesOf]
    simp [blankOut, blankFrom]
  rwa [htext, tilesOf_flatMap_text (hus.fits hfits)]

/-- What stands at a place that a scan reports, and what the items say of it. -/
theorem IsUnexpectedAt.exists_entry {source : List Char} {p : Nat} (h : IsUnexpectedAt source p) :
    ∃ c line, source[p]? = some c ∧ ∀ entry ∈ itemEnds source, entry.2 = p + 1 →
      entry = (.error ⟨.unexpectedCharacter c, line⟩, p + 1) := by
  obtain ⟨c, line, hmem⟩ := h
  refine ⟨c, line, ?_, fun entry hentry hend => eq_of_mem_itemEnds hentry hmem hend⟩
  rw [itemEnds_eq, ← Nat.zero_add p] at hmem
  have hchar := getElem?_of_unexpected (fits_tilesOf source) hmem
  rwa [flatMap_text_tilesOf] at hchar

/-- **Recovery.**  If blanks are written over some of the unexpected characters
of a source, a scan returns the same tokens as before, on the same lines, and
reports the same errors without those that end behind the places of the blanks.
Behind each of these places ends the error about the character there, and no
other item. -/
theorem scan_blankOut {source : List Char} {places : Finset Nat}
    (h : ∀ p ∈ places, IsUnexpectedAt source p) :
    (scan (blankOut places source)).tokens = (scan source).tokens ∧
      (scan source).sink.toList = (itemEnds source).filterMap (·.1.error?) ∧
      (scan (blankOut places source)).sink.toList =
        ((itemEnds source).filter fun entry => ∀ p ∈ places, entry.2 ≠ p + 1).filterMap
          (·.1.error?) ∧
      ∀ p ∈ places, ∃ c line, source[p]? = some c ∧ ∀ entry ∈ itemEnds source,
        entry.2 = p + 1 → entry = (.error ⟨.unexpectedCharacter c, line⟩, p + 1) := by
  have hcleared := cleared_blankOut h
  have hlines := newlines_of_blanked hcleared.blanked
  rw [flatMap_text_tilesOf, flatMap_text_tilesOf] at hlines
  refine ⟨?_, errors_scan_itemEnds source, ?_, fun p hp => (h p hp).exists_entry⟩
  · rw [tokens_scan, tokens_scan, hcleared.tokens_eq, hlines]
  · rw [errors_scan_itemEnds, itemEnds_eq, itemEnds_eq,
      hcleared.itemEndsOf_eq (fits_tilesOf source)]

/-- Blanks over the first and the last of four unexpected characters. Of the
other two, one is behind a numeral and a point, and one between two symbols; a
fifth such character is in a string and nobody calls it unexpected. -/
theorem scan_blankOut_four :
    let source := ['€', '1', '.', '@', '"', '@', '"', '=', '@', '=', '$']
    (∀ p ∈ ({0, 10} : Finset Nat), IsUnexpectedAt source p) ∧
      (scan (blankOut {0, 10} source)).tokens = (scan source).tokens ∧
      (scan (blankOut {0, 10} source)).sink.toList =
        [⟨.unexpectedCharacter '@', 1⟩, ⟨.unexpectedCharacter '@', 1⟩] := by
  intro source
  have hplaces : ∀ p ∈ ({0, 10} : Finset Nat), IsUnexpectedAt source p := by
    intro p hp
    rw [Finset.mem_insert, Finset.mem_singleton] at hp
    rcases hp with rfl | rfl
    · exact ⟨'€', 1, by decide +kernel⟩
    · exact ⟨'$', 1, by decide +kernel⟩
  obtain ⟨htokens, -, herrors, -⟩ := scan_blankOut hplaces
  exact ⟨hplaces, htokens, herrors.trans (by decide +kernel)⟩

end LoxLexer
