import LoxLexer.Proofs.LongestMatch

/-!
# Lines

A cursor keeps the line by adding up the line ends of the tiles it passes
over.  The invariant is that this is the line of the place where it stands in
the source, and one request preserves it.  What is read off a place that has
its right line has its right line too, and every form of item has one: that of
its first character, or for what is never closed that of the end of the source.

* `Cursor.InPlace`: the invariant, with `Cursor.InPlace.next` for one request
  and `Cursor.InPlace.skip` for any number of them.
* `scan_lines`: every line in the result of a scan is exact.
-/

namespace LoxLexer

/-- A cursor stands in a source, on the line of that place. -/
def Cursor.InPlace (source : List Char) (s : Cursor) : Prop :=
  ∃ before, source = before ++ s.rest ∧ s.line = 1 + newlines before

/-- The line of an item is right, given what is left of the source behind it. -/
def Item.OnItsLine (source rest : List Char) : Item → Prop
  | .token t => ∃ before, source = before ++ t.lexeme ++ rest ∧ t.line = 1 + newlines before
  | .error ⟨.unexpectedCharacter c, line⟩ =>
      ∃ before, source = before ++ c :: rest ∧ line = 1 + newlines before
  | .error ⟨.unterminatedString, line⟩ => rest = [] ∧ line = 1 + newlines source
  | .error ⟨.unterminatedBlockComment, line⟩ => rest = [] ∧ line = 1 + newlines source
  | .error ⟨.invalidNumber _, _⟩ => False

/-- The item of a tile that stands in a source is on its line. -/
theorem FirstTile.onItsLine {source before here rest : List Char} {t : Tile} {item : Item}
    (h : FirstTile here t rest) (hsource : source = before ++ here)
    (hitem : t.item? (1 + newlines before) = some item) : item.OnItsLine source rest := by
  subst hsource
  cases h with
  | space => cases hitem
  | lineComment => cases hitem
  | blockComment => cases hitem
  | openComment => cases hitem; exact ⟨rfl, by rw [newlines_append, Nat.add_assoc]⟩
  | openString => cases hitem; exact ⟨rfl, by rw [newlines_append, Nat.add_assoc]⟩
  | lexeme _ hsplit =>
      cases hitem
      exact ⟨before, by rw [hsplit, List.append_assoc], rfl⟩
  | @stray c rest hplain hsplit =>
      cases hitem
      have hnewline : c ≠ '\n' := by
        intro heq
        subst heq
        exact (hplain.noSpace _ _ hsplit).1 (by decide)
      exact ⟨before, by rw [hsplit], by rw [newlines_cons_of_ne hnewline]; rfl⟩

namespace Cursor

theorem inPlace_start (source : List Char) : InPlace source (start source) :=
  ⟨[], rfl, rfl⟩

/-- The line of a place and the line ends behind it make the last line. -/
theorem InPlace.line_add_newlines {source : List Char} {s : Cursor} (h : s.InPlace source) :
    s.line + newlines s.rest = 1 + newlines source := by
  obtain ⟨before, hsource, hline⟩ := h
  rw [hline, hsource, newlines_append, Nat.add_assoc]

/-- The end of the source is on the last line. -/
theorem InPlace.atEnd {source : List Char} {s : Cursor} (h : s.InPlace source) :
    s.atEnd.InPlace source := by
  rw [atEnd_eq]
  exact ⟨source, (List.append_nil _).symm, h.line_add_newlines⟩

/-- One request keeps the line right, and what it hands out is on its line. -/
theorem InPlace.next {source : List Char} {s : Cursor} (h : s.InPlace source) :
    s.next.2.InPlace source ∧
      ∀ item, s.next.1 = some item → item.OnItsLine source s.next.2.rest := by
  rcases hnext : s.next with ⟨_ | item, after⟩
  · rw [eq_atEnd_of_next_none hnext]
    exact ⟨h.atEnd, fun item hitem => by cases hitem⟩
  · obtain ⟨before, hsource, hline⟩ := h
    obtain ⟨blank, c, cs, hrest, hitem, rfl⟩ := next_some_cases hnext
    have hhere : source = (before ++ blank) ++ c :: cs := by
      rw [hsource, hrest, List.append_assoc]
    have hplace : s.line + newlines blank = 1 + newlines (before ++ blank) := by
      rw [hline, newlines_append, Nat.add_assoc]
    rw [hplace] at hitem ⊢
    constructor
    · refine ⟨before ++ blank ++ (Tile.first c cs).1.text, ?_, ?_⟩
      · rw [hhere, List.append_assoc _ (Tile.first c cs).1.text, Tile.text_first_append]
      · rw [newlines_append _ (Tile.first c cs).1.text, Nat.add_assoc]
    · intro item' hitem'
      cases hitem'
      exact (Tile.first_firstTile c cs).onItsLine hhere hitem

theorem skip_succ (k : Nat) (s : Cursor) : s.skip (k + 1) = (s.skip k).next.2 := by
  induction k generalizing s with
  | zero => rfl
  | succ k ih => exact ih s.next.2

/-- Any number of requests keeps the line right. -/
theorem InPlace.skip {source : List Char} {s : Cursor} (h : s.InPlace source) (k : Nat) :
    (s.skip k).InPlace source := by
  induction k with
  | zero => exact h
  | succ k ih =>
      rw [skip_succ]
      exact ih.next.1

end Cursor

/-- **Exact lines.**  The `k`-th item of a source is on its line, whichever
form it has; a scan returns and reports these items; and the end mark and the
closing event of a scan are on the last line of the source. -/
theorem scan_lines (source : List Char) :
    (∀ (k : Nat) (item : Item), (Cursor.start source).items[k]? = some item →
      item.OnItsLine source ((Cursor.start source).skip (k + 1)).rest) ∧
    (scan source).tokens = (Cursor.start source).items.filterMap Item.token? ++
      [.endOfFile (1 + newlines source)] ∧
    (scan source).sink.toList = (Cursor.start source).items.filterMap Item.error? ∧
    (scan source).events.getLast? = some (.finished (scan source).tokens.length
      (scan source).sink.toList.length (1 + newlines source)) := by
  have herrors : (scan source).sink.toList = (Cursor.start source).items.filterMap Item.error? :=
    (Cursor.start source).errors_scanInto {}
  refine ⟨?_, (Cursor.start source).tokens_scanInto Diagnostics.sink {}, herrors, ?_⟩
  · intro k item hitem
    rw [Cursor.getElem?_items] at hitem
    rw [Cursor.skip_succ]
    exact ((Cursor.inPlace_start source).skip k).next.2 item hitem
  · rw [herrors]
    exact (Cursor.start source).getLast?_events_scanInto Diagnostics.sink {}

end LoxLexer
