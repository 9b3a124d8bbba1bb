import LoxLexer.Proofs.Reader.Tokens

/-!
# Readers refine cursors

A reader and a cursor stand at the same place if what is left for the cursor is
in front of the reader, the reader has come as far as that in its source, and
the lines agree.  Where the last token began, on which line that was and what
the iterator has stored do not matter.

* `Reader.At.next`: asking a reader for the next item is asking the cursor, and
  leaves the two at the same place again.
* `Reader.At.skip`, `Reader.At.fold`, `Reader.At.scanInto`: so it is with any
  number of items, and with a scan of what is left.
* `Reader.scanInto_new`: a scan by a reader is a scan.
-/

namespace LoxLexer

namespace Reader

variable {β : Type} [Lookahead β]

/-- A verdict and the tile that it is about stand for the same item. -/
theorem Within.item_eq {r : Reader β} {before rest : List Char} {t : Tile}
    (h : r.Within before t.text rest) (hline : r.line = r.startLine + newlines t.text) :
    t.verdict? r.line = none ∧ t.item? r.startLine = none ∨
      ∃ verdict item, t.verdict? r.line = some verdict ∧ r.item verdict = Part.some item ∧
        t.item? r.startLine = some item := by
  obtain ⟨text, reading⟩ := t
  cases reading with
  | blank => exact Or.inl ⟨rfl, rfl⟩
  | token kind literal =>
      refine Or.inr ⟨_, _, rfl, ?_, rfl⟩
      simp only [item, h.lexeme_eq, Part.bind_eq_bind, Part.bind_some, Part.pure_eq_some]
  | fault fault => exact Or.inr ⟨_, _, rfl, rfl, by rw [hline]; rfl⟩

/-- A reader stands where a cursor does: what is left for the cursor is the end
of the source of the reader, the reader has come as far as that and has it in
front, and the lines are the same. -/
structure At (r : Reader β) (s : Cursor) : Prop where
  place : ∃ before, r.source = before ++ s.rest ∧ r.current = Utf8.size before
  sees : r.Sees s.rest
  line : r.line = s.line

/-- A new reader stands where a cursor starts. -/
theorem at_new (source : List Char) : (new source : Reader β).At (Cursor.start source) where
  place := ⟨[], rfl, rfl⟩
  sees := Lookahead.pending_ofItems _
  line := rfl

/-- A reader is at its end where the cursor is. -/
theorem At.isAtEnd {r : Reader β} {s : Cursor} (h : r.At s) : r.isAtEnd = true ↔ s.rest = [] := by
  obtain ⟨before, hsource, hcurrent⟩ := h.place
  have hempty : Utf8.size s.rest = 0 ↔ s.rest = [] := Utf8.size_eq_zero
  rw [Reader.isAtEnd, decide_eq_true_iff, hsource, hcurrent, Utf8.size_append, ← hempty]
  omega

/-- Where the cursor has a first tile, the reader finds it. -/
theorem At.scanToken {r : Reader β} {c : Char} {cs : List Char} {line : Nat}
    (h : r.At ⟨c :: cs, line⟩) :
    ∃ before after, { r with start := r.current, startLine := r.line }.scanToken =
        Part.some ((Tile.first c cs).1.verdict? after.line, after) ∧
      after.Within before (Tile.first c cs).1.text (Tile.first c cs).2 ∧
      after.source = r.source ∧ after.startLine = line ∧
      after.line = line + newlines (Tile.first c cs).1.text := by
  obtain ⟨before, hsource, hcurrent⟩ := h.place
  have hsees : Sees { r with start := r.current, startLine := r.line } (c :: cs) := h.sees
  obtain ⟨taken, hadvance, hpass⟩ := advance_cons hsees
  have hwithin : taken.Within before [c] cs := by
    refine ⟨?_, hpass.start.trans hcurrent, ?_, hpass.sees⟩
    · rw [hpass.source, hsource, List.append_assoc]
      rfl
    · rw [hpass.current, hcurrent, Utf8.size_append]
  obtain ⟨after, hdispatch, hafter, hstart, hline⟩ := dispatch_eq hwithin
  refine ⟨before, after, ?_, hafter, ?_, ?_, ?_⟩
  · rw [Reader.scanToken, hadvance]
    exact hdispatch
  · rw [hafter.source, List.append_assoc, Tile.text_first_append, ← hsource]
  · rw [hstart, hpass.startLine]
    exact h.line
  · rw [hline, hpass.line]
    exact congrArg (· + newlines _) h.line

/-- Behind a token the reader stands where the cursor goes on. -/
theorem Within.at_rest {r : Reader β} {before text rest : List Char} {line : Nat}
    (h : r.Within before text rest) (hline : r.line = line) : r.At ⟨rest, line⟩ :=
  ⟨⟨before ++ text, h.source, h.current⟩, h.sees, hline⟩

/-- **One step.**  A reader and a cursor at the same place give the same item
and go on to the same place. -/
theorem At.next {r : Reader β} {s : Cursor} (h : r.At s) :
    ∃ after, r.next = Part.some (s.next.1, after) ∧ after.At s.next.2 ∧
      after.source = r.source := by
  obtain ⟨rest, line⟩ := s
  -- By induction on the tiles in front: a blank one leads to another round, and
  -- any other one ends the loop.
  fun_induction tilesOf rest generalizing r line with
  | case1 =>
      have hround : r.itemRound = Part.some (.inl (none, r)) := by
        rw [itemRound, if_pos (h.isAtEnd.mpr rfl), Part.pure_eq_some]
      rw [Cursor.next]
      exact ⟨r, fix_of_inl hround, h, rfl⟩
  | case2 c cs ih =>
      obtain ⟨before, after, htoken, hwithin, hsource, hstart, hline⟩ := h.scanToken
      have hend : ¬ r.isAtEnd = true := fun hend => by cases h.isAtEnd.mp hend
      have hitem := hwithin.item_eq (by rw [hstart, hline])
      rw [hstart] at hitem
      rcases hitem with ⟨hverdict, hblank⟩ | ⟨verdict, item, hverdict, hitem, hsome⟩
      · have hround : r.itemRound = Part.some (.inr after) := by
          simp only [itemRound, if_neg hend, htoken, hverdict, Part.bind_eq_bind, Part.bind_some,
            Part.pure_eq_some]
        obtain ⟨last, hnext, hlast, hsource'⟩ := ih _ (hwithin.at_rest hline)
        rw [Cursor.next_of_blank hblank]
        exact ⟨last, (fix_of_inr hround).trans hnext, hlast, hsource'.trans hsource⟩
      · have hround : r.itemRound = Part.some (.inl (some item, after)) := by
          simp only [itemRound, if_neg hend, htoken, hverdict, hitem, Part.bind_eq_bind,
            Part.bind_some, Part.pure_eq_some]
        rw [Cursor.next_of_item hsome]
        exact ⟨after, fix_of_inl hround, hwithin.at_rest hline, hsource⟩

/-- Any number of steps leads to the same place. -/
theorem At.skip {r : Reader β} {s : Cursor} (h : r.At s) (k : Nat) :
    ∃ after, r.skip k = Part.some after ∧ after.At (s.skip k) ∧ after.source = r.source := by
  induction k generalizing r s with
  | zero => exact ⟨r, rfl, h, rfl⟩
  | succ k ih =>
      obtain ⟨middle, hnext, hmiddle, hsource⟩ := h.next
      obtain ⟨after, hskip, hafter, hsource'⟩ := ih hmiddle
      refine ⟨after, ?_, hafter, hsource'.trans hsource⟩
      rw [Reader.skip, hnext, Part.bind_eq_bind, Part.bind_some]
      exact hskip

/-- Going through all items gives the same and ends at the same place. -/
theorem At.fold {α : Type} {r : Reader β} {s : Cursor} (h : r.At s) (f : α → Item → α) (a : α) :
    ∃ last, r.fold f a = Part.some ((s.fold f a).1, last) ∧ last.At (s.fold f a).2 := by
  fun_induction Cursor.fold f a s generalizing r with
  | case1 a s last hnext =>
      obtain ⟨after, hnext', hafter, -⟩ := h.next
      rw [hnext] at hnext' hafter
      have hround : foldRound f (a, r) = Part.some (.inl (a, after)) := by
        simp only [foldRound, hnext', Part.bind_eq_bind, Part.bind_some, Part.pure_eq_some]
      exact ⟨after, fix_of_inl hround, hafter⟩
  | case2 a s item place hnext ih =>
      obtain ⟨after, hnext', hafter, -⟩ := h.next
      rw [hnext] at hnext' hafter
      have hround : foldRound f (a, r) = Part.some (.inr (f a item, after)) := by
        simp only [foldRound, hnext', Part.bind_eq_bind, Part.bind_some, Part.pure_eq_some]
      obtain ⟨last, hfold, hlast⟩ := ih hafter
      exact ⟨last, (fix_of_inr hround).trans hfold, hlast⟩

/-- A reader goes through the items of the cursor where it stands. -/
theorem At.items {r : Reader β} {s : Cursor} (h : r.At s) : r.items = Part.some s.items := by
  obtain ⟨last, hfold, -⟩ := h.fold (fun acc item => item :: acc) []
  rw [Reader.items, hfold, Part.bind_eq_bind, Part.bind_some]
  rfl

/-- A scan of what is left produces the same. -/
theorem At.scanInto {σ : Type} {r : Reader β} {s : Cursor} (h : r.At s) (sink : Sink σ)
    (state : σ) : r.scanInto sink state = Part.some (s.scanInto sink state) := by
  obtain ⟨last, hfold, hlast⟩ := h.fold (Progress.observe sink) (.start state)
  rw [Reader.scanInto, hfold, Part.bind_eq_bind, Part.bind_some, Cursor.scanInto]
  exact congrArg (fun line => Part.some (Progress.finish _ line)) hlast.line

/-- **Readers scan as cursors do.**  A reader of a source never breaks down, comes
to an end, and produces what a scan produces. -/
theorem scanInto_new {σ : Type} (source : List Char) (sink : Sink σ) (state : σ) :
    (new source : Reader β).scanInto sink state =
      Part.some (LoxLexer.scanInto source sink state) :=
  (at_new source).scanInto sink state

end Reader

end LoxLexer
