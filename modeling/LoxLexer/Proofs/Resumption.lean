import LoxLexer.Proofs.Lines
import LoxLexer.Proofs.Reader.Refinement

/-!
# Going on in the middle

A reader that has handed out some items has a past: the place and the line
where the last token began, and whatever its iterator has looked at and stored.
None of that shows in what it hands out from there on.  It goes on as a reader
would that begins with the rest of the source, only that the lines are counted
from where the rest begins.

* `scan_resumption`: the statement, for every source and any number of items.
-/

namespace LoxLexer

namespace Reader

/-- Only the place, the line and what is pending matter for what is left. -/
theorem At.of_pending {β γ : Type} [Lookahead β] [Lookahead γ] {r : Reader β} {r' : Reader γ}
    {s : Cursor} (h : r.At s) (hsource : r'.source = r.source) (hcurrent : r'.current = r.current)
    (hline : r'.line = r.line)
    (hpending : Lookahead.pending r'.ahead = Lookahead.pending r.ahead) : r'.At s where
  place := by rw [hsource, hcurrent]; exact h.place
  sees := by rw [Sees, hpending, hcurrent]; exact h.sees
  line := hline.trans h.line

end Reader

/-- **Resumption.**  When a reader has been asked `k` times for the next item,
it stands between two texts that make up the source, on the line of that place.
The items that are left are those of a reader of the second text alone, with
the lines moved down by the line ends of the first; a scan of what is left
gives the tokens and the errors of a scan of the second text, moved down in the
same way.  Any reader at the same place, on the same line and with the same
characters pending gives the same, wherever its last token began and whatever
its iterator is and has stored. -/
theorem scan_resumption {β : Type} [Lookahead β] (source : List Char) (k : Nat) :
    ∃ (r : Reader β) (before rest : List Char),
      (Reader.new source).skip k = Part.some r ∧
      (Cursor.start source).skip k = ⟨rest, r.line⟩ ∧
      source = before ++ rest ∧ r.current = Utf8.size before ∧ r.line = 1 + newlines before ∧
      (∃ items, (Reader.new rest : Reader β).items = Part.some items ∧
        r.items = Part.some (items.map (Item.shift (r.line - 1)))) ∧
      (∃ finished,
        (Reader.new rest : Reader β).scanInto Diagnostics.sink {} = Part.some (scan rest) ∧
        r.scanInto Diagnostics.sink {} = Part.some finished ∧
        finished.tokens = (scan rest).tokens.map (Token.shift (r.line - 1)) ∧
        finished.sink.toList = (scan rest).sink.toList.map (LexicalError.shift (r.line - 1))) ∧
      ∀ (γ : Type) [Lookahead γ] (r' : Reader γ), r'.source = r.source →
        r'.current = r.current → r'.line = r.line →
        Lookahead.pending r'.ahead = Lookahead.pending r.ahead →
        r'.items = r.items ∧ ∀ (σ : Type) (sink : Sink σ) (state : σ),
          r'.scanInto sink state = r.scanInto sink state := by
  have hnew (text : List Char) : (Reader.new text : Reader β).At (Cursor.start text) :=
    Reader.at_new text
  obtain ⟨r, hskip, hat, hsource⟩ := (hnew source).skip k
  obtain ⟨before, hsplit, hcurrent⟩ := hat.place
  obtain ⟨before', hsplit', hline⟩ := (Cursor.inPlace_start source).skip k
  rw [show (Reader.new source : Reader β).source = source from rfl] at hsource
  rw [hsource] at hsplit
  obtain rfl : before = before' := List.append_cancel_right (hsplit.symm.trans hsplit')
  have hfresh := hnew ((Cursor.start source).skip k).rest
  generalize (Cursor.start source).skip k = s at *
  obtain ⟨rest, line⟩ := s
  have hcount : r.line = 1 + newlines before := hat.line.trans hline
  have hlines : line = 1 + (r.line - 1) :=
    calc line = r.line := hat.line.symm
      _ = 1 + (r.line - 1) := by omega
  refine ⟨r, before, rest, hskip, ?_, hsplit, hcurrent, hcount, ?_, ?_, ?_⟩
  · rw [hat.line]
  · refine ⟨_, hfresh.items, ?_⟩
    rw [hat.items, Cursor.start, ← Cursor.items_add, ← hlines]
  · have hfinished := hat.scanInto Diagnostics.sink {}
    refine ⟨_, Reader.scanInto_new rest Diagnostics.sink {}, hfinished, ?_, ?_⟩
    · conv => lhs; rw [hlines]
      exact Cursor.tokens_scanInto_add _ rest 1 Diagnostics.sink {}
    · conv => lhs; rw [hlines]
      exact Cursor.errors_scanInto_add _ rest 1
  · intro γ _ r' hsource' hcurrent' hline' hpending
    have hat' := hat.of_pending hsource' hcurrent' hline' hpending
    refine ⟨hat'.items.trans hat.items.symm, ?_⟩
    intro σ sink state
    exact (hat'.scanInto sink state).trans (hat.scanInto sink state).symm

/-- Behind a string over two lines, read through a queue, there are a numeral
and a stray character on the second line.  Emptying the store of the queue and
forgetting where the string began changes nothing. -/
theorem scan_resumption_queue :
    ∃ r : Reader Queue, (Reader.new ['"', 'é', '\n', '"', '1', '@']).skip 1 = Part.some r ∧
      r.current = 5 ∧ r.line = 2 ∧
      r.items = Part.some [.token ⟨.number, ['1'], some (.number (.ofNumeral ['1'] [])), 2⟩,
        .error ⟨.unexpectedCharacter '@', 2⟩] ∧
      (⟨r.source, .ofItems r.ahead.pending, 5, r.current, 2, r.line⟩ : Reader Queue).items =
        r.items := by
  obtain ⟨r, before, rest, hskip, hcursor, hsplit, hcurrent, -, ⟨items, hfresh, hitems⟩,
    -, hother⟩ :=
    @scan_resumption Queue _ ['"', 'é', '\n', '"', '1', '@'] 1
  have hplace : (Cursor.start ['"', 'é', '\n', '"', '1', '@']).skip 1 = ⟨['1', '@'], 2⟩ := by
    decide +kernel
  obtain ⟨rfl, hline⟩ := Cursor.mk.inj (hplace.symm.trans hcursor)
  have hbefore : ['"', 'é', '\n', '"'] = before := List.append_cancel_right hsplit
  refine ⟨r, hskip, ?_, hline.symm, ?_, ?_⟩
  · rw [hcurrent, ← hbefore]
    decide
  · have hdrained := (Reader.at_new ['1', '@'] : (Reader.new _ : Reader Queue).At _).items
    rw [hitems, ← hline, Part.some_injective (hfresh.symm.trans hdrained)]
    refine congrArg Part.some ?_
    decide +kernel
  · exact (hother Queue ⟨r.source, .ofItems r.ahead.pending, 5, r.current, 2, r.line⟩
      rfl rfl rfl rfl).1

end LoxLexer
