import LoxLexer.Proofs.InputLines
import LoxLexer.Proofs.Logging

/-!
# Runs on standard input

A run without a script goes through the lines of its input.  It stops at the first
one that does not come out well, which is a matter of that line and of standard
output: errors have no part in it.  Up to there it says for each line what it would
say for that line alone, and nothing of a line is left for the next one.

So the input can be cut at any line end.  One thing is said between the lines: each
request for a line is a matter of the log, also the last one, which finds that there
are no more.  A run on the first part ends with that request, and a run on both does
not make it.

* `status_linesTranscript`: a run comes out well if each line does.
* `linesTranscript_append`, `linesTranscript_append_of_ne`: more lines behind those of a run.
* `line_of_diagnostic_linesTranscript`: every error is on the first line.
* `run_of_none`, `errorText_asking`: what a run leaves behind, and what one request adds.
* `run_input_append`: the statement for input that is cut in two.
-/

namespace LoxLexer

/-- The errors of a text without line ends are on the first line. -/
theorem line_of_mem_errors_scan {text : List Char} {e : LexicalError} (h : '\n' ∉ text)
    (hmem : e ∈ (scan text).sink.toList) : e.line = 1 := by
  obtain ⟨ts, t, us, htiles, hitem⟩ := exists_tile_of_mem_itemsOf (mem_errors_scan.mp hmem)
  have hnewlines : newlines (ts.flatMap Tile.text ++ t.text ++ us.flatMap Tile.text) = 0 := by
    have htext : ts.flatMap Tile.text ++ t.text ++ us.flatMap Tile.text = text := by
      rw [← flatMap_text_tilesOf text, htiles, List.flatMap_append, List.flatMap_cons,
        List.append_assoc]
    rw [htext]
    exact List.count_eq_zero.mpr h
  rw [newlines_append, newlines_append] at hnewlines
  obtain ⟨tileText, reading⟩ := t
  cases reading with
  | blank => cases hitem
  | token => cases hitem
  | fault fault =>
      cases hitem
      dsimp only at hnewlines ⊢
      omega

namespace Session

/-- Only a run that comes out well ends with code 0. -/
theorem Status.code_eq_zero {status : Status} : status.code = 0 ↔ status = .success := by
  cases status <;> decide

namespace Transcript

variable (t u : Transcript) (console : Console)

theorem errorText_andThen :
    (t.andThen u).errorText console = t.errorText console ++ u.errorText console := by
  rw [errorText, andThen, List.filter_append, List.flatMap_append]
  rfl

/-- Two transcripts leave their outputs one behind the other, and the code of the second. -/
theorem outcome_andThen :
    (t.andThen u).outcome console =
      .finished u.status.code (t.output ++ u.output)
        (t.errorText console ++ u.errorText console) := by
  rw [outcome, errorText_andThen]
  rfl

end Transcript

/-! ### Lines that come out well -/

/-- The line is text, what was typed can be made out, and its tokens can be listed. -/
def ComesOut (outputFull : Bool) (line : List UInt8) : Prop :=
  outputFull = false ∧ ∃ keys text, Utf8.decode? line = some keys ∧ Typed.line? keys = some text

section Lines

variable {outputFull : Bool}

/-- A line that can be made out has its tokens listed. -/
theorem lineTranscript_of_comesOut {line : List UInt8} {keys text : List Char}
    (hkeys : Utf8.decode? line = some keys) (htext : Typed.line? keys = some text) :
    lineTranscript outputFull line = (Outlet.device outputFull).listed text .success := by
  rw [lineTranscript, hkeys]
  simp only [htext]

/-- What is wrong with the tokens of a line has no say in how it comes out. -/
theorem status_lineTranscript {line : List UInt8} :
    (lineTranscript outputFull line).status = .success ↔ ComesOut outputFull line := by
  cases hkeys : Utf8.decode? line with
  | none => simp [lineTranscript, ComesOut, hkeys]
  | some keys =>
      cases htext : Typed.line? keys with
      | none => simp [lineTranscript, ComesOut, hkeys, htext]
      | some text =>
          rw [lineTranscript_of_comesOut hkeys htext]
          cases outputFull <;> simp [listed_full, listed_open, ComesOut, hkeys, htext]

/-- Behind a line that comes out well the others are asked for. -/
theorem linesTranscript_cons_of_comesOut {line : List UInt8} (h : ComesOut outputFull line)
    (rest : List (List UInt8)) :
    linesTranscript outputFull (line :: rest) =
      (asking.andThen (lineTranscript outputFull line)).andThen
        (linesTranscript outputFull rest) := by
  have hstatus : (asking.andThen (lineTranscript outputFull line)).status = .success :=
    status_lineTranscript.mpr h
  rw [linesTranscript]
  simp only [hstatus]

/-- A line that does not come out well is the last one. -/
theorem linesTranscript_cons_of_not {line : List UInt8} (h : ¬ ComesOut outputFull line)
    (rest : List (List UInt8)) :
    linesTranscript outputFull (line :: rest) =
      asking.andThen (lineTranscript outputFull line) := by
  have hstatus : (asking.andThen (lineTranscript outputFull line)).status ≠ .success :=
    mt status_lineTranscript.mp h
  rw [linesTranscript]
  split
  · next heq => exact absurd heq hstatus
  · rfl

/-- A run on lines comes out well if each of them does. -/
theorem status_linesTranscript {lines : List (List UInt8)} :
    (linesTranscript outputFull lines).status = .success ↔
      ∀ line ∈ lines, ComesOut outputFull line := by
  induction lines with
  | nil => exact ⟨fun _ _ hmem => absurd hmem List.not_mem_nil, fun _ => rfl⟩
  | cons line rest ih =>
      rw [List.forall_mem_cons, ← ih]
      by_cases hline : ComesOut outputFull line
      · rw [linesTranscript_cons_of_comesOut hline, and_iff_right hline]
        rfl
      · rw [linesTranscript_cons_of_not hline, iff_false_intro (not_and_of_not_left _ hline)]
        exact iff_false_intro (mt status_lineTranscript.mp hline)

/-! ### More lines -/

/-- Lines that come out well are followed by the request that finds no more of them,
or in its place by the run on the other lines. -/
theorem linesTranscript_append {front : List (List UInt8)}
    (h : (linesTranscript outputFull front).status = .success) :
    ∃ early : Transcript, linesTranscript outputFull front = early.andThen asking ∧
      ∀ rest, linesTranscript outputFull (front ++ rest) =
        early.andThen (linesTranscript outputFull rest) := by
  -- What is said early is found for all that may follow at once, so that the lines
  -- behind the front need not be known for the induction on it.
  rw [status_linesTranscript] at h
  induction front with
  | nil => exact ⟨⟨[], [], .success⟩, rfl, fun _ => rfl⟩
  | cons line front ih =>
      obtain ⟨hline, hfront⟩ := List.forall_mem_cons.mp h
      obtain ⟨early, hrun, happend⟩ := ih hfront
      refine ⟨(asking.andThen (lineTranscript outputFull line)).andThen early, ?_, fun rest => ?_⟩
      · rw [linesTranscript_cons_of_comesOut hline, hrun, ← Transcript.andThen_assoc]
      · rw [List.cons_append, linesTranscript_cons_of_comesOut hline, happend,
          ← Transcript.andThen_assoc]

/-- Behind a line that does not come out well no other one is asked for. -/
theorem linesTranscript_append_of_ne {front : List (List UInt8)}
    (h : (linesTranscript outputFull front).status ≠ .success) (rest : List (List UInt8)) :
    linesTranscript outputFull (front ++ rest) = linesTranscript outputFull front := by
  induction front with
  | nil => exact absurd rfl h
  | cons line front ih =>
      rw [List.cons_append]
      by_cases hline : ComesOut outputFull line
      · rw [linesTranscript_cons_of_comesOut hline] at h ⊢
        rw [linesTranscript_cons_of_comesOut hline, ih h]
      · rw [linesTranscript_cons_of_not hline, linesTranscript_cons_of_not hline]

/-! ### Errors -/

/-- The errors among the notes of a listing are those of the scan. -/
theorem mem_errors_of_mem_listed {text : List Char} {status : Status} {e : LexicalError}
    (h : .diagnostic e ∈ ((Outlet.device outputFull).listed text status).notes) :
    e ∈ (scan text).sink.toList := by
  have hnotes : .diagnostic e ∈ (scan text).events.flatMap Note.ofEvent := by
    cases outputFull with
    | false => rw [listed_open] at h; exact h
    | true => simpa [listed_full, unwrittenNotice] using h
  obtain ⟨event, hevent, hnote⟩ := List.mem_flatMap.mp hnotes
  have herror : event = .error e := by
    cases event <;> simp_all [Note.ofEvent]
  subst herror
  obtain ⟨tokens, errors, last, hevents⟩ := events_scan text
  rw [hevents, List.mem_append, List.mem_singleton, Cursor.items_eq] at hevent
  rcases hevent with hitem | hlast
  · obtain ⟨item, hmem, heq⟩ := List.mem_map.mp hitem
    cases item with
    | token => cases heq
    | error => cases heq; exact mem_errors_scan.mpr hmem
  · cases hlast

/-- Every error of a line is on the first line. -/
theorem line_of_diagnostic_lineTranscript {line : List UInt8} {e : LexicalError} (hline : 10 ∉ line)
    (h : .diagnostic e ∈ (lineTranscript outputFull line).notes) : e.line = 1 := by
  cases hkeys : Utf8.decode? line with
  | none => simp [lineTranscript, hkeys, unreadableNotice] at h
  | some keys =>
      cases htext : Typed.line? keys with
      | none => simp [lineTranscript, hkeys, htext] at h
      | some text =>
          rw [lineTranscript_of_comesOut hkeys htext] at h
          have hnewline : '\n' ∉ text := by
            intro hmem
            have hencoded : 10 ∈ Utf8.encode keys :=
              List.mem_flatMap.mpr ⟨'\n', Typed.subset_of_line? htext hmem, by decide⟩
            exact hline (Utf8.eq_encode_of_decode? hkeys ▸ hencoded)
          exact line_of_mem_errors_scan hnewline (mem_errors_of_mem_listed h)

/-- A request for a line has no errors. -/
theorem diagnostic_mem_asking_andThen {t : Transcript} {e : LexicalError} :
    .diagnostic e ∈ (asking.andThen t).notes ↔ .diagnostic e ∈ t.notes := by
  simp [asking, Transcript.andThen]

/-- Whichever line an error is found in, it says that it is on the first one. -/
theorem line_of_diagnostic_linesTranscript {lines : List (List UInt8)} {e : LexicalError}
    (hlines : ∀ line ∈ lines, 10 ∉ line)
    (h : .diagnostic e ∈ (linesTranscript outputFull lines).notes) : e.line = 1 := by
  induction lines with
  | nil => simp [linesTranscript, asking] at h
  | cons line rest ih =>
      obtain ⟨hline, hrest⟩ := List.forall_mem_cons.mp hlines
      by_cases hout : ComesOut outputFull line
      · rw [linesTranscript_cons_of_comesOut hout] at h
        rcases List.mem_append.mp h with hfirst | hlater
        · exact line_of_diagnostic_lineTranscript hline (diagnostic_mem_asking_andThen.mp hfirst)
        · exact ih hrest hlater
      · rw [linesTranscript_cons_of_not hout] at h
        exact line_of_diagnostic_lineTranscript hline (diagnostic_mem_asking_andThen.mp h)

end Lines

/-! ### Runs -/

section Runs

variable {world : Surroundings} {arguments : List (List Char)} {o : Options}
  (hoptions : Options.parse arguments = .ok o)
include hoptions

/-- Once it has begun, a run without a script goes through the lines of its input. -/
theorem run_of_none (hscript : o.script = none) {filter : Log.Filter}
    (hfilter : Log.Filter.ofVerbosity? o.verbosity world.logRules = some filter)
    (input : List UInt8) :
    run { world with input := input } arguments =
      (linesTranscript world.outputFull (linesOf input)).outcome
        ⟨filter, o.color, world.stamp⟩ := by
  have hbegins : Begins { world with input := input } arguments o
      ⟨filter, o.color, world.stamp⟩ := ⟨hoptions, hfilter, rfl, rfl⟩
  rw [hbegins.run_eq, transcript_of_none _ hscript]

/-- Without any input there is one request. -/
theorem run_of_none_nil (hscript : o.script = none) {filter : Log.Filter}
    (hfilter : Log.Filter.ofVerbosity? o.verbosity world.logRules = some filter) :
    run { world with input := [] } arguments =
      .finished 0 [] (asking.errorText ⟨filter, o.color, world.stamp⟩) := by
  rw [run_of_none hoptions hscript hfilter, linesOf_last List.not_mem_nil]
  rfl

end Runs

/-- What a request for a line says, if the log shows it. -/
theorem errorText_asking (console : Console) :
    asking.errorText console =
      if console.filter.shows askingRecord then
        askingRecord.render console.color console.stamp ++ ['\n']
      else [] := by
  cases hshown : console.filter.shows askingRecord <;>
    simp [Transcript.errorText, asking, hshown, Note.isShown, Note.line]

/-- **Input that is cut at a line end.**  Let the arguments of a run be accepted and name
no script, and let input be empty or end with a line end.  If the run on it has code 0,
then the run on it and any other input has the outputs of the two runs, one behind the
other, and the code of the second; only the last request for a line, which is the one
that a run on no input makes, is not among what the first says on standard error.  If
the run on it has any other code, then whatever is behind it makes no difference.  The
request is a line of the log, and nothing where the log is kept back.  A run has code 0
if each line is text that can be taken and listed, whatever the errors in it, and every
error says that it is on the first line. -/
theorem run_input_append {world : Surroundings} {arguments : List (List Char)} {o : Options}
    (hoptions : Options.parse arguments = .ok o) (hscript : o.script = none) :
    let runOn (input : List UInt8) := run { world with input := input } arguments
    (∀ front rest, front = [] ∨ front.getLast? = some 10 →
      ∃ code output errors, runOn front = .finished code output errors ∧
        (code = 0 → ∃ early closing code' output' errors', errors = early ++ closing ∧
          runOn [] = .finished 0 [] closing ∧ runOn rest = .finished code' output' errors' ∧
          runOn (front ++ rest) = .finished code' (output ++ output') (early ++ errors')) ∧
        (code ≠ 0 → runOn (front ++ rest) = runOn front)) ∧
      ∀ filter, Log.Filter.ofVerbosity? o.verbosity world.logRules = some filter →
        runOn [] = .finished 0 []
          (if filter.shows askingRecord then askingRecord.render o.color world.stamp ++ ['\n']
            else []) ∧
        ∀ input, let t := transcript { world with input := input } o
          runOn input =
            .finished t.status.code t.output (t.errorText ⟨filter, o.color, world.stamp⟩) ∧
          (t.status.code = 0 ↔ ∀ line ∈ linesOf input, ComesOut world.outputFull line) ∧
          ∀ e, .diagnostic e ∈ t.notes → e.line = 1 := by
  intro runOn
  constructor
  · intro front rest hfront
    cases hfilter : Log.Filter.ofVerbosity? o.verbosity world.logRules with
    | none =>
        -- Such a run does not come to read its input.
        have hbroken (input : List UInt8) :
            run { world with input := input } arguments =
              .finished 101 [] (breakdownText ++ ['\n']) :=
          run_of_breaksDown hoptions (ofVerbosity?_eq_none_iff.mp hfilter)
        refine ⟨101, [], _, hbroken front, fun hzero => absurd hzero (by decide), fun _ => ?_⟩
        exact (hbroken (front ++ rest)).trans (hbroken front).symm
    | some filter =>
        have hrun := run_of_none hoptions hscript hfilter
        have hboth := hrun (front ++ rest)
        rw [linesOf_append hfront] at hboth
        refine ⟨_, _, _, hrun front, fun hzero => ?_, fun hcode => ?_⟩
        · obtain ⟨early, hearly, happend⟩ := linesTranscript_append (Status.code_eq_zero.mp hzero)
          refine ⟨early.errorText ⟨filter, o.color, world.stamp⟩,
            asking.errorText ⟨filter, o.color, world.stamp⟩, _, _, _, ?_,
            run_of_none_nil hoptions hscript hfilter, hrun rest, ?_⟩
          · rw [hearly, Transcript.errorText_andThen]
          · have houtput : (early.andThen asking).output = early.output := List.append_nil _
            rw [happend, Transcript.outcome_andThen] at hboth
            rw [hearly, houtput]
            exact hboth
        · rw [linesTranscript_append_of_ne (mt Status.code_eq_zero.mpr hcode)] at hboth
          exact hboth.trans (hrun front).symm
  · intro filter hfilter
    refine ⟨?_, fun input => ?_⟩
    · exact (run_of_none_nil hoptions hscript hfilter).trans
        (congrArg (Outcome.finished 0 []) (errorText_asking _))
    · rw [transcript_of_none _ hscript]
      refine ⟨run_of_none hoptions hscript hfilter input, ?_, fun e => ?_⟩
      · rw [Status.code_eq_zero, status_linesTranscript]
      · exact line_of_diagnostic_linesTranscript fun line => not_mem_of_mem_linesOf

/-- A string that is not closed before its line ends, and a quote in the input behind
it.  A line that is not text ends a run before the quote is read. -/
theorem run_input_append_open_string :
    let world : Surroundings :=
      { directory := ⟨[], []⟩, input := [], logRules := none, outputFull := false, stamp := ['s'] }
    let arguments := ["-vv".toList, "--no-color".toList]
    let runOn (input : List UInt8) := run { world with input := input } arguments
    let front := Utf8.encode "\"a\r\n".toList
    let rest := Utf8.encode "b\"".toList
    let asked := "s DEBUG stdin is not a tty\n".toList
    let failed := "[line 1] Error: Unterminated string.\n".toList
    Options.parse arguments = .ok ⟨none, 2, false⟩ ∧
      (front.getLast? = some 10 ∧ [0xff, 10].getLast? = some 10) ∧
      runOn (front ++ rest) = .finished 0 "EOF  nil\nIDENTIFIER b nil\nEOF  nil\n".toList
        (asked ++ failed ++ "s DEBUG scan finished tokens=1 errors=1 lines=1\n".toList ++
          (asked ++ failed ++ "s DEBUG scan finished tokens=2 errors=1 lines=1\n".toList ++
            asked)) ∧
      runOn ([0xff, 10] ++ rest) = runOn [0xff, 10] := by
  intro world arguments runOn front rest asked failed
  have hoptions : Options.parse arguments = .ok ⟨none, 2, false⟩ := by rfl
  have hfront : front.getLast? = some 10 := by decide +kernel
  obtain ⟨happend, -⟩ := @run_input_append world arguments _ hoptions rfl
  refine ⟨hoptions, ⟨hfront, rfl⟩, ?_, ?_⟩
  · obtain ⟨code, output, errors, hrun, hzero, -⟩ := happend front rest (Or.inr hfront)
    have hfirst : runOn front = .finished 0 "EOF  nil\n".toList
        (asked ++ failed ++ "s DEBUG scan finished tokens=1 errors=1 lines=1\n".toList ++
          asked) := by
      decide +kernel
    have hsecond : runOn rest = .finished 0 "IDENTIFIER b nil\nEOF  nil\n".toList
        (asked ++ failed ++ "s DEBUG scan finished tokens=2 errors=1 lines=1\n".toList ++
          asked) := by
      decide +kernel
    have hempty : runOn [] = .finished 0 [] asked := by decide +kernel
    cases hfirst.symm.trans hrun
    obtain ⟨early, closing, code', output', errors', herrors, hclosing, hrest, hboth⟩ := hzero rfl
    cases hempty.symm.trans hclosing
    cases hsecond.symm.trans hrest
    cases List.append_cancel_right herrors
    exact hboth
  · obtain ⟨code, output, errors, hrun, -, hcode⟩ := happend [0xff, 10] rest (Or.inr rfl)
    have hfirst : runOn [0xff, 10] = .finished 74 [] (asked ++
        ("Error: could not read from the prompt: stream did not contain valid UTF-8: " ++
          "stream did not contain valid UTF-8\n").toList) := by
      decide +kernel
    cases hfirst.symm.trans hrun
    exact hcode (by decide)

/-- Where requests for a line are shown, the run on two blank lines makes one less than
the two runs on a blank line. -/
theorem run_input_append_requests :
    let world : Surroundings :=
      { directory := ⟨[], []⟩, input := [], logRules := none, outputFull := false, stamp := ['s'] }
    let arguments := ["-vv".toList, "--no-color".toList]
    let runOn (input : List UInt8) := run { world with input := input } arguments
    let output := "EOF  nil\n".toList
    let asked := "s DEBUG stdin is not a tty\n".toList
    let errors := asked ++ "s DEBUG scan finished tokens=1 errors=0 lines=1\n".toList ++ asked
    Options.parse arguments = .ok ⟨none, 2, false⟩ ∧ runOn [10] = .finished 0 output errors ∧
      runOn ([10] ++ [10]) ≠ .finished 0 (output ++ output) (errors ++ errors) := by
  intro world arguments runOn output asked errors
  exact ⟨by rfl, by decide +kernel, by decide +kernel⟩

end Session

end LoxLexer
