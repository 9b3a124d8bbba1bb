import LoxLexer.Proofs.Script

/-!
# The log and the rest of a run

How much of the log is asked for, and in what dress, has no say in what a run does.
A run has its transcript before anything is shown, and the console on which it is
shown holds back log records and nothing else.  So runs that are told apart by their
consoles alone leave the same output and the same code, and their standard errors
differ in lines of the log.

Asking for more output moves one bound up.  What is shown below a bound is shown
below every higher one, so that less output is more output with lines of the log
left out.

A run that is not asked for more output reads the written filter, and that may break
it down before it has a console to show anything on.  This is the one thing by which
the log gets in the way of the rest.

* `exists_begins`: a run that does not break down begins.
* `Begins.run_eq`: a run that begins is its transcript, shown on a console.
* `shows_of_asked`: the bound, for runs that are asked for more output.
* `run_logging`: the statement for two runs.
-/

namespace LoxLexer

namespace Session

/-- A run begins: its arguments are accepted and ask for `o`, it has got a filter, and its
notes are shown on the console. -/
structure Begins (world : Surroundings) (arguments : List (List Char)) (o : Options)
    (console : Console) : Prop where
  options : Options.parse arguments = .ok o
  filter : Log.Filter.ofVerbosity? o.verbosity world.logRules = some console.filter
  color : console.color = o.color
  stamp : console.stamp = world.stamp

/-- A run breaks down: nobody asks for more output, so that the written filter is read, and
that would have to be cut inside a character. -/
def BreaksDown (world : Surroundings) (o : Options) : Prop :=
  o.verbosity = 0 ∧
    ∃ rules, world.logRules = some rules ∧ Log.Filter.parse rules = .error .splitCharacter

/-- The note is a record of the log. -/
def Note.isLog : Note → Bool
  | log _ => true
  | _ => false

/-! ### What a console shows -/

/-- What is left behind if a transcript is shown on a console. -/
def Transcript.outcome (t : Transcript) (console : Console) : Outcome :=
  .finished t.status.code t.output (t.errorText console)

/-! ### Whether a run begins -/

/-- A run has no filter just if it breaks down. -/
theorem ofVerbosity?_eq_none_iff {world : Surroundings} {o : Options} :
    Log.Filter.ofVerbosity? o.verbosity world.logRules = none ↔ BreaksDown world o := by
  rw [BreaksDown]
  match o.verbosity with
  | 0 =>
    rw [Log.Filter.ofVerbosity?]
    cases world.logRules with
    | none => simp
    | some rules =>
      cases hparse : Log.Filter.parse rules with
      | ok filter => simp [hparse]
      | error misreading => cases misreading <;> simp [hparse]
  | 1 | 2 | n + 3 => simp [Log.Filter.ofVerbosity?]

section Begins

variable {world : Surroundings} {arguments : List (List Char)} {o : Options}

/-- A run that begins leaves its transcript behind, as the console shows it. -/
theorem Begins.run_eq {console : Console} (h : Begins world arguments o console) :
    run world arguments = (transcript world o).outcome console := by
  obtain ⟨filter, color, stamp⟩ := console
  obtain ⟨hoptions, hfilter, rfl, rfl⟩ := h
  have hstart : start arguments world.logRules = .begun o filter := by
    rw [start, hoptions]
    simp only [hfilter]
  rw [run, runOn, hstart]
  rfl

variable (hoptions : Options.parse arguments = .ok o)
include hoptions

/-- A run that breaks down does so before it has read or written anything. -/
theorem run_of_breaksDown (h : BreaksDown world o) :
    run world arguments = .finished 101 [] (breakdownText ++ ['\n']) := by
  have hstart : start arguments world.logRules = .brokenDown := by
    rw [start, hoptions]
    simp only [ofVerbosity?_eq_none_iff.mpr h]
  rw [run, runOn, hstart]
  rfl

/-- A run that does not break down begins. -/
theorem exists_begins (h : ¬ BreaksDown world o) : ∃ console, Begins world arguments o console := by
  cases hfilter : Log.Filter.ofVerbosity? o.verbosity world.logRules with
  | none => exact absurd (ofVerbosity?_eq_none_iff.mp hfilter) h
  | some filter => exact ⟨⟨filter, o.color, world.stamp⟩, hoptions, hfilter, rfl, rfl⟩

end Begins

/-! ### Notes on consoles -/

section Notes

variable (console console' : Console)

/-- Only records of the log are ever kept back. -/
theorem Note.isShown_of_not_isLog {note : Note} (h : note.isLog = false) :
    note.isShown console = true := by
  cases note with
  | log => cases h
  | diagnostic => rfl
  | notice => rfl

/-- Only lines of the log look different on different consoles. -/
theorem Note.line_of_not_isLog {note : Note} (h : note.isLog = false) :
    note.line console = note.line console' := by
  cases note with
  | log => cases h
  | diagnostic => rfl
  | notice => rfl

/-- The notes that are not of the log are shown on every console. -/
theorem filter_not_isLog_shown (notes : List Note) :
    (notes.filter (Note.isShown console)).filter (fun note => !note.isLog) =
      notes.filter (fun note => !note.isLog) := by
  rw [List.filter_filter]
  refine List.filter_congr fun note _ => ?_
  cases hlog : note.isLog with
  | true => rfl
  | false => simp [note.isShown_of_not_isLog console hlog]

/-- The lines that are not of the log are the same on every console. -/
theorem map_line_not_isLog (notes : List Note) :
    (notes.filter fun note => !note.isLog).map (Note.line console) =
      (notes.filter fun note => !note.isLog).map (Note.line console') := by
  refine List.map_congr_left fun note hnote => ?_
  have hlog : note.isLog = false := by simpa using (List.mem_filter.mp hnote).2
  exact note.line_of_not_isLog console console' hlog

end Notes

/-! ### More output and less -/

/-- Where more output is asked for, records are shown up to a bound that grows with the
number of times, up to three. -/
theorem shows_of_asked {verbosity : Nat} {rules : Option (List Char)} {filter : Log.Filter}
    (hfilter : Log.Filter.ofVerbosity? verbosity rules = some filter) (hasked : 1 ≤ verbosity)
    (r : Log.Record) : filter.shows r = decide (r.level.rank ≤ min verbosity 3 + 2) := by
  match verbosity, hfilter, hasked with
  | 1, rfl, _ => exact shows_upTo .info r
  | 2, rfl, _ => exact shows_upTo .debug r
  | n + 3, rfl, _ =>
    have hbound : min (n + 3) 3 + 2 = Log.Level.trace.rank := by
      rw [Nat.min_eq_right (by omega)]
      rfl
    rw [hbound]
    exact shows_upTo .trace r

/-- What is shown of the log where less is asked for is shown where more is. -/
theorem isShown_of_le {console console' : Console} {m n : Nat} {rules rules' : Option (List Char)}
    (hfilter : Log.Filter.ofVerbosity? m rules = some console.filter)
    (hfilter' : Log.Filter.ofVerbosity? n rules' = some console'.filter) (hasked : 1 ≤ m)
    (hle : m ≤ n) {note : Note} (h : note.isShown console = true) :
    note.isShown console' = true := by
  cases hlog : note.isLog with
  | false => exact note.isShown_of_not_isLog console' hlog
  | true =>
      cases note with
      | log r =>
          rw [Note.isShown, shows_of_asked hfilter hasked, decide_eq_true_iff] at h
          rw [Note.isShown, shows_of_asked hfilter' (Nat.le_trans hasked hle), decide_eq_true_iff]
          omega
      | diagnostic => cases hlog
      | notice => cases hlog

/-- What a run says does not depend on what is asked of the log. -/
theorem transcript_congr {world world' : Surroundings} {o o' : Options}
    (hscript : o'.script = o.script) (hdirectory : world'.directory = world.directory)
    (hinput : world'.input = world.input) (houtput : world'.outputFull = world.outputFull) :
    transcript world' o' = transcript world o := by
  have hsystem (cause : WriteFailure → List Char) : world'.system cause = world.system cause := by
    rw [Surroundings.system, Surroundings.system, hdirectory, hinput]
  rw [transcript, transcript, transcriptOn, transcriptOn, hscript, houtput, hsystem]

/-- What is shown of the log on two consoles is told apart by lines of the log. -/
theorem shown_of_begins {world world' : Surroundings} {arguments arguments' : List (List Char)}
    {o o' : Options} {console console' : Console} (hbegins : Begins world arguments o console)
    (hbegins' : Begins world' arguments' o' console') (hcolor : o'.color = o.color)
    (hstamp : world'.stamp = world.stamp) (hasked : 1 ≤ o.verbosity)
    (hle : o.verbosity ≤ o'.verbosity) (notes : List Note) :
    (∀ note : Note, note.line console' = note.line console) ∧
      notes.filter (Note.isShown console) = (notes.filter (Note.isShown console')).filter
        fun note => !note.isLog || note.isShown console := by
  have hcolor' : console'.color = console.color :=
    (hbegins'.color.trans hcolor).trans hbegins.color.symm
  have hstamp' : console'.stamp = console.stamp :=
    (hbegins'.stamp.trans hstamp).trans hbegins.stamp.symm
  constructor
  · intro note
    cases note with
    | log r => rw [Note.line, Note.line, hcolor', hstamp']
    | diagnostic => rfl
    | notice => rfl
  · rw [List.filter_filter]
    refine List.filter_congr fun note _ => ?_
    have hmore : note.isShown console = true → note.isShown console' = true :=
      isShown_of_le hbegins.filter hbegins'.filter hasked hle
    cases hlog : note.isLog with
    | false =>
        rw [note.isShown_of_not_isLog console hlog, note.isShown_of_not_isLog console' hlog]
        rfl
    | true =>
        cases hshown : note.isShown console with
        | false => rfl
        | true => rw [hmore hshown]; rfl

/-- **The log and the rest.**  Let two runs be accepted that have the same script, or none,
and find the same around them; they may be asked for more or less output, in colours or
not, and by any written filters.  One thing a written filter can do: where nobody asks for
more output and the filter would have to be cut inside a character, a run breaks down over
it, with a code of its own and nothing on standard output.  If neither run does, both have
the same code and the same text on standard output, and on standard error the same lines
in the same order, if those of the log are left aside.  If both are asked for more
output, which keeps them from breaking down, one of them at least as often as the other,
and their lines are dressed alike, then what the other one shows is what the first one
shows, with some of the log records left out. -/
theorem run_logging {world world' : Surroundings} {arguments arguments' : List (List Char)}
    {o o' : Options} (hoptions : Options.parse arguments = .ok o)
    (hoptions' : Options.parse arguments' = .ok o') (hscript : o'.script = o.script)
    (hdirectory : world'.directory = world.directory) (hinput : world'.input = world.input)
    (houtput : world'.outputFull = world.outputFull) :
    (BreaksDown world o → run world arguments = .finished 101 [] (breakdownText ++ ['\n'])) ∧
      (BreaksDown world' o' → run world' arguments' = .finished 101 [] (breakdownText ++ ['\n'])) ∧
      (1 ≤ o.verbosity → o.verbosity ≤ o'.verbosity →
        ¬ BreaksDown world o ∧ ¬ BreaksDown world' o') ∧
      (¬ BreaksDown world o → ¬ BreaksDown world' o' → ∃ console console',
        Begins world arguments o console ∧ Begins world' arguments' o' console' ∧
        let t := transcript world o
        let shown := t.notes.filter (Note.isShown console)
        let shown' := t.notes.filter (Note.isShown console')
        run world arguments =
            .finished t.status.code t.output
              (shown.flatMap fun note => note.line console ++ ['\n']) ∧
          run world' arguments' =
            .finished t.status.code t.output
              (shown'.flatMap fun note => note.line console' ++ ['\n']) ∧
          (shown.filter fun note => !note.isLog).map (Note.line console) =
            (shown'.filter fun note => !note.isLog).map (Note.line console') ∧
          (o'.color = o.color → world'.stamp = world.stamp → 1 ≤ o.verbosity →
            o.verbosity ≤ o'.verbosity →
            (∀ note : Note, note.line console' = note.line console) ∧
              shown = shown'.filter fun note => !note.isLog || note.isShown console)) := by
  refine ⟨run_of_breaksDown hoptions, run_of_breaksDown hoptions', fun hasked hle => ?_,
    fun hgoes hgoes' => ?_⟩
  · refine ⟨fun hbroken => ?_, fun hbroken => ?_⟩ <;> have hzero := hbroken.1 <;> omega
  obtain ⟨console, hbegins⟩ := exists_begins hoptions hgoes
  obtain ⟨console', hbegins'⟩ := exists_begins hoptions' hgoes'
  refine ⟨console, console', hbegins, hbegins', ?_⟩
  intro t shown shown'
  have htranscript : transcript world' o' = t :=
    transcript_congr hscript hdirectory hinput houtput
  refine ⟨hbegins.run_eq, ?_, ?_, ?_⟩
  · rw [hbegins'.run_eq, htranscript]
    rfl
  · rw [filter_not_isLog_shown, filter_not_isLog_shown]
    exact map_line_not_isLog console console' t.notes
  · intro hcolor hstamp hasked hle
    exact shown_of_begins hbegins hbegins' hcolor hstamp hasked hle t.notes

/-- A script with a stray character, once with little output and once with all of it,
which a written filter does not keep back. -/
theorem run_logging_stray :
    let world : Surroundings :=
      { directory := ⟨[(['a'], [0x40, 0x78])], []⟩, input := [], logRules := none
        outputFull := false, stamp := ['s'] }
    let world' : Surroundings := { world with logRules := some "off".toList }
    let little := ["-v".toList, "--no-color".toList, ['a']]
    let all := ["--no-color".toList, "-vv".toList, ['a'], "--verbose".toList]
    let output := "IDENTIFIER x nil\nEOF  nil\n".toList
    Options.parse little = .ok ⟨some ['a'], 1, false⟩ ∧
      Options.parse all = .ok ⟨some ['a'], 3, false⟩ ∧
      run world little =
        .finished 65 output "[line 1] Error: Unexpected character '@'.\n".toList ∧
      run world' all =
        .finished 65 output ("s DEBUG scanning file path=a bytes=2\n".toList ++
          "s TRACE Unexpected character '@'. line=1\n".toList ++
          "[line 1] Error: Unexpected character '@'.\n".toList ++
          "s TRACE token kind=IDENTIFIER line=1\n".toList ++
          "s DEBUG scan finished tokens=2 errors=1 lines=1\n".toList) := by
  intro world world' little all output
  have hlittle : Options.parse little = .ok ⟨some ['a'], 1, false⟩ := by rfl
  have hall : Options.parse all = .ok ⟨some ['a'], 3, false⟩ := by rfl
  obtain ⟨-, -, hgoes, hboth⟩ := @run_logging world world' _ _ _ _ hlittle hall rfl rfl rfl rfl
  obtain ⟨hgo, hgo'⟩ := hgoes (by decide) (by decide)
  obtain ⟨console, console', hbegins, hbegins', hrun, hrun', -⟩ := hboth hgo hgo'
  obtain ⟨filter, color, stamp⟩ := console
  obtain ⟨filter', color', stamp'⟩ := console'
  obtain ⟨-, hfilter, rfl, rfl⟩ := hbegins
  obtain ⟨-, hfilter', rfl, rfl⟩ := hbegins'
  cases hfilter
  cases hfilter'
  exact ⟨hlittle, hall, hrun.trans (by decide +kernel), hrun'.trans (by decide +kernel)⟩

/-- A filter with a blank before a letter that takes two bytes. A run breaks down over it, and
begins where more output is asked for, or no filter is written. -/
theorem run_logging_breakdown :
    let world : Surroundings :=
      { directory := ⟨[(['a'], [0x78])], []⟩, input := [], logRules := some " é=x".toList
        outputFull := false, stamp := ['s'] }
    let output := "IDENTIFIER x nil\nEOF  nil\n".toList
    Options.parse [['a']] = .ok ⟨some ['a'], 0, true⟩ ∧
      Options.parse ["-v".toList, ['a']] = .ok ⟨some ['a'], 1, true⟩ ∧
      run world [['a']] = .finished 101 [] (breakdownText ++ ['\n']) ∧
      run world ["-v".toList, ['a']] = .finished 0 output [] ∧
      run { world with logRules := none } [['a']] = .finished 0 output [] := by
  intro world output
  exact ⟨by rfl, by rfl, by decide +kernel, by decide +kernel, by decide +kernel⟩

end Session

end LoxLexer
