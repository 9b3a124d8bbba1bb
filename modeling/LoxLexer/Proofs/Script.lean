import LoxLexer.Proofs.Standing
import LoxLexer.Proofs.Transcripts

/-!
# Runs with a script

A run with a script decodes any bytes, scans the text, says each error on a line
of its own on standard error, and lists the tokens.  The log is kept back as long
as nobody asks for it, so that there is nothing else to be seen.  What cannot be
listed decides over the exit code whatever the errors are, and by then all of them
have been said; for a listing is never empty, and where there is no room for it,
writing it fails.

What is ill formed in the bytes is read as the replacement character, one for each
piece, and that is a stray character: an error outside of strings and comments,
and nothing in them.

* `filter_notes`: the notes of a scan that are shown if only warnings are.
* `runOn_script`: a run with a script, whatever standard output is like.
* `run_script`: the statement for runs.
-/

namespace LoxLexer

namespace Session

/-! ### What is shown -/

/-- A filter of one rule for everything shows what is grave enough. -/
theorem shows_upTo (level : Log.Level) (r : Log.Record) :
    Log.Filter.shows [.upTo level] r = decide (r.level.rank ≤ level.rank) := by
  have happlies : (Log.Rule.upTo level).AppliesTo r :=
    ⟨fun target htarget => absurd htarget (Option.not_mem_none target),
      fun field hfield => absurd hfield (Option.not_mem_none field)⟩
  have hgoverning : Log.Filter.governing? [.upTo level] r = some (.upTo level) := by
    simp [Log.Filter.governing?, happlies]
  rw [Log.Filter.shows, hgoverning]
  rfl

/-- A scan into diagnostics leaves the events of the items and the one at the end. -/
theorem events_scan (text : List Char) :
    ∃ tokens errors last, (scan text).events =
      (Cursor.start text).items.map Item.event ++ [.finished tokens errors last] := by
  have hevents := (Cursor.start text).events_scanInto Diagnostics.sink {}
  rw [Diagnostics.sink, trail_quiet] at hevents
  exact ⟨_, _, _, hevents⟩

section Console

variable {console : Console} (hfilter : console.filter = [.upTo .warn])
include hfilter

/-- Where only warnings are shown, traces and what is said for debugging are not. -/
theorem isShown_log {r : Log.Record} (h : r.level = .trace ∨ r.level = .debug) :
    (Note.log r).isShown console = false := by
  rw [Note.isShown, hfilter, shows_upTo]
  rcases h with h | h <;> rw [h] <;> rfl

/-- Of the notes about items those about errors are shown. -/
theorem filter_notes_items (items : List Item) :
    ((items.map Item.event).flatMap Note.ofEvent).filter (Note.isShown console) =
      (items.filterMap Item.error?).map Note.diagnostic := by
  induction items with
  | nil => rfl
  | cons item items ih =>
      have hhidden := isShown_log hfilter (Or.inl item.level_event)
      have hlog : [Note.log item.event.record].filter (Note.isShown console) = [] :=
        List.filter_cons_of_neg (Bool.eq_false_iff.mp hhidden)
      rw [List.map_cons, List.flatMap_cons, List.filter_append, ih]
      cases item with
      | token t => exact congrArg (· ++ _) hlog
      | error e =>
          have hboth : (Note.ofEvent (Item.event (.error e))).filter (Note.isShown console) =
              [Note.diagnostic e] :=
            (List.filter_append [_] [Note.diagnostic e]).trans (congrArg (· ++ _) hlog)
          rw [hboth]
          rfl

/-- Of a scan the errors are shown, and nothing else. -/
theorem filter_notes (text : List Char) :
    ((scan text).events.flatMap Note.ofEvent).filter (Note.isShown console) =
      (scan text).sink.toList.map Note.diagnostic := by
  obtain ⟨tokens, errors, last, hevents⟩ := events_scan text
  have hclosing : [Note.log (Event.finished tokens errors last).record].filter
      (Note.isShown console) = [] :=
    List.filter_cons_of_neg (Bool.eq_false_iff.mp (isShown_log hfilter (Or.inr rfl)))
  rw [hevents, List.flatMap_append, List.filter_append, filter_notes_items hfilter, errors_scan,
    Cursor.items_eq]
  exact (congrArg (_ ++ ·) hclosing).trans (List.append_nil _)

/-- What a run with a script says on standard error: its errors, and at the end
whether the tokens could not be listed. -/
theorem errorText_scriptTranscript (out : Outlet) (path : List Char) (bytes : List UInt8) :
    let text := Utf8.decodeLossy bytes
    (scriptTranscript out path (.ok bytes)).errorText console =
      (scan text).sink.toList.flatMap Reporter.lineOf ++
        match (out.writer.writePieces (listingPieces (scan text).tokens)).1 with
        | some failure => "Error: could not write tokens: ".toList ++ out.cause failure ++ ['\n']
        | none => [] := by
  intro text
  have hopening : ¬ (Note.log (openingRecord path bytes.length)).isShown console :=
    Bool.eq_false_iff.mp (isShown_log hfilter (Or.inr rfl))
  have hnotes := filter_notes hfilter text
  rw [scriptTranscript, Outlet.listed]
  rcases out.writer.writePieces (listingPieces (scan text).tokens) with ⟨_ | failure, after⟩
  · rw [Transcript.errorText, List.filter_cons_of_neg hopening, hnotes, List.flatMap_map]
    exact (List.append_nil _).symm
  · rw [Transcript.errorText, List.filter_cons_of_neg hopening, List.filter_append, hnotes,
      List.flatMap_append, List.flatMap_map]
    exact congrArg (_ ++ ·) (List.append_nil _)

end Console

/-- A run with a script ends with the code of its errors, or with that of a listing
that cannot be written. -/
theorem code_scriptTranscript (out : Outlet) (path : List Char) (bytes : List UInt8) :
    let text := Utf8.decodeLossy bytes
    (scriptTranscript out path (.ok bytes)).status.code =
      match (out.writer.writePieces (listingPieces (scan text).tokens)).1 with
      | some _ => 74
      | none => if (scan text).sink.toList = [] then 0 else 65 := by
  intro text
  rw [scriptTranscript, Outlet.listed]
  rcases out.writer.writePieces (listingPieces (scan text).tokens) with ⟨_ | failure, after⟩
  · obtain ⟨-, hsome, hlength⟩ := (scan text).sink.hadError_iff
    rw [hlength, List.length_pos_iff] at hsome
    dsimp only
    by_cases hnone : (scan text).sink.toList = []
    · rw [if_neg (fun herror => hsome.mp herror hnone)]
      simp [hnone, Status.code]
    · rw [if_pos (hsome.mpr hnone)]
      simp [hnone, Status.code]
  · rfl

/-! ### What cannot be listed -/

/-- A listing cannot be written where there is no room. -/
theorem writePieces_listing_full {out : Writer} (h : out.isBroken = true ∨ out.limit = some 0)
    (text : List Char) :
    ∃ failure, (out.writePieces (listingPieces (scan text).tokens)).1 = some failure := by
  rw [writePieces_listing]
  cases hbroken : out.isBroken with
  | true => exact ⟨.broken, congrArg Prod.fst (Writer.write_of_broken hbroken _)⟩
  | false =>
      have hlimit : out.limit = some 0 := h.resolve_left (by rw [hbroken]; exact Bool.false_ne_true)
      have hfitting : out.fitting (Utf8.encode (listing (scan text).tokens)) = [] := by
        rw [Writer.fitting, hlimit]
        simp
      have hpos := List.length_pos_iff.mpr (encode_listing_ne_nil text)
      refine ⟨.full, ?_⟩
      rw [Writer.writeText, Writer.write_of_working hbroken, hfitting]
      exact if_pos hpos

/-! ### The text of a script -/

/-- The replacement character is stray. -/
theorem isStray_replacement : IsStray Utf8.replacement where
  isSpace := by decide
  ne_hash := by decide
  ne_quote := by decide
  isDigit := by decide
  isWordStart := by decide
  ofChar? := by decide

/-- An ill-formed piece is read as one replacement character. -/
theorem getElem?_of_illFormed {segments : List (List UInt8 × Option Char)} {k : Nat}
    {part : List UInt8} (h : segments[k]? = some (part, none)) :
    (segments.map fun segment => segment.2.getD Utf8.replacement)[k]? = some Utf8.replacement := by
  rw [List.getElem?_map, h]
  rfl

section Runs

variable {world : Surroundings} {arguments : List (List Char)} {o : Options}
  {path : List Char} {bytes : List UInt8} (hoptions : Options.parse arguments = .ok o)
  (hscript : o.script = some path) (hverbosity : o.verbosity = 0) (hrules : world.logRules = none)
  (hread : world.directory.read path = .ok bytes)
include hoptions hscript hverbosity hrules hread

/-- What a run does with the bytes of a script: its transcript is shown, without the log. -/
theorem runOn_eq (out : Outlet) :
    let t := scriptTranscript out path (.ok bytes)
    runOn out world arguments =
      .finished t.status.code t.output (t.errorText ⟨[.upTo .warn], o.color, world.stamp⟩) := by
  have htranscript := transcriptOn_of_script hscript out world
  have hstart : start arguments world.logRules = .begun o [.upTo .warn] := by
    rw [start, hoptions]
    simp only [hverbosity, hrules]
    rfl
  rw [hread] at htranscript
  rw [runOn, hstart]
  simp only [htranscript]
  rfl

/-- What a run does with the bytes of a script: the listing decides, and then the errors. -/
theorem runOn_script (out : Outlet) :
    let text := Utf8.decodeLossy bytes
    let errors := (scan text).sink.toList
    runOn out world arguments =
      match out.writer.writePieces (listingPieces (scan text).tokens) with
      | (some failure, after) =>
        .finished 74 (Utf8.decodeLossy after.written.toList) (errors.flatMap Reporter.lineOf ++
          ("Error: could not write tokens: ".toList ++ out.cause failure ++ ['\n']))
      | (none, _) =>
        .finished (if errors = [] then 0 else 65) (listing (scan text).tokens)
          (errors.flatMap Reporter.lineOf) := by
  intro text errors
  have hfilter : (Console.mk [.upTo .warn] o.color world.stamp).filter = [.upTo .warn] := rfl
  have hcode := code_scriptTranscript out path bytes
  have hlines := errorText_scriptTranscript hfilter out path bytes
  refine (runOn_eq hoptions hscript hverbosity hrules hread out).trans ?_
  simp only [hcode, hlines]
  rw [scriptTranscript, Outlet.listed]
  rcases out.writer.writePieces (listingPieces (scan text).tokens) with ⟨_ | failure, after⟩
  · exact congrArg _ (List.append_nil _)
  · rfl

end Runs

/-- **Runs with a script.**  Let a run have a script that can be read, and let nobody
ask for more or less of the log.  The bytes are cut, in the one way in which that can
be done, into the encodings of characters and ill-formed pieces, and the text has a
character for each, which for an ill-formed piece is the replacement character.  If
standard output works, the tokens of the text are listed there; standard error has
the line of each of its errors, in order; and the exit code is 65 if there are any
and else 0.  If standard output is full, the code is 74, and standard error has the
lines of all errors and behind them the line about the listing.  Whatever standard
output is like, and for whatever cause it fails, all that matters is whether the
listing could be written as a whole; and no text can be listed where there is no room.
An ill-formed piece outside strings and comments costs one error; in a string or
comment it costs none, and that goes on behind it. -/
theorem run_script {world : Surroundings} {arguments : List (List Char)} {o : Options}
    {path : List Char} {bytes : List UInt8} (hoptions : Options.parse arguments = .ok o)
    (hscript : o.script = some path) (hverbosity : o.verbosity = 0) (hrules : world.logRules = none)
    (hread : world.directory.read path = .ok bytes) :
    ∃ segments, Utf8.Decoding bytes segments ∧
      (∀ other, Utf8.Decoding bytes other → other = segments) ∧
      let text := segments.map fun segment => segment.2.getD '\ufffd'
      let errors := (scan text).sink.toList
      let pieces := (scan text).tokens.map fun t => Utf8.encode (t.render ++ ['\n'])
      run world arguments =
          (if world.outputFull then
            .finished 74 [] (errors.flatMap Reporter.lineOf ++
              "Error: could not write tokens: No space left on device (os error 28)\n".toList)
          else
            .finished (if errors = [] then 0 else 65)
              ((scan text).tokens.flatMap fun t => t.render ++ ['\n'])
              (errors.flatMap Reporter.lineOf)) ∧
        (∀ out : Outlet, runOn out world arguments =
          match out.writer.writePieces pieces with
          | (some failure, after) =>
            .finished 74 (Utf8.decodeLossy after.written.toList)
              (errors.flatMap Reporter.lineOf ++
                ("Error: could not write tokens: ".toList ++ out.cause failure ++ ['\n']))
          | (none, _) =>
            .finished (if errors = [] then 0 else 65)
              ((scan text).tokens.flatMap fun t => t.render ++ ['\n'])
              (errors.flatMap Reporter.lineOf)) ∧
        (∀ out : Writer, out.isBroken = true ∨ out.limit = some 0 →
          ∃ failure, (out.writePieces pieces).1 = some failure) ∧
        errors = (itemEnds text).filterMap (·.1.error?) ∧
        ∀ k part, segments[k]? = some (part, none) →
          text[k]? = some '\ufffd' ∧ (∀ b ∈ part, 0x80 ≤ b) ∧
            (¬ IsEnclosedAt text k →
              (itemEnds text).filter (·.2 = k + 1) =
                [(.error ⟨.unexpectedCharacter '\ufffd', 1 + newlines (text.take k)⟩, k + 1)]) ∧
            ∀ before t behind, StandsIn text k before t behind → t.Encloses →
              ¬ IsUnexpectedAt text k ∧
                (StandsIn text (k + 1) before t behind ∨ k + 1 = text.length ∨
                  text[k + 1]? = some '\n' ∧ t.text.head? = some '#') := by
  obtain ⟨segments, hdecoding⟩ := Utf8.exists_decoding bytes
  refine ⟨segments, hdecoding, fun other => hdecoding.unique, ?_⟩
  intro text errors pieces
  have htext : Utf8.decodeLossy bytes = text := hdecoding.decodeLossy_eq
  have hrun := runOn_script hoptions hscript hverbosity hrules hread
  rw [htext] at hrun
  refine ⟨?_, hrun, ?_, errors_scan_itemEnds text, ?_⟩
  · have hdevice : OnDevice world.outputFull (Outlet.device world.outputFull).writer := ⟨rfl, rfl⟩
    have hnothing : Utf8.decodeLossy (Outlet.device true).writer.written.toList = [] :=
      Utf8.decodeLossy_encode []
    rw [run, hrun, hdevice.writePieces]
    cases world.outputFull with
    | true => exact congrArg (Outcome.finished 74 · _) hnothing
    | false => rfl
  · exact fun out hout => writePieces_listing_full hout text
  · intro k part hpiece
    have hchar : text[k]? = some Utf8.replacement := getElem?_of_illFormed hpiece
    refine ⟨hchar, hdecoding.le_of_mem (List.mem_of_getElem? hpiece), ?_, ?_⟩
    · exact filter_itemEnds_of_not_enclosed hchar isStray_replacement
    · intro before t behind hstands hencloses
      exact ⟨hstands.not_isUnexpectedAt hencloses,
        hstands.goes_on hencloses hchar isStray_replacement⟩

/-- A sequence that is broken off by a quote, an overlong one, one that a line end
follows, a surrogate, and one that is broken off by a star. Three of them are in a
string and comments; the other two are five pieces. Where there is room for nine bytes
only, the listing is cut off inside the replacement character. -/
theorem run_script_pieces :
    let bytes : List UInt8 := [0x22, 0xe2, 0x82, 0x22, 0xc0, 0xaf, 0x23, 0xff, 0x0a,
      0xed, 0xa0, 0x80, 0x2f, 0x2a, 0xf0, 0x9f, 0x2a, 0x2f]
    let world : Surroundings :=
      { directory := ⟨[(['a'], bytes)], []⟩, input := [], logRules := none, outputFull := false
        stamp := [] }
    let lines := [1, 1, 2, 2, 2].flatMap fun line =>
      Reporter.lineOf ⟨.unexpectedCharacter '\ufffd', line⟩
    (Options.parse [['a']] = .ok { script := some ['a'] } ∧
        world.directory.read ['a'] = .ok bytes) ∧
      ∃ segments, Utf8.Decoding bytes segments ∧
        segments.map (fun segment => segment.2.getD '\ufffd') =
          "\"\ufffd\"\ufffd\ufffd#\ufffd\n\ufffd\ufffd\ufffd/*\ufffd*/".toList ∧
        run world [['a']] =
          .finished 65 "STRING \"\ufffd\" \ufffd\nEOF  nil\n".toList lines ∧
        runOn ⟨some 9, false, WriteFailure.message⟩ world [['a']] =
          .finished 74 "STRING \"\ufffd".toList
            (lines ++ "Error: could not write tokens: full\n".toList) := by
  intro bytes world lines
  have hoptions : Options.parse [['a']] = .ok { script := some ['a'] } := by rfl
  have hread : world.directory.read ['a'] = .ok bytes := by rfl
  obtain ⟨segments, hdecoding, -, hrun, hout, -⟩ := run_script hoptions rfl rfl rfl hread
  have htext : segments.map (fun segment => segment.2.getD '\ufffd') =
      "\"\ufffd\"\ufffd\ufffd#\ufffd\n\ufffd\ufffd\ufffd/*\ufffd*/".toList :=
    hdecoding.decodeLossy_eq.symm.trans (by decide +kernel)
  rw [htext] at hrun hout
  exact ⟨⟨hoptions, hread⟩, segments, hdecoding, htext, hrun.trans (by decide +kernel),
    (hout _).trans (by decide +kernel)⟩

end Session

end LoxLexer
