import LoxLexer.Proofs.Prompt
import LoxLexer.Proofs.LineByLine

/-!
# The same text, as a script and line by line

A script is scanned as a whole, and standard input is scanned line by line.  As long as
no line leaves a string or a comment open, this finds the same tokens and the same
errors.  Whatever else was being read at the end of a line ends there, before the
newline or before a return in front of it; only a comment takes the return in, and that
shows nowhere.

What is left to tell the two runs apart is the end mark, one for each line or one for
all, the line that an error says, and the exit code.  A backspace has to be left out of
this, which for a script is a stray character, and on standard input takes back what
was typed before it.

* `itemsOf_textLines`: the items of a text are those of its lines.
* `outcome_linesTranscript`: what a run says about lines of text.
* `run_text`: the statement for two runs.
-/

namespace LoxLexer

/-! ### The end of a line -/

/-- At most one return is left out of a line, the one at its end. -/
theorem withoutReturn_cases (line : List Char) :
    withoutReturn line = line ∨ line = withoutReturn line ++ ['\r'] := by
  unfold withoutReturn
  split
  · next h => exact Or.inr (List.dropLast_append_getLast? _ h).symm
  · exact Or.inl rfl

theorem withoutReturn_subset (line : List Char) : withoutReturn line ⊆ line := by
  unfold withoutReturn
  split
  · exact List.dropLast_subset line
  · exact List.Subset.refl line

/-- The lines of a text are made of characters of the text, and of no line ends. -/
theorem mem_textLines {line text : List Char} (h : line ∈ textLines text) :
    '\n' ∉ line ∧ line ⊆ text := by
  induction text using line_induction '\n' with
  | last last hlast =>
      rw [textLines_last hlast] at h
      split at h
      · cases h
      · rw [List.mem_singleton.mp h]
        exact ⟨hlast, List.Subset.refl last⟩
  | cons first rest hfirst ih =>
      rw [textLines_cons hfirst] at h
      rcases List.mem_cons.mp h with rfl | hlater
      · have hsubset := withoutReturn_subset first
        exact ⟨fun hmem => hfirst (hsubset hmem), List.subset_append_of_subset_left _ hsubset⟩
      · obtain ⟨hnewline, hsubset⟩ := ih hlater
        exact ⟨hnewline,
          List.subset_append_of_subset_right _ (List.subset_cons_of_subset _ hsubset)⟩

/-- Of what is not left open, only a comment takes in a return. -/
theorem Tile.Alone.exists_comment {t : Tile} (h : t.Alone) (hopen : ¬ t.IsOpen)
    (htakes : t.takes '\r' = true) : ∃ body, '\n' ∉ body ∧ t = ⟨'#' :: body, .blank⟩ := by
  obtain ⟨text, reading⟩ := t
  cases h with
  | space hsplit hspace =>
      have hhash := (class_of_isSpace (isSpace_iff.mpr hspace)).1
      simp [takes, hhash] at htakes
  | lineComment hsplit hbody hrest => exact ⟨_, hbody, rfl⟩
  | blockComment hsplit hcomplete =>
      obtain ⟨body, rfl⟩ := hcomplete.1
      cases htakes
  | openComment => exact absurd (Or.inr rfl) hopen
  | openString => exact absurd (Or.inl rfl) hopen
  | lexeme => rw [takes_token_of_isSpace rfl] at htakes; cases htakes
  | stray => cases htakes

/-- A return behind a row of tiles leaves no trace. -/
theorem Fits.exists_append_return {ts : List Tile} (h : Fits ts) (hopen : ∀ t ∈ ts, ¬ t.IsOpen) :
    ∃ us, Fits us ∧ us.flatMap Tile.text = ts.flatMap Tile.text ++ ['\r'] ∧
      (∀ t ∈ us, ¬ t.IsOpen) ∧ ∀ line, itemsOf line us = itemsOf line ts := by
  have hblank (text : List Char) : ¬ (Tile.mk text .blank).IsOpen := by
    rintro (hstring | hcomment)
    · cases hstring
    · cases hcomment
  induction h with
  | nil =>
      have hreturn : FirstTile ['\r'] ⟨['\r'], .blank⟩ [] := .space rfl (by decide)
      exact ⟨[⟨['\r'], .blank⟩], .cons hreturn (Tile.endsBefore_nil _) .nil, rfl,
        List.forall_mem_singleton.mpr (hblank _), fun _ => rfl⟩
  | @cons t ts halone hends hfits ih =>
      obtain ⟨hhere, hlater⟩ := List.forall_mem_cons.mp hopen
      -- A comment at the end takes the return in; behind all else it is a tile of its own.
      by_cases hcomment : ts = [] ∧ t.takes '\r' = true
      · obtain ⟨rfl, htakes⟩ := hcomment
        obtain ⟨body, hbody, rfl⟩ := halone.exists_comment hhere htakes
        have hreturn : FirstTile ('#' :: (body ++ ['\r'])) ⟨'#' :: (body ++ ['\r']), .blank⟩ [] :=
          .lineComment (by simp) (by simp [hbody]) (Or.inl rfl)
        exact ⟨[⟨'#' :: (body ++ ['\r']), .blank⟩], .cons hreturn (Tile.endsBefore_nil _) .nil,
          by simp, List.forall_mem_singleton.mpr (hblank _), fun _ => rfl⟩
      · obtain ⟨us, hus, htext, husopen, hitems⟩ := ih hlater
        have hstops : ts.flatMap Tile.text = [] → t.takes '\r' = false := by
          intro hempty
          have hlast : ts = [] := by rw [← tilesOf_flatMap_text hfits, hempty, tilesOf]
          exact Bool.eq_false_iff.mpr fun htakes => hcomment ⟨hlast, htakes⟩
        refine ⟨t :: us, .cons halone ?_ hus, ?_, List.forall_mem_cons.mpr ⟨hhere, husopen⟩, ?_⟩
        · rw [htext]
          exact hends.append_space rfl hstops []
        · rw [List.flatMap_cons, htext, List.flatMap_cons, List.append_assoc]
        · intro line
          rw [itemsOf, hitems, itemsOf]

/-- The items of a line are those of the line without its return, which leaves
nothing more open than the line does. -/
theorem itemsOf_withoutReturn {line : List Char} (h : LeavesNothingOpen (withoutReturn line)) :
    (∀ t ∈ tilesOf line, ¬ t.IsOpen) ∧
      ∀ n, itemsOf n (tilesOf line) = itemsOf n (tilesOf (withoutReturn line)) := by
  rcases withoutReturn_cases line with hsame | hreturn
  · rw [hsame] at h ⊢
    exact ⟨h.not_isOpen, fun _ => rfl⟩
  · obtain ⟨us, hus, htext, hopen, hitems⟩ :=
      (fits_tilesOf (withoutReturn line)).exists_append_return h.not_isOpen
    have htiles : tilesOf line = us := by
      rw [flatMap_text_tilesOf, ← hreturn] at htext
      rw [← htext, tilesOf_flatMap_text hus]
    rw [htiles]
    exact ⟨hopen, hitems⟩

/-! ### One scan and many -/

/-- The items of a text are those of its lines, each counted from the number of the
line, if no line leaves anything open. -/
theorem itemsOf_textLines {text : List Char}
    (h : ∀ line ∈ textLines text, LeavesNothingOpen line) (n : Nat) :
    itemsOf (1 + n) (tilesOf text) = ((textLines text).zipIdx n).flatMap fun l =>
      (itemsOf 1 (tilesOf l.1)).map (Item.shift l.2) := by
  induction text using line_induction '\n' generalizing n with
  | last line hline =>
      rw [textLines_last hline]
      by_cases hempty : line = []
      · subst hempty
        rw [tilesOf]
        rfl
      · rw [if_neg hempty, itemsOf_add]
        exact (List.flatMap_singleton _ _).symm
  | cons line rest hline ih =>
      rw [textLines_cons hline] at h ⊢
      obtain ⟨hhere, hlater⟩ := List.forall_mem_cons.mp h
      obtain ⟨hopen, hitems⟩ := itemsOf_withoutReturn hhere
      have hnone : newlines line = 0 := List.count_eq_zero.mpr hline
      have hnewline : itemsOf (1 + n) (⟨['\n'], .blank⟩ :: tilesOf rest) =
          itemsOf (1 + (n + 1)) (tilesOf rest) := rfl
      rw [tilesOf_append_newline hopen, itemsOf_append, flatMap_text_tilesOf, hnone, Nat.add_zero,
        hnewline, ih hlater, hitems, itemsOf_add, List.zipIdx_cons, List.flatMap_cons]

/-- A scan puts one token behind those that it finds. -/
theorem dropLast_tokens_scan (source : List Char) :
    (scan source).tokens.dropLast = (itemsOf 1 (tilesOf source)).filterMap Item.token? := by
  rw [tokens_scan, List.dropLast_concat]

/-- Numbers make no difference to what does not ask for them. -/
theorem flatMap_zipIdx {α β : Type} (f : α → List β) (xs : List α) (n : Nat) :
    ((xs.zipIdx n).flatMap fun x => f x.1) = xs.flatMap f := by
  rw [← List.flatMap_map Prod.fst f, List.zipIdx_map_fst]

/-- The last line of a listing. -/
def endLine : List Char := "EOF  nil\n".toList

/-- The token at the end has the last line of a listing, whatever its own line is. -/
theorem listing_append_endOfFile (tokens : List Token) (line : Nat) :
    Session.listing (tokens ++ [.endOfFile line]) = Session.listing tokens ++ endLine := by
  have hend : (Token.endOfFile line).render ++ ['\n'] = endLine := by
    show "EOF".toList ++ [' '] ++ [' ', 'n', 'i', 'l'] ++ ['\n'] = endLine
    decide
  rw [Session.listing, List.flatMap_append, List.flatMap_singleton, hend]
  rfl

section Lines

variable {text : List Char} (h : ∀ line ∈ textLines text, LeavesNothingOpen line)
include h

/-- The tokens of a text, in a listing, are those of its lines without their end marks. -/
theorem listing_scan_textLines :
    Session.listing (scan text).tokens =
      (textLines text).flatMap (fun line => Session.listing (scan line).tokens.dropLast) ++
        endLine := by
  have hitems := itemsOf_textLines h 0
  have hline (l : List Char × Nat) :
      Session.listing (((itemsOf 1 (tilesOf l.1)).map (Item.shift l.2)).filterMap Item.token?) =
        Session.listing (scan l.1).tokens.dropLast := by
    rw [filterMap_token?_shift, dropLast_tokens_scan, Session.listing, List.flatMap_map]
    rfl
  rw [tokens_scan, listing_append_endOfFile, ← Nat.add_zero 1, hitems, List.filterMap_flatMap,
    Session.listing, List.flatMap_assoc]
  refine congrArg (· ++ endLine) ((List.flatMap_congr fun l _ => hline l).trans ?_)
  exact flatMap_zipIdx (fun line => Session.listing (scan line).tokens.dropLast) _ 0

/-- The errors of a text are those of its lines, on the lines that these are. -/
theorem errors_scan_textLines :
    (scan text).sink.toList = (textLines text).zipIdx.flatMap fun l =>
      (scan l.1).sink.toList.map fun e => ⟨e.fault, l.2 + 1⟩ := by
  have hitems := itemsOf_textLines h 0
  rw [errors_scan, ← Nat.add_zero 1, hitems, List.filterMap_flatMap]
  refine List.flatMap_congr fun l hl => ?_
  have hnewline : '\n' ∉ l.1 := (mem_textLines (List.fst_mem_of_mem_zipIdx hl)).1
  rw [filterMap_error?_shift, ← errors_scan]
  refine List.map_congr_left fun e he => ?_
  rw [LexicalError.shift, line_of_mem_errors_scan hnewline he, Nat.add_comm]

end Lines

/-! ### Runs -/

namespace Session

/-- A run with accepted arguments, of which the log is kept back and the listing can be
written. -/
structure Quiet (world : Surroundings) (arguments : List (List Char)) (o : Options) : Prop where
  options : Options.parse arguments = .ok o
  verbosity : o.verbosity = 0
  rules : world.logRules = none
  output : world.outputFull = false

/-- Where only warnings are shown, all that a run says about lines of text without
backspaces is their tokens and their errors. -/
theorem outcome_linesTranscript {console : Console} (hfilter : console.filter = [.upTo .warn])
    {lines : List (List Char)} (hkeys : ∀ line ∈ lines, backspace ∉ line) :
    (linesTranscript false (lines.map Utf8.encode)).outcome console =
      .finished 0 (lines.flatMap fun line => listing (scan line).tokens)
        (lines.flatMap fun line => (scan line).sink.toList.flatMap Reporter.lineOf) := by
  have hasking : asking.errorText console = [] := by
    have hhidden : console.filter.shows askingRecord = false := isShown_log hfilter (Or.inr rfl)
    rw [errorText_asking, hhidden]
    rfl
  induction lines with
  | nil => exact congrArg (Outcome.finished 0 []) hasking
  | cons line rest ih =>
      obtain ⟨hhere, hlater⟩ := List.forall_mem_cons.mp hkeys
      obtain ⟨hcode, houtput, herrors⟩ := Outcome.finished.inj (ih hlater)
      have htaken := Typed.line?_of_not_mem hhere
      have hout : ComesOut false (Utf8.encode line) :=
        ⟨rfl, line, line, Utf8.decode?_encode line, htaken⟩
      have hline : ((Outlet.device false).listed line .success).errorText console =
          (scan line).sink.toList.flatMap Reporter.lineOf := by
        rw [listed_open, Transcript.errorText, filter_notes hfilter, List.flatMap_map]
        rfl
      have hlisting : ((Outlet.device false).listed line .success).output =
          listing (scan line).tokens := by
        rw [listed_open]
      have houtput' : (asking.andThen ((Outlet.device false).listed line .success)).output =
          listing (scan line).tokens :=
        (List.nil_append _).trans hlisting
      rw [List.map_cons, linesTranscript_cons_of_comesOut hout, Transcript.outcome_andThen,
        lineTranscript_of_comesOut (Utf8.decode?_encode line) htaken, hcode, houtput, herrors,
        Transcript.errorText_andThen, hasking, hline, houtput']
      rfl

/-- A run that is quiet and has a script lists the tokens of the text, if it is one, and
says its errors. -/
theorem run_script_text {world : Surroundings} {arguments : List (List Char)} {o : Options}
    {path text : List Char} (h : Quiet world arguments o) (hscript : o.script = some path)
    (hread : world.directory.read path = .ok (Utf8.encode text)) :
    run world arguments =
      .finished (if (scan text).sink.toList = [] then 0 else 65) (listing (scan text).tokens)
        ((scan text).sink.toList.flatMap Reporter.lineOf) := by
  have hdevice : OnDevice false (Outlet.device false).writer := ⟨rfl, rfl⟩
  have hrun := runOn_script h.options hscript h.verbosity h.rules hread (.device false)
  rw [Utf8.decodeLossy_encode] at hrun
  rw [run, h.output]
  refine hrun.trans ?_
  rw [hdevice.writePieces]
  rfl

/-- **The same text, as a script and line by line.**  Let no line of a text leave a string
or a comment open, and let there be no backspace in the text. If the one run reads the
text from standard input and the other as its script, they list the same tokens, but
that the one has an end mark for each line and the other a last one. They say the same
errors in the same order, the one on the first line and the other on the line of the text
that each of them is on, which alone has an influence on the exit code. -/
theorem run_text {world world' : Surroundings} {arguments arguments' : List (List Char)}
    {o o' : Options} {path text : List Char} (hprompt : Quiet world arguments o)
    (hnone : o.script = none) (hinput : world.input = Utf8.encode text)
    (hfile : Quiet world' arguments' o') (hscript : o'.script = some path)
    (hread : world'.directory.read path = .ok (Utf8.encode text))
    (hopen : ∀ line ∈ textLines text, LeavesNothingOpen line)
    (hkeys : backspace ∉ text) :
    let lines := textLines text
    let tokens (line : List Char) := (scan line).tokens.dropLast
    let errors := lines.zipIdx.flatMap fun l =>
      (scan l.1).sink.toList.map fun e => (⟨e.fault, l.2 + 1⟩ : LexicalError)
    (∀ line ∈ lines, (scan line).tokens = tokens line ++ [.endOfFile 1]) ∧
      run world arguments =
        .finished 0 (lines.flatMap fun line => listing (tokens line) ++ endLine)
          (errors.flatMap fun e => Reporter.lineOf { e with line := 1 }) ∧
      run world' arguments' =
        .finished (if errors = [] then 0 else 65)
          (lines.flatMap (fun line => listing (tokens line)) ++ endLine)
          (errors.flatMap Reporter.lineOf) := by
  intro lines tokens errors
  have htokens : ∀ line ∈ lines, (scan line).tokens = tokens line ++ [.endOfFile 1] := by
    intro line hline
    have hone : newlines line = 0 := List.count_eq_zero.mpr (mem_textLines hline).1
    rw [show tokens line = _ from dropLast_tokens_scan line, tokens_scan, hone]
  refine ⟨htokens, ?_, ?_⟩
  · have hclean : ∀ line ∈ lines, backspace ∉ line := fun line hline hmem =>
      hkeys ((mem_textLines hline).2 hmem)
    have hfilter : Log.Filter.ofVerbosity? o.verbosity world.logRules = some [.upTo .warn] := by
      rw [hprompt.verbosity, hprompt.rules]
      rfl
    have hlisting : lines.flatMap (fun line => listing (scan line).tokens) =
        lines.flatMap fun line => listing (tokens line) ++ endLine := by
      refine List.flatMap_congr fun line hline => ?_
      rw [htokens line hline, listing_append_endOfFile]
    have herrors : lines.flatMap (fun line => (scan line).sink.toList.flatMap Reporter.lineOf) =
        errors.flatMap fun e => Reporter.lineOf { e with line := 1 } := by
      rw [List.flatMap_assoc, ← flatMap_zipIdx _ lines 0]
      refine List.flatMap_congr fun l hl => ?_
      have hnewline : '\n' ∉ l.1 := (mem_textLines (List.fst_mem_of_mem_zipIdx hl)).1
      rw [List.flatMap_map]
      refine List.flatMap_congr fun e he => ?_
      rw [← line_of_mem_errors_scan hnewline he]
    have hrun := run_of_none hprompt.options hnone hfilter world.input
    refine Eq.trans hrun ?_
    rw [hinput, hprompt.output, Utf8.linesOf_encode, outcome_linesTranscript rfl hclean, hlisting,
      herrors]
  · rw [run_script_text hfile hscript hread, errors_scan_textLines hopen,
      listing_scan_textLines hopen]

/-- A comment in front of a return, a numeral with a point behind it, and the two halves
of a symbol, on lines of their own. -/
theorem run_text_halves :
    let text := "x # c\r\n1.\n5 <\r\n= @".toList
    let world : Surroundings :=
      { directory := ⟨[(['a'], Utf8.encode text)], []⟩, input := Utf8.encode text, logRules := none
        outputFull := false, stamp := [] }
    Quiet world [] {} ∧ Quiet world [['a']] { script := some ['a'] } ∧
      world.directory.read ['a'] = .ok (Utf8.encode text) ∧
      (∀ line ∈ textLines text, LeavesNothingOpen line) ∧ backspace ∉ text ∧
      run world [] = .finished 0
        ("IDENTIFIER x nil\nEOF  nil\nNUMBER 1 1\nDOT . nil\nEOF  nil\n".toList ++
          "NUMBER 5 5\nLESS < nil\nEOF  nil\nEQUAL = nil\nEOF  nil\n".toList)
        "[line 1] Error: Unexpected character '@'.\n".toList ∧
      run world [['a']] = .finished 65
        ("IDENTIFIER x nil\nNUMBER 1 1\nDOT . nil\n".toList ++
          "NUMBER 5 5\nLESS < nil\nEQUAL = nil\nEOF  nil\n".toList)
        "[line 4] Error: Unexpected character '@'.\n".toList := by
  intro text world
  have hprompt : Quiet world [] {} := ⟨by rfl, rfl, rfl, rfl⟩
  have hfile : Quiet world [['a']] { script := some ['a'] } := ⟨by rfl, rfl, rfl, rfl⟩
  have hread : world.directory.read ['a'] = .ok (Utf8.encode text) := by rfl
  have hopen : ∀ line ∈ textLines text, LeavesNothingOpen line := by
    unfold LeavesNothingOpen
    decide +kernel
  have hkeys : backspace ∉ text := by decide
  obtain ⟨-, hlines, hscript⟩ := run_text hprompt rfl rfl hfile rfl hread hopen hkeys
  exact ⟨hprompt, hfile, hread, hopen, hkeys, hlines.trans (by decide +kernel),
    hscript.trans (by decide +kernel)⟩

/-- A backspace takes back what was typed before it, and does not do so in a script. -/
theorem run_text_backspace :
    let text := ['a', 'b', backspace, 'c']
    let world : Surroundings :=
      { directory := ⟨[(['a'], Utf8.encode text)], []⟩, input := Utf8.encode text, logRules := none
        outputFull := false, stamp := [] }
    Quiet world [] {} ∧ Quiet world [['a']] { script := some ['a'] } ∧
      world.directory.read ['a'] = .ok (Utf8.encode text) ∧
      (∀ line ∈ textLines text, LeavesNothingOpen line) ∧
      run world [] = .finished 0 "IDENTIFIER ac nil\nEOF  nil\n".toList [] ∧
      run world [['a']] = .finished 65
        "IDENTIFIER ab nil\nIDENTIFIER c nil\nEOF  nil\n".toList
        "[line 1] Error: Unexpected character '\x08'.\n".toList := by
  intro text world
  have hopen : ∀ line ∈ textLines text, LeavesNothingOpen line := by
    unfold LeavesNothingOpen
    decide +kernel
  exact ⟨⟨by rfl, rfl, rfl, rfl⟩, ⟨by rfl, rfl, rfl, rfl⟩, by rfl, hopen, by decide +kernel,
    by decide +kernel⟩

end Session

end LoxLexer
