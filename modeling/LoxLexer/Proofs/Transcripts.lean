import LoxLexer.Proofs.InputLines
import LoxLexer.Proofs.Reporting
import LoxLexer.Session.Run

/-!
# Transcripts of what the command does

What the command does is said for all systems.  On a system in memory each part of it
leaves a transcript behind: what it writes and says does not depend on what has been
written and said before, and what follows it leaves its own transcript behind that one.

This holds as long as standard output takes all that is written, or nothing of it.
Where room runs out in between, a listing is cut off somewhere, and that ends a run
with a script; for such a run all that matters is whether the listing could be
written as a whole.

Lines are answered one after the other, so that it makes no difference in which
chunks they arrive.

* `transcriptOn_of_script`: the transcript of a run with a script, on any outlet.
* `transcript_of_none`: that of a run on the lines of standard input.
* `answerChunks_eq`: lines that arrive in chunks.
-/

namespace LoxLexer

namespace Writer

variable {w after : Writer}

/-- What has been written in pieces without failing is there as a whole. -/
theorem written_of_writePieces_none {pieces : List (List UInt8)}
    (h : w.writePieces pieces = (none, after)) :
    after = { w with written := w.written ++ pieces.flatten } := by
  by_cases hempty : pieces.flatten = []
  · rw [writePieces_of_flatten_nil hempty] at h
    obtain ⟨-, rfl⟩ := Prod.mk.inj h
    rw [hempty]
    simp
  · rw [writePieces_eq w hempty] at h
    exact (fitting_of_write_none h).2.2

end Writer

namespace Session

/-- The lines of a listing make up its bytes. -/
theorem flatten_listingPieces (tokens : List Token) :
    (listingPieces tokens).flatten = Utf8.encode (listing tokens) :=
  List.flatMap_assoc.symm

section System

variable (world : Surroundings) (cause : WriteFailure → List Char)

/-- In memory, what is said is kept behind the notes so far. -/
theorem run_say (notes : List Note) (traces : Traces) :
    ((world.system cause).say notes).run traces =
      pure ((), { traces with notes := traces.notes ++ notes }) :=
  rfl

/-- In memory, what is written is a matter of the writer, and no note. -/
theorem run_write (bytes : List (List UInt8)) (traces : Traces) :
    ((world.system cause).write bytes).run traces =
      pure ((traces.writer.writePieces bytes).1.map cause,
        { traces with writer := (traces.writer.writePieces bytes).2 }) :=
  rfl

/-- A listing says what the scan has to say, and at the end whether writing it has failed. -/
theorem run_listTokens (text : List Char) (whenErrors : Status) (w : Writer) (notes : Array Note) :
    ((world.system cause).listTokens text whenErrors).run ⟨w, notes⟩ =
      match w.writePieces (listingPieces (scan text).tokens) with
      | (some failure, after) =>
        pure (.ioError, ⟨after, notes ++ ((scan text).events.flatMap Note.ofEvent ++
          [unwrittenNotice (cause failure)])⟩)
      | (none, after) =>
        pure (if (scan text).sink.hadError then whenErrors else .success,
          ⟨after, notes ++ (scan text).events.flatMap Note.ofEvent⟩) := by
  have hassoc (front rest : List Note) : notes ++ front ++ rest = notes ++ (front ++ rest) :=
    Array.toList_inj.mp (by simp)
  rw [System.listTokens]
  simp only [StateT.run_bind, run_say, run_write, pure_bind]
  rcases w.writePieces (listingPieces (scan text).tokens) with ⟨_ | failure, after⟩
  · rfl
  · simp only [Option.map_some, StateT.run_bind, run_say, pure_bind, hassoc, StateT.run_pure]

end System

/-! ### What a device makes of a listing -/

/-- There is always a token to be listed, if only the one at the end. -/
theorem encode_listing_ne_nil (text : List Char) :
    Utf8.encode (listing (scan text).tokens) ≠ [] := by
  refine Utf8.encode_ne_nil ?_
  rw [tokens_scan, listing, List.flatMap_append]
  refine List.append_ne_nil_of_right_ne_nil _ ?_
  rw [List.flatMap_singleton]
  exact List.append_ne_nil_of_right_ne_nil _ (List.cons_ne_nil _ _)

/-- It makes no difference whether a listing is written token by token or as a whole. -/
theorem writePieces_listing (out : Writer) (text : List Char) :
    out.writePieces (listingPieces (scan text).tokens) =
      out.writeText (listing (scan text).tokens) := by
  have hne := encode_listing_ne_nil text
  rw [← flatten_listingPieces] at hne
  rw [out.writePieces_eq hne, flatten_listingPieces, Writer.writeText]

/-- The transcript of a text whose tokens are listed on an outlet. -/
def Outlet.listed (out : Outlet) (text : List Char) (whenErrors : Status) : Transcript :=
  let result := scan text
  let notes := result.events.flatMap Note.ofEvent
  match out.writer.writePieces (listingPieces result.tokens) with
  | (some failure, after) =>
    ⟨Utf8.decodeLossy after.written.toList, notes ++ [unwrittenNotice (out.cause failure)],
      .ioError⟩
  | (none, _) =>
    ⟨listing result.tokens, notes, if result.sink.hadError then whenErrors else .success⟩

/-- The transcript of a run with a script, given what reading it gave. -/
def scriptTranscript (out : Outlet) (path : List Char)
    (content : Except (List Char) (List UInt8)) : Transcript :=
  match content with
  | .error cause => ⟨[], [unopenedNotice path cause], .noInput⟩
  | .ok bytes =>
    let t := out.listed (Utf8.decodeLossy bytes) .dataError
    { t with notes := .log (openingRecord path bytes.length) :: t.notes }

/-- The transcript of a line that is asked for. -/
def asking : Transcript := ⟨[], [.log askingRecord], .success⟩

/-- The transcript of one line. -/
def lineTranscript (outputFull : Bool) (line : List UInt8) : Transcript :=
  match Utf8.decode? line with
  | none => ⟨[], [unreadableNotice notText], .ioError⟩
  | some keys =>
    match Typed.line? keys with
    | none => ⟨[], [.notice breakdownText], .brokenDown⟩
    | some text => (Outlet.device outputFull).listed text .success

/-- The transcript of lines that are asked for one after the other, as long as they come
out well. -/
def linesTranscript (outputFull : Bool) : List (List UInt8) → Transcript
  | [] => asking
  | line :: rest =>
    let t := asking.andThen (lineTranscript outputFull line)
    match t.status with
    | .success => t.andThen (linesTranscript outputFull rest)
    | _ => t

/-- What a run leaves is read off its traces. -/
theorem transcriptOn_eq {out : Outlet} {world : Surroundings} {o : Options} {status : Status}
    {traces : Traces}
    (h : ((world.system out.cause).conduct o.script).run ⟨out.writer, #[]⟩ =
      pure (status, traces)) :
    transcriptOn out world o = traces.transcript status := by
  rw [transcriptOn, h]
  rfl

/-- A run with a script has this transcript. -/
theorem transcriptOn_of_script {o : Options} {path : List Char} (hscript : o.script = some path)
    (out : Outlet) (world : Surroundings) :
    transcriptOn out world o =
      scriptTranscript out path ((world.directory.read path).mapError ReadFailure.message) := by
  have hcontent : ((world.system out.cause).content path).run ⟨out.writer, #[]⟩ =
      pure ((world.directory.read path).mapError ReadFailure.message, ⟨out.writer, #[]⟩) := rfl
  have hconduct : ((world.system out.cause).conduct o.script).run ⟨out.writer, #[]⟩ =
      ((world.system out.cause).runScript path).run ⟨out.writer, #[]⟩ := by rw [hscript]; rfl
  rw [System.runScript, StateT.run_bind, hcontent, pure_bind] at hconduct
  cases hread : (world.directory.read path).mapError ReadFailure.message with
  | error cause =>
    rw [hread] at hconduct
    rw [transcriptOn_eq hconduct, Traces.transcript]
    exact congrArg (Transcript.mk · _ _) (Utf8.decodeLossy_encode [])
  | ok bytes =>
    rw [hread] at hconduct
    simp only [StateT.run_bind, run_say, pure_bind, run_listTokens] at hconduct
    rw [scriptTranscript, Outlet.listed]
    rcases hwrite : out.writer.writePieces
      (listingPieces (scan (Utf8.decodeLossy bytes)).tokens) with ⟨_ | failure, after⟩
    · rw [hwrite] at hconduct
      have hwritten : after.written.toList =
          Utf8.encode (listing (scan (Utf8.decodeLossy bytes)).tokens) := by
        rw [Writer.written_of_writePieces_none hwrite, flatten_listingPieces]
        exact Array.toList_appendList
      rw [transcriptOn_eq hconduct, Traces.transcript, hwritten, Utf8.decodeLossy_encode]
      simp
    · rw [hwrite] at hconduct
      rw [transcriptOn_eq hconduct, Traces.transcript]
      simp

/-! ### Lines on a device -/

/-- The writer writes on a device, which may be full. -/
structure OnDevice (isFull : Bool) (w : Writer) : Prop where
  limit_eq : w.limit = if isFull then some 0 else none
  isBroken_eq : w.isBroken = false

/-- The writer with a text behind what it has written. -/
def extended (w : Writer) (text : List Char) : Writer :=
  { w with written := w.written ++ Utf8.encode text }

@[simp] theorem extended_nil (w : Writer) : extended w [] = w := by
  simp [extended]

/-- Two texts, one behind the other, are written as one. -/
theorem extended_append (w : Writer) (front rest : List Char) :
    extended (extended w front) rest = extended w (front ++ rest) := by
  have hassoc : w.written ++ Utf8.encode front ++ Utf8.encode rest =
      w.written ++ Utf8.encode (front ++ rest) :=
    Array.toList_inj.mp (by simp)
  simp only [extended, hassoc]

namespace Transcript

variable (t u v : Transcript)

theorem andThen_assoc : (t.andThen u).andThen v = t.andThen (u.andThen v) := by
  simp [andThen]

end Transcript

section Device

variable {isFull : Bool} {w : Writer}

theorem OnDevice.extended (h : OnDevice isFull w) (text : List Char) :
    OnDevice isFull (extended w text) :=
  ⟨h.limit_eq, h.isBroken_eq⟩

/-- A device that is full takes nothing of a listing, and any other takes it as a whole. -/
theorem OnDevice.writePieces (h : OnDevice isFull w) (text : List Char) :
    w.writePieces (listingPieces (scan text).tokens) =
      if isFull then (some .full, w)
      else (none, Session.extended w (listing (scan text).tokens)) := by
  have hpos := List.length_pos_iff.mpr (encode_listing_ne_nil text)
  obtain ⟨written, limit, isBroken⟩ := w
  obtain ⟨rfl, rfl⟩ := h
  rw [writePieces_listing, Writer.writeText, Writer.write_of_working rfl]
  cases isFull with
  | true =>
    have hfull : 0 < (Utf8.encode (listing (scan text).tokens)).length := hpos
    simp [Writer.fitting, hfull]
  | false => simp [Writer.fitting, Session.extended]

/-- On a device that is full, a listing fails, and the errors have been said by then. -/
theorem listed_full (text : List Char) (whenErrors : Status) :
    (Outlet.device true).listed text whenErrors =
      ⟨[], (scan text).events.flatMap Note.ofEvent ++ [unwrittenNotice deviceFull], .ioError⟩ := by
  have hdevice : OnDevice true (Outlet.device true).writer := ⟨rfl, rfl⟩
  rw [Outlet.listed, hdevice.writePieces]
  exact congrArg (Transcript.mk · _ _) (Utf8.decodeLossy_encode [])

/-- On a device that is not full, the listing is there as a whole. -/
theorem listed_open (text : List Char) (whenErrors : Status) :
    (Outlet.device false).listed text whenErrors =
      ⟨listing (scan text).tokens, (scan text).events.flatMap Note.ofEvent,
        if (scan text).sink.hadError then whenErrors else .success⟩ := by
  have hdevice : OnDevice false (Outlet.device false).writer := ⟨rfl, rfl⟩
  rw [Outlet.listed, hdevice.writePieces]
  rfl

/-- From this writer on a part of a run leaves a transcript behind. -/
def Leaves (w : Writer) (part : StateM Traces Status) (t : Transcript) : Prop :=
  ∀ notes, part.run ⟨w, notes⟩ = pure (t.status, ⟨extended w t.output, notes ++ t.notes⟩)

/-- What follows a part of a run leaves its transcript behind that of the part. -/
theorem Leaves.bind {part : StateM Traces Status} {next : Status → StateM Traces Status}
    {t u : Transcript} (h : Leaves w part t)
    (hnext : Leaves (extended w t.output) (next t.status) u) :
    Leaves w (part >>= next) (t.andThen u) := by
  intro notes
  have hnotes : notes ++ t.notes ++ u.notes = notes ++ (t.notes ++ u.notes) :=
    Array.toList_inj.mp (by simp)
  rw [StateT.run_bind, h notes, pure_bind, hnext, extended_append, hnotes]
  rfl

/-- What follows a part of a run only if that comes out well has a say only then. -/
theorem Leaves.bind_success {part next : StateM Traces Status} {t u : Transcript}
    (h : Leaves w part t) (hnext : Leaves (Session.extended w t.output) next u) :
    Leaves w
      (part >>= fun status =>
        match status with
        | .success => next
        | status => pure status)
      (match t.status with
      | .success => t.andThen u
      | _ => t) := by
  by_cases hstatus : t.status = .success
  · rw [hstatus]
    refine h.bind ?_
    rw [hstatus]
    exact hnext
  · have hsame : (match t.status with
        | .success => t.andThen u
        | _ => t) = t := by
      split
      · next heq => exact absurd heq hstatus
      · rfl
    intro notes
    rw [hsame, StateT.run_bind, h notes, pure_bind]
    dsimp only
    split
    · next heq => exact absurd heq hstatus
    · rfl

variable (world : Surroundings)

/-- Only to say something leaves that behind. -/
theorem leaves_say (notes : List Note) (status : Status) (w : Writer)
    (cause : WriteFailure → List Char) :
    Leaves w (do (world.system cause).say notes; return status) ⟨[], notes, status⟩ := by
  intro earlier
  simp only [StateT.run_bind, run_say, pure_bind, StateT.run_pure, extended_nil]

theorem Leaves.pure (status : Status) (w : Writer) :
    Leaves w (Pure.pure status) ⟨[], [], status⟩ := by
  intro earlier
  simp

/-- On a device, a listing leaves its transcript behind. -/
theorem leaves_listTokens (h : OnDevice isFull w) (text : List Char) (whenErrors : Status) :
    Leaves w ((world.system (Outlet.device isFull).cause).listTokens text whenErrors)
      ((Outlet.device isFull).listed text whenErrors) := by
  intro notes
  rw [run_listTokens, h.writePieces]
  cases isFull with
  | true =>
    rw [listed_full]
    simp [extended, Outlet.device]
  | false =>
    rw [listed_open]
    rfl

/-- On a device, a line leaves its transcript behind. -/
theorem leaves_runLine (h : OnDevice isFull w) (line : List UInt8) :
    Leaves w ((world.system (Outlet.device isFull).cause).runLine line)
      (lineTranscript isFull line) := by
  rw [System.runLine, lineTranscript]
  cases Utf8.decode? line with
  | none => exact leaves_say world _ _ w _
  | some keys =>
    dsimp only
    cases Typed.line? keys with
    | none => exact leaves_say world _ _ w _
    | some text => exact leaves_listTokens world h text .success

/-- Lines leave the transcript of a run on lines behind, if one is asked for first. -/
theorem leaves_answerEach (h : OnDevice isFull w) (lines : List (List UInt8)) :
    let system := world.system (Outlet.device isFull).cause
    Leaves w (system.ask >>= fun _ => answerEach system.answer lines)
      (linesTranscript isFull lines) := by
  intro system
  have hask (w : Writer) : Leaves w system.ask asking := leaves_say world _ _ w _
  induction lines generalizing w with
  | nil => exact (hask w).bind (Leaves.pure _ _)
  | cons line rest ih =>
    have hround : (system.ask >>= fun _ => answerEach system.answer (line :: rest)) =
        (system.ask >>= fun _ => system.runLine line) >>= fun status =>
          match status with
          | .success => system.ask >>= fun _ => answerEach system.answer rest
          | status => pure status := by
      -- The request behind a line goes to the lines that follow, so that all rounds begin alike.
      rw [bind_assoc]
      refine bind_congr fun _ => ?_
      rw [answerEach, System.answer, bind_assoc]
      refine bind_congr fun status => ?_
      cases status <;> simp [System.ask]
    have hline : Leaves w (system.ask >>= fun _ => system.runLine line)
        (asking.andThen (lineTranscript isFull line)) :=
      (hask w).bind (leaves_runLine world (h.extended asking.output) line)
    rw [hround]
    exact hline.bind_success (ih (h.extended _))

/-- A run without a script has the transcript of the lines of its input. -/
theorem transcript_of_none {o : Options} (hscript : o.script = none) :
    transcript world o = linesTranscript world.outputFull (linesOf world.input) := by
  have hfresh : OnDevice world.outputFull (Outlet.device world.outputFull).writer := ⟨rfl, rfl⟩
  have hlines := leaves_answerEach world hfresh (linesOf world.input) #[]
  have hprompt : (world.system (Outlet.device world.outputFull).cause).conduct o.script =
      (world.system (Outlet.device world.outputFull).cause).ask >>= fun _ =>
        answerEach (world.system (Outlet.device world.outputFull).cause).answer
          (linesOf world.input) := by
    rw [hscript]
    simp [System.conduct, System.runPrompt, Surroundings.system]
  rw [← hprompt] at hlines
  have houtput : (extended (Outlet.device world.outputFull).writer
      (linesTranscript world.outputFull (linesOf world.input)).output).written.toList =
        Utf8.encode (linesTranscript world.outputFull (linesOf world.input)).output :=
    Array.toList_appendList
  rw [transcript, transcriptOn_eq hlines, Traces.transcript, houtput, Utf8.decodeLossy_encode]
  simp

end Device

/-! ### Lines as they arrive -/

section Arrival

variable {m : Type → Type} [Monad m] [LawfulMonad m] (answer : List UInt8 → m Status)

/-- Answers the lines of input that arrives in chunks. -/
def answerChunks (pending : List UInt8) : List (List UInt8) → m Status
  | [] => answerEach answer (linesOf pending)
  | chunk :: chunks => do
    match ← answerChunk answer pending chunk with
    | .ok unended => answerChunks unended chunks
    | .error status => return status

/-- To answer two rows of lines is to answer one, and the other if that came out well. -/
theorem answerEach_append (front rest : List (List UInt8)) :
    answerEach answer (front ++ rest) = answerEach answer front >>= fun status =>
      match status with
      | .success => answerEach answer rest
      | status => pure status := by
  induction front with
  | nil => simp [answerEach]
  | cons line front ih =>
    rw [List.cons_append, answerEach, answerEach, bind_assoc]
    refine bind_congr fun status => ?_
    cases status <;> simp [ih]

/-- **Input that arrives in chunks.**  However input is cut into chunks, its lines are
answered as if it had been there as a whole. -/
theorem answerChunks_eq (pending : List UInt8) (chunks : List (List UInt8)) :
    answerChunks answer pending chunks =
      answerEach answer (linesOf (pending ++ chunks.flatten)) := by
  induction chunks generalizing pending with
  | nil => rw [answerChunks, List.flatten_nil, List.append_nil]
  | cons chunk chunks ih =>
    obtain ⟨hsplit, hended⟩ := splitEnded_cases (pending ++ chunk)
    have hlines : linesOf (pending ++ (chunk :: chunks).flatten) =
        linesOf (splitEnded (pending ++ chunk)).1 ++
          linesOf ((splitEnded (pending ++ chunk)).2 ++ chunks.flatten) := by
      rw [← linesOf_append hended, ← List.append_assoc, hsplit, List.flatten_cons,
        List.append_assoc]
    rw [answerChunks, answerChunk, hlines, answerEach_append, bind_assoc]
    refine bind_congr fun status => ?_
    cases status <;> simp [ih]

end Arrival

end Session

end LoxLexer
