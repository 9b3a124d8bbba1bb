import LoxLexer.Session.Arguments
import LoxLexer.Session.Transcript
import LoxLexer.Log.Written
import LoxLexer.Sink.Diagnostics
import LoxLexer.Text.Lines
import LoxLexer.Text.Typed

/-!
# What the command does

With a script, the command scans the script as a whole and lists its tokens.
Without one it does so for each line of standard input, and no line knows of
those before it.  Lines are taken as they were typed, with backspaces, and the
log says each time that one is asked for.

A listing that cannot be written ends a run, and so does a line that is not
text.  A script may hold any bytes: what is not text in it is read as the
replacement character, which no token contains outside strings.  A run breaks
down over texts that would have to be cut inside a character.

What is read and written, and in what way, is the business of a `System`.  The
command is said once for all systems: for the one that it really runs on, and
for one in memory, which `Session.Run` is about.
-/

namespace LoxLexer

namespace Session

/-! ### Before anything is read -/

/-- How a run starts. -/
inductive Start where
  /-- The arguments settle the run. -/
  | stopped (stop : Stop)
  /-- The written filter would have to be cut inside a character. -/
  | brokenDown
  /-- There is something to run, with this much of the log shown. -/
  | begun (options : Options) (filter : Log.Filter)

/-- How a run starts with these arguments, where this filter is written. -/
def start (arguments : List (List Char)) (rules : Option (List Char)) : Start :=
  match Options.parse arguments with
  | .error stop => .stopped stop
  | .ok o =>
    match Log.Filter.ofVerbosity? o.verbosity rules with
    | none => .brokenDown
    | some filter => .begun o filter

/-! ### What is said -/

/-- The name of the program and its version. -/
def versionText : List Char := "loxscan 0.1.0\n".toList

/-- The message of a run that breaks down. -/
def breakdownText : List Char := "a text was cut inside a character".toList

/-- Every token on a line of its own. -/
def listing (tokens : List Token) : List Char :=
  tokens.flatMap (fun t => t.render ++ ['\n'])

/-- The bytes of a listing, a line at a time. -/
def listingPieces (tokens : List Token) : List (List UInt8) :=
  tokens.map (fun t => Utf8.encode (t.render ++ ['\n']))

/-- The message about a listing that could not be written. -/
def unwrittenNotice (cause : List Char) : Note :=
  .notice ("Error: could not write tokens: ".toList ++ cause)

/-- The message about a script that could not be read. -/
def unopenedNotice (path cause : List Char) : Note :=
  .notice ("Could not read ".toList ++ path ++ ": ".toList ++ cause)

/-- The message about standard input that could not be read. It says why twice over. -/
def unreadableNotice (cause : List Char) : Note :=
  .notice ("Error: could not read from the prompt: ".toList ++ cause ++ ": ".toList ++ cause)

/-- Why a line that is not text cannot be read. -/
def notText : List Char := "stream did not contain valid UTF-8".toList

/-- The record about a script that is about to be scanned. -/
def openingRecord (path : List Char) (size : Nat) : Log.Record :=
  { level := .debug, target := "loxscan", message := "scanning file".toList
    fields := [("path", path), ("bytes", Nat.toDigits 10 size)] }

/-- The record about asking for a line where nobody is there to type one. -/
def askingRecord : Log.Record :=
  { level := .debug, target := "rustyline", message := "stdin is not a tty".toList, fields := []
    unshown := ["log.target", "log.module_path", "log.file", "log.line"] }

/-! ### What is done -/

/-- What a run asks of the system that it runs on. -/
structure System (m : Type → Type) where
  /-- Reads the bytes of a script, or says why that is impossible. -/
  content : List Char → m (Except (List Char) (List UInt8))
  /-- Hands on the lines of standard input as they arrive, as long as they come out well, and
  says how the last one came out, or why they cannot be read. -/
  eachLine : (List UInt8 → m Status) → m (Except (List Char) Status)
  /-- Writes on standard output, piece by piece, and says why that failed, if it did. -/
  write : List (List UInt8) → m (Option (List Char))
  /-- Says something on standard error. -/
  say : List Note → m Unit

section

variable {m : Type → Type} [Monad m]

/-- Answers lines one after the other, as long as they come out well. -/
def answerEach (answer : List UInt8 → m Status) : List (List UInt8) → m Status
  | [] => return .success
  | line :: rest => do
    match ← answer line with
    | .success => answerEach answer rest
    | status => return status

/-- Answers the lines that end in a chunk of input. What has been read of a line that has no
end yet is pending, and if no line came out otherwise than well, what is pending then is
returned. -/
def answerChunk (answer : List UInt8 → m Status) (pending chunk : List UInt8) :
    m (Except Status (List UInt8)) := do
  let (ended, unended) := splitEnded (pending ++ chunk)
  match ← answerEach answer (linesOf ended) with
  | .success => return .ok unended
  | status => return .error status

namespace System

variable (system : System m)

/-- Lists the tokens of a text. If the listing cannot be written, the errors
have been reported by then. -/
def listTokens (text : List Char) (whenErrors : Status) : m Status := do
  let result := scan text
  system.say (result.events.flatMap Note.ofEvent)
  match ← system.write (listingPieces result.tokens) with
  | some cause =>
    system.say [unwrittenNotice cause]
    return .ioError
  | none => return if result.sink.hadError then whenErrors else .success

/-- Scans a script. -/
def runScript (path : List Char) : m Status := do
  match ← system.content path with
  | .error cause =>
    system.say [unopenedNotice path cause]
    return .noInput
  | .ok bytes =>
    system.say [.log (openingRecord path bytes.length)]
    system.listTokens (Utf8.decodeLossy bytes) .dataError

/-- Asks for a line. -/
def ask : m Status := do
  system.say [.log askingRecord]
  return .success

/-- Scans one line. -/
def runLine (line : List UInt8) : m Status := do
  match Utf8.decode? line with
  | none =>
    system.say [unreadableNotice notText]
    return .ioError
  | some keys =>
    match Typed.line? keys with
    | none =>
      system.say [.notice breakdownText]
      return .brokenDown
    | some text => system.listTokens text .success

/-- Scans one line, and asks for the next one if that came out well. -/
def answer (line : List UInt8) : m Status := do
  match ← system.runLine line with
  | .success => system.ask
  | status => return status

/-- Asks for lines and scans them one after the other, until there are no more
or one does not come out well. -/
def runPrompt : m Status := do
  let _ ← system.ask
  match ← system.eachLine system.answer with
  | .ok status => return status
  | .error cause =>
    system.say [unreadableNotice cause]
    return .ioError

/-- Runs the command, with a script or without one. -/
def conduct (script : Option (List Char)) : m Status :=
  match script with
  | some path => system.runScript path
  | none => system.runPrompt

end System

end

end Session

end LoxLexer
