import LoxLexer.Session.Run
import Std.Time.Format

/-!
# The command

The command on the system that it really runs on: bytes come from files and from
standard input, notes are shown as they arise, with the time, and writing fails for
causes that only the system knows.  What the command does with all that is said in
`Session.System`.
-/

namespace LoxLexer

namespace Session

/-- Advice on the use of the command. -/
def helpText : String :=
  "Print the tokens of a Lox script, or of each line typed at the prompt\n\n" ++
  "Usage: loxscan [OPTIONS] [SCRIPT]\n\n" ++
  "Arguments:\n" ++
  "  [SCRIPT]  Script to scan. Starts an interactive prompt when omitted\n\n" ++
  "Options:\n" ++
  "  -v, --verbose...  More log output (-v info, -vv debug, -vvv trace). Overrides RUST_LOG\n" ++
  "      --no-color    Disable colors in log output\n" ++
  "  -h, --help        Print help\n" ++
  "  -V, --version     Print version\n"

/-- The wording of a failure, with a capital, and the number that the system
gives it. Where the number has been handed on as a negative one, it is
counted down from the top of its range. -/
def wording (code : UInt32) (details : String) : List Char :=
  let number := if code < 0x80000000 then code else 0 - code
  details.capitalize.toList ++ " (os error ".toList ++ Nat.toDigits 10 number.toNat ++ [')']

/-- Why the system has failed. -/
def systemCause : IO.Error → List Char
  | .alreadyExists _ code details | .invalidArgument _ code details
  | .permissionDenied _ code details | .resourceExhausted _ code details
  | .inappropriateType _ code details | .noSuchThing _ code details
  | .noFileOrDirectory _ code details | .interrupted _ code details
  | .otherError code details | .resourceBusy code details
  | .resourceVanished code details | .unsupportedOperation code details
  | .hardwareFault code details | .unsatisfiedConstraints code details
  | .illegalOperation code details | .protocolError code details
  | .timeExpired code details => wording code details
  | .unexpectedEof => "unexpected end of file".toList
  | .userError message => message.toList

/-- Writes to standard error. There is nowhere to complain if that fails. -/
def tell (text : List Char) : IO Unit := do
  try (← IO.getStderr).putStr (String.ofList text) catch _ => pure ()

/-- The console as it is now. -/
def consoleNow (filter : Log.Filter) (color : Bool) : IO Console := do
  let now := Std.Time.DateTime.ofTimestampWithZone (← Std.Time.Timestamp.now) .UTC
  return ⟨filter, color, (now.format "uuuu-MM-dd'T'HH:mm:ss.SSSSSS'Z'").toList⟩

/-- Answers the lines of a stream as they arrive. What has been read of a line
that has no end yet is pending. -/
partial def answerStream (stream : IO.FS.Stream) (answer : List UInt8 → IO Status)
    (pending : List UInt8) : IO Status := do
  let chunk ← stream.read 4096
  if chunk.isEmpty then answerEach answer (linesOf pending)
  else
    match ← answerChunk answer pending chunk.toList with
    | .ok unended => answerStream stream answer unended
    | .error status => return status

/-- The system, with so much of the log shown, in colours or not. -/
def theSystem (filter : Log.Filter) (color : Bool) : System IO where
  content path := do
    try return .ok (← IO.FS.readBinFile (String.ofList path)).toList
    catch e => return .error (systemCause e)
  eachLine answer := do
    try return .ok (← answerStream (← IO.getStdin) answer [])
    catch e => return .error (systemCause e)
  write pieces := do
    try
      let output ← IO.getStdout
      for piece in pieces do
        output.write ⟨piece.toArray⟩
      output.flush
      return none
    catch e => return some (systemCause e)
  say notes := do
    let said : Transcript := ⟨[], notes, .success⟩
    tell (said.errorText (← consoleNow filter color))

/-- Gives advice, or says which version this is. -/
def advise (stop : Stop) : IO Unit := do
  let (stream, text) ← match stop with
    | .usage => pure (← IO.getStderr, helpText)
    | .help => pure (← IO.getStdout, helpText)
    | .version => pure (← IO.getStdout, String.ofList versionText)
  try stream.putStr text catch _ => pure ()

/-- Carries out a run of the command. -/
def carryOut (arguments : List (List Char)) : IO Nat := do
  let rules ← IO.getEnv "RUST_LOG"
  match start arguments (rules.map String.toList) with
  | .stopped stop =>
    advise stop
    return stop.code
  | .brokenDown =>
    tell (breakdownText ++ ['\n'])
    return Status.brokenDown.code
  | .begun o filter => return (← (theSystem filter o.color).conduct o.script).code

end Session

end LoxLexer

/-- Runs the command and exits with its code. -/
def main (arguments : List String) : IO UInt32 := do
  return UInt32.ofNat (← LoxLexer.Session.carryOut (arguments.map String.toList))
