import LoxLexer.Log.Record
import LoxLexer.Cursor.Basic
import LoxLexer.Sink.Writer

/-!
# Events of a scan

A scan leaves a trail: an event for each token and each error, in the order of
the source, and one at the end that counts them.  A sink that cannot write
down an error adds an event of its own.  `Event.record` is an event as an
entry of a log.
-/

namespace LoxLexer

/-- Something that happens during a scan. -/
inductive Event where
  | token (kind : Kind) (line : Nat)
  | error (error : LexicalError)
  | writeFailed (failure : WriteFailure)
  | finished (tokens errors lines : Nat)
deriving DecidableEq, Repr

namespace Event

/-- The part of the program that the events of a scan come from. -/
def scanTarget : String := "lox_scan::scanner"

/-- The part of the program that failures of a sink come from. -/
def reportTarget : String := "lox_scan::report"

/-- An event as an entry of a log. -/
def record : Event → Log.Record
  | token kind line =>
    { level := .trace, target := scanTarget, message := "token".toList
      fields := [("kind", kind.name.toList), ("line", Nat.toDigits 10 line)] }
  | error e =>
    { level := .trace, target := scanTarget, message := e.fault.message
      fields := [("line", Nat.toDigits 10 e.line)] }
  | writeFailed failure =>
    { level := .warn, target := reportTarget
      message := "failed to write diagnostic: ".toList ++ failure.message, fields := [] }
  | finished tokens errors lines =>
    { level := .debug, target := scanTarget, message := "scan finished".toList
      fields := [("tokens", Nat.toDigits 10 tokens), ("errors", Nat.toDigits 10 errors),
        ("lines", Nat.toDigits 10 lines)] }

end Event

end LoxLexer
