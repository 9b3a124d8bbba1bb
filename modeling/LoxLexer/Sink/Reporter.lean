import LoxLexer.Sink.Basic

/-!
# Reporting errors to a writer

A reporter writes each error on a line of its own as soon as it is reported.
A failed write is noted in the log and otherwise ignored: the error counts as
reported, and the next one is tried afresh.
-/

namespace LoxLexer

/-- A writer for errors, and whether there were any. -/
structure Reporter where
  writer : Writer := {}
  hadError : Bool := false
deriving DecidableEq, Repr

/-- What can be asked of a reporter: to take in the errors of a scan or a
single error, and to have its writer break down or work again. -/
inductive Reporter.Command where
  | scan (source : List Char)
  | report (error : LexicalError)
  | breakWriter
  | mendWriter
deriving DecidableEq, Repr

namespace Reporter

/-- The line that is written for an error. -/
def lineOf (e : LexicalError) : List Char := e.render ++ ['\n']

/-- Writes an error down. A failure becomes an event. -/
def report (r : Reporter) (e : LexicalError) : Reporter × List Event :=
  let (failure, writer) := r.writer.writeText (lineOf e)
  (⟨writer, true⟩, (failure.map Event.writeFailed).toList)

/-- A reporter as a sink. -/
def sink : Sink Reporter := ⟨report⟩

/-- Carries out a command: the tokens, if it was a scan, the reporter after it
and the events. -/
def perform (r : Reporter) : Command → Option (List Token) × Reporter × List Event
  | .scan source =>
    let result := scanInto source sink r
    (some result.tokens, result.sink, result.events)
  | .report e => (none, r.report e)
  | .breakWriter => (none, { r with writer := { r.writer with isBroken := true } }, [])
  | .mendWriter => (none, { r with writer := { r.writer with isBroken := false } }, [])

end Reporter

end LoxLexer
