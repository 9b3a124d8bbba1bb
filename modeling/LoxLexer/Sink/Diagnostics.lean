import LoxLexer.Sink.Basic

/-!
# Collected errors

The plainest sink keeps every error that is reported to it, in order.  It
serves any number of scans, one after the other, and never forgets an error.
-/

namespace LoxLexer

/-- The errors reported so far. -/
structure Diagnostics where
  errors : Array LexicalError := #[]
deriving DecidableEq, Repr

namespace Diagnostics

/-- An error was reported. -/
def hadError (d : Diagnostics) : Bool := !d.errors.isEmpty

/-- The number of errors reported. -/
def size (d : Diagnostics) : Nat := d.errors.size

/-- No error was reported. -/
def isEmpty (d : Diagnostics) : Bool := d.errors.isEmpty

/-- The errors in the order in which they were reported. -/
def toList (d : Diagnostics) : List LexicalError := d.errors.toList

/-- Takes in one more error. -/
def report (d : Diagnostics) (e : LexicalError) : Diagnostics := ⟨d.errors.push e⟩

/-- Diagnostics as a sink. -/
def sink : Sink Diagnostics := .quiet report

end Diagnostics

/-- Scans a source into diagnostics of its own. -/
def scan (source : List Char) : Scan Diagnostics :=
  scanInto source Diagnostics.sink {}

end LoxLexer
