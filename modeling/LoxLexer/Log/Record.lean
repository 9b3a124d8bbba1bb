/-!
# Log records

A record is one entry of a log before it is written anywhere: how grave it
is, which part of the program it comes from, a message, and named values.
Levels are ordered by how much they tell: an error is let through wherever a
trace is.
-/

namespace LoxLexer

namespace Log

/-- How grave an entry is. -/
inductive Level where
  | error | warn | info | debug | trace
deriving DecidableEq, Repr

namespace Level

/-- The place of a level in the order of telling more and more, from one to five. -/
def rank : Level → Nat
  | error => 1
  | warn => 2
  | info => 3
  | debug => 4
  | trace => 5

/-- The name that a log line shows. -/
def name : Level → String
  | error => "ERROR"
  | warn => "WARN"
  | info => "INFO"
  | debug => "DEBUG"
  | trace => "TRACE"

end Level

/-- One entry of a log. -/
structure Record where
  level : Level
  target : String
  message : List Char
  /-- The values, in the order in which they are shown. -/
  fields : List (String × List Char)
  /-- The names of values that the entry also has and that are not shown. -/
  unshown : List String := []
deriving DecidableEq, Repr

/-- The entry has a value of this name. Every entry has its message. -/
def Record.Names (r : Record) (name : List Char) : Prop :=
  name ∈ ("message" :: r.fields.map Prod.fst ++ r.unshown).map String.toList

instance (r : Record) (name : List Char) : Decidable (r.Names name) := by
  unfold Record.Names
  infer_instance

end Log

end LoxLexer
