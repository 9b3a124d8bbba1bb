import LoxLexer.Log.Record

/-!
# Log lines

The text of a log record: a time stamp, the level in a column of five, the
message, and the values by name.  On a terminal the stamp is dim, the level is
coloured, and the names of values are slanted; otherwise the line is plain.

Messages may quote the source, so the control characters that a terminal
would act on are written out in them.
-/

namespace LoxLexer

namespace Log

/-- The digits of a number to the base sixteen. -/
def hexDigits (n : Nat) : List Char := Nat.toDigits 16 n

/-- A character of a message, written out if a terminal would act on it. -/
def escapeControl (c : Char) : List Char :=
  let n := c.toNat
  if n = 0x07 ∨ n = 0x08 ∨ n = 0x0c then "\\x0".toList ++ hexDigits n
  else if n = 0x1b ∨ n = 0x7f then "\\x".toList ++ hexDigits n
  else if 0x80 ≤ n ∧ n ≤ 0x9f then "\\u\x7b".toList ++ hexDigits n ++ ['\x7d']
  else [c]

/-- The colour of a level, as a terminal numbers its colours. -/
def Level.color : Level → String
  | .error => "31"
  | .warn => "33"
  | .info => "32"
  | .debug => "34"
  | .trace => "35"

/-- The name of a level, moved to the right in a column of five. -/
def Level.column (l : Level) : List Char :=
  let name := l.name.toList
  List.replicate (5 - name.length) ' ' ++ name

/-- A text between the marks that switch a style on and off, if lines are styled. -/
def styled (color : Bool) (style : String) (text : List Char) : List Char :=
  if color then "\x1b[".toList ++ style.toList ++ 'm' :: text ++ "\x1b[0m".toList else text

/-- A value by its name. -/
def fieldText (color : Bool) (field : String × List Char) : List Char :=
  styled color "3" field.1.toList ++ styled color "2" ['='] ++ field.2

/-- A record as one line, without the end of the line. -/
def Record.render (r : Record) (color : Bool) (stamp : List Char) : List Char :=
  styled color "2" stamp ++ ' ' :: styled color r.level.color r.level.column ++
    ' ' :: r.message.flatMap escapeControl ++
    r.fields.flatMap (fun field => ' ' :: fieldText color field)

end Log

end LoxLexer
