import LoxLexer.Log.Pattern.Group

/-!
# Demands on values

What a rule may ask of a value is written as a truth value, a number or a
pattern.  A truth value is a pattern like any other word, but not every number
is one: a sign in front of it would have nothing to repeat.
-/

namespace LoxLexer

namespace Log

namespace Demand

/-- A number without its sign. -/
def unsigned : List Char → List Char
  | '+' :: cs | '-' :: cs => cs
  | cs => cs

/-- The digits of a power of ten, with or without a sign, or no power at all. -/
def isExponent : List Char → Bool
  | [] => true
  | 'e' :: cs | 'E' :: cs =>
    let digits := unsigned cs
    !digits.isEmpty && digits.all Char.isDigit
  | _ => false

/-- Digits, a point among or beside them, and a power of ten. Only the digits
must be there. -/
def isDecimal (cs : List Char) : Bool :=
  let whole := cs.takeWhile Char.isDigit
  match cs.dropWhile Char.isDigit with
  | '.' :: rest =>
    !(whole.isEmpty && (rest.takeWhile Char.isDigit).isEmpty) &&
      isExponent (rest.dropWhile Char.isDigit)
  | rest => !whole.isEmpty && isExponent rest

/-- A decimal number, infinity, or what is no number, by the word for it in any
case, each with or without a sign. -/
def isNumber (text : List Char) : Bool :=
  let cs := unsigned text
  isDecimal cs ||
    ["inf", "infinity", "nan"].any (fun word => word.toList = cs.map Char.toLower)

/-- The demand can be read. -/
def isReadable (text : List Char) : Bool := isNumber text || Pattern.isReadable text

end Demand

end Log

end LoxLexer
