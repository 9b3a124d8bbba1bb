/-!
# Lexical errors

A fault is what is wrong with a stretch of the source; a lexical error is a
fault and the line it is reported on.  Errors are values and never stop a
scan.  `Fault.message` holds the wording, `LexicalError.render` puts the line
in front of it.
-/

namespace LoxLexer

/-- What is wrong with a stretch of the source. -/
inductive Fault where
  | unexpectedCharacter (c : Char)
  | unterminatedString
  | unterminatedBlockComment
  | invalidNumber (text : List Char)
deriving DecidableEq, Repr

/-- The wording of a fault, without its place. -/
def Fault.message : Fault → List Char
  | unexpectedCharacter c => "Unexpected character '".toList ++ c :: "'.".toList
  | unterminatedString => "Unterminated string.".toList
  | unterminatedBlockComment => "Unterminated block comment.".toList
  | invalidNumber text => "Could not convert ".toList ++ text ++ " into a number.".toList

/-- A fault and the line on which it is reported. -/
structure LexicalError where
  fault : Fault
  line : Nat
deriving DecidableEq, Repr

/-- The line of an error and its wording. -/
def LexicalError.render (e : LexicalError) : List Char :=
  "[line ".toList ++ Nat.toDigits 10 e.line ++ "] Error: ".toList ++ e.fault.message

end LoxLexer
