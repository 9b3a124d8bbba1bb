/-!
# Operators and punctuation

The twenty-two symbols of the language, their spellings and their names.
Every symbol is spelt with one or two characters, and the first character of
a two-character symbol is a symbol by itself.  Reading the longest symbol at
the front of a text therefore needs one character of lookahead: `ofPair?`
is asked first and `ofChar?` after it.
-/

namespace LoxLexer

/-- An operator or a punctuation mark. -/
inductive Symbol where
  | leftParen | rightParen | leftBrace | rightBrace
  | comma | dot | minus | plus | semicolon | percent
  | bang | bangEqual | equal | equalEqual
  | greater | greaterEqual | less | lessEqual
  | slash | doubleSlash | star | power
deriving DecidableEq, Repr

namespace Symbol

/-- All symbols, in the order of their declaration. -/
def all : List Symbol :=
  [leftParen, rightParen, leftBrace, rightBrace,
   comma, dot, minus, plus, semicolon, percent,
   bang, bangEqual, equal, equalEqual,
   greater, greaterEqual, less, lessEqual,
   slash, doubleSlash, star, power]

theorem mem_all (s : Symbol) : s ∈ all := by
  cases s <;> decide

/-- The characters that a symbol is written with. -/
def spelling : Symbol → List Char
  | leftParen => ['(']
  | rightParen => [')']
  | leftBrace => ['\x7b']
  | rightBrace => ['\x7d']
  | comma => [',']
  | dot => ['.']
  | minus => ['-']
  | plus => ['+']
  | semicolon => [';']
  | percent => ['%']
  | bang => ['!']
  | bangEqual => ['!', '=']
  | equal => ['=']
  | equalEqual => ['=', '=']
  | greater => ['>']
  | greaterEqual => ['>', '=']
  | less => ['<']
  | lessEqual => ['<', '=']
  | slash => ['/']
  | doubleSlash => ['/', '/']
  | star => ['*']
  | power => ['*', '*']

/-- The name under which a symbol is listed. -/
def name : Symbol → String
  | leftParen => "LEFT_PAREN"
  | rightParen => "RIGHT_PAREN"
  | leftBrace => "LEFT_BRACE"
  | rightBrace => "RIGHT_BRACE"
  | comma => "COMMA"
  | dot => "DOT"
  | minus => "MINUS"
  | plus => "PLUS"
  | semicolon => "SEMICOLON"
  | percent => "PERCENT"
  | bang => "BANG"
  | bangEqual => "BANG_EQUAL"
  | equal => "EQUAL"
  | equalEqual => "EQUAL_EQUAL"
  | greater => "GREATER"
  | greaterEqual => "GREATER_EQUAL"
  | less => "LESS"
  | lessEqual => "LESS_EQUAL"
  | slash => "SLASH"
  | doubleSlash => "DOUBLE_SLASH"
  | star => "STAR"
  | power => "POWER"

/-- The symbol that is written with this one character. -/
def ofChar? : Char → Option Symbol
  | '(' => some leftParen
  | ')' => some rightParen
  | '\x7b' => some leftBrace
  | '\x7d' => some rightBrace
  | ',' => some comma
  | '.' => some dot
  | '-' => some minus
  | '+' => some plus
  | ';' => some semicolon
  | '%' => some percent
  | '!' => some bang
  | '=' => some equal
  | '>' => some greater
  | '<' => some less
  | '/' => some slash
  | '*' => some star
  | _ => none

/-- The symbol that is written with these two characters. -/
def ofPair? : Char → Char → Option Symbol
  | '!', '=' => some bangEqual
  | '=', '=' => some equalEqual
  | '>', '=' => some greaterEqual
  | '<', '=' => some lessEqual
  | '/', '/' => some doubleSlash
  | '*', '*' => some power
  | _, _ => none

/-- A symbol that one character stands for is spelled with that character. -/
theorem spelling_of_ofChar? {c : Char} {s : Symbol} (h : ofChar? c = some s) :
    s.spelling = [c] := by
  unfold ofChar? at h
  split at h <;> cases h <;> rfl

/-- A symbol that two characters stand for is spelled with these two. -/
theorem spelling_of_ofPair? {c d : Char} {s : Symbol} (h : ofPair? c d = some s) :
    s.spelling = [c, d] := by
  unfold ofPair? at h
  split at h <;> cases h <;> rfl

end Symbol

end LoxLexer
