import LoxLexer.Token.Kind
import LoxLexer.Number.Shortest

/-!
# Tokens

A token records its kind, the characters it was read from, the value that
strings and numbers carry, and the line of its first character.

Two notions of sameness are kept apart.  `=` is identity of all four fields.
`Token.equal` compares numbers as numbers, so that a token whose literal is
no number differs from itself and the two zeros are one value.
-/

namespace LoxLexer

/-- The value that a token carries. -/
inductive Literal where
  | string (contents : List Char)
  | number (value : Binary64)
deriving DecidableEq, Repr

namespace Literal

/-- The text of a value: the contents of a string as they are, a number with
the fewest digits that read back. -/
def render : Literal → List Char
  | string contents => contents
  | number value => value.render

/-- Equality of values, with numbers compared as numbers. -/
def equal : Literal → Literal → Bool
  | string s, string t => s == t
  | number x, number y => x.equal y
  | _, _ => false

end Literal

/-- A token of the language. -/
structure Token where
  kind : Kind
  lexeme : List Char
  literal : Option Literal
  line : Nat
deriving DecidableEq, Repr

namespace Token

/-- The token that ends a list of tokens. It has no characters of its own. -/
def endOfFile (line : Nat) : Token := ⟨.endOfFile, [], none, line⟩

/-- The value of a token as text; tokens without a value show the word for none. -/
def renderLiteral (t : Token) : List Char :=
  match t.literal with
  | some l => l.render
  | none => ['n', 'i', 'l']

/-- A token as it is listed: the name of its kind, its characters and its
value, with a space between them. -/
def render (t : Token) : List Char :=
  t.kind.name.toList ++ ' ' :: t.lexeme ++ ' ' :: t.renderLiteral

/-- Equality of kind, characters, value and line, with numbers compared as numbers. -/
def equal (s t : Token) : Bool :=
  s.kind == t.kind && s.lexeme == t.lexeme && s.line == t.line &&
    match s.literal, t.literal with
    | none, none => true
    | some l, some m => l.equal m
    | _, _ => false

end Token

end LoxLexer
