import LoxLexer.Token.Symbol
import LoxLexer.Token.Keyword

/-!
# Kinds of tokens

A token is a symbol, a keyword, an identifier, a string, a number, or the mark
that ends every token list.  `Kind.name` is the name under which a kind is
listed; no two kinds share one.
-/

namespace LoxLexer

/-- What a token is, apart from the text it was written with. -/
inductive Kind where
  | symbol (symbol : Symbol)
  | keyword (keyword : Keyword)
  | identifier
  | string
  | number
  | endOfFile
deriving DecidableEq, Repr

namespace Kind

/-- All kinds: the symbols, the keywords and the four others. -/
def all : List Kind :=
  Symbol.all.map symbol ++ Keyword.all.map keyword ++ [identifier, string, number, endOfFile]

theorem mem_all (k : Kind) : k ∈ all := by
  cases k with
  | symbol s => simp [all, Symbol.mem_all]
  | keyword w => simp [all, Keyword.mem_all]
  | _ => simp [all]

/-- The name under which a kind is listed. -/
def name : Kind → String
  | symbol s => s.name
  | keyword k => k.name
  | identifier => "IDENTIFIER"
  | string => "STRING"
  | number => "NUMBER"
  | endOfFile => "EOF"

/-- The kind of a word: a keyword if it is spelt like one, else an identifier. -/
def ofWord (word : List Char) : Kind :=
  match Keyword.ofWord? word with
  | some k => keyword k
  | none => identifier

end Kind

end LoxLexer
