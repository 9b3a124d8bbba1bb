/-!
# Reserved words

Sixteen words are keywords and cannot name anything.  A keyword is written in
lower case and in no other way: `ofWord?` compares whole words, character by
character, so neither a part of a keyword nor a longer word that begins with
one is reserved.
-/

namespace LoxLexer

/-- A reserved word. -/
inductive Keyword where
  | andWord | classWord | elseWord | falseWord
  | funWord | forWord | ifWord | nilWord
  | orWord | printWord | returnWord | superWord
  | thisWord | trueWord | varWord | whileWord
deriving DecidableEq, Repr

namespace Keyword

/-- All keywords, in the order of their declaration. -/
def all : List Keyword :=
  [andWord, classWord, elseWord, falseWord, funWord, forWord, ifWord, nilWord,
   orWord, printWord, returnWord, superWord, thisWord, trueWord, varWord, whileWord]

theorem mem_all (k : Keyword) : k ∈ all := by
  cases k <;> decide

/-- The characters that a keyword is written with. -/
def spelling : Keyword → List Char
  | andWord => ['a', 'n', 'd']
  | classWord => ['c', 'l', 'a', 's', 's']
  | elseWord => ['e', 'l', 's', 'e']
  | falseWord => ['f', 'a', 'l', 's', 'e']
  | funWord => ['f', 'u', 'n']
  | forWord => ['f', 'o', 'r']
  | ifWord => ['i', 'f']
  | nilWord => ['n', 'i', 'l']
  | orWord => ['o', 'r']
  | printWord => ['p', 'r', 'i', 'n', 't']
  | returnWord => ['r', 'e', 't', 'u', 'r', 'n']
  | superWord => ['s', 'u', 'p', 'e', 'r']
  | thisWord => ['t', 'h', 'i', 's']
  | trueWord => ['t', 'r', 'u', 'e']
  | varWord => ['v', 'a', 'r']
  | whileWord => ['w', 'h', 'i', 'l', 'e']

/-- The name under which a keyword is listed. -/
def name : Keyword → String
  | andWord => "AND"
  | classWord => "CLASS"
  | elseWord => "ELSE"
  | falseWord => "FALSE"
  | funWord => "FUN"
  | forWord => "FOR"
  | ifWord => "IF"
  | nilWord => "NIL"
  | orWord => "OR"
  | printWord => "PRINT"
  | returnWord => "RETURN"
  | superWord => "SUPER"
  | thisWord => "THIS"
  | trueWord => "TRUE"
  | varWord => "VAR"
  | whileWord => "WHILE"

/-- The keyword that is spelt exactly like this word. -/
def ofWord? (word : List Char) : Option Keyword :=
  all.find? (fun k => k.spelling == word)

/-- A word is a keyword exactly when it is the spelling of one. -/
theorem ofWord?_eq_some_iff {word : List Char} {k : Keyword} :
    ofWord? word = some k ↔ k.spelling = word := by
  constructor
  · intro h
    simpa using List.find?_some h
  · rintro rfl
    cases k <;> decide

end Keyword

end LoxLexer
