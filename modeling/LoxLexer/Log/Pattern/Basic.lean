import LoxLexer.Text.Letter

/-!
# The parts of patterns

A rule of a log filter may ask for a value by a pattern, in the customary
notation of regular expressions.  No value of the program is ever held against
one, so all that matters about a pattern is whether it can be read, and for
that these rules.

* A pattern speaks of characters or, when it is so switched, of bytes.  What
  it matches is text in either case: a pattern of bytes that could match
  something else is not read.
* There are no tables of properties, so nothing is read that needs one:
  classes by property, classes by shorthand when they speak of characters, and
  anything whose case is to be ignored when it does.
* Nor is there a way to tell words of characters, other than words of bytes,
  from what is around them.

A pattern stands between braces, in a list with commas, and behind an equals
sign.  It holds none of these but the opening brace, so what needs the others,
such as a counted repetition, is never read.
-/

namespace LoxLexer

namespace Log

namespace Pattern

/-- The switches that are on at a place in a pattern. -/
structure Switches where
  /-- The pattern speaks of characters and not of bytes. -/
  characters : Bool := true
  /-- Case is ignored. -/
  caseless : Bool := false
  /-- White space and comments are passed over. -/
  spaced : Bool := false
deriving DecidableEq, Repr

/-- The smallest parts of patterns. -/
inductive Atom where
  /-- A character; `octet` if it is written as the number of a byte. -/
  | literal (c : Char) (octet : Bool)
  /-- Any character but the end of a line. -/
  | any
  /-- A class of characters by its letter, or what is not in that class. -/
  | shorthand (negated : Bool)
  /-- The beginning or the end of a line or of the text. -/
  | anchor
  /-- A place where a word begins or ends, or one where none does. -/
  | wordEdge
deriving DecidableEq, Repr

/-- Passes over white space and comments. A comment runs from a number sign to
the end of its line; `inComment` says that one has begun. -/
def skipBlank (inComment : Bool) : List Char → List Char
  | [] => []
  | c :: cs =>
    if inComment then skipBlank (c != '\n') cs
    else if isWhiteSpace c then skipBlank false cs
    else if c = '#' then skipBlank true cs
    else c :: cs

namespace Switches

/-- The pattern can be read with this part in it. -/
def admits (s : Switches) : Atom → Bool
  | .literal c octet => if s.characters then !s.caseless else !octet || decide (c.toNat < 0x80)
  | .any => s.characters
  | .shorthand negated => !s.characters && !negated
  | .anchor => true
  | .wordEdge => !s.characters

/-- The pattern can be read with this part in a class between brackets. -/
def admitsMember (s : Switches) : Atom → Bool
  | .literal c _ => if s.characters then !s.caseless else decide (c.toNat < 0x80)
  | .shorthand negated => !s.characters && !negated
  | _ => false

/-- The pattern can be read with a class of ASCII characters, by its name,
between brackets. -/
def admitsNamed (s : Switches) (negated : Bool) : Bool :=
  if s.characters then !s.caseless else !negated

/-- Passes over what has no meaning here. -/
def skip (s : Switches) (cs : List Char) : List Char :=
  if s.spaced then skipBlank false cs else cs

end Switches

/-- The value of a digit to the base sixteen. -/
def hexValue? (c : Char) : Option Nat :=
  if c.isDigit then some (c.toNat - '0'.toNat)
  else if 'a' ≤ c ∧ c ≤ 'f' then some (c.toNat - 'a'.toNat + 10)
  else if 'A' ≤ c ∧ c ≤ 'F' then some (c.toNat - 'A'.toNat + 10)
  else none

/-- The character with the number that the next `count` digits write, behind
the value of those already read, and what is left. -/
def codeDigits? (s : Switches) (count value : Nat) (cs : List Char) :
    Option (Char × List Char) :=
  match count with
  | 0 => if value.isValidChar then some (Char.ofNat value, cs) else none
  | count + 1 =>
    match s.skip cs with
    | c :: rest =>
      match hexValue? c with
      | some digit => codeDigits? s count (16 * value + digit) rest
      | none => none
    | [] => none

/-- What a backslash makes of the text behind it, and what is left. -/
def escape? (s : Switches) : List Char → Option (Atom × List Char)
  | [] => none
  | c :: cs =>
    match c with
    | 'x' => (codeDigits? s 2 0 cs).map (fun r => (.literal r.1 true, r.2))
    | 'u' => (codeDigits? s 4 0 cs).map (fun r => (.literal r.1 false, r.2))
    | 'U' => (codeDigits? s 8 0 cs).map (fun r => (.literal r.1 false, r.2))
    | 'd' | 's' | 'w' => some (.shorthand false, cs)
    | 'D' | 'S' | 'W' => some (.shorthand true, cs)
    | 'A' | 'z' => some (.anchor, cs)
    | 'b' | 'B' | '<' | '>' => some (.wordEdge, cs)
    | 'a' => some (.literal '\x07' false, cs)
    | 't' => some (.literal '\t' false, cs)
    | 'n' => some (.literal '\n' false, cs)
    | 'v' => some (.literal '\x0b' false, cs)
    | 'f' => some (.literal '\x0c' false, cs)
    | 'r' => some (.literal '\r' false, cs)
    | c => if c.toNat < 0x80 ∧ ¬ c.isAlphanum then some (.literal c false, cs) else none

/-- How deeply things are nested that stand side by side. Two or more of them
are one level deeper than the deepest, one by itself is not. -/
def jointDepth : List Nat → Nat
  | [] => 0
  | [d] => d
  | d :: ds => 1 + ds.foldl max d

end Pattern

end Log

end LoxLexer
