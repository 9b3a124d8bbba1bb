import LoxLexer.Log.Demand
import LoxLexer.Log.Filter
import LoxLexer.Text.Utf8

/-!
# Written filters

A filter is written as parts between commas: a level, a target, or a target
and a level, as in `a::b=debug`.  A target may be followed by brackets that
name a span, a value in braces, or both, and of the value something may be
asked.  The program opens no spans and gives its values no types, so a part
that names a span or asks something of a value is read and then never applies.
One part that cannot be read spoils the whole list.

The signs that divide a part are looked for in the part without the white
space around it, and their places are counted in bytes from there.  The names
are then cut out of the part as it stands, at the places that were found.
Where white space is in front they are off by its bytes, and such a cut may
even fall inside a character.
-/

namespace LoxLexer

namespace Log

/-- Why a written filter cannot be used. -/
inductive Misreading where
  /-- A part does not have the form of a rule. -/
  | malformed
  /-- A cut falls inside a character. -/
  | splitCharacter
deriving DecidableEq, Repr

/-- A text without the white space around it. -/
def trim (text : List Char) : List Char :=
  ((text.dropWhile isWhiteSpace).reverse.dropWhile isWhiteSpace).reverse

/-- A character that a target may begin with. -/
def beginsTarget (c : Char) : Bool :=
  c == '-' || c == ':' || c == '_' || isAlphanumeric c

/-- The rank that a level is written for: by its name in any case, by its
number, or the word that shows nothing. -/
def ceiling? (text : List Char) : Option Nat :=
  let digits := match text with
    | '+' :: ds => ds
    | ds => ds
  if digits ≠ [] ∧ digits.all Char.isDigit then
    let n := Nat.ofDigitChars 10 digits 0
    if n ≤ 5 then some n else none
  else
    [("off", 0), ("error", 1), ("warn", 2), ("info", 3), ("debug", 4), ("trace", 5)].findSome?
      (fun entry => if entry.1.toList = text.map Char.toLower then some entry.2 else none)

/-- The bytes of a text from `start` on. -/
def cutFrom (text : List Char) (start : Nat) : Except Misreading (List Char) :=
  match Utf8.cut? start text with
  | some (_, rest) => .ok rest
  | none => .error .splitCharacter

/-- The `width` bytes of a text from `start` on. -/
def cutOut (text : List Char) (start width : Nat) : Except Misreading (List Char) := do
  match Utf8.cut? width (← cutFrom text start) with
  | some (front, _) => .ok front
  | none => .error .splitCharacter

/-- The rank behind an equals sign, in the bytes from `start` on. Nothing
there shows everything. -/
def ceilingFrom (text : List Char) (start : Nat) : Except Misreading Nat := do
  match ← cutFrom text start with
  | [] => .ok Level.trace.rank
  | rest => (ceiling? rest).elim (.error .malformed) .ok

/-- A place among the signs of a part: how many bytes are before it, and the
signs from there on. -/
structure Place where
  before : Nat
  signs : List Char
deriving DecidableEq, Repr

namespace Place

/-- How many bytes there are up to the next of these signs. -/
def widthTo (p : Place) (marks : List Char) : Nat :=
  Utf8.size (p.signs.takeWhile (· ∉ marks))

/-- The place of the next of these signs, or the end. -/
def next (p : Place) (marks : List Char) : Place :=
  ⟨p.before + p.widthTo marks, p.signs.dropWhile (· ∉ marks)⟩

/-- The place behind a sign of one byte. -/
def behind (p : Place) : Place := ⟨p.before + 1, p.signs.drop 1⟩

end Place

/-- One part of a written filter: a rule, or a demand on spans and values that
no record of the program meets. -/
inductive Part where
  | rule (rule : Rule)
  | unmet
deriving DecidableEq, Repr

namespace Part

/-- What follows the closing bracket: nothing, or an equals sign and a level. -/
def afterBracket (text : List Char) (place : Place) (make : Nat → Part) :
    Except Misreading Part :=
  match place.signs with
  | [] => .ok (make Level.trace.rank)
  | '=' :: _ => (ceilingFrom text place.behind.before).map make
  | _ => .error .malformed

/-- Reads a value in braces, from behind the opening one. What is asked of it
stands behind an equals sign; what is behind another one counts for nothing. -/
def braces (text : List Char) (place : Place) (make : List Char → Nat → Part) :
    Except Misreading Part := do
  let close := place.next ['\x7d']
  match close.signs with
  | [] => .error .malformed
  | _ :: signs =>
    match ← cutOut text place.before (place.widthTo ['\x7d']) with
    | [] => .error .malformed
    | value =>
      match signs, value.splitOn '=' with
      | ']' :: _, [name] => afterBracket text close.behind.behind (make name)
      | ']' :: _, _ :: demand :: _ =>
        if Demand.isReadable demand then
          afterBracket text close.behind.behind (fun _ => unmet)
        else .error .malformed
      | _, _ => .error .malformed

/-- Reads brackets, from behind the opening one. -/
def brackets (text : List Char) (place : Place) (target : Option (List Char)) :
    Except Misreading Part := do
  let close := place.next [']', '\x7b']
  match close.signs with
  | [] => .error .malformed
  | sign :: _ =>
    let span ← cutOut text place.before (place.widthTo [']', '\x7b'])
    if sign = ']' then afterBracket text close.behind (fun _ => unmet)
    else
      braces text close.behind (fun name ceiling =>
        if span = [] then rule ⟨target, some name, ceiling⟩ else unmet)

/-- Reads one part. -/
def parse (text : List Char) : Except Misreading Part := do
  match trim text with
  | [] => .error .malformed
  | '[' :: signs => brackets text ⟨1, signs⟩ none
  | c :: signs =>
    if beginsTarget c then
      let stop := Place.next ⟨0, c :: signs⟩ ['=', '[']
      match stop.signs with
      | [] =>
        match ceiling? text with
        | some ceiling => .ok (rule ⟨none, none, ceiling⟩)
        | none => .ok (rule ⟨some text, none, Level.trace.rank⟩)
      | sign :: _ =>
        let target ← cutOut text 0 stop.before
        if sign = '=' then
          (ceilingFrom text stop.behind.before).map
            (fun ceiling => rule ⟨some target, none, ceiling⟩)
        else brackets text stop.behind (some target)
    else .error .malformed

/-- The rule of a part, unless nothing meets it. -/
def rule? : Part → Option Rule
  | rule r => some r
  | unmet => none

end Part

namespace Filter

/-- Reads a written filter. Empty parts are passed over, and where there are no
others only errors are shown. -/
def parse (text : List Char) : Except Misreading Filter :=
  match (text.splitOn ',').filter (· ≠ []) with
  | [] => .ok [.upTo .error]
  | parts => (parts.mapM Part.parse).map (List.filterMap Part.rule?)

/-- The filter of a run: by the number of times that more output was asked
for, and where it was not, by the written filter. What is malformed counts as
not written, and without a written filter warnings are shown. A run whose
written filter would split a character has no filter. -/
def ofVerbosity? (verbosity : Nat) (written : Option (List Char)) : Option Filter :=
  match verbosity with
  | 0 =>
    match written.map parse with
    | none | some (.error .malformed) => some [.upTo .warn]
    | some (.error .splitCharacter) => none
    | some (.ok filter) => some filter
  | 1 => some [.upTo .info]
  | 2 => some [.upTo .debug]
  | _ => some [.upTo .trace]

end Filter

end Log

end LoxLexer
