import LoxLexer.Log.Pattern.Basic

/-!
# Classes between brackets

A class lists characters, ranges of them, and classes, which may be listed by
letter, by name or between brackets of their own.  A caret behind an opening
bracket negates the class.  Hyphens at its beginning stand for themselves, as
does a closing bracket that is the first thing in it.  Two classes make a
third by one of three doubled signs, of which none binds closer than another.
-/

namespace LoxLexer

namespace Log

namespace Pattern

/-- A class whose closing bracket has not been reached. -/
structure Bracket where
  negated : Bool
  /-- The depth of what is on the left of the last doubled sign. -/
  left : Option Nat := none
  /-- The depths of what has been listed since. -/
  items : List Nat := []
deriving DecidableEq, Repr

namespace Bracket

/-- The depth of what the brackets hold. -/
def depth (b : Bracket) : Nat :=
  match b.left with
  | none => jointDepth b.items
  | some left => 1 + max left (jointDepth b.items)

/-- Lists one more thing. -/
def list (b : Bracket) (depth : Nat) : Bracket := { b with items := depth :: b.items }

/-- Takes what the brackets hold so far as the left side of a doubled sign. -/
def combine (b : Bracket) : Bracket := { b with left := some b.depth, items := [] }

end Bracket

/-- The names of the classes of ASCII characters. -/
def classNames : List String :=
  ["alnum", "alpha", "ascii", "blank", "cntrl", "digit", "graph", "lower", "print", "punct",
   "space", "upper", "word", "xdigit"]

/-- A class by its name, of which the opening bracket has been read: whether
it is negated, and what is left. -/
def namedClass? : List Char → Option (Bool × List Char)
  | ':' :: cs =>
    let (negated, cs) := match cs with
      | '^' :: cs => (true, cs)
      | cs => (false, cs)
    let name := cs.takeWhile (· != ':')
    match cs.dropWhile (· != ':') with
    | ':' :: ']' :: rest =>
      if classNames.any (fun n => n.toList = name) then some (negated, rest) else none
    | _ => none
  | _ => none

/-- What a hyphen is followed by, so far as it decides whether the hyphen makes
a range. White space is looked past, and one number sign. -/
def behindHyphen (s : Switches) (cs : List Char) : Option Char :=
  if s.spaced then
    let seen := match cs.dropWhile isWhiteSpace with
      | '#' :: rest => rest.dropWhile isWhiteSpace
      | rest => rest
    (seen ++ cs).head?
  else cs.head?

/-- The next character of a class, plain or behind a backslash. -/
def member? (s : Switches) : List Char → Option (Atom × List Char)
  | [] => none
  | '\\' :: cs => escape? s cs
  | c :: cs => some (.literal c false, cs)

/-- Reads a member of a class or a range, and returns what is left. The ends of
a range are characters, and in their order. -/
def range? (s : Switches) (cs : List Char) : Option (List Char) := do
  let (low, rest) ← member? s cs
  match s.skip rest with
  | [] => none
  | '-' :: after =>
    if behindHyphen s after = some ']' ∨ behindHyphen s after = some '-' then
      if s.admitsMember low then some ('-' :: after) else none
    else
      let (high, rest) ← member? s (s.skip after)
      match low, high with
      | .literal a _, .literal b _ =>
        if s.admitsMember low ∧ s.admitsMember high ∧ a ≤ b then some rest else none
      | _, _ => none
  | rest => if s.admitsMember low then some rest else none

/-- Reads the negating caret, if there is one. -/
def caret (s : Switches) (cs : List Char) : Bracket × List Char :=
  match s.skip cs with
  | '^' :: rest => (⟨true, none, []⟩, rest)
  | rest => (⟨false, none, []⟩, rest)

/-- Reads a class up to the bracket that closes it. The innermost class that
is open is `b`, the ones around it are `outer`; `first` says that nothing but
hyphens has been listed in `b`. Returns the depth of the class and what is
left. Every step takes a character, so `fuel` need not exceed their number. -/
def closeBracket? (s : Switches) (fuel : Nat) (b : Bracket) (outer : List Bracket)
    (first : Bool) (cs : List Char) : Option (Nat × List Char) :=
  match fuel with
  | 0 => none
  | fuel + 1 =>
    let literal (b : Bracket) (c : Char) (first : Bool) (rest : List Char) :=
      if s.admitsMember (.literal c false) then
        closeBracket? s fuel (b.list 0) outer first rest
      else none
    match s.skip cs, first with
    | [], _ => none
    | '-' :: rest, true => literal b '-' true rest
    | ']' :: rest, first =>
      if first ∧ b.items = [] then literal b ']' false rest
      else
        match outer with
        | [] => if b.negated ∧ ¬ s.characters then none else some (1 + b.depth, rest)
        | parent :: outer =>
          if b.negated ∧ (¬ s.characters ∨ s.caseless) then none
          else closeBracket? s fuel (parent.list (1 + b.depth)) outer false rest
    | '[' :: rest, _ =>
      match namedClass? rest with
      | some (negated, rest) =>
        if s.admitsNamed negated then closeBracket? s fuel (b.list 0) outer false rest
        else none
      | none =>
        let (inner, rest) := caret s rest
        closeBracket? s fuel inner (b :: outer) true rest
    | '&' :: '&' :: rest, _ | '-' :: '-' :: rest, _ | '~' :: '~' :: rest, _ =>
      closeBracket? s fuel b.combine outer false rest
    | rest, _ =>
      match range? s rest with
      | some rest => closeBracket? s fuel (b.list 0) outer false rest
      | none => none

/-- Reads a class of which the opening bracket has been read. Returns its
depth and what is left. -/
def bracket? (s : Switches) (cs : List Char) : Option (Nat × List Char) :=
  let (b, rest) := caret s cs
  closeBracket? s (cs.length + 1) b [] true rest

end Pattern

end Log

end LoxLexer
