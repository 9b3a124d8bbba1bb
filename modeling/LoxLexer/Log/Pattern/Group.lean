import LoxLexer.Log.Pattern.Bracket

/-!
# Groups, and patterns as a whole

A pattern is a choice of sequences.  A sequence holds atoms, classes and
groups, each of which may be repeated.  A group may be named or change the
switches; a switch that is set by itself holds to the end of the group that it
stands in.  A pattern that is nested too deeply is not read.
-/

namespace LoxLexer

namespace Log

namespace Pattern

/-- Reads switches up to the colon or the closing bracket behind them. Those
before a hyphen are switched on and those behind it off; each is named once,
and at least one behind the hyphen. `named` holds those named so far. -/
def switches? (s : Switches) (named : List Char) (off : Bool) :
    List Char → Option (Switches × Char × List Char)
  | [] => none
  | c :: cs =>
    if c = ':' ∨ c = ')' then
      if named.head? = some '-' then none else some (s, c, cs)
    else if c ∈ named then none
    else
      match c with
      | '-' => switches? s (c :: named) true cs
      | 'u' => switches? { s with characters := !off } (c :: named) off cs
      | 'i' => switches? { s with caseless := !off } (c :: named) off cs
      | 'x' => switches? { s with spaced := !off } (c :: named) off cs
      | 'm' | 's' | 'U' | 'R' => switches? s (c :: named) off cs
      | _ => none

/-- The name of a group is an underscore or a letter, and behind it also
numbers, points and square brackets. -/
def isGroupName : List Char → Bool
  | [] => false
  | c :: cs =>
    (c == '_' || isAlphabetic c) &&
      cs.all (fun c => c == '_' || c == '.' || c == '[' || c == ']' || isAlphanumeric c)

/-- What an opening parenthesis begins. -/
inductive Opening where
  /-- A group in which these switches hold, with its name if it has one. -/
  | group (switches : Switches) (name : Option (List Char))
  /-- No group, but other switches from here on. -/
  | switched (switches : Switches)
deriving DecidableEq, Repr

/-- Reads the name of a group up to the bracket that closes it. -/
def groupName? (s : Switches) (cs : List Char) : Option (Opening × List Char) :=
  let name := cs.takeWhile (· != '>')
  match cs.dropWhile (· != '>') with
  | _ :: rest => if isGroupName name then some (.group s (some name), rest) else none
  | [] => none

/-- Reads what follows an opening parenthesis. Conditions on the text around
the match are not read. -/
def opening? (s : Switches) (cs : List Char) : Option (Opening × List Char) :=
  match s.skip cs with
  | '?' :: 'P' :: '<' :: rest => groupName? s rest
  | '?' :: '<' :: rest =>
    match rest with
    | '=' :: _ | '!' :: _ => none
    | rest => groupName? s rest
  | '?' :: ')' :: _ => none
  | '?' :: rest =>
    match switches? s [] false rest with
    | some (s, ')', rest) => some (.switched s, rest)
    | some (s, _, rest) => some (.group s none, rest)
    | none => none
  | rest => some (.group s none, rest)

/-- A choice of sequences that is being read. -/
structure Choice where
  /-- The switches that hold behind the group around the choice. -/
  switches : Switches := {}
  /-- The depths of the finished sequences. -/
  branches : List Nat := []
  /-- The depths of the parts of the last sequence, the last one first. Parts
  without a depth cannot be repeated. -/
  parts : List (Option Nat) := []
deriving DecidableEq, Repr

namespace Choice

/-- The depth of the last sequence. -/
def sequenceDepth (c : Choice) : Nat := jointDepth (c.parts.map (·.getD 0))

/-- The depth of the choice. -/
def depth (c : Choice) : Nat := jointDepth (c.sequenceDepth :: c.branches)

/-- Adds a part to the last sequence. -/
def add (c : Choice) (part : Option Nat) : Choice := { c with parts := part :: c.parts }

/-- Begins another sequence. -/
def branch (c : Choice) : Choice :=
  { c with branches := c.sequenceDepth :: c.branches, parts := [] }

/-- Repeats the last part, if there is one that can be repeated. -/
def repeat? (c : Choice) : Option Choice :=
  match c.parts with
  | some depth :: parts => some { c with parts := some (depth + 1) :: parts }
  | _ => none

end Choice

/-- The greatest depth at which a pattern is read. -/
def depthLimit : Nat := 250

/-- Reads a pattern to its end. The innermost group that is open holds the
choice `c` and the switches `s`, the groups around it are `outer`, and `names`
are the names given so far. Every step takes a character, so `fuel` need not
exceed their number by more than one. -/
def reads (fuel : Nat) (s : Switches) (names : List (List Char)) (c : Choice)
    (outer : List Choice) (cs : List Char) : Bool :=
  match fuel with
  | 0 => false
  | fuel + 1 =>
    let atom (a : Atom) (rest : List Char) : Bool :=
      s.admits a && reads fuel s names (c.add (some 0)) outer rest
    match s.skip cs with
    | [] => outer.isEmpty && decide (c.depth ≤ depthLimit)
    | '(' :: rest =>
      match opening? s rest with
      | some (.switched s, rest) => reads fuel s names (c.add none) outer rest
      | some (.group inner name, rest) =>
        let within : Choice := { switches := s }
        match name with
        | some n => decide (n ∉ names) && reads fuel inner (n :: names) within (c :: outer) rest
        | none => reads fuel inner names within (c :: outer) rest
      | none => false
    | ')' :: rest =>
      match outer with
      | parent :: outer =>
        reads fuel c.switches names (parent.add (some (1 + c.depth))) outer rest
      | [] => false
    | '|' :: rest => reads fuel s names c.branch outer rest
    | '[' :: rest =>
      match bracket? s rest with
      | some (depth, rest) => reads fuel s names (c.add (some depth)) outer rest
      | none => false
    | '?' :: rest | '*' :: rest | '+' :: rest =>
      match c.repeat? with
      | some c =>
        match rest with
        | '?' :: rest => reads fuel s names c outer rest
        | rest => reads fuel s names c outer rest
      | none => false
    | '\x7b' :: _ => false
    | '\\' :: rest =>
      match escape? s rest with
      | some (a, rest) => atom a rest
      | none => false
    | '.' :: rest => atom .any rest
    | '^' :: rest | '$' :: rest => atom .anchor rest
    | a :: rest => atom (.literal a false) rest

/-- The pattern can be read. -/
def isReadable (text : List Char) : Bool := reads (text.length + 1) {} [] {} [] text

end Pattern

end Log

end LoxLexer
