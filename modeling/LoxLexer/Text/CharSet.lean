/-!
# Sets of characters

A set of characters that follows no short rule is written as the increasing
list of the numbers at which membership changes: the number of the first
member, that of the first character behind it which is no member, and so on in
turn.  A stretch of members thus takes two numbers whatever its length, and
looking a character up stops at the first greater number.
-/

namespace LoxLexer

/-- A set of characters, by the numbers at which membership changes. -/
structure CharSet where
  changes : List Nat
deriving DecidableEq, Repr

namespace CharSet

/-- The number is behind an odd count of changes. -/
def isInside : List Nat → Nat → Bool
  | [], _ => false
  | change :: changes, n => if n < change then false else !isInside changes n

/-- The character is a member. -/
def contains (s : CharSet) (c : Char) : Bool := isInside s.changes c.toNat

end CharSet

end LoxLexer
