import LoxLexer.Number.Decimal
import LoxLexer.Number.Rounding

/-!
# The shortest decimal that reads back

A finite number is written with the fewest significant digits from which the
reader recovers it, and among decimals of that length with the nearest one.

Every finite binary64 number is a whole number of units of `10 ^ -1074`,
because `2 ^ -1074` is `5 ^ 1074` of them.  The grids of multiples of a power
of ten are walked from the coarsest, that of the number's leading digit, to
finer ones.  On each grid only the two neighbours of the number can be the
answer, for if any point of the grid reads back then so does one of them.  The
finest grid holds the number itself, so the walk always ends with a decimal
that reads back.
-/

namespace LoxLexer

namespace Shortest

/-- The number of decimal places that suffice for every finite number. -/
def places : Nat := 1074

/-- One, in units of `10 ^ -1074`. -/
def one : Nat := Nat.pow 10 places

/-- One unit of `2 ^ -1074`, in units of `10 ^ -1074`. -/
def binaryUnit : Nat := Nat.pow 5 places

/-- The decimal of `n` units of `10 ^ -1074` is read as the number with this code. -/
def readsBack (code n : Nat) : Bool := Binary64.nearestCode n one == code

/-- The multiple of `step` next to `value` that passes the test, if one does, as a
count of steps. Of two the nearer is taken, and the upper one if both are
equally near. -/
def neighbour? (passes : Nat → Bool) (value step : Nat) : Option Nat :=
  let below := value / step
  match passes (below * step), passes ((below + 1) * step) with
  | true, true => some (if 2 * value < (2 * below + 1) * step then below else below + 1)
  | true, false => some below
  | false, true => some (below + 1)
  | false, false => none

/-- As many steps of `10 ^ n` units of `10 ^ -1074`. -/
def ofSteps (count n : Nat) : Decimal := ⟨count * Nat.pow 10 (n - places), places - n⟩

/-- The first decimal that passes the test on the grids of `10 ^ (n - 1)`, …, `10`, `1`. -/
def search (passes : Nat → Bool) (value : Nat) : Nat → Decimal
  | 0 => ofSteps value 0
  | n + 1 =>
    match neighbour? passes value (Nat.pow 10 n) with
    | some count => ofSteps count n
    | none => search passes value n

/-- The shortest decimal for the finite number with this code. -/
def ofCode (code : Nat) : Decimal :=
  let value := Binary64.units code * binaryUnit
  search (readsBack code) value (Decimal.digitCount value)

end Shortest

namespace Binary64

/-- The text of the magnitude. -/
def renderMagnitude (x : Binary64) : List Char :=
  if x.isInfinite then ['i', 'n', 'f'] else (Shortest.ofCode x.code).render

/-- The text of a number: a minus sign if the sign bit is set, zero included,
and the magnitude. -/
def render (x : Binary64) : List Char :=
  if x.isNaN then ['N', 'a', 'N']
  else if x.isNegative then '-' :: x.renderMagnitude
  else x.renderMagnitude

end Binary64

end LoxLexer
