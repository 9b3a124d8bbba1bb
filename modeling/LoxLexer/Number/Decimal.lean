/-!
# Decimals

A decimal is a natural number with a point before some of its last digits.
Its text is positional whatever its size: the digits before the point, at
least one, and where there is a fractional part a point and the digits behind
it, without zeros at the end.
-/

namespace LoxLexer

/-- The number `digits / 10 ^ places`. -/
structure Decimal where
  digits : Nat
  places : Nat
deriving DecidableEq, Repr

namespace Decimal

/-- The last `width` digits of `n`, which has no more. -/
def padded (width n : Nat) : List Char :=
  let digits := Nat.toDigits 10 n
  List.replicate (width - digits.length) '0' ++ digits

/-- A text without the zeros at its end. -/
def dropZeros (digits : List Char) : List Char :=
  (digits.reverse.dropWhile (· == '0')).reverse

/-- One, counted in units of the last place. -/
def one (d : Decimal) : Nat := Nat.pow 10 d.places

/-- The positional text of a decimal. -/
def render (d : Decimal) : List Char :=
  let whole := Nat.toDigits 10 (d.digits / d.one)
  let fraction := d.digits % d.one
  if fraction = 0 then whole else whole ++ '.' :: dropZeros (padded d.places fraction)

/-- The number of digits of `n`, counted sixty-four at a time. -/
def digitCount (n : Nat) : Nat :=
  if n < Nat.pow 10 64 then (Nat.toDigits 10 n).length
  else 64 + digitCount (n / Nat.pow 10 64)
termination_by n
decreasing_by
  next long =>
    exact Nat.div_lt_self (Nat.lt_of_lt_of_le (by decide) (Nat.le_of_not_lt long)) (by decide)

end Decimal

end LoxLexer
