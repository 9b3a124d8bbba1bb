import LoxLexer.Number.Binary64

/-!
# Rounding to binary64

A non-negative fraction is rounded to the nearest binary64 number; of two
equally near ones the one with the even code is taken.  All arithmetic is on
naturals.

The fraction is first expressed in units of `2 ^ -1074`.  A quotient of more
than fifty-three bits loses the `shift` lowest ones, and what is left is
rounded to an integer.  Adding `shift * 2 ^ 52` to it gives the code: a
significand without its leading one is the fraction field, the leading one
carries into the exponent field, and a significand that was rounded up to
`2 ^ 53` carries once more, into the next exponent.
-/

namespace LoxLexer

/-- The integer nearest to `num / den`; a half goes to the even neighbour. -/
def roundHalfEven (num den : Nat) : Nat :=
  let low := num / den
  let twice := 2 * (num % den)
  if twice < den ∨ (twice = den ∧ low % 2 = 0) then low else low + 1

namespace Binary64

/-- How many low bits of the integer part `num / den` are lost when
fifty-three are kept. -/
def shift (num den : Nat) : Nat := (num / den).log2 - 52

/-- The code of the number nearest to `num / den` units of `2 ^ -1074`,
without an upper limit on the exponent. -/
def unboundedCode (num den : Nat) : Nat :=
  let s := shift num den
  s * hiddenBit + roundHalfEven num (den <<< s)

/-- The code of the binary64 number nearest to `num / den`. What would need a
larger exponent than there is becomes infinity. -/
def nearestCode (num den : Nat) : Nat :=
  min (unboundedCode (num <<< 1074) den) infinityCode

/-- The binary64 number nearest to `num / den`. -/
def nearest (num den : Nat) : Binary64 := ofCode (nearestCode num den)

/-- The number that a decimal numeral stands for: the digits before the point
and those after it, the latter possibly none. -/
def ofNumeral (whole fraction : List Char) : Binary64 :=
  nearest (Nat.ofDigitChars 10 (whole ++ fraction) 0) (Nat.pow 10 fraction.length)

end Binary64

end LoxLexer
