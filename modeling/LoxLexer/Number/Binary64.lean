/-!
# Binary64 numbers

The numbers of the language are the sixty-four-bit floating-point numbers.
They are kept as their bits, because every statement about reading and
writing them is one about exact integers that the bits stand for.

The low sixty-three bits, read as a natural number, are the *code* of the
magnitude.  Codes are ordered as the magnitudes are: zero first, then the
subnormal and the normal numbers, then infinity, and beyond infinity the
codes that are no number.  Every finite magnitude is a whole number of units
of `2 ^ -1074`, and `units` is that number.
-/

namespace LoxLexer

/-- A binary64 number, by its bits. -/
structure Binary64 where
  bits : BitVec 64
deriving DecidableEq, Repr

namespace Binary64

/-- The code of infinity, the least code of a magnitude that is not finite. -/
def infinityCode : Nat := 0x7ff0000000000000

/-- The sign bit as a number, the first that is no code. -/
def signBit : Nat := 0x8000000000000000

/-- The leading one of a normal number, which the fifty-two bits of the
fraction leave out. It is the least code of a normal number. -/
def hiddenBit : Nat := 0x10000000000000

/-- The non-negative number with the given code. -/
def ofCode (code : Nat) : Binary64 := ⟨BitVec.ofNat 64 code⟩

/-- The code of the magnitude: all bits but the sign. -/
def code (x : Binary64) : Nat := x.bits.toNat % signBit

/-- The sign bit is set. Zero and the codes that are no number have a sign bit too. -/
def isNegative (x : Binary64) : Bool := decide (signBit ≤ x.bits.toNat)

/-- The bits stand for no number. -/
def isNaN (x : Binary64) : Bool := decide (infinityCode < x.code)

/-- The bits stand for one of the two infinities. -/
def isInfinite (x : Binary64) : Bool := x.code == infinityCode

/-- The magnitude of a finite number in units of `2 ^ -1074`, from its code.
The code of a subnormal number is that number. In the code of a normal one the
low fifty-two bits follow the hidden one, and the bits above them, less one,
say how often the significand is doubled. -/
def units (code : Nat) : Nat :=
  if code < hiddenBit then code
  else (hiddenBit + code % hiddenBit) <<< (code / hiddenBit - 1)

/-- Equality of numbers: what is no number equals nothing, not even itself,
and the two zeros are equal. -/
def equal (x y : Binary64) : Bool :=
  !x.isNaN && !y.isNaN && (x.bits == y.bits || (x.code == 0 && y.code == 0))

end Binary64

end LoxLexer
