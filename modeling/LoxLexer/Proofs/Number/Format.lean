import Mathlib.Algebra.Order.Ring.Abs
import LoxLexer.Proofs.Number.Nearest

/-!
# The binary64 format and its rounding

A binary64 number is a sign, eleven bits of exponent and fifty-two bits of
fraction.  This file says what such fields stand for, and what it is for a
number to be the nearest to a fraction, without a word on how the nearest one is
found: it is finite or infinity as the format prescribes, no finite number is
nearer, and if another one is equally near its own fraction field is even.

* `fieldsToRat_code`: the fields of a code give its magnitude.
* `two_mul_le_of_codeOf_lt`, `le_two_mul_of_lt_codeOf`: what is known of the
  middles on both sides of the code that a fraction is rounded to.
* `isNearest_iff`: the code that is computed belongs to the one nearest number.
-/

namespace LoxLexer

namespace Binary64

/-- The exponent field, bits 52 to 62. -/
def exponentField (x : Binary64) : ℕ := (x.bits.extractLsb' 52 11).toNat

/-- The fraction field, bits 0 to 51. -/
def fractionField (x : Binary64) : ℕ := (x.bits.extractLsb' 0 52).toNat

/-- The number is neither an infinity nor no number. -/
def IsFinite (x : Binary64) : Prop := x.exponentField ≠ 2047

/-- The magnitude that an exponent field and a fraction field stand for. An
exponent field of zero says that the significand has no leading one. -/
def fieldsToRat (exponent fraction : ℕ) : ℚ :=
  if exponent = 0 then fraction / 2 ^ 52 * 2 ^ (-1022 : ℤ)
  else (1 + fraction / 2 ^ 52) * 2 ^ ((exponent : ℤ) - 1023)

/-- The fraction that a finite number is. -/
def toRat (x : Binary64) : ℚ :=
  (if x.bits.msb then -1 else 1) * fieldsToRat x.exponentField x.fractionField

/-- The least fraction that is rounded to infinity: the middle between the
greatest finite number and the power of two that would follow it. -/
def overflow : ℚ := 2 ^ 1024 - 2 ^ 970

/-- `x` is the number nearest to the fraction `v`, which is not negative. -/
structure IsNearest (v : ℚ) (x : Binary64) : Prop where
  positive : x.bits.msb = false
  finite : v < overflow → x.IsFinite
  infinite : overflow ≤ v → x.exponentField = 2047 ∧ x.fractionField = 0
  closest : x.IsFinite → ∀ y : Binary64, y.IsFinite → |v - x.toRat| ≤ |v - y.toRat|
  even : x.IsFinite → ∀ y : Binary64, y.IsFinite → y.toRat ≠ x.toRat →
    |v - y.toRat| = |v - x.toRat| → x.fractionField % 2 = 0

/-! ### Fields and codes -/

theorem msb_eq (x : Binary64) : x.bits.msb = x.isNegative := by
  rw [BitVec.msb_eq_decide, isNegative]
  rfl

/-- The fraction field is the lower part of the code. -/
theorem fractionField_eq (x : Binary64) : x.fractionField = x.code % hiddenBit := by
  have hdvd : hiddenBit ∣ signBit := ⟨2048, by decide⟩
  rw [fractionField, BitVec.extractLsb'_toNat, Nat.shiftRight_zero, code,
    Nat.mod_mod_of_dvd _ hdvd, hiddenBit_eq]

/-- The exponent field is the upper part of the code. -/
theorem exponentField_eq (x : Binary64) : x.exponentField = x.code / hiddenBit := by
  have hsign : signBit = 2 ^ 52 * 2 ^ 11 := by decide
  rw [exponentField, BitVec.extractLsb'_toNat, Nat.shiftRight_eq_div_pow, code, hsign, hiddenBit_eq,
    Nat.mod_mul_right_div_self]

theorem code_lt_signBit (x : Binary64) : x.code < signBit := Nat.mod_lt _ (by decide)

/-- A number is finite if its code is below that of infinity. -/
theorem isFinite_iff {x : Binary64} : x.IsFinite ↔ x.code < infinityCode := by
  have hlt : x.code / hiddenBit < 2048 := by
    rw [Nat.div_lt_iff_lt_mul hiddenBit_pos, ← signBit_eq]
    exact x.code_lt_signBit
  rw [IsFinite, exponentField_eq, infinityCode_eq, ← Nat.div_lt_iff_lt_mul hiddenBit_pos]
  omega

/-- The magnitude of a significand with its doublings. -/
theorem magnitude_scaled {s r : ℕ} (hle : r ≤ 2 * hiddenBit) (hnormal : s = 0 ∨ hiddenBit ≤ r) :
    magnitude (s * hiddenBit + r) = r * 2 ^ ((s : ℤ) - 1074) := by
  rw [magnitude, units_scaled hle hnormal, quantum, sub_eq_add_neg, zpow_add₀ two_ne_zero,
    zpow_natCast, Nat.cast_mul, Nat.cast_pow, Nat.cast_ofNat, mul_assoc]

/-- The fields of a code give its magnitude. -/
theorem fieldsToRat_code {e f : ℕ} (hf : f < hiddenBit) :
    fieldsToRat e f = magnitude (e * hiddenBit + f) := by
  have hpower : (hiddenBit : ℚ) = 2 ^ 52 := by exact_mod_cast hiddenBit_eq
  rcases Nat.eq_zero_or_pos e with rfl | hpos
  · have hexponent : (2 : ℚ) ^ (-1022 : ℤ) = 2 ^ 52 * 2 ^ (-1074 : ℤ) :=
      zpow_add₀ two_ne_zero 52 (-1074)
    rw [fieldsToRat, if_pos rfl, magnitude_scaled (by omega) (Or.inl rfl), hexponent,
      Nat.cast_zero, zero_sub, ← mul_assoc, div_mul_cancel₀ _ (by positivity)]
  · obtain ⟨s, rfl⟩ := Nat.exists_eq_add_one_of_ne_zero hpos.ne'
    have hsum : (s + 1) * hiddenBit + f = s * hiddenBit + (hiddenBit + f) := by ring
    have hexponent : (2 : ℚ) ^ (((s + 1 : ℕ) : ℤ) - 1023) = 2 ^ 52 * 2 ^ ((s : ℤ) - 1074) := by
      rw [← zpow_natCast 2 52, ← zpow_add₀ two_ne_zero]
      congr 1
      push_cast
      ring
    rw [fieldsToRat, if_neg (Nat.succ_ne_zero s), hsum,
      magnitude_scaled (by omega) (Or.inr (Nat.le_add_right _ _)), hexponent, Nat.cast_add, hpower,
      ← mul_assoc, add_mul, one_mul, div_mul_cancel₀ _ (by positivity)]

/-- A number is the magnitude with its code, on one side of zero or the other. -/
theorem toRat_eq (x : Binary64) :
    x.toRat = if x.isNegative then -magnitude x.code else magnitude x.code := by
  have hsplit : x.code / hiddenBit * hiddenBit + x.code % hiddenBit = x.code := by
    rw [Nat.mul_comm]
    exact Nat.div_add_mod _ _
  rw [toRat, exponentField_eq, fractionField_eq, fieldsToRat_code (Nat.mod_lt _ hiddenBit_pos),
    hsplit, msb_eq]
  split
  · exact neg_one_mul _
  · exact one_mul _

/-- A number without a sign is the magnitude with its code. -/
theorem toRat_of_positive {x : Binary64} (h : x.isNegative = false) :
    x.toRat = magnitude x.code := by
  rw [toRat_eq, h]
  rfl

/-! ### The neighbours of the nearest code -/

section Neighbours

variable {v : ℚ} {d : ℕ}

/-- The middle below the code that a fraction is rounded to. -/
theorem le_two_mul_of_lt_codeOf (hv : 0 ≤ v) (h : d < codeOf v) :
    magnitude d + magnitude (codeOf v) ≤ 2 * v ∧
      (magnitude d + magnitude (codeOf v) = 2 * v → codeOf v % 2 = 0) := by
  obtain ⟨last, hlast⟩ := Nat.exists_eq_add_one_of_ne_zero (Nat.ne_zero_of_lt h)
  have hpast := ((lt_codeOf_iff hv).mp (show last < codeOf v by omega)).2
  rw [isPast_iff] at hpast
  have hd : magnitude d ≤ magnitude last := strictMono_magnitude.monotone (by omega)
  rw [hlast]
  rcases hpast with hbeyond | ⟨hmiddle, hodd⟩
  · exact ⟨by linarith, fun htie => by linarith⟩
  · exact ⟨by linarith, fun _ => by omega⟩

/-- The middle above the code that a fraction is rounded to. -/
theorem two_mul_le_of_codeOf_lt (hv : 0 ≤ v) (hfinite : codeOf v < infinityCode)
    (h : codeOf v < d) :
    2 * v ≤ magnitude (codeOf v) + magnitude d ∧
      (2 * v = magnitude (codeOf v) + magnitude d → codeOf v % 2 = 0) := by
  have hnot : ¬ IsPast (v / quantum) (codeOf v) := fun hpast =>
    lt_irrefl _ ((lt_codeOf_iff hv).mpr ⟨hfinite, hpast⟩)
  rw [isPast_iff] at hnot
  obtain ⟨hbeyond, hmiddle⟩ := not_or.mp hnot
  have hd : magnitude (codeOf v + 1) ≤ magnitude d := strictMono_magnitude.monotone h
  refine ⟨by linarith, fun htie => ?_⟩
  have hodd : ¬ codeOf v % 2 = 1 := fun hodd => hmiddle ⟨by linarith, hodd⟩
  omega

end Neighbours

/-! ### The nearest number -/

/-- Of two fractions the upper one is no farther away exactly from the middle on. -/
theorem abs_sub_le_abs_sub_iff {v a b : ℚ} (h : a < b) :
    |v - b| ≤ |v - a| ↔ a + b ≤ 2 * v := by
  have hpos : 0 < b - a := sub_pos.mpr h
  have hsquares : (v - a) ^ 2 - (v - b) ^ 2 = (b - a) * (2 * v - (a + b)) := by ring
  rw [← sq_le_sq, ← sub_nonneg, hsquares, mul_nonneg_iff_of_pos_left hpos, sub_nonneg]

/-- The lower one is no farther away exactly up to the middle. -/
theorem abs_sub_le_abs_sub_iff' {v a b : ℚ} (h : a < b) :
    |v - a| ≤ |v - b| ↔ 2 * v ≤ a + b := by
  have hpos : 0 < b - a := sub_pos.mpr h
  have hsquares : (v - b) ^ 2 - (v - a) ^ 2 = (b - a) * (a + b - 2 * v) := by ring
  rw [← sq_le_sq, ← sub_nonneg, hsquares, mul_nonneg_iff_of_pos_left hpos, sub_nonneg]

section Nearest

variable {v : ℚ}

/-- The middle below infinity is where overflow begins. -/
theorem magnitude_last_add :
    magnitude (infinityCode - 1) + magnitude infinityCode = 2 * overflow := by
  have hlast : infinityCode - 1 = 2045 * hiddenBit + (2 * hiddenBit - 1) := by decide
  have hinfinity : infinityCode = 2046 * hiddenBit + hiddenBit := by decide
  have hpower : (hiddenBit : ℚ) = 2 ^ 52 := by exact_mod_cast hiddenBit_eq
  have hcast : ((2 * hiddenBit - 1 : ℕ) : ℚ) = 2 * 2 ^ 52 - 1 := by
    rw [Nat.cast_sub (by decide), Nat.cast_mul, hpower, Nat.cast_ofNat, Nat.cast_one]
  rw [hlast, hinfinity, magnitude_scaled (by decide) (Or.inr (by decide)),
    magnitude_scaled (by decide) (Or.inr (by decide)), hcast, hpower, overflow]
  have hunder : (2 : ℚ) ^ (((2045 : ℕ) : ℤ) - 1074) = 2 * 2 ^ 970 := zpow_add₀ two_ne_zero 1 970
  have hover : (2 : ℚ) ^ (((2046 : ℕ) : ℤ) - 1074) = 2 ^ 2 * 2 ^ 970 := zpow_add₀ two_ne_zero 2 970
  have hlarge : (2 : ℚ) ^ 1024 = 2 ^ 54 * 2 ^ 970 := pow_add 2 54 970
  rw [hunder, hover, hlarge]
  generalize (2 : ℚ) ^ 970 = x
  ring

/-- Only from the overflow on is a fraction rounded to infinity. -/
theorem codeOf_lt_infinityCode_iff (hv : 0 ≤ v) : codeOf v < infinityCode ↔ v < overflow := by
  have hcode : infinityCode - 1 + 1 = infinityCode := by decide
  have hodd : (infinityCode - 1) % 2 = 1 := by decide
  have hpast : IsPast (v / quantum) (infinityCode - 1) ↔ overflow ≤ v := by
    rw [isPast_iff, hcode, magnitude_last_add]
    constructor
    · rintro (hbeyond | ⟨hmiddle, -⟩) <;> linarith
    · intro hle
      rcases hle.lt_or_eq with hlt | rfl
      · exact Or.inl (by linarith)
      · exact Or.inr ⟨rfl, hodd⟩
  have hlast : infinityCode - 1 < codeOf v ↔ infinityCode - 1 < infinityCode ∧ overflow ≤ v := by
    rw [lt_codeOf_iff hv, hpast]
  rw [← not_le, ← not_le, not_iff_not]
  constructor
  · intro hle
    exact (hlast.mp (by omega)).2
  · intro hle
    have hlt := hlast.mpr ⟨by decide, hle⟩
    omega

/-- No finite number is nearer than the one with the code. -/
theorem abs_sub_magnitude_codeOf_le (hv : 0 ≤ v) (hfinite : codeOf v < infinityCode) (d : ℕ) :
    |v - magnitude (codeOf v)| ≤ |v - magnitude d| := by
  rcases Nat.lt_trichotomy d (codeOf v) with hlt | rfl | hlt
  · rw [abs_sub_le_abs_sub_iff (strictMono_magnitude hlt)]
    exact (le_two_mul_of_lt_codeOf hv hlt).1
  · exact le_rfl
  · rw [abs_sub_le_abs_sub_iff' (strictMono_magnitude hlt)]
    exact (two_mul_le_of_codeOf_lt hv hfinite hlt).1

/-- If another one is equally near, the code is even. -/
theorem codeOf_even_of_abs_sub_eq (hv : 0 ≤ v) (hfinite : codeOf v < infinityCode) {d : ℕ}
    (hne : d ≠ codeOf v) (heq : |v - magnitude d| = |v - magnitude (codeOf v)|) :
    codeOf v % 2 = 0 := by
  rcases Nat.lt_or_gt_of_ne hne with hlt | hgt
  · have hbelow := (abs_sub_le_abs_sub_iff' (strictMono_magnitude hlt)).mp heq.le
    obtain ⟨hle, heven⟩ := le_two_mul_of_lt_codeOf hv hlt
    exact heven (by linarith)
  · have habove := (abs_sub_le_abs_sub_iff (strictMono_magnitude hgt)).mp heq.le
    obtain ⟨hle, heven⟩ := two_mul_le_of_codeOf_lt hv hfinite hgt
    exact heven (by linarith)

/-- No fraction is rounded to a code that would reach into the sign. -/
theorem codeOf_lt_signBit (v : ℚ) : codeOf v < signBit :=
  (codeOf_le_infinityCode v).trans_lt (by decide)

theorem hiddenBit_mod_two (n : ℕ) : n % hiddenBit % 2 = n % 2 :=
  Nat.mod_mod_of_dvd n ⟨2 ^ 51, by decide⟩

/-- A negative number is no nearer than zero, and as near only if it is zero too. -/
theorem abs_sub_zero_le_of_isNegative (hv : 0 ≤ v) {y : Binary64} (hy : y.isNegative) :
    |v - magnitude 0| ≤ |v - y.toRat| ∧ (|v - magnitude 0| = |v - y.toRat| → y.toRat = 0) := by
  have hnonneg := magnitude_nonneg y.code
  have hvalue : y.toRat = -magnitude y.code := by
    rw [toRat_eq, if_pos hy]
  rw [hvalue, magnitude_zero, sub_zero, sub_neg_eq_add, abs_of_nonneg hv,
    abs_of_nonneg (add_nonneg hv hnonneg)]
  exact ⟨by linarith, fun heq => by linarith⟩

/-- The number with the code of a fraction is nearest to it. -/
theorem isNearest_codeOf (hv : 0 ≤ v) : IsNearest v (ofCode (codeOf v)) := by
  have hcode := code_ofCode (codeOf_lt_signBit v)
  have hpositive := isNegative_ofCode (codeOf_lt_signBit v)
  have hvalue : (ofCode (codeOf v)).toRat = magnitude (codeOf v) := by
    rw [toRat_of_positive hpositive, hcode]
  have hisFinite : (ofCode (codeOf v)).IsFinite ↔ codeOf v < infinityCode := by
    rw [isFinite_iff, hcode]
  constructor
  · rw [msb_eq, hpositive]
  · intro hlt
    exact hisFinite.mpr ((codeOf_lt_infinityCode_iff hv).mpr hlt)
  · intro hle
    have hnot := (codeOf_lt_infinityCode_iff hv).not.mpr (not_lt.mpr hle)
    have heq : codeOf v = infinityCode :=
      Nat.le_antisymm (codeOf_le_infinityCode v) (not_lt.mp hnot)
    rw [exponentField_eq, fractionField_eq, hcode, heq]
    decide
  · intro hfinite y _
    have hclosest := abs_sub_magnitude_codeOf_le hv (hisFinite.mp hfinite)
    rw [hvalue]
    cases hy : y.isNegative with
    | false => exact toRat_of_positive hy ▸ hclosest y.code
    | true => exact (hclosest 0).trans (abs_sub_zero_le_of_isNegative hv hy).1
  · intro hfinite y _ hne heq
    have hfinite' := hisFinite.mp hfinite
    rw [fractionField_eq, hcode, hiddenBit_mod_two]
    rw [hvalue] at hne heq
    cases hy : y.isNegative with
    | false =>
        rw [toRat_of_positive hy] at hne heq
        exact codeOf_even_of_abs_sub_eq hv hfinite' (fun h => hne (h ▸ rfl)) heq
    | true =>
        obtain ⟨hle, hzero⟩ := abs_sub_zero_le_of_isNegative hv hy
        have hsame := le_antisymm hle (heq ▸ abs_sub_magnitude_codeOf_le hv hfinite' 0)
        refine codeOf_even_of_abs_sub_eq hv hfinite' (fun h => hne ?_) (hsame.trans heq)
        rw [hzero hsame, ← h, magnitude_zero]

/-- Only the two neighbours of the code can be equally near. -/
theorem adjacent_of_abs_sub_eq (hv : 0 ≤ v) (hfinite : codeOf v < infinityCode) {d : ℕ}
    (hne : d ≠ codeOf v) (heq : |v - magnitude d| = |v - magnitude (codeOf v)|) :
    d + 1 = codeOf v ∨ d = codeOf v + 1 := by
  by_contra hfar
  obtain ⟨hfarBelow, hfarAbove⟩ := not_or.mp hfar
  rcases Nat.lt_or_gt_of_ne hne with hlt | hgt
  · have hmiddle := (abs_sub_le_abs_sub_iff' (strictMono_magnitude hlt)).mp heq.le
    have hnext : d + 1 < codeOf v := by omega
    have hbetween := (le_two_mul_of_lt_codeOf hv hnext).1
    have := strictMono_magnitude (Nat.lt_succ_self d)
    linarith
  · have hmiddle := (abs_sub_le_abs_sub_iff (strictMono_magnitude hgt)).mp heq.le
    have hbetween := (two_mul_le_of_codeOf_lt hv hfinite (Nat.lt_succ_self _)).1
    have hlt : codeOf v + 1 < d := by omega
    have := strictMono_magnitude hlt
    linarith

/-- A finite number that is nearest has the code. -/
theorem IsNearest.code_eq_of_finite {x : Binary64} (h : IsNearest v x) (hv : 0 ≤ v)
    (hlt : v < overflow) : x.code = codeOf v := by
  have hfinite := (codeOf_lt_infinityCode_iff hv).mpr hlt
  have hcode := code_ofCode (codeOf_lt_signBit v)
  have hother : (ofCode (codeOf v)).IsFinite := by rwa [isFinite_iff, hcode]
  have hvalue := toRat_of_positive (msb_eq x ▸ h.positive)
  have hvalue' := toRat_of_positive (isNegative_ofCode (codeOf_lt_signBit v))
  rw [hcode] at hvalue'
  by_contra hne
  have hequal : |v - magnitude x.code| = |v - magnitude (codeOf v)| := by
    refine le_antisymm ?_ (abs_sub_magnitude_codeOf_le hv hfinite _)
    rw [← hvalue, ← hvalue']
    exact h.closest (h.finite hlt) _ hother
  have heven := h.even (h.finite hlt) _ hother
    (by rw [hvalue, hvalue']; exact fun heq => hne (strictMono_magnitude.injective heq.symm))
    (by rw [hvalue, hvalue', hequal])
  rw [fractionField_eq, hiddenBit_mod_two] at heven
  have heven' := codeOf_even_of_abs_sub_eq hv hfinite hne hequal
  rcases adjacent_of_abs_sub_eq hv hfinite hne hequal with hbelow | habove <;> omega

/-- **The nearest number.**  There is just one number nearest to a fraction, and
its code is the one that is computed. -/
theorem isNearest_iff (hv : 0 ≤ v) {x : Binary64} : IsNearest v x ↔ x = ofCode (codeOf v) := by
  constructor
  · intro h
    have hpositive : x.isNegative = false := msb_eq x ▸ h.positive
    rw [← ofCode_code hpositive]
    congr 1
    rcases lt_or_ge v overflow with hlt | hge
    · exact h.code_eq_of_finite hv hlt
    · obtain ⟨hexponent, hfraction⟩ := h.infinite hge
      have hnot := (codeOf_lt_infinityCode_iff hv).not.mpr (not_lt.mpr hge)
      have hsplit := Nat.div_add_mod x.code hiddenBit
      rw [← exponentField_eq, ← fractionField_eq, hexponent, hfraction] at hsplit
      rw [← hsplit, Nat.add_zero, Nat.mul_comm, ← infinityCode_eq]
      exact Nat.le_antisymm (not_lt.mp hnot) (codeOf_le_infinityCode v)
  · rintro rfl
    exact isNearest_codeOf hv

end Nearest

end Binary64

end LoxLexer
