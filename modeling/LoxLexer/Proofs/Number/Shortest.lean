import Mathlib.Order.Interval.Set.OrdConnected
import LoxLexer.Number.Shortest
import LoxLexer.Proofs.Number.Nearest

/-!
# The shortest decimal is the shortest

The search walks the grids of powers of ten from the coarsest to the finest and
on each grid looks at the two neighbours of the number.  Rounding keeps the
order, so what reads back is all that lies between two fractions that do, and if
neither neighbour reads back then no point of the grid does.

This settles the digits.  A decimal with `k` significant digits lies on the
grid on which the number itself has `k` digits, or on a finer grid and below the
least number that has as many digits as the number does; but that number lies on
the grid as well, and it is between the two.  So a grid on which fewer digits
would do is not passed over.

* `HasDigits`: a fraction takes at most so many significant digits.
* `search_cases`: what the search finds, and what is not to be found before.
* `codeOf_value_ofCode`: the decimal reads back.
* `hasDigits_value_ofCode`: no decimal that reads back has fewer digits.
-/

namespace LoxLexer

/-- The fraction that a decimal stands for. -/
def Decimal.value (d : Decimal) : ℚ := d.digits / 10 ^ d.places

/-- A fraction that takes at most `k` significant digits. -/
def HasDigits (k : ℕ) (v : ℚ) : Prop := ∃ m : ℕ, m < 10 ^ k ∧ ∃ e : ℤ, v = m * 10 ^ e

/-- The least number that has more digits takes a single one. -/
theorem hasDigits_of_le {m k : ℕ} (hk : 0 < k) (hle : m ≤ 10 ^ k) (e : ℤ) :
    HasDigits k (m * 10 ^ e) := by
  rcases hle.eq_or_lt with rfl | hlt
  · refine ⟨1, Nat.one_lt_pow hk.ne' (by decide), k + e, ?_⟩
    rw [zpow_add₀ (by norm_num), zpow_natCast]
    push_cast
    ring
  · exact ⟨m, hlt, e, rfl⟩

/-- What is not rounded to zero takes a digit. -/
theorem HasDigits.pos_of_codeOf_ne_zero {k : ℕ} {v : ℚ} (h : HasDigits k v)
    (hround : Binary64.codeOf v ≠ 0) : 0 < k := by
  by_contra hnone
  obtain rfl : k = 0 := by omega
  obtain ⟨m, hm, e, rfl⟩ := h
  obtain rfl : m = 0 := Nat.lt_one_iff.mp hm
  rw [Nat.cast_zero, zero_mul, ← Binary64.magnitude_zero,
    Binary64.codeOf_magnitude (Nat.zero_le _)] at hround
  exact hround rfl

namespace Decimal

/-! ### The number of digits -/

theorem digitCount_pos (n : ℕ) : 0 < digitCount n := by
  fun_cases digitCount n with
  | case1 => exact Nat.length_toDigits_pos
  | case2 => exact Nat.add_pos_left (by decide) _

/-- A number is less than any number with one digit more. -/
theorem lt_pow_digitCount (n : ℕ) : n < 10 ^ digitCount n := by
  fun_induction digitCount n with
  | case1 n => exact (Nat.length_toDigits_le_iff (by decide) Nat.length_toDigits_pos).mp le_rfl
  | case2 n _ ih =>
      rw [pow_add, mul_comm]
      exact (Nat.div_lt_iff_lt_mul (by positivity)).mp ih

/-- A number other than zero is no less than the least one with as many digits. -/
theorem pow_digitCount_le {n : ℕ} (hn : n ≠ 0) : 10 ^ (digitCount n - 1) ≤ n := by
  fun_induction digitCount n with
  | case1 n =>
      by_contra hlt
      have hcount : 0 < (Nat.toDigits 10 n).length := Nat.length_toDigits_pos
      rcases Nat.eq_zero_or_pos ((Nat.toDigits 10 n).length - 1) with hone | hmore
      · rw [hone, pow_zero] at hlt
        omega
      · have hle := (Nat.length_toDigits_le_iff (by decide) hmore).mpr (Nat.not_le.mp hlt)
        omega
  | case2 n hlong ih =>
      have hblock : 0 < Nat.pow 10 64 := Nat.pow_pos (by decide)
      have hquotient : n / Nat.pow 10 64 ≠ 0 :=
        (Nat.div_pos (Nat.not_lt.mp hlong) hblock).ne'
      have hcount := digitCount_pos (n / Nat.pow 10 64)
      rw [Nat.add_sub_assoc hcount, pow_add, mul_comm]
      exact (Nat.le_div_iff_mul_le hblock).mp (ih hquotient)

end Decimal

namespace Shortest

/-- As many units of `10 ^ -1074`, as a fraction. -/
def ofUnits (n : ℕ) : ℚ := n / one

theorem one_pos : 0 < one := by
  unfold one
  generalize places = n
  exact Nat.pow_pos (by decide)

theorem binaryUnit_pos : 0 < binaryUnit := by
  unfold binaryUnit
  generalize places = n
  exact Nat.pow_pos (by decide)

theorem cast_one_eq : (one : ℚ) = 10 ^ places := by
  unfold one
  generalize places = n
  rw [Nat.pow_eq, Nat.cast_pow, Nat.cast_ofNat]

theorem ofUnits_mono {m n : ℕ} (h : m ≤ n) : ofUnits m ≤ ofUnits n :=
  div_le_div_of_nonneg_right (Nat.cast_le.mpr h) (Nat.cast_nonneg one)

theorem ofUnits_nonneg (n : ℕ) : 0 ≤ ofUnits n :=
  div_nonneg (Nat.cast_nonneg n) (Nat.cast_nonneg one)

/-- Units on the grid of a power of ten. -/
theorem ofUnits_mul_pow (m j : ℕ) : ofUnits (m * 10 ^ j) = m * 10 ^ ((j : ℤ) - places) := by
  rw [ofUnits, cast_one_eq, zpow_sub₀ (by norm_num), zpow_natCast, zpow_natCast]
  push_cast
  rw [mul_div_assoc]

/-- A decimal of so many steps is as many units as these steps take. -/
theorem value_ofSteps (count i : ℕ) : (ofSteps count i).value = ofUnits (count * 10 ^ i) := by
  have hexponents : i - places + places = i + (places - i) := by omega
  rw [Decimal.value, ofUnits, cast_one_eq, ofSteps, div_eq_div_iff (by positivity) (by positivity),
    Nat.pow_eq]
  push_cast
  rw [mul_assoc, mul_assoc, ← pow_add, ← pow_add, hexponents]

/-- A unit of the magnitudes in units of `10 ^ -1074`. -/
theorem ofUnits_units (code : ℕ) :
    ofUnits (Binary64.units code * binaryUnit) = Binary64.magnitude code := by
  have hquantum : Binary64.quantum = 2 ^ (-(places : ℤ)) := rfl
  unfold ofUnits binaryUnit one
  rw [Binary64.magnitude, hquantum]
  generalize places = n
  rw [zpow_neg, zpow_natCast, Nat.pow_eq, Nat.pow_eq, Nat.cast_mul, mul_div_assoc]
  push_cast
  rw [← div_pow, ← inv_pow]
  norm_num

/-! ### What reads back -/

/-- Units read back as a code if their fraction is rounded to it. -/
theorem readsBack_iff {code n : ℕ} : readsBack code n ↔ Binary64.codeOf (ofUnits n) = code := by
  rw [readsBack, beq_iff_eq, Binary64.nearestCode_eq n one_pos, ofUnits]

/-- What lies between fractions that are rounded to a code is rounded to it. -/
theorem codeOf_eq_of_between {code : ℕ} {u v w : ℚ} (hu : 0 ≤ u) (huv : u ≤ v) (hvw : v ≤ w)
    (hcode : Binary64.codeOf u = code) (hcode' : Binary64.codeOf w = code) :
    Binary64.codeOf v = code := by
  have hlower := Binary64.codeOf_mono hu huv
  have hupper := Binary64.codeOf_mono (hu.trans huv) hvw
  omega

/-- Whatever is between two numbers that read back as a code does so too. -/
theorem ordConnected_readsBack (code : ℕ) : {n | readsBack code n}.OrdConnected := by
  refine ⟨fun l hl n hn m hm => readsBack_iff.mpr ?_⟩
  exact codeOf_eq_of_between (ofUnits_nonneg l) (ofUnits_mono hm.1) (ofUnits_mono hm.2)
    (readsBack_iff.mp hl) (readsBack_iff.mp hn)

section Search

variable {passes : ℕ → Bool} {value : ℕ}

/-- A neighbour that is taken passes, and is not far away. -/
theorem neighbour?_some {step count : ℕ} (h : neighbour? passes value step = some count) :
    passes (count * step) ∧ count ≤ value / step + 1 := by
  unfold neighbour? at h
  dsimp only at h
  split at h
  · next hbelow habove =>
    split at h
    · cases h
      exact ⟨hbelow, Nat.le_succ _⟩
    · cases h
      exact ⟨habove, le_rfl⟩
  · next hbelow _ =>
    cases h
    exact ⟨hbelow, Nat.le_succ _⟩
  · next _ habove =>
    cases h
    exact ⟨habove, le_rfl⟩
  · cases h

/-- If no neighbour is taken, no point of the grid passes. -/
theorem neighbour?_none {step : ℕ} (hstep : 0 < step) (hbetween : {n | passes n}.OrdConnected)
    (hvalue : passes value) (h : neighbour? passes value step = none) (m : ℕ) :
    ¬ passes (m * step) := by
  have hneighbours : passes (value / step * step) = false ∧
      passes ((value / step + 1) * step) = false := by
    unfold neighbour? at h
    dsimp only at h
    split at h
    · cases h
    · cases h
    · cases h
    · next hbelow habove => exact ⟨hbelow, habove⟩
  intro hpoint
  rcases Nat.lt_or_ge (value / step) m with habove | hbelow
  · have hvalue' : value ≤ (value / step + 1) * step :=
      (Nat.lt_mul_of_div_lt (Nat.lt_succ_self _) hstep).le
    have hpass : passes ((value / step + 1) * step) :=
      hbetween.out hvalue hpoint ⟨hvalue', Nat.mul_le_mul_right step habove⟩
    rw [hneighbours.2] at hpass
    cases hpass
  · have hpass : passes (value / step * step) :=
      hbetween.out hpoint hvalue
        ⟨Nat.mul_le_mul_right step hbelow, Nat.div_mul_le_self value step⟩
    rw [hneighbours.1] at hpass
    cases hpass

/-- What the search finds: a point that passes, on a grid, and next to the number.
On the grids before that no point passes. -/
theorem search_cases (hbetween : {n | passes n}.OrdConnected) (hvalue : passes value) (n : ℕ) :
    ∃ count i, search passes value n = ofSteps count i ∧ passes (count * 10 ^ i) ∧
      count ≤ value / 10 ^ i + 1 ∧ (i < n ∨ i = 0) ∧
      ∀ j, i < j → j < n → ∀ m, ¬ passes (m * 10 ^ j) := by
  induction n with
  | zero =>
      refine ⟨value, 0, rfl, by rwa [pow_zero, mul_one], ?_, Or.inr rfl, ?_⟩
      · rw [pow_zero, Nat.div_one]
        exact Nat.le_succ value
      · intro j _ hj
        exact absurd hj (Nat.not_lt_zero j)
  | succ n ih =>
      rw [search, Nat.pow_eq]
      cases hfound : neighbour? passes value (10 ^ n) with
      | some count =>
          obtain ⟨hread, hle⟩ := neighbour?_some hfound
          exact ⟨count, n, rfl, hread, hle, Or.inl (Nat.lt_succ_self n), by omega⟩
      | none =>
          obtain ⟨count, i, hsearch, hread, hle, hi, hcoarse⟩ := ih
          refine ⟨count, i, hsearch, hread, hle, hi.imp_left Nat.lt_succ_of_lt, ?_⟩
          intro j hij hjn
          rcases Nat.eq_or_lt_of_le (Nat.le_of_lt_succ hjn) with rfl | hlt
          · exact neighbour?_none (by positivity) hbetween hvalue hfound
          · exact hcoarse j hij hlt

/-- Zero is found on the first grid. -/
theorem search_zero (hzero : passes 0) (n : ℕ) : ∃ i, search passes 0 n = ofSteps 0 i := by
  cases n with
  | zero => exact ⟨0, rfl⟩
  | succ n =>
      have hfound : neighbour? passes 0 (10 ^ n) = some 0 := by
        cases habove : passes (10 ^ n) <;> simp [neighbour?, hzero, habove]
      refine ⟨n, ?_⟩
      rw [search, Nat.pow_eq, hfound]

end Search

/-! ### No fewer digits -/

section OfCode

variable {code : ℕ}

/-- If `k` digits will do, less than the `n` of the number, then so will a point of
the grid on which the number has `k` digits. -/
theorem exists_on_grid {value n k : ℕ} (hvalue : Binary64.codeOf (ofUnits value) = code)
    (hpower : 10 ^ (n - 1) ≤ value) (hk : 0 < k) (hkn : k < n) {v : ℚ} (hv : 0 ≤ v)
    (hround : Binary64.codeOf v = code) (hdigits : HasDigits k v) :
    ∃ m, Binary64.codeOf (ofUnits (m * 10 ^ (n - k))) = code := by
  obtain ⟨m, hm, e, rfl⟩ := hdigits
  rcases le_or_gt ((n - k : ℕ) : ℤ) (e + places) with hgrid | hfiner
  · obtain ⟨t, ht⟩ := Int.le.dest hgrid
    have hsame : ofUnits (m * 10 ^ t * 10 ^ (n - k)) = m * 10 ^ e := by
      have hexponent : ((t + (n - k) : ℕ) : ℤ) - places = e := by omega
      rw [mul_assoc, ← pow_add, ofUnits_mul_pow, hexponent]
    exact ⟨m * 10 ^ t, hsame ▸ hround⟩
  · -- The least number with as many digits as the value is between the decimal and the value.
    have hleast : 10 ^ (k - 1) * 10 ^ (n - k) = 1 * 10 ^ (n - 1) := by
      have hexponent : k - 1 + (n - k) = n - 1 := by omega
      rw [← pow_add, hexponent, one_mul]
    have hbelow : (m : ℚ) * 10 ^ e ≤ ofUnits (1 * 10 ^ (n - 1)) := by
      have hcast : (m : ℚ) ≤ 10 ^ k := by exact_mod_cast hm.le
      have hexponent : (k : ℤ) + e ≤ ((n - 1 : ℕ) : ℤ) - places := by omega
      rw [ofUnits_mul_pow, Nat.cast_one, one_mul]
      calc (m : ℚ) * 10 ^ e ≤ 10 ^ k * 10 ^ e :=
            mul_le_mul_of_nonneg_right hcast (zpow_nonneg (by norm_num) e)
        _ = 10 ^ (k + e) := by rw [zpow_add₀ (by norm_num), zpow_natCast]
        _ ≤ 10 ^ (((n - 1 : ℕ) : ℤ) - places) := zpow_le_zpow_right₀ (by norm_num) hexponent
    have habove : ofUnits (1 * 10 ^ (n - 1)) ≤ ofUnits value := by
      rw [one_mul]
      exact ofUnits_mono hpower
    refine ⟨10 ^ (k - 1), ?_⟩
    rw [hleast]
    exact codeOf_eq_of_between hv hbelow habove hround hvalue

/-- The exact value of a code reads back as the code. -/
theorem readsBack_value (hcode : code ≤ Binary64.infinityCode) :
    readsBack code (Binary64.units code * binaryUnit) := by
  rw [readsBack_iff, ofUnits_units, Binary64.codeOf_magnitude hcode]

/-- The decimal for a code reads back. -/
theorem codeOf_value_ofCode (hcode : code ≤ Binary64.infinityCode) :
    Binary64.codeOf (ofCode code).value = code := by
  obtain ⟨count, i, hsearch, hread, -⟩ :=
    search_cases (ordConnected_readsBack code) (readsBack_value hcode)
      (Decimal.digitCount (Binary64.units code * binaryUnit))
  unfold ofCode
  rw [hsearch, value_ofSteps, readsBack_iff.mp hread]

/-- The shortest decimal for zero is zero. -/
theorem value_ofCode_zero : (ofCode 0).value = 0 := by
  have hvalue : Binary64.units 0 * binaryUnit = 0 := by
    have hunits : Binary64.units 0 = 0 := by decide
    rw [hunits, Nat.zero_mul]
  have hread : readsBack 0 0 := by
    have hzero := readsBack_value (Nat.zero_le Binary64.infinityCode)
    rwa [hvalue] at hzero
  obtain ⟨i, hsearch⟩ := search_zero hread (Decimal.digitCount 0)
  unfold ofCode
  rw [hvalue, hsearch, value_ofSteps, Nat.zero_mul, ofUnits, Nat.cast_zero, zero_div]

/-- Only the code 0 has no units. -/
theorem units_mul_binaryUnit_ne_zero (hzero : code ≠ 0) :
    Binary64.units code * binaryUnit ≠ 0 := by
  have hunits := Binary64.strictMono_units (Nat.pos_of_ne_zero hzero)
  exact Nat.mul_ne_zero (Nat.ne_zero_of_lt hunits) binaryUnit_pos.ne'

/-- **The shortest decimal.**  A fraction that is rounded to a code takes no fewer
digits than the decimal for the code does. -/
theorem hasDigits_value_ofCode {v : ℚ} (hv : 0 ≤ v) (hround : Binary64.codeOf v = code) {k : ℕ}
    (hdigits : HasDigits k v) : HasDigits k (ofCode code).value := by
  by_cases hzero : code = 0
  · subst hzero
    exact ⟨0, by positivity, 0, by rw [value_ofCode_zero, Nat.cast_zero, zero_mul]⟩
  have hk := hdigits.pos_of_codeOf_ne_zero (hround ▸ hzero)
  have hread := readsBack_value (hround ▸ Binary64.codeOf_le_infinityCode v)
  have hpositive := units_mul_binaryUnit_ne_zero hzero
  unfold ofCode
  dsimp only
  generalize Binary64.units code * binaryUnit = value at *
  have hleast := Decimal.pow_digitCount_le hpositive
  have hmost := Decimal.lt_pow_digitCount value
  generalize Decimal.digitCount value = n at *
  obtain ⟨count, i, hsearch, -, hcount, hi, hcoarse⟩ :=
    search_cases (ordConnected_readsBack code) hread n
  -- A grid on which `k` digits would do is not passed over.
  have hgrid : n - i ≤ k := by
    by_contra hmore
    obtain ⟨m, hm⟩ := exists_on_grid (readsBack_iff.mp hread) hleast hk (by omega) hv hround hdigits
    exact hcoarse (n - k) (by omega) (by omega) m (readsBack_iff.mpr hm)
  have hquotient : value / 10 ^ i < 10 ^ k := by
    have hsplit : 10 ^ n ≤ 10 ^ i * 10 ^ k := by
      rw [← pow_add]
      exact Nat.pow_le_pow_right (by decide) (by omega)
    exact Nat.div_lt_of_lt_mul (hmost.trans_le hsplit)
  rw [hsearch, value_ofSteps, ofUnits_mul_pow]
  exact hasDigits_of_le hk (by omega) _

end OfCode

end Shortest

end LoxLexer
