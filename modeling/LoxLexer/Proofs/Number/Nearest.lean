import Mathlib.Algebra.Order.Floor.Semifield
import Mathlib.Data.Rat.Floor
import Mathlib.Tactic.FieldSimp
import Mathlib.Tactic.Linarith
import Mathlib.Tactic.Positivity
import LoxLexer.Proofs.Number.Codes

/-!
# Which code a fraction is rounded to

A fraction is rounded up past a magnitude if it lies beyond the middle between
that magnitude and the next one, or in the middle itself if the next one is the
even of the two.  This says all there is to say about rounding: the code that a
fraction is rounded to is the number of magnitudes that it is rounded up past.

The computation works on a window instead, in which fifty-three bits are left
of the integer part and what is behind them is rounded to an integer.  Where the
window is one of normal numbers, its lower end is a power of two, and the
magnitude below that is closer than the other neighbours are.  But the fraction
is not below the end of its window, so the middle in question is behind it.

* `lt_code_iff`: the count for a window, from rounding to an integer.
* `lt_nearestCode_iff`: the count for the code that the reader computes.
* `codeOf`: that code as a function of the fraction alone, with `codeOf_mono`
  and `codeOf_magnitude`.
-/

namespace LoxLexer

/-- The integer `r` is what `x` is rounded to, halves to even. -/
structure RoundsTo (x : ℚ) (r : ℕ) : Prop where
  ge : 2 * r - 1 ≤ 2 * x
  le : 2 * x ≤ 2 * r + 1
  even_of_ge : 2 * r - 1 = 2 * x → r % 2 = 0
  even_of_le : 2 * x = 2 * r + 1 → r % 2 = 0

/-- Division with halves to even rounds as it should. -/
theorem roundsTo_roundHalfEven (num : ℕ) {den : ℕ} (hden : 0 < den) :
    RoundsTo (num / den) (roundHalfEven num den) := by
  have hpos : (0 : ℚ) < den := Nat.cast_pos.mpr hden
  have hsplit : (num / den : ℚ) = (num / den : ℕ) + (num % den : ℕ) / den := by
    rw [div_eq_iff hpos.ne', add_mul, div_mul_cancel₀ _ hpos.ne', mul_comm]
    exact_mod_cast (Nat.div_add_mod num den).symm
  have hlt : ((num % den : ℕ) / den : ℚ) < 1 :=
    (div_lt_one hpos).mpr (Nat.cast_lt.mpr (Nat.mod_lt num hden))
  have hnonneg : (0 : ℚ) ≤ (num % den : ℕ) / den := by positivity
  unfold roundHalfEven
  dsimp only
  rw [hsplit]
  generalize num / den = low
  generalize num % den = rest at *
  have hbelow : 2 * rest < den ↔ 2 * (rest / den : ℚ) < 1 := by
    rw [← mul_div_assoc, div_lt_one hpos]
    exact_mod_cast Iff.rfl
  have hmiddle : 2 * rest = den ↔ 2 * (rest / den : ℚ) = 1 := by
    rw [← mul_div_assoc, div_eq_one_iff_eq hpos.ne']
    exact_mod_cast Iff.rfl
  generalize (rest / den : ℚ) = f at *
  split
  · next hdown =>
    rw [hbelow, hmiddle] at hdown
    have hhalf : 2 * f ≤ 1 := hdown.elim le_of_lt fun h => h.1.le
    refine ⟨by linarith, by linarith, fun htie => by linarith, fun htie => ?_⟩
    exact (hdown.resolve_left (by linarith)).2
  · next hup =>
    rw [hbelow, hmiddle] at hup
    obtain ⟨hnotBelow, hnotEven⟩ := not_or.mp hup
    have hhalf : 1 ≤ 2 * f := not_lt.mp hnotBelow
    have hcast : ((low + 1 : ℕ) : ℚ) = low + 1 := Nat.cast_succ low
    refine ⟨by linarith, by linarith, fun htie => ?_, fun htie => by linarith⟩
    have hodd : ¬ low % 2 = 0 := fun h => hnotEven ⟨by linarith, h⟩
    omega

namespace Binary64

/-- The fraction `q`, counted in units, is rounded up past the magnitude with
this code. -/
def IsPast (q : ℚ) (code : ℕ) : Prop :=
  (units code + units (code + 1) : ℚ) < 2 * q ∨
    (units code + units (code + 1) : ℚ) = 2 * q ∧ code % 2 = 1

theorem units_le_units {c d : ℕ} (h : c ≤ d) : (units c : ℚ) ≤ units d :=
  Nat.cast_le.mpr (strictMono_units.monotone h)

theorem units_lt_units {c d : ℕ} (h : c < d) : (units c : ℚ) < units d :=
  Nat.cast_lt.mpr (strictMono_units h)

/-- What is rounded up past a magnitude is rounded up past all smaller ones. -/
theorem IsPast.anti {q : ℚ} {c d : ℕ} (h : IsPast q d) (hle : c ≤ d) : IsPast q c := by
  rcases Nat.eq_or_lt_of_le hle with rfl | hlt
  · exact h
  · have hhere := units_lt_units hlt
    have hnext := units_le_units (Nat.succ_le_succ hle)
    rcases h with hbeyond | ⟨hmiddle, -⟩
    · exact Or.inl (by linarith)
    · exact Or.inl (by linarith)

/-- So is whatever is no less. -/
theorem IsPast.mono {q q' : ℚ} {c : ℕ} (h : IsPast q c) (hle : q ≤ q') : IsPast q' c := by
  rcases h with hbeyond | ⟨hmiddle, hodd⟩
  · exact Or.inl (by linarith)
  · rcases hle.eq_or_lt with rfl | hlt
    · exact Or.inr ⟨hmiddle, hodd⟩
    · exact Or.inl (by linarith)

/-! ### The window -/

section Window

variable {x : ℚ} {s r : ℕ}

/-- A fraction is not rounded up past the magnitude that it is rounded to. -/
theorem not_isPast_code (hr : RoundsTo x r) (hle : r ≤ 2 * hiddenBit)
    (hnormal : s = 0 ∨ hiddenBit ≤ r) : ¬ IsPast (x * 2 ^ s) (s * hiddenBit + r) := by
  have hpower : (0 : ℚ) < 2 ^ s := by positivity
  have hhere : (units (s * hiddenBit + r) : ℚ) = r * 2 ^ s := by
    rw [units_scaled hle hnormal]
    push_cast
    rfl
  have hnext : (r + 1) * 2 ^ s ≤ units (s * hiddenBit + r + 1) := by
    rcases Nat.eq_or_lt_of_le hle with rfl | hlt
    · have hsum : s * hiddenBit + 2 * hiddenBit + 1 = (s + 1) * hiddenBit + (hiddenBit + 1) := by
        ring
      rw [hsum, units_scaled (by decide) (Or.inr (Nat.le_succ _)), pow_succ', ← Nat.mul_assoc]
      exact Nat.mul_le_mul_right _ (by omega)
    · rw [Nat.add_assoc, units_scaled hlt (hnormal.imp_right Nat.le_succ_of_le)]
  have hnext' : ((r + 1 : ℕ) : ℚ) * 2 ^ s ≤ units (s * hiddenBit + r + 1) := by
    exact_mod_cast hnext
  push_cast at hnext'
  have hrest := mul_le_mul_of_nonneg_right hr.le hpower.le
  rintro (hbeyond | ⟨hmiddle, hodd⟩)
  · linarith
  · have htie : 2 * x = 2 * r + 1 := by
      refine mul_right_cancel₀ hpower.ne' (le_antisymm hrest ?_)
      linarith
    rw [scaled_mod_two, hr.even_of_le htie] at hodd
    cases hodd

/-- A fraction in its window is rounded up past the magnitude below. -/
theorem isPast_of_succ (hr : RoundsTo x r) (hle : r ≤ 2 * hiddenBit)
    (hwindow : s = 0 ∨ hiddenBit ≤ x ∧ hiddenBit ≤ r) {code : ℕ}
    (hcode : code + 1 = s * hiddenBit + r) : IsPast (x * 2 ^ s) code := by
  have hpower : (0 : ℚ) < 2 ^ s := by positivity
  have hnormal : s = 0 ∨ hiddenBit ≤ r := hwindow.imp_right And.right
  have hnext : (units (code + 1) : ℚ) = r * 2 ^ s := by
    rw [hcode, units_scaled hle hnormal]
    push_cast
    rfl
  have hrest := mul_le_mul_of_nonneg_right hr.ge hpower.le
  by_cases hinside : s = 0 ∨ hiddenBit < r
  · -- The magnitude below has as many doublings.
    have hbelow : code = s * hiddenBit + (r - 1) ∧ r - 1 + 1 = r := by
      have := hiddenBit_pos
      rcases hinside with rfl | hlt <;> omega
    have hhere : (units code : ℚ) = (r - 1 : ℕ) * 2 ^ s := by
      rw [hbelow.1, units_scaled (by omega) (hinside.imp_right (by omega))]
      push_cast
      rfl
    have hcast : ((r - 1 : ℕ) : ℚ) = r - 1 := by
      rw [← hbelow.2]
      simp
    rw [hcast] at hhere
    rcases hr.ge.lt_or_eq with hlt | htie
    · refine Or.inl ?_
      have := mul_lt_mul_of_pos_right hlt hpower
      linarith
    · refine Or.inr ⟨by rw [hhere, hnext, ← mul_assoc, ← htie]; ring, ?_⟩
      have heven : (code + 1) % 2 = 0 := by rw [hcode, scaled_mod_two, hr.even_of_ge htie]
      omega
  · -- The window begins here, and the fraction is in it.
    obtain ⟨hdoubled, hend⟩ := not_or.mp hinside
    obtain ⟨hx, hnormal'⟩ := hwindow.resolve_left hdoubled
    obtain rfl : r = hiddenBit := by omega
    have hhere := units_lt_units (Nat.lt_succ_self code)
    have hq := mul_le_mul_of_nonneg_right hx hpower.le
    exact Or.inl (by linarith)

/-- **The window.**  A fraction is rounded up past the magnitudes below the one
that its window gives, and past no others. -/
theorem lt_code_iff (hr : RoundsTo x r) (hle : r ≤ 2 * hiddenBit)
    (hwindow : s = 0 ∨ hiddenBit ≤ x ∧ hiddenBit ≤ r) (code : ℕ) :
    code < s * hiddenBit + r ↔ IsPast (x * 2 ^ s) code := by
  constructor
  · intro hlt
    obtain ⟨last, hlast⟩ := Nat.exists_eq_add_one_of_ne_zero (Nat.ne_zero_of_lt hlt)
    exact (isPast_of_succ hr hle hwindow hlast.symm).anti (by omega)
  · intro hpast
    by_contra hge
    exact not_isPast_code hr hle (hwindow.imp_right And.right) (hpast.anti (Nat.not_lt.mp hge))

end Window

/-- The window of a fraction is the one that its integer part lies in. -/
theorem shift_bounds (num den : ℕ) :
    num / den < 2 * hiddenBit * 2 ^ shift num den ∧
      (shift num den = 0 ∨ hiddenBit * 2 ^ shift num den ≤ num / den) := by
  unfold shift
  generalize num / den = n
  have hpower : 2 * hiddenBit * 2 ^ (n.log2 - 52) = 2 ^ (n.log2 - 52 + 53) := by
    rw [hiddenBit_eq]
    ring
  constructor
  · rw [hpower]
    exact Nat.lt_log2_self.trans_le (Nat.pow_le_pow_right (by decide) (by omega))
  · rcases Nat.le_total n.log2 52 with hsmall | hlarge
    · exact Or.inl (Nat.sub_eq_zero_of_le hsmall)
    · have hpower' : hiddenBit * 2 ^ (n.log2 - 52) = 2 ^ n.log2 := by
        rw [hiddenBit_eq, ← pow_add, Nat.add_sub_cancel' hlarge]
      have hne : n ≠ 0 := by
        rintro rfl
        exact absurd hlarge (by decide)
      exact Or.inr (hpower' ▸ Nat.log2_self_le hne)

/-- Without a limit on exponents, a fraction is rounded to the code with as many
magnitudes below it as the fraction is rounded up past. -/
theorem lt_unboundedCode_iff (num : ℕ) {den : ℕ} (hden : 0 < den) (code : ℕ) :
    code < unboundedCode num den ↔ IsPast (num / den) code := by
  have hnonneg : (0 : ℚ) ≤ num / den := by positivity
  obtain ⟨hbelow, hnormal⟩ := shift_bounds num den
  rw [← Nat.floor_div_eq_div (K := ℚ), Nat.floor_lt hnonneg] at hbelow
  rw [← Nat.floor_div_eq_div (K := ℚ), Nat.le_floor_iff hnonneg] at hnormal
  unfold unboundedCode
  dsimp only
  generalize shift num den = s at *
  have hpower : (0 : ℚ) < 2 ^ s := by positivity
  have hshifted : 0 < den <<< s := by
    rw [Nat.shiftLeft_eq]
    exact Nat.mul_pos hden (Nat.two_pow_pos s)
  have hr := roundsTo_roundHalfEven num hshifted
  generalize roundHalfEven num (den <<< s) = r at *
  have hq : (num / den : ℚ) = num / (den <<< s : ℕ) * 2 ^ s := by
    rw [Nat.shiftLeft_eq]
    push_cast
    field_simp
  generalize (num / (den <<< s : ℕ) : ℚ) = x at *
  rw [hq] at hbelow hnormal ⊢
  push_cast at hbelow hnormal
  have hx : x < 2 * hiddenBit := lt_of_mul_lt_mul_right hbelow hpower.le
  have hle : r ≤ 2 * hiddenBit := by
    have hlt : ((2 * r : ℕ) : ℚ) < (4 * hiddenBit + 1 : ℕ) := by
      push_cast
      linarith [hr.ge]
    have hlt' := Nat.cast_lt.mp hlt
    omega
  refine lt_code_iff hr hle (hnormal.imp_right fun hge => ?_) code
  have hx' : (hiddenBit : ℚ) ≤ x := le_of_mul_le_mul_right hge hpower
  have hle' : ((2 * hiddenBit : ℕ) : ℚ) ≤ (2 * r + 1 : ℕ) := by
    push_cast
    linarith [hr.le]
  have hle'' := Nat.cast_le.mp hle'
  exact ⟨hx', by omega⟩

/-! ### The code of a fraction -/

/-- The least magnitude that is not zero. -/
def quantum : ℚ := 2 ^ (-1074 : ℤ)

theorem quantum_pos : 0 < quantum := zpow_pos two_pos _

/-- The magnitude with a code. -/
def magnitude (code : ℕ) : ℚ := units code * quantum

theorem magnitude_zero : magnitude 0 = 0 := by
  have hunits : units 0 = 0 := by decide
  rw [magnitude, hunits, Nat.cast_zero, zero_mul]

/-- Magnitudes are in the order of their codes. -/
theorem strictMono_magnitude : StrictMono magnitude := fun _ _ h =>
  mul_lt_mul_of_pos_right (units_lt_units h) quantum_pos

theorem magnitude_nonneg (code : ℕ) : 0 ≤ magnitude code :=
  mul_nonneg (Nat.cast_nonneg _) quantum_pos.le

/-- Rounding up past a magnitude, by the middle between it and the next one. -/
theorem isPast_iff {v : ℚ} {code : ℕ} :
    IsPast (v / quantum) code ↔ magnitude code + magnitude (code + 1) < 2 * v ∨
      magnitude code + magnitude (code + 1) = 2 * v ∧ code % 2 = 1 := by
  have hsum : magnitude code + magnitude (code + 1) =
      (units code + units (code + 1)) * quantum := (add_mul _ _ _).symm
  rw [IsPast, hsum, ← mul_div_assoc, lt_div_iff₀ quantum_pos, eq_div_iff quantum_pos.ne']

/-- A fraction in smaller units. -/
theorem cast_shiftLeft_div (num den k : ℕ) :
    ((num <<< k : ℕ) / den : ℚ) = num / den / 2 ^ (-k : ℤ) := by
  rw [Nat.shiftLeft_eq, zpow_neg, div_inv_eq_mul, zpow_natCast, Nat.cast_mul, Nat.cast_pow,
    Nat.cast_ofNat, div_mul_eq_mul_div]

/-- A fraction is rounded to a greater code if it is past the middle above this one. -/
theorem lt_nearestCode_iff (num : ℕ) {den : ℕ} (hden : 0 < den) (code : ℕ) :
    code < nearestCode num den ↔ code < infinityCode ∧ IsPast (num / den / quantum) code := by
  have hunits : ((num <<< 1074 : ℕ) / den : ℚ) = num / den / quantum :=
    cast_shiftLeft_div num den 1074
  rw [nearestCode, lt_min_iff, lt_unboundedCode_iff _ hden, hunits, and_comm]

/-- The code that a fraction is rounded to. -/
def codeOf (v : ℚ) : ℕ := nearestCode v.num.toNat v.den

section CodeOf

variable {v w : ℚ} {code : ℕ}

/-- **The count.**  The code of a fraction is that of infinity, or the number of
magnitudes that the fraction is rounded up past. -/
theorem lt_codeOf_iff (hv : 0 ≤ v) :
    code < codeOf v ↔ code < infinityCode ∧ IsPast (v / quantum) code := by
  have hnum : ((v.num.toNat : ℕ) : ℚ) = (v.num : ℚ) := by
    exact_mod_cast Int.toNat_of_nonneg (Rat.num_nonneg.mpr hv)
  rw [codeOf, lt_nearestCode_iff _ v.den_pos, hnum, Rat.num_div_den]

/-- How a fraction is written does not matter. -/
theorem nearestCode_eq (num : ℕ) {den : ℕ} (hden : 0 < den) :
    nearestCode num den = codeOf (num / den) := by
  refine eq_of_forall_lt_iff fun code => ?_
  rw [lt_nearestCode_iff num hden, lt_codeOf_iff (by positivity)]

theorem codeOf_le_infinityCode (v : ℚ) : codeOf v ≤ infinityCode := min_le_right _ _

/-- Rounding keeps the order. -/
theorem codeOf_mono (hv : 0 ≤ v) (hle : v ≤ w) : codeOf v ≤ codeOf w := by
  refine le_of_forall_lt fun code hcode => ?_
  obtain ⟨hfinite, hpast⟩ := (lt_codeOf_iff hv).mp hcode
  have hunits : v / quantum ≤ w / quantum := div_le_div_of_nonneg_right hle quantum_pos.le
  exact (lt_codeOf_iff (hv.trans hle)).mpr ⟨hfinite, hpast.mono hunits⟩

/-- A magnitude is rounded to itself. -/
theorem codeOf_magnitude (hcode : code ≤ infinityCode) : codeOf (magnitude code) = code := by
  refine eq_of_forall_lt_iff fun c => ?_
  rw [lt_codeOf_iff (magnitude_nonneg code), isPast_iff]
  constructor
  · rintro ⟨-, hpast⟩
    by_contra hge
    have hhere := strictMono_magnitude.monotone (Nat.not_lt.mp hge)
    have hnext := strictMono_magnitude (Nat.lt_succ_self c)
    rcases hpast with hbeyond | ⟨hmiddle, -⟩ <;> linarith
  · intro hlt
    have hhere := strictMono_magnitude hlt
    have hnext := strictMono_magnitude.monotone (Nat.succ_le_of_lt hlt)
    exact ⟨hlt.trans_le hcode, Or.inl (by linarith)⟩

end CodeOf

end Binary64

end LoxLexer
