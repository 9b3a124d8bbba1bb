import Mathlib.Data.Nat.Basic
import Mathlib.Data.BitVec
import Mathlib.Order.Monotone.Basic
import Mathlib.Tactic.Ring
import LoxLexer.Number.Rounding

/-!
# Codes and the magnitudes behind them

The code of a magnitude is a number, and magnitudes are compared by comparing
codes.  What makes this so is one fact about two neighbours.  Every code is a
row of fifty-two-bit steps and a significand, `s * 2 ^ 52 + r`; its magnitude
is `r`, doubled `s` times, and the next magnitude is `2 ^ s` units further up.
Nothing in this stops at infinity, which is why rounding can be described
first as if exponents had no limit, and cut off afterwards.

* `units_scaled`: the magnitude of a significand with its doublings.
* `strictMono_units`: codes are ordered as the magnitudes are.
* `code_ofCode`: a number is determined by its code, unless it is negative.
-/

namespace LoxLexer

namespace Binary64

/-- The leading bit of a significand, which is not written, is worth two to the 52nd. -/
theorem hiddenBit_eq : hiddenBit = 2 ^ 52 := by decide

/-- The code of infinity has an exponent field of ones and nothing behind it. -/
theorem infinityCode_eq : infinityCode = 2047 * hiddenBit := by decide

/-- The sign stands before the exponent field. -/
theorem signBit_eq : signBit = 2048 * hiddenBit := by decide

theorem hiddenBit_pos : 0 < hiddenBit := by decide

/-- Steps of the exponent do not change whether a code is even. -/
theorem scaled_mod_two (s r : Nat) : (s * hiddenBit + r) % 2 = r % 2 := by
  have heven : hiddenBit % 2 = 0 := by decide
  rw [Nat.add_mod, Nat.mul_mod, heven, Nat.mul_zero, Nat.zero_mod, Nat.zero_add, Nat.mod_mod]

/-! ### Magnitudes -/

/-- The significand `r`, doubled `s` times, is a magnitude. If it is doubled at
all it has its leading one. A significand of `2 ^ 53` stands for the next one
up, which is doubled once more. -/
theorem units_scaled {s r : Nat} (hle : r ≤ 2 * hiddenBit) (hnormal : s = 0 ∨ hiddenBit ≤ r) :
    units (s * hiddenBit + r) = r * 2 ^ s := by
  have hpos := hiddenBit_pos
  rcases Nat.lt_or_ge r hiddenBit with hsmall | hlarge
  · obtain rfl : s = 0 := hnormal.resolve_right (Nat.not_le.mpr hsmall)
    simp [units, hsmall]
  · have hcode : ¬ s * hiddenBit + r < hiddenBit := by omega
    rw [units, if_neg hcode, Nat.shiftLeft_eq]
    rcases Nat.eq_or_lt_of_le hle with rfl | hlt
    · have hsum : s * hiddenBit + 2 * hiddenBit = (s + 2) * hiddenBit := by ring
      rw [hsum, Nat.mul_mod_left, Nat.mul_div_cancel _ hpos, Nat.add_zero]
      have hpower : 2 ^ (s + 2 - 1) = 2 * 2 ^ s := Nat.pow_succ'
      rw [hpower]
      ring
    · have hsum : s * hiddenBit + r = (r - hiddenBit) + hiddenBit * (s + 1) := by
        rw [Nat.mul_add, Nat.mul_comm s]
        omega
      have hfield : r - hiddenBit < hiddenBit := by omega
      rw [hsum, Nat.add_mul_mod_self_left, Nat.add_mul_div_left _ _ hpos,
        Nat.mod_eq_of_lt hfield, Nat.div_eq_of_lt hfield, Nat.zero_add, Nat.add_sub_cancel,
        Nat.add_sub_cancel' hlarge]

/-- Every code is a significand with its doublings. -/
theorem exists_scaled (code : Nat) :
    ∃ s r, code = s * hiddenBit + r ∧ r < 2 * hiddenBit ∧ (s = 0 ∨ hiddenBit ≤ r) := by
  have hpos := hiddenBit_pos
  rcases Nat.lt_or_ge code hiddenBit with hsmall | hlarge
  · exact ⟨0, code, by omega, by omega, Or.inl rfl⟩
  · have hquotient : 1 ≤ code / hiddenBit := (Nat.one_le_div_iff hpos).mpr hlarge
    have hrest : code % hiddenBit < hiddenBit := Nat.mod_lt _ hpos
    refine ⟨code / hiddenBit - 1, hiddenBit + code % hiddenBit, ?_, by omega, Or.inr (by omega)⟩
    have hsplit := Nat.div_add_mod code hiddenBit
    obtain ⟨q, hq⟩ := Nat.exists_eq_add_of_le' hquotient
    rw [hq] at hsplit ⊢
    rw [Nat.add_sub_cancel, ← Nat.add_assoc]
    rw [Nat.mul_add, Nat.mul_one, Nat.mul_comm hiddenBit] at hsplit
    exact hsplit.symm

/-- The next code has a greater magnitude. -/
theorem units_lt_units_succ (code : Nat) : units code < units (code + 1) := by
  obtain ⟨s, r, rfl, hlt, hnormal⟩ := exists_scaled code
  have hnormal' : s = 0 ∨ hiddenBit ≤ r + 1 := hnormal.imp_right Nat.le_succ_of_le
  rw [Nat.add_assoc, units_scaled hlt.le hnormal, units_scaled hlt hnormal']
  exact Nat.mul_lt_mul_of_pos_right (Nat.lt_succ_self r) (Nat.two_pow_pos s)

/-- Codes are ordered as the magnitudes are. -/
theorem strictMono_units : StrictMono units := strictMono_nat_of_lt_succ units_lt_units_succ

/-! ### Numbers by their codes -/

/-- The bits of a number without a sign are its code. -/
theorem toNat_bits_ofCode {code : Nat} (h : code < signBit) : (ofCode code).bits.toNat = code := by
  rw [ofCode, BitVec.toNat_ofNat]
  exact Nat.mod_eq_of_lt (h.trans (by decide))

theorem code_ofCode {code : Nat} (h : code < signBit) : (ofCode code).code = code := by
  rw [Binary64.code, toNat_bits_ofCode h, Nat.mod_eq_of_lt h]

theorem isNegative_ofCode {code : Nat} (h : code < signBit) :
    (ofCode code).isNegative = false := by
  rw [isNegative, toNat_bits_ofCode h]
  exact decide_eq_false (Nat.not_le.mpr h)

/-- A number without its sign bit set is the one with its code. -/
theorem ofCode_code {x : Binary64} (h : x.isNegative = false) : ofCode x.code = x := by
  obtain ⟨bits⟩ := x
  have hlt : bits.toNat < signBit := Nat.not_le.mp (of_decide_eq_false h)
  rw [ofCode, code, Nat.mod_eq_of_lt hlt, BitVec.ofNat_toNat, BitVec.setWidth_eq]

end Binary64

end LoxLexer
