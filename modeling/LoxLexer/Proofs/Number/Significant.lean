import LoxLexer.Proofs.Number.Numeral
import LoxLexer.Proofs.Number.Shortest

/-!
# Significant digits

The significant digits of a numeral are its digits without the zeros in front and
those at the end, wherever its point is.  They are found by looking at the text,
but they are a matter of the fraction alone: a numeral has at most `k` of them if
and only if its fraction takes at most `k`.

Zeros on either side move the point and do nothing else.  What is left, if
anything is, begins and ends with a digit that is not zero; so it is a number of
just as many digits that no power of ten divides, and no smaller number with a
point in it comes to the same.

* `significantDigits`: the digits that count.
* `ofDigitChars_significantDigits`: what the zeros on both sides do.
* `Lexeme.hasDigits_iff`: significant digits of a numeral and of its fraction.
-/

namespace LoxLexer

/-- The digits of a numeral without the zeros in front and at the end. -/
def significantDigits (text : List Char) : List Char :=
  Decimal.dropZeros ((text.filter Char.isDigit).dropWhile (· == '0'))

/-! ### Zeros on both sides -/

/-- A text is its zeros in front and what is left without them. -/
theorem exists_zeros_append (digits : List Char) :
    ∃ k, digits = List.replicate k '0' ++ digits.dropWhile (· == '0') := by
  have hzeros : ∀ c ∈ digits.takeWhile (· == '0'), c = '0' :=
    fun _ hc => beq_iff_eq.mp (List.mem_takeWhile_imp (p := (· == '0')) hc)
  refine ⟨(digits.takeWhile (· == '0')).length, ?_⟩
  rw [← List.eq_replicate_of_mem hzeros, List.takeWhile_append_dropWhile]

theorem head?_dropWhile_zeros (digits : List Char) :
    (digits.dropWhile (· == '0')).head? ≠ some '0' := by
  intro heq
  have hnot := List.head?_dropWhile_not (· == '0') digits
  rw [heq] at hnot
  cases hnot

namespace Decimal

/-- A text is what is left without the zeros at its end, and these zeros. -/
theorem exists_append_zeros (digits : List Char) :
    ∃ k, digits = dropZeros digits ++ List.replicate k '0' := by
  obtain ⟨k, hk⟩ := exists_zeros_append digits.reverse
  refine ⟨k, ?_⟩
  rw [dropZeros, ← List.reverse_replicate, ← List.reverse_append, ← hk, List.reverse_reverse]

theorem getLast?_dropZeros (digits : List Char) : (dropZeros digits).getLast? ≠ some '0' := by
  rw [dropZeros, List.getLast?_reverse]
  exact head?_dropWhile_zeros digits.reverse

theorem isPrefix_dropZeros (digits : List Char) : dropZeros digits <+: digits := by
  obtain ⟨k, hk⟩ := exists_append_zeros digits
  exact ⟨_, hk.symm⟩

end Decimal

/-- The significant digits of a text are some of its digits in a row. -/
theorem isInfix_significantDigits (text : List Char) :
    significantDigits text <:+: text.filter Char.isDigit :=
  (Decimal.isPrefix_dropZeros _).isInfix.trans (List.dropWhile_suffix _).isInfix

theorem isDigit_of_mem_significantDigits (text : List Char) :
    ∀ c ∈ significantDigits text, c.isDigit := by
  intro c hc
  exact (List.mem_filter.mp ((isInfix_significantDigits text).mem hc)).2

/-- The significant digits do not begin with zero. -/
theorem head?_significantDigits (text : List Char) :
    (significantDigits text).head? ≠ some '0' := by
  intro hzero
  obtain ⟨rest, hrest⟩ :=
    Decimal.isPrefix_dropZeros ((text.filter Char.isDigit).dropWhile (· == '0'))
  refine head?_dropWhile_zeros (text.filter Char.isDigit) ?_
  obtain ⟨cs, hcs⟩ := List.head?_eq_some_iff.mp hzero
  rw [significantDigits] at hcs
  rw [← hrest, hcs]
  rfl

/-- The zeros on both sides leave a power of ten. -/
theorem ofDigitChars_significantDigits (text : List Char) :
    ∃ k, Nat.ofDigitChars 10 (text.filter Char.isDigit) 0 =
      10 ^ k * Nat.ofDigitChars 10 (significantDigits text) 0 := by
  obtain ⟨front, hfront⟩ := exists_zeros_append (text.filter Char.isDigit)
  obtain ⟨k, hk⟩ := Decimal.exists_append_zeros ((text.filter Char.isDigit).dropWhile (· == '0'))
  refine ⟨k, ?_⟩
  rw [hfront, Nat.ofDigitChars_append, Nat.ofDigitChars_replicate_zero, Nat.mul_zero, hk,
    Nat.ofDigitChars_append, Nat.ofDigitChars_replicate_zero]
  rfl

/-! ### The number behind some digits -/

section Digits

variable {c : Char} {digits : List Char}

theorem toNat_sub_lt_ten (h : c.isDigit) : c.toNat - '0'.toNat < 10 := by
  obtain ⟨-, hle⟩ := Char.isDigit_iff_toNat.mp h
  have hzero : '0'.toNat = 48 := rfl
  have hnine : '9'.toNat = 57 := rfl
  omega

theorem toNat_sub_pos (h : c.isDigit) (hne : c ≠ '0') : 0 < c.toNat - '0'.toNat := by
  obtain ⟨hge, -⟩ := Char.isDigit_iff_toNat.mp h
  have hzero : '0'.toNat = 48 := rfl
  have hne' : c.toNat ≠ '0'.toNat := fun heq => hne (Char.toNat_inj.mp heq)
  omega

/-- Digits are read as less than any number with one digit more. -/
theorem ofDigitChars_lt (h : ∀ c ∈ digits, c.isDigit) :
    Nat.ofDigitChars 10 digits 0 < 10 ^ digits.length := by
  induction digits with
  | nil => exact Nat.one_pos
  | cons c digits ih =>
      obtain ⟨hc, hdigits⟩ := List.forall_mem_cons.mp h
      have hrest := ih hdigits
      have hnine := Nat.le_of_lt_succ (toNat_sub_lt_ten hc)
      have hfirst := Nat.mul_le_mul_left (10 ^ digits.length) hnine
      rw [ofDigitChars_cons_zero, List.length_cons, pow_succ]
      omega

/-- Digits that do not begin with zero are read as no less than the least number with as many. -/
theorem pow_le_ofDigitChars (hc : c.isDigit) (hne : c ≠ '0') (digits : List Char) :
    10 ^ digits.length ≤ Nat.ofDigitChars 10 (c :: digits) 0 := by
  rw [ofDigitChars_cons_zero]
  exact (Nat.le_mul_of_pos_right _ (toNat_sub_pos hc hne)).trans (Nat.le_add_right _ _)

/-- Digits that do not end with zero are not read as a multiple of ten. -/
theorem ofDigitChars_concat_mod (hc : c.isDigit) (hne : c ≠ '0') (digits : List Char) :
    Nat.ofDigitChars 10 (digits ++ [c]) 0 % 10 ≠ 0 := by
  have hlt := toNat_sub_lt_ten hc
  have hpos := toNat_sub_pos hc hne
  rw [Nat.ofDigitChars_append, Nat.ofDigitChars_cons, Nat.ofDigitChars_nil]
  omega

end Digits

/-- Of the numbers that differ by a power of ten, the least is the one that ten
does not divide. -/
theorem le_of_mul_zpow_eq {m n : ℕ} {a b : ℤ} (hn : n % 10 ≠ 0)
    (h : (n : ℚ) * 10 ^ a = m * 10 ^ b) : n ≤ m := by
  have hten : (10 : ℚ) ≠ 0 := by norm_num
  rcases le_total b a with hle | hle
  · obtain ⟨t, rfl⟩ := Int.le.dest hle
    rw [zpow_add₀ hten, zpow_natCast, mul_comm (10 ^ b), ← mul_assoc] at h
    have heq : n * 10 ^ t = m := by exact_mod_cast mul_right_cancel₀ (zpow_ne_zero b hten) h
    exact heq ▸ Nat.le_mul_of_pos_right n (by positivity)
  · obtain ⟨t, rfl⟩ := Int.le.dest hle
    rw [zpow_add₀ hten, zpow_natCast, mul_comm (10 ^ a) (10 ^ t), ← mul_assoc] at h
    have heq : n = m * 10 ^ t := by exact_mod_cast mul_right_cancel₀ (zpow_ne_zero a hten) h
    cases t with
    | zero => exact (heq.trans (mul_one m)).le
    | succ t =>
        rw [heq, pow_succ, ← mul_assoc, Nat.mul_mod_left] at hn
        exact absurd rfl hn

/-- The number that the significant digits are, if there are any, has as many
digits, and ten does not divide it. -/
theorem significantDigits_bounds {text : List Char} (hne : significantDigits text ≠ []) :
    10 ^ ((significantDigits text).length - 1) ≤ Nat.ofDigitChars 10 (significantDigits text) 0 ∧
      Nat.ofDigitChars 10 (significantDigits text) 0 % 10 ≠ 0 := by
  have hdigits := isDigit_of_mem_significantDigits text
  have hhead := head?_significantDigits text
  have hlast : (significantDigits text).getLast? ≠ some '0' := Decimal.getLast?_dropZeros _
  generalize significantDigits text = digits at *
  constructor
  · obtain ⟨c, cs, rfl⟩ := List.exists_cons_of_ne_nil hne
    refine pow_le_ofDigitChars (hdigits c List.mem_cons_self) ?_ cs
    intro hzero
    exact hhead (congrArg some hzero)
  · obtain ⟨c, hc⟩ := Option.isSome_iff_exists.mp (List.getLast?_isSome.mpr hne)
    obtain ⟨init, rfl⟩ := List.getLast?_eq_some_iff.mp hc
    refine ofDigitChars_concat_mod (hdigits c (by simp)) ?_ init
    intro hzero
    exact hlast (hc.trans (congrArg some hzero))

/-! ### Significant digits of numerals -/

/-- The point in a numeral divides by a power of ten. -/
theorem Lexeme.exists_places {text : List Char} {literal : Option Literal}
    (h : Lexeme text .number literal) :
    ∃ j, numeralValue text = Nat.ofDigitChars 10 (text.filter Char.isDigit) 0 / 10 ^ j := by
  cases h with
  | whole hdigits =>
      refine ⟨0, ?_⟩
      rw [numeralValue_whole hdigits.not_mem_point, List.filter_eq_self.mpr hdigits.2, pow_zero,
        div_one]
  | @fraction digits places hdigits hplaces =>
      refine ⟨places.length, ?_⟩
      have hfilter : (digits ++ '.' :: places).filter Char.isDigit = digits ++ places := by
        rw [List.filter_append, List.filter_cons_of_neg (by decide),
          List.filter_eq_self.mpr hdigits.2, List.filter_eq_self.mpr hplaces.2]
      rw [numeralValue_fraction hdigits.not_mem_point, hfilter]

/-- A numeral has as many significant digits as its fraction takes. -/
theorem Lexeme.hasDigits_iff {text : List Char} {literal : Option Literal} {k : ℕ}
    (h : Lexeme text .number literal) :
    HasDigits k (numeralValue text) ↔ (significantDigits text).length ≤ k := by
  obtain ⟨j, hj⟩ := h.exists_places
  obtain ⟨z, hz⟩ := ofDigitChars_significantDigits text
  have hvalue : numeralValue text =
      (Nat.ofDigitChars 10 (significantDigits text) 0 : ℕ) * 10 ^ ((z : ℤ) - j) := by
    rw [hj, hz, zpow_sub₀ (by norm_num), zpow_natCast, zpow_natCast]
    push_cast
    ring
  have hdigits := isDigit_of_mem_significantDigits text
  constructor
  · rintro ⟨m, hm, e, heq⟩
    by_cases hnil : significantDigits text = []
    · rw [hnil]
      exact Nat.zero_le k
    obtain ⟨hpower, hten⟩ := significantDigits_bounds hnil
    have hle := le_of_mul_zpow_eq hten (hvalue.symm.trans heq)
    have hlt := (Nat.pow_lt_pow_iff_right (by decide)).mp (hpower.trans_lt (hle.trans_lt hm))
    omega
  · intro hle
    exact ⟨_, (ofDigitChars_lt hdigits).trans_le (Nat.pow_le_pow_right (by decide) hle), _, hvalue⟩

end LoxLexer
