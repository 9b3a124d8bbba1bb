import LoxLexer.Proofs.RoundTrip
import LoxLexer.Proofs.Number.Format

/-!
# Numerals are read as the nearest number

A numeral is a fraction to the reader of the source: every digit counts, with
its weight by its distance from the point.  The scanner takes the digits before
and behind the point as one integer and divides by a power of ten.  Both give the
same fraction, and the literal of the token is the number nearest to it.

* `numeralValue`: the fraction, digit by digit.
* `numeralValue_fraction`, `numeralValue_whole`: the same fraction as a quotient.
* `Lexeme.literal_number`: what the literal of a numeral is.
* `scan_nearest`: the statement for scans.
-/

namespace LoxLexer

/-- The value of a digit. -/
def digitValue (c : Char) : ℚ := (c.toNat - '0'.toNat : ℕ)

/-- What the digits before the point come to: a digit counts ten times as much
as the one behind it. -/
def wholeValue (digits : List Char) : ℚ := digits.foldl (fun v c => 10 * v + digitValue c) 0

/-- What the digits behind the point come to: the first one counts tenths. -/
def placesValue : List Char → ℚ
  | [] => 0
  | c :: cs => (digitValue c + placesValue cs) / 10

/-- The fraction that a numeral stands for. -/
def numeralValue (text : List Char) : ℚ :=
  wholeValue (text.takeWhile (· != '.')) + placesValue (text.dropWhile (· != '.')).tail

/-- The digits before the point come to the number that they are read as. -/
theorem wholeValue_eq (digits : List Char) : wholeValue digits = Nat.ofDigitChars 10 digits 0 := by
  have hfold : ∀ n : ℕ, digits.foldl (fun v c => 10 * v + digitValue c) (n : ℚ) =
      Nat.ofDigitChars 10 digits n := by
    induction digits with
    | nil => exact fun n => rfl
    | cons c cs ih =>
        intro n
        rw [List.foldl_cons, Nat.ofDigitChars_cons, ← ih]
        push_cast [digitValue]
        rfl
  simpa [wholeValue] using hfold 0

/-- The first digit counts as many tens as there are digits behind it. -/
theorem ofDigitChars_cons_zero (c : Char) (digits : List Char) :
    Nat.ofDigitChars 10 (c :: digits) 0 =
      10 ^ digits.length * (c.toNat - '0'.toNat) + Nat.ofDigitChars 10 digits 0 := by
  rw [Nat.ofDigitChars_cons, Nat.ofDigitChars_eq_ofDigitChars_zero, Nat.mul_zero, Nat.zero_add]

/-- The digits behind the point come to the number that they are read as, moved behind it. -/
theorem placesValue_eq (digits : List Char) :
    placesValue digits = Nat.ofDigitChars 10 digits 0 / 10 ^ digits.length := by
  induction digits with
  | nil => simp [placesValue]
  | cons c cs ih =>
      rw [placesValue, ih, ofDigitChars_cons_zero, List.length_cons, pow_succ, digitValue]
      push_cast
      field_simp

theorem numeralValue_nonneg (text : List Char) : 0 ≤ numeralValue text := by
  rw [numeralValue, wholeValue_eq, placesValue_eq]
  positivity

/-- A numeral with a point stands for what its two halves come to. -/
theorem numeralValue_append {whole : List Char} (hwhole : '.' ∉ whole) (places : List Char) :
    numeralValue (whole ++ '.' :: places) = wholeValue whole + placesValue places := by
  obtain ⟨htake, hdrop⟩ := run_append hwhole (Or.inr ⟨places, rfl⟩)
  rw [numeralValue, htake, hdrop, List.tail_cons]

/-- A numeral with a point stands for all its digits as one number, moved behind the point by
as many places as there are. -/
theorem numeralValue_fraction {whole : List Char} (hwhole : '.' ∉ whole) (places : List Char) :
    numeralValue (whole ++ '.' :: places) =
      Nat.ofDigitChars 10 (whole ++ places) 0 / 10 ^ places.length := by
  have hdigits : Nat.ofDigitChars 10 (whole ++ places) 0 =
      10 ^ places.length * Nat.ofDigitChars 10 whole 0 + Nat.ofDigitChars 10 places 0 := by
    rw [Nat.ofDigitChars_append]
    exact Nat.ofDigitChars_eq_ofDigitChars_zero
  rw [numeralValue_append hwhole, wholeValue_eq, placesValue_eq, hdigits]
  push_cast
  field_simp

/-- A numeral without a point stands for the number that its digits are read as. -/
theorem numeralValue_whole {digits : List Char} (hdigits : '.' ∉ digits) :
    numeralValue digits = Nat.ofDigitChars 10 digits 0 := by
  obtain ⟨htake, hdrop⟩ := run_of_not_mem hdigits
  rw [numeralValue, htake, hdrop, wholeValue_eq, List.tail_nil, placesValue, add_zero]

/-! ### The literal of a numeral -/

/-- Numerals are read as the number that their fraction is rounded to. -/
theorem Binary64.ofNumeral_eq (whole places : List Char) :
    ofNumeral whole places =
      ofCode (codeOf (Nat.ofDigitChars 10 (whole ++ places) 0 / 10 ^ places.length)) := by
  have hden : 0 < 10 ^ places.length := by positivity
  rw [ofNumeral, nearest, Nat.pow_eq, nearestCode_eq _ hden, Nat.cast_pow, Nat.cast_ofNat]

/-- The literal of a numeral is the number with the code of its fraction. -/
theorem Lexeme.literal_number {text : List Char} {literal : Option Literal}
    (h : Lexeme text .number literal) :
    literal = some (.number (.ofCode (Binary64.codeOf (numeralValue text)))) := by
  cases h with
  | whole hdigits =>
      rw [Binary64.ofNumeral_eq, numeralValue_whole hdigits.not_mem_point]
      simp
  | fraction hdigits hplaces =>
      rw [Binary64.ofNumeral_eq, numeralValue_fraction hdigits.not_mem_point]

/-- Only numerals have numbers for values. -/
theorem Lexeme.kind_of_number {text : List Char} {kind : Kind} {x : Binary64}
    (h : Lexeme text kind (some (.number x))) : kind = .number := by
  cases h with
  | whole => rfl
  | fraction => rfl

/-- Whatever a fraction is rounded to is a number. -/
theorem Binary64.isNaN_ofCode_codeOf (v : ℚ) : (ofCode (codeOf v)).isNaN = false := by
  rw [isNaN, code_ofCode (codeOf_lt_signBit v)]
  exact decide_eq_false (Nat.not_lt.mpr (codeOf_le_infinityCode v))

/-- The value of a numeral is a number and has no sign. -/
theorem Lexeme.number_plain {text : List Char} {kind : Kind} {x : Binary64}
    (h : Lexeme text kind (some (.number x))) : x.isNaN = false ∧ x.isNegative = false := by
  obtain rfl := h.kind_of_number
  cases h.literal_number
  exact ⟨Binary64.isNaN_ofCode_codeOf _, Binary64.isNegative_ofCode (Binary64.codeOf_lt_signBit _)⟩

/-- **Numerals are read as the nearest number.**  The literal of a number token is
the one number nearest to the fraction that its lexeme stands for.  It is never
negative, it is infinity from the point of overflow on, and it is always a
number; and no scan calls a number invalid. -/
theorem scan_nearest (source : List Char) :
    (∀ t ∈ (scan source).tokens, t.kind = .number →
      ∃ x, t.literal = some (.number x) ∧ 0 ≤ numeralValue t.lexeme ∧
        (∀ y, Binary64.IsNearest (numeralValue t.lexeme) y ↔ y = x) ∧
        (x.isInfinite ↔ 2 ^ 1024 - 2 ^ 970 ≤ numeralValue t.lexeme) ∧
        x.isNaN = false ∧ x.isNegative = false) ∧
      ∀ e ∈ (scan source).sink.toList, ∀ text, e.fault ≠ .invalidNumber text := by
  refine ⟨?_, fun e he => ne_invalidNumber_of_mem_scan he⟩
  intro t ht hkind
  have hscanned : Scanned t := ⟨source, ht, by rw [hkind]; exact Kind.noConfusion⟩
  have hnonneg := numeralValue_nonneg t.lexeme
  have hlt := Binary64.codeOf_lt_signBit (numeralValue t.lexeme)
  refine ⟨_, (hkind ▸ hscanned.lexeme).literal_number, hnonneg,
    fun y => Binary64.isNearest_iff hnonneg, ?_, Binary64.isNaN_ofCode_codeOf _,
    Binary64.isNegative_ofCode hlt⟩
  have hinfinite : Binary64.codeOf (numeralValue t.lexeme) = Binary64.infinityCode ↔
      ¬ Binary64.codeOf (numeralValue t.lexeme) < Binary64.infinityCode := by
    have := Binary64.codeOf_le_infinityCode (numeralValue t.lexeme)
    omega
  rw [Binary64.isInfinite, Binary64.code_ofCode hlt, beq_iff_eq, hinfinite,
    Binary64.codeOf_lt_infinityCode_iff hnonneg, not_lt]
  rfl

/-- A numeral in the middle between `2 ^ 53` and the number that follows it. -/
theorem scan_nearest_middle :
    let text := "9007199254740993".toList
    let even : Binary64 := ⟨0x4340000000000000⟩
    ⟨.number, text, some (.number even), 1⟩ ∈ (scan text).tokens ∧
      (∀ y, Binary64.IsNearest (numeralValue text) y ↔ y = even) ∧
      (scan ('@' :: text)).sink.toList = [⟨.unexpectedCharacter '@', 1⟩] ∧
      ∀ number, Fault.unexpectedCharacter '@' ≠ .invalidNumber number := by
  intro text even
  have hmem : ⟨.number, text, some (.number even), 1⟩ ∈ (scan text).tokens := by decide +kernel
  have herror : (scan ('@' :: text)).sink.toList = [⟨.unexpectedCharacter '@', 1⟩] := by
    decide +kernel
  obtain ⟨x, hliteral, -, hnearest, -⟩ := (scan_nearest text).1 _ hmem rfl
  cases hliteral
  refine ⟨hmem, hnearest, herror, ?_⟩
  exact (scan_nearest ('@' :: text)).2 _ (herror ▸ List.mem_singleton_self _)

end LoxLexer
