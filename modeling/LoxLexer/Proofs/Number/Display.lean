import LoxLexer.Proofs.Number.Significant

/-!
# Numbers are displayed as numerals

The text of a finite number without a sign is a numeral of the language.  It has
no exponent, no sign and no zeros at the end of its places, however many digits
it takes, and it stands for the shortest decimal that is rounded to the number.
So a scan of the text returns the number again, bit for bit, and no numeral with
fewer significant digits is read as that number.

* `Decimal.render_cases`: the text of a decimal, with places and without.
* `Decimal.numeralValue_render`: it stands for the decimal.
* `Binary64.lexeme_render`: the text of a number is a numeral for it.
* `scan_render`: the statement for scans.
-/

namespace LoxLexer

/-- A numeral as numbers are displayed: no point, or a point with places behind it
of which the last one is not zero. -/
def IsDisplayed (text : List Char) : Prop :=
  IsDigits text ∨ ∃ whole places, text = whole ++ '.' :: places ∧ IsDigits whole ∧
    IsDigits places ∧ places.getLast? ≠ some '0'

/-! ### The text of a decimal -/

theorem isDigits_toDigits (n : ℕ) : IsDigits (Nat.toDigits 10 n) :=
  ⟨Nat.toDigits_ne_nil, fun _ hc => Nat.isDigit_of_mem_toDigits (by decide) (by decide) hc⟩

theorem placesValue_zeros (k : ℕ) : placesValue (List.replicate k '0') = 0 := by
  induction k with
  | zero => rfl
  | succ k ih =>
      have hzero : digitValue '0' = 0 := by rw [digitValue, Nat.sub_self, Nat.cast_zero]
      rw [List.replicate_succ, placesValue, ih, hzero, zero_add, zero_div]

/-- Zeros at the end of the places do not count. -/
theorem placesValue_append_zeros (digits : List Char) (k : ℕ) :
    placesValue (digits ++ List.replicate k '0') = placesValue digits := by
  induction digits with
  | nil => exact placesValue_zeros k
  | cons c digits ih => rw [List.cons_append, placesValue, ih, placesValue]

namespace Decimal

theorem isDigit_of_mem_padded {width n : ℕ} : ∀ c ∈ padded width n, c.isDigit := by
  intro c hc
  rcases List.mem_append.mp hc with hzero | hdigit
  · rw [List.eq_of_mem_replicate hzero]
    rfl
  · exact (isDigits_toDigits n).2 c hdigit

/-- Zeros in front of a number do not change it. -/
theorem ofDigitChars_padded (width n : ℕ) : Nat.ofDigitChars 10 (padded width n) 0 = n := by
  rw [padded, Nat.ofDigitChars_append, Nat.ofDigitChars_replicate_zero, Nat.mul_zero]
  exact Nat.ofDigitChars_ten_toDigits

/-- A number that is not too long is filled up to the width. -/
theorem length_padded {width n : ℕ} (hwidth : 0 < width) (hn : n < 10 ^ width) :
    (padded width n).length = width := by
  have hle := (Nat.length_toDigits_le_iff (by decide) hwidth).mpr hn
  rw [padded, List.length_append, List.length_replicate]
  omega

/-- The places of a fraction are digits, and they come to it. -/
theorem places_padded {width n : ℕ} (hn : n ≠ 0) (hlt : n < 10 ^ width) :
    IsDigits (dropZeros (padded width n)) ∧
      placesValue (dropZeros (padded width n)) = n / 10 ^ width := by
  obtain ⟨k, hk⟩ := exists_append_zeros (padded width n)
  have hdigits := ofDigitChars_padded width n
  have hwidth : 0 < width := by
    by_contra hnone
    rw [Nat.eq_zero_of_not_pos hnone, pow_zero] at hlt
    omega
  refine ⟨⟨?_, ?_⟩, ?_⟩
  · intro hnil
    rw [hk, hnil, List.nil_append, Nat.ofDigitChars_replicate_zero, Nat.mul_zero] at hdigits
    exact hn hdigits.symm
  · intro c hc
    exact isDigit_of_mem_padded c ((isPrefix_dropZeros _).subset hc)
  · rw [← placesValue_append_zeros _ k, ← hk, placesValue_eq, hdigits, length_padded hwidth hlt]

variable (d : Decimal)

/-- The digits of a decimal count the last of its places. -/
theorem one_eq : d.one = 10 ^ d.places := Nat.pow_eq

/-- The text of a decimal: digits, or digits with places behind them, which come
to the fraction and do not end with zero. -/
theorem render_cases :
    (d.digits % d.one = 0 ∧ d.render = Nat.toDigits 10 (d.digits / d.one)) ∨
      ∃ places, d.render = Nat.toDigits 10 (d.digits / d.one) ++ '.' :: places ∧
        IsDigits places ∧ places.getLast? ≠ some '0' ∧
        placesValue places = (d.digits % d.one : ℕ) / 10 ^ d.places := by
  by_cases hwhole : d.digits % d.one = 0
  · refine Or.inl ⟨hwhole, ?_⟩
    rw [render]
    exact if_pos hwhole
  · have hlt : d.digits % d.one < 10 ^ d.places := by
      rw [one_eq]
      exact Nat.mod_lt _ (by positivity)
    obtain ⟨hdigits, hvalue⟩ := places_padded hwhole hlt
    refine Or.inr ⟨_, ?_, hdigits, getLast?_dropZeros _, hvalue⟩
    rw [render]
    exact if_neg hwhole

/-- A decimal is displayed as a numeral without zeros at the end of its places. -/
theorem isDisplayed_render : IsDisplayed d.render := by
  rcases d.render_cases with ⟨-, hrender⟩ | ⟨places, hrender, hplaces, hlast, -⟩
  · exact Or.inl (hrender ▸ isDigits_toDigits _)
  · exact Or.inr ⟨_, places, hrender, isDigits_toDigits _, hplaces, hlast⟩

/-- A decimal is what stands before its point and what stands behind it. -/
theorem value_eq_add :
    d.value = (d.digits / d.one : ℕ) + (d.digits % d.one : ℕ) / 10 ^ d.places := by
  have hdigits : (d.digits : ℚ) =
      10 ^ d.places * (d.digits / d.one : ℕ) + (d.digits % d.one : ℕ) := by
    rw [one_eq]
    exact_mod_cast (Nat.div_add_mod d.digits (10 ^ d.places)).symm
  rw [value, hdigits, add_div, mul_div_cancel_left₀ _ (by positivity)]

/-- The text of a decimal stands for it. -/
theorem numeralValue_render : numeralValue d.render = d.value := by
  have hpoint := (isDigits_toDigits (d.digits / d.one)).not_mem_point
  rcases d.render_cases with ⟨hzero, hrender⟩ | ⟨places, hrender, -, -, hplaces⟩
  · rw [hrender, numeralValue_whole hpoint, Nat.ofDigitChars_ten_toDigits, value_eq_add, hzero,
      Nat.cast_zero, zero_div, add_zero]
  · rw [hrender, numeralValue_append hpoint, wholeValue_eq, Nat.ofDigitChars_ten_toDigits, hplaces,
      value_eq_add]

end Decimal

/-! ### The text of a number -/

/-- A displayed numeral is a numeral. -/
theorem IsDisplayed.exists_lexeme {text : List Char} (h : IsDisplayed text) :
    ∃ literal, Lexeme text .number literal := by
  rcases h with hdigits | ⟨whole, places, rfl, hwhole, hplaces, -⟩
  · exact ⟨_, .whole hdigits⟩
  · exact ⟨_, .fraction hwhole hplaces⟩

namespace Binary64

variable {x : Binary64}

/-- A finite number without a sign is displayed as the shortest decimal for it. -/
theorem render_eq (hsign : x.isNegative = false) (hfinite : x.IsFinite) :
    x.render = (Shortest.ofCode x.code).render := by
  have hlt := isFinite_iff.mp hfinite
  have hnumber : x.isNaN = false := decide_eq_false (Nat.not_lt.mpr hlt.le)
  have hinfinite : x.isInfinite = false := beq_eq_false_iff_ne.mpr hlt.ne
  simp [render, renderMagnitude, hnumber, hsign, hinfinite]

/-- The text of a number is a numeral for it. -/
theorem lexeme_render (hsign : x.isNegative = false) (hfinite : x.IsFinite) :
    Lexeme x.render .number (some (.number x)) := by
  obtain ⟨literal, hlexeme⟩ := (Shortest.ofCode x.code).isDisplayed_render.exists_lexeme
  have hread := hlexeme.literal_number
  rw [Decimal.numeralValue_render, Shortest.codeOf_value_ofCode (isFinite_iff.mp hfinite).le,
    ofCode_code hsign] at hread
  rw [render_eq hsign hfinite, ← hread]
  exact hlexeme

/-- No numeral for a number has fewer significant digits than its text. -/
theorem length_significantDigits_render_le (hsign : x.isNegative = false) (hfinite : x.IsFinite)
    {text : List Char} (h : Lexeme text .number (some (.number x))) :
    (significantDigits x.render).length ≤ (significantDigits text).length := by
  have hread : x = ofCode (codeOf (numeralValue text)) := by
    simpa using h.literal_number
  have hcode : codeOf (numeralValue text) = x.code := by
    rw [hread, code_ofCode (codeOf_lt_signBit _)]
  have hdigits := h.hasDigits_iff.mpr le_rfl
  rw [← (lexeme_render hsign hfinite).hasDigits_iff, render_eq hsign hfinite,
    Decimal.numeralValue_render]
  exact Shortest.hasDigits_value_ofCode (numeralValue_nonneg text) hcode hdigits

end Binary64

/-! ### Scans -/

/-- A scan of a numeral returns it and nothing else. -/
theorem scan_of_numeral {text : List Char} {x : Binary64}
    (h : Lexeme text .number (some (.number x))) :
    (scan text).tokens = [⟨.number, text, some (.number x), 1⟩, .endOfFile 1] ∧
      (scan text).sink.toList = [] := by
  have hnewlines : newlines text = 0 := by
    refine List.count_eq_zero.mpr fun hmem => ?_
    cases h.isSpace_eq_false Kind.noConfusion '\n' hmem
  have hitems := itemsOf_of_lexeme h (Or.inl rfl) 1
  rw [List.append_nil, tilesOf] at hitems
  rw [tokens_scan, errors_scan, hitems, hnewlines]
  exact ⟨rfl, rfl⟩

/-- A token with a number for its value has a numeral for its lexeme. -/
theorem numeral_of_mem_scan {source : List Char} {t : Token} {x : Binary64}
    (ht : t ∈ (scan source).tokens) (hx : t.literal = some (.number x)) :
    Lexeme t.lexeme .number (some (.number x)) := by
  rcases mem_tokens_scan.mp ht with hitem | rfl
  · have hlexeme := lexeme_of_mem_itemsOf hitem
    rw [hx] at hlexeme
    exact hlexeme.kind_of_number ▸ hlexeme
  · cases hx

/-- **Numbers are displayed as numerals.**  The text of a finite number that a scan
returns is a numeral without needless zeros.  A scan of that text reports nothing
and returns one token before the end mark, which has the whole text for its
lexeme and the same bits for its value, and so the same text again; and no scan
of any source reads the number from a numeral with fewer significant digits. -/
theorem scan_render {source : List Char} {t : Token} {x : Binary64}
    (ht : t ∈ (scan source).tokens) (hx : t.literal = some (.number x)) (hfinite : x.IsFinite) :
    IsDisplayed t.renderLiteral ∧ (scan t.renderLiteral).sink.toList = [] ∧
      (scan t.renderLiteral).tokens =
        [⟨.number, t.renderLiteral, some (.number x), 1⟩, .endOfFile 1] ∧
      (∀ u ∈ (scan t.renderLiteral).tokens, u.kind = .number →
        u.renderLiteral = t.renderLiteral) ∧
      ∀ source', ∀ u ∈ (scan source').tokens, u.literal = some (.number x) →
        (significantDigits t.renderLiteral).length ≤ (significantDigits u.lexeme).length := by
  have hsign : x.isNegative = false := (numeral_of_mem_scan ht hx).number_plain.2
  have htext : t.renderLiteral = x.render := by
    rw [Token.renderLiteral, hx]
    rfl
  have hlexeme := Binary64.lexeme_render hsign hfinite
  obtain ⟨htokens, herrors⟩ := scan_of_numeral hlexeme
  rw [htext]
  refine ⟨?_, herrors, htokens, ?_, ?_⟩
  · rw [Binary64.render_eq hsign hfinite]
    exact (Shortest.ofCode x.code).isDisplayed_render
  · intro u hu hkind
    rw [htokens] at hu
    rcases List.mem_cons.mp hu with rfl | hend
    · rfl
    · rw [List.mem_singleton.mp hend] at hkind
      cases hkind
  · intro source' u hu hvalue
    exact Binary64.length_significantDigits_render_le hsign hfinite (numeral_of_mem_scan hu hvalue)

/-- The number nearest to a tenth, written out to its last digit, is displayed as
a tenth. -/
theorem scan_render_tenth :
    let text := "0.1000000000000000055511151231257827021181583404541015625".toList
    let x : Binary64 := ⟨0x3fb999999999999a⟩
    let t : Token := ⟨.number, text, some (.number x), 1⟩
    (t ∈ (scan text).tokens ∧ x.IsFinite ∧ t.renderLiteral = "0.1".toList) ∧
      IsDisplayed t.renderLiteral ∧
      (scan t.renderLiteral).tokens =
        [⟨.number, t.renderLiteral, some (.number x), 1⟩, .endOfFile 1] := by
  intro text x t
  have ht : t ∈ (scan text).tokens := by decide +kernel
  have hfinite : x.IsFinite := by
    unfold Binary64.IsFinite
    decide +kernel
  obtain ⟨hdisplayed, -, htokens, -⟩ := scan_render ht rfl hfinite
  exact ⟨⟨ht, hfinite, by decide +kernel⟩, hdisplayed, htokens⟩

end LoxLexer
