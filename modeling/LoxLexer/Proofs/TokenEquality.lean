import LoxLexer.Proofs.Listing
import LoxLexer.Proofs.Number.Numeral

/-!
# Equality of tokens

Equality of tokens compares numbers as numbers.  On tokens at large that is no
equivalence, since what is no number differs from itself, and it is not
identity, since the two zeros are equal.  The tokens that scans return have
neither among their values: what a numeral stands for is a number without a
sign.  For them equality is identity of all fields, and as the lexeme settles
the kind and the value, two fields are enough to tell.

* `Binary64.equal_iff_eq`: where equality of numbers is identity of bits.
* `Token.equal_iff_eq`, `Token.eq_iff_lexeme_line`: the same for tokens that a
  scan may return, and what their identity takes.
* `equal_of_returned`: the statement for scans.
-/

namespace LoxLexer

/-- A token that a scan of some source returns, be it the end mark. -/
def Returned (t : Token) : Prop := ∃ source, t ∈ (scan source).tokens

theorem Returned.isListed {t : Token} (h : Returned t) : t.IsListed := by
  obtain ⟨source, hmem⟩ := h
  exact isListed_of_mem_scan hmem

/-! ### Values -/

/-- Numbers without a sign are equal if their bits are the same. -/
theorem Binary64.equal_iff_eq {x y : Binary64} (hx : x.isNaN = false) (hy : y.isNaN = false)
    (hsign : x.isNegative = false) (hsign' : y.isNegative = false) : x.equal y ↔ x = y := by
  constructor
  · intro hequal
    have hcases : x.bits = y.bits ∨ x.code = 0 ∧ y.code = 0 := by
      simpa [equal, hx, hy] using hequal
    rcases hcases with hbits | ⟨hzero, hzero'⟩
    · cases x
      cases y
      exact congrArg Binary64.mk hbits
    · rw [← ofCode_code hsign, ← ofCode_code hsign', hzero, hzero']
  · intro heq
    subst heq
    simp [equal, hx]

/-- Values of lexemes are equal if they are the same. -/
theorem Lexeme.literal_equal_iff {text text' : List Char} {kind kind' : Kind} {l l' : Literal}
    (h : Lexeme text kind (some l)) (h' : Lexeme text' kind' (some l')) :
    l.equal l' ↔ l = l' := by
  cases l with
  | string contents =>
      cases l' with
      | string contents' => simp [Literal.equal]
      | number => simp [Literal.equal]
  | number x =>
      cases l' with
      | string => simp [Literal.equal]
      | number y =>
          obtain ⟨hx, hsign⟩ := h.number_plain
          obtain ⟨hy, hsign'⟩ := h'.number_plain
          rw [Literal.equal, Binary64.equal_iff_eq hx hy hsign hsign', Literal.number.injEq]

/-! ### Tokens -/

/-- A token that a scan may return is a lexeme or the one at the end. -/
theorem Token.IsListed.lexeme_cases {t : Token} (h : t.IsListed) :
    Lexeme t.lexeme t.kind t.literal ∨ t = .endOfFile t.line := by
  rcases h with hlexeme | hcontent
  · exact Or.inl hlexeme
  · obtain ⟨kind, text, literal, line⟩ := t
    cases hcontent
    exact Or.inr rfl

/-- The lexeme settles what the token is, apart from its line. -/
theorem Token.eq_iff_lexeme_line {a b : Token} (ha : a.IsListed) (hb : b.IsListed) :
    a = b ↔ a.lexeme = b.lexeme ∧ a.line = b.line := by
  constructor
  · intro heq
    subst heq
    exact ⟨rfl, rfl⟩
  · rintro ⟨htext, hline⟩
    rcases ha.lexeme_cases with hlexeme | hend <;> rcases hb.lexeme_cases with hlexeme' | hend'
    · rw [htext] at hlexeme
      obtain ⟨hkind, hliteral⟩ := hlexeme.unique hlexeme'
      cases a
      cases b
      simp_all
    -- No lexeme is empty, and the token at the end has no characters.
    · rw [htext, hend'] at hlexeme
      exact absurd rfl hlexeme.ne_nil
    · rw [← htext, hend] at hlexeme'
      exact absurd rfl hlexeme'.ne_nil
    · rw [hend, hend', hline]

/-- Equality of tokens that a scan may return is identity of all fields. -/
theorem Token.equal_iff_eq {a b : Token} (ha : a.IsListed) (hb : b.IsListed) :
    a.equal b ↔ a = b := by
  obtain ⟨kind, text, literal, line⟩ := a
  obtain ⟨kind', text', literal', line'⟩ := b
  have hvalues : ∀ l l', literal = some l → literal' = some l' → (l.equal l' ↔ l = l') := by
    rintro l l' rfl rfl
    rcases ha with ha | ha
    · rcases hb with hb | hb
      · exact ha.literal_equal_iff hb
      · cases hb
    · cases ha
  cases literal with
  | none => cases literal' <;> simp [equal, and_assoc]
  | some l =>
      cases literal' with
      | none => simp [equal]
      | some l' =>
          simp only [equal, Bool.and_eq_true, beq_iff_eq, hvalues l l' rfl rfl, mk.injEq,
            Option.some.injEq]
          tauto

/-- **Equality of tokens is sound.**  Two tokens that scans return are equal if and
only if their lexemes and lines are the same, and if and only if all their
fields are, the bits of a number included.  So equality is an equivalence on
the tokens that scans return. -/
theorem equal_of_returned :
    (∀ a b, Returned a → Returned b →
      (a.equal b ↔ a.lexeme = b.lexeme ∧ a.line = b.line) ∧ (a.equal b ↔ a = b)) ∧
      Equivalence (fun a b : { t // Returned t } => a.1.equal b.1) := by
  have hequal : ∀ a b, Returned a → Returned b → (a.equal b ↔ a = b) :=
    fun a b ha hb => Token.equal_iff_eq ha.isListed hb.isListed
  refine ⟨?_, ?_⟩
  · intro a b ha hb
    have hfields := Token.eq_iff_lexeme_line ha.isListed hb.isListed
    exact ⟨(hequal a b ha hb).trans hfields, hequal a b ha hb⟩
  · refine ⟨?_, ?_, ?_⟩
    · intro a
      exact (hequal _ _ a.2 a.2).mpr rfl
    · intro a b hab
      exact (hequal _ _ b.2 a.2).mpr ((hequal _ _ a.2 b.2).mp hab).symm
    · intro a b c hab hbc
      exact (hequal _ _ a.2 c.2).mpr
        (((hequal _ _ a.2 b.2).mp hab).trans ((hequal _ _ b.2 c.2).mp hbc))

/-- Zero with a point and without one: the values are the same, the tokens are not. -/
theorem equal_of_returned_zero :
    let zero : Token := ⟨.number, "0".toList, some (.number ⟨0⟩), 1⟩
    let point : Token := ⟨.number, "0.0".toList, some (.number ⟨0⟩), 1⟩
    (zero.equal zero ↔ zero.lexeme = zero.lexeme ∧ zero.line = zero.line) ∧
      (zero.equal point ↔ zero = point) := by
  intro zero point
  have hzero : Returned zero := ⟨"0".toList, by decide +kernel⟩
  have hpoint : Returned point := ⟨"0.0 1".toList, by decide +kernel⟩
  exact ⟨(equal_of_returned.1 zero zero hzero hzero).1,
    (equal_of_returned.1 zero point hzero hpoint).2⟩

end LoxLexer
