import Mathlib.Data.List.TakeWhile
import LoxLexer.Tile

/-!
# Lexemes

The texts that tokens are written with, as a grammar: the spellings of the
symbols and of the keywords, words, quoted texts, and digits with or without a
fraction.  The grammar knows nothing of what may follow a lexeme in a source.

The first character of a text settles which of these it can begin with, and
which of its readers `Tile.first` turns to: `Tile.first_space` and its
neighbours say which.

* `Lexeme`: the grammar.
* `Symbol.spelling_cases`, `Lexeme.ofWord`: what the readers need of it.
-/

namespace LoxLexer

/-- A text of digits, of which there is at least one. -/
def IsDigits (text : List Char) : Prop := text ≠ [] ∧ ∀ c ∈ text, c.isDigit

/-- A letter or underscore with letters, digits and underscores behind it. -/
def IsWord (text : List Char) : Prop :=
  ∃ c cs, text = c :: cs ∧ isWordStart c ∧ ∀ d ∈ cs, isWordPart d

/-- The texts that can be tokens, with the kind and the value of the token. -/
inductive Lexeme : List Char → Kind → Option Literal → Prop
  | symbol (s : Symbol) : Lexeme s.spelling (.symbol s) none
  | keyword (k : Keyword) : Lexeme k.spelling (.keyword k) none
  | identifier {text : List Char} (hword : IsWord text)
      (hfree : ∀ k : Keyword, k.spelling ≠ text) : Lexeme text .identifier none
  | string {contents : List Char} (hcontents : '"' ∉ contents) :
      Lexeme ('"' :: contents ++ ['"']) .string (some (.string contents))
  | whole {digits : List Char} (hdigits : IsDigits digits) :
      Lexeme digits .number (some (.number (.ofNumeral digits [])))
  | fraction {digits places : List Char} (hdigits : IsDigits digits) (hplaces : IsDigits places) :
      Lexeme (digits ++ '.' :: places) .number (some (.number (.ofNumeral digits places)))

/-- A text can be a token. -/
def IsLexeme (text : List Char) : Prop := ∃ kind literal, Lexeme text kind literal

/-- The lexeme of a string is its contents between quotes. -/
theorem Lexeme.exists_contents {text : List Char} {literal : Option Literal}
    (h : Lexeme text .string literal) :
    ∃ contents, text = '"' :: contents ++ ['"'] ∧ literal = some (.string contents) ∧
      '"' ∉ contents := by
  cases h with
  | string hcontents => exact ⟨_, rfl, rfl, hcontents⟩

/-- The token at the end is the only one of its kind. -/
theorem Lexeme.kind_ne_endOfFile {text : List Char} {kind : Kind} {literal : Option Literal}
    (h : Lexeme text kind literal) : kind ≠ .endOfFile := by
  cases h <;> exact Kind.noConfusion

/-! ### What a character can begin -/

theorem isSpace_iff {c : Char} : isSpace c ↔ c ∈ [' ', '\t', '\r', '\n'] := by
  simp [isSpace, or_assoc]

/-- White space begins nothing but itself. -/
theorem class_of_isSpace {c : Char} (h : isSpace c) :
    c ≠ '#' ∧ c ≠ '"' ∧ c.isDigit = false ∧ isWordStart c = false ∧ Symbol.ofChar? c = none := by
  simp only [isSpace, Bool.or_eq_true, beq_iff_eq] at h
  rcases h with ((rfl | rfl) | rfl) | rfl <;> decide

theorem ne_newline_of_isSpace {c : Char} (h : isSpace c = false) : c ≠ '\n' := by
  intro heq
  subst heq
  cases h

/-- Letters and the underscore have greater numbers than digits. -/
theorem le_toNat_of_isWordStart {c : Char} (h : isWordStart c) : 65 ≤ c.toNat := by
  rcases (Bool.or_eq_true c.isAlpha (c == '_')).mp h with halpha | hunder
  · rcases (Bool.or_eq_true c.isUpper c.isLower).mp halpha with hupper | hlower
    · exact UInt32.le_iff_toNat_le.mp (of_decide_eq_true hupper).1
    · have hle : 97 ≤ c.toNat :=
        UInt32.le_iff_toNat_le.mp (of_decide_eq_true ((Bool.and_eq_true _ _).mp hlower).1)
      omega
  · rw [beq_iff_eq.mp hunder]
    decide

/-- No digit begins a word. -/
theorem isDigit_eq_false_of_isWordStart {c : Char} (h : isWordStart c) : c.isDigit = false := by
  by_contra hdigit
  rw [Bool.not_eq_false] at hdigit
  have hle : c.toNat ≤ 57 := (Char.isDigit_iff_toNat.mp hdigit).2
  have hge := le_toNat_of_isWordStart h
  omega

/-- A digit begins nothing but numerals. -/
theorem class_of_isDigit {c : Char} (h : c.isDigit) :
    isSpace c = false ∧ c ≠ '#' ∧ c ≠ '"' ∧ c ≠ '/' ∧ isWordStart c = false := by
  refine ⟨?_, ?_, ?_, ?_, ?_⟩
  · exact Bool.eq_false_iff.mpr fun hspace => by simp [class_of_isSpace hspace] at h
  · intro heq
    subst heq
    simp at h
  · intro heq
    subst heq
    simp at h
  · intro heq
    subst heq
    simp at h
  · exact Bool.eq_false_iff.mpr fun hword => by
      simp [isDigit_eq_false_of_isWordStart hword] at h

/-- A letter or underscore begins nothing but words. -/
theorem class_of_isWordStart {c : Char} (h : isWordStart c) :
    isSpace c = false ∧ c ≠ '#' ∧ c ≠ '"' ∧ c ≠ '/' ∧ c.isDigit = false := by
  refine ⟨?_, ?_, ?_, ?_, isDigit_eq_false_of_isWordStart h⟩
  · exact Bool.eq_false_iff.mpr fun hspace => by simp [class_of_isSpace hspace] at h
  · intro heq
    subst heq
    exact absurd h (by decide)
  · intro heq
    subst heq
    exact absurd h (by decide)
  · intro heq
    subst heq
    exact absurd h (by decide)

/-- The first character of a symbol begins nothing but symbols and comments. -/
theorem Symbol.class_of_spelling {s : Symbol} {c : Char} {cs : List Char}
    (h : s.spelling = c :: cs) :
    isSpace c = false ∧ c ≠ '#' ∧ c ≠ '"' ∧ c.isDigit = false ∧ isWordStart c = false := by
  cases s <;> cases h <;> decide

/-- The characters behind the first one of a symbol. -/
theorem Symbol.spelling_cases {s : Symbol} {c : Char} {cs : List Char}
    (h : s.spelling = c :: cs) :
    (cs = [] ∧ ofChar? c = some s) ∨ ∃ d, cs = [d] ∧ ofPair? c d = some s := by
  cases s <;> cases h <;> first | exact Or.inl ⟨rfl, rfl⟩ | exact Or.inr ⟨_, rfl, rfl⟩

/-- A character begins no more than one symbol of two characters. -/
theorem Symbol.ofPair?_of_ne {c d e : Char} {s : Symbol} (h : ofPair? c d = some s)
    (hne : e ≠ d) : ofPair? c e = none := by
  cases hother : ofPair? c e with
  | none => rfl
  | some t =>
      unfold ofPair? at h hother
      split at h <;> simp_all

/-- What is no symbol begins none. -/
theorem Symbol.ofPair?_of_none {c : Char} (h : ofChar? c = none) (d : Char) :
    ofPair? c d = none := by
  cases hpair : ofPair? c d with
  | none => rfl
  | some s =>
      unfold ofPair? at hpair
      split at hpair <;> simp_all [ofChar?]

/-- Keywords are spelled as words. -/
theorem Keyword.isWord_spelling (k : Keyword) : IsWord k.spelling := by
  cases k <;> exact ⟨_, _, rfl, rfl, List.all_eq_true.mp rfl⟩

namespace Tile

/-! ### The first tile by its first character -/

section First

variable {c : Char} (cs : List Char)

/-- White space is a blank tile for each character. -/
theorem first_space (h : isSpace c) : first c cs = (⟨[c], .blank⟩, cs) := by
  simp [first, h]

theorem first_digit (h : c.isDigit) : first c cs = numeral c cs := by
  obtain ⟨hspace, hhash, hquote, -, -⟩ := class_of_isDigit h
  simp [first, h, hspace, hhash, hquote]

theorem first_wordStart (h : isWordStart c) : first c cs = word c cs := by
  obtain ⟨hspace, hhash, hquote, -, hdigit⟩ := class_of_isWordStart h
  simp [first, h, hspace, hhash, hquote, hdigit]

/-- A slash and a star open a block comment. -/
theorem first_opening : first '/' ('*' :: cs) = blockComment cs := rfl

/-- Where nothing else can begin, the first tile is a symbol or a stray character. -/
theorem first_other (hspace : isSpace c = false) (hhash : c ≠ '#') (hquote : c ≠ '"')
    (hdigit : c.isDigit = false) (hword : isWordStart c = false)
    (hopen : ¬ ['/', '*'] <+: c :: cs) : first c cs = symbol c cs := by
  simp only [first, hspace, hhash, hquote, hdigit, hword, Bool.false_eq_true, if_false]
  split
  · next rest => exact absurd ⟨rest, rfl⟩ hopen
  · rfl

/-- No other character than a slash opens a block comment. -/
theorem not_opening_of_ne {cs : List Char} (hslash : c ≠ '/') : ¬ ['/', '*'] <+: c :: cs := by
  intro hfront
  obtain ⟨rest, heq⟩ := hfront
  exact hslash (List.cons.inj heq).1.symm

/-- A symbol of two characters is read whole. -/
theorem symbol_of_pair {d : Char} {s : Symbol} (h : Symbol.ofPair? c d = some s)
    (rest : List Char) :
    symbol c (d :: rest) = (⟨[c, d], .token (.symbol s) none⟩, rest) := by
  simp [symbol, h]

/-- Where no symbol has two characters, one character is read. -/
theorem symbol_of_none (h : ∀ d rest, cs = d :: rest → Symbol.ofPair? c d = none) :
    symbol c cs = single c cs := by
  unfold symbol
  split
  · next d ds => simp [h d ds rfl]
  · rfl

/-- A character that is a symbol by itself is a token. -/
theorem single_of_char {s : Symbol} (h : Symbol.ofChar? c = some s) :
    single c cs = (⟨[c], .token (.symbol s) none⟩, cs) := by
  simp [single, h]

/-- A character that is no symbol by itself is a fault. -/
theorem single_of_none (h : Symbol.ofChar? c = none) :
    single c cs = (⟨[c], .fault (.unexpectedCharacter c)⟩, cs) := by
  simp [single, h]

end First

end Tile

/-! ### Comments and strings in front of other text -/

/-- A run of characters of one class stops at a character that is not in it. -/
theorem run_of_stop {p : Char → Bool} {run rest : List Char} (hrun : ∀ d ∈ run, p d)
    (hstop : ∀ d more, rest = d :: more → p d = false) :
    (run ++ rest).takeWhile p = run ∧ (run ++ rest).dropWhile p = rest := by
  rw [List.takeWhile_append_of_pos hrun, List.dropWhile_append_of_pos hrun]
  cases rest with
  | nil => simp
  | cons d more => simp [hstop d more rfl]

/-- What is in front of a character that is looked for, or of the end, is the
run of the characters before it. -/
theorem run_append {stop : Char} {text rest : List Char} (htext : stop ∉ text)
    (hrest : rest = [] ∨ ∃ more, rest = stop :: more) :
    (text ++ rest).takeWhile (· != stop) = text ∧ (text ++ rest).dropWhile (· != stop) = rest := by
  refine run_of_stop ?_ ?_
  · intro d hd
    simpa using fun heq : d = stop => htext (heq ▸ hd)
  · rintro d more rfl
    rcases hrest with hnil | ⟨more', heq⟩
    · cases hnil
    · obtain ⟨rfl, -⟩ := List.cons.inj heq
      exact bne_self_eq_false d

/-- Where the character to stop at is missing, there is no stop before the end. -/
theorem run_of_not_mem {stop : Char} {text : List Char} (htext : stop ∉ text) :
    text.takeWhile (· != stop) = text ∧ text.dropWhile (· != stop) = [] := by
  have hrun := run_append htext (Or.inl rfl)
  rwa [List.append_nil] at hrun

/-- A comment is the text up to the line end, or up to the end of the source. -/
theorem Tile.lineComment_append {body rest : List Char} (hbody : '\n' ∉ body)
    (hrest : rest = [] ∨ ∃ more, rest = '\n' :: more) :
    lineComment (body ++ rest) = (⟨'#' :: body, .blank⟩, rest) := by
  obtain ⟨htake, hdrop⟩ := run_append hbody hrest
  rw [lineComment, htake, hdrop]

/-- A string is the text up to the next quote. -/
theorem Tile.quoted_append {contents : List Char} (hcontents : '"' ∉ contents)
    (rest : List Char) :
    quoted (contents ++ '"' :: rest) =
      (⟨'"' :: contents ++ ['"'], .token .string (some (.string contents))⟩, rest) := by
  obtain ⟨htake, hdrop⟩ := run_append hcontents (Or.inr ⟨rest, rfl⟩)
  rw [quoted, htake, hdrop]

/-- A string without a closing quote is all of the source, and a fault. -/
theorem Tile.quoted_open {contents : List Char} (hcontents : '"' ∉ contents) :
    quoted contents = (⟨'"' :: contents, .fault .unterminatedString⟩, []) := by
  obtain ⟨htake, hdrop⟩ := run_of_not_mem hcontents
  rw [quoted, htake, hdrop]

/-! ### Numerals -/

section Numeral

variable {c : Char} {cs : List Char}

/-- The digits that a digit begins are digits, with at least one of them. -/
theorem isDigits_run (hc : c.isDigit) (cs : List Char) :
    IsDigits (c :: cs.takeWhile Char.isDigit) :=
  ⟨List.cons_ne_nil _ _, List.forall_mem_cons.mpr ⟨hc, fun _ hd => List.mem_takeWhile_imp hd⟩⟩

/-- Behind a run of digits there is a point with digits behind it, or not. -/
theorem point_cases (cs : List Char) :
    (∃ rest, cs.dropWhile Char.isDigit = '.' :: rest ∧ rest.takeWhile Char.isDigit ≠ []) ∨
      ∀ rest, cs.dropWhile Char.isDigit = '.' :: rest → rest.takeWhile Char.isDigit = [] := by
  by_cases hplaces : ∃ rest, cs.dropWhile Char.isDigit = '.' :: rest ∧
      rest.takeWhile Char.isDigit ≠ []
  · exact Or.inl hplaces
  · refine Or.inr fun rest hpoint => ?_
    by_contra hsome
    exact hplaces ⟨rest, hpoint, hsome⟩

/-- A numeral with digits behind its point. -/
theorem Tile.numeral_fraction (c : Char) {rest : List Char}
    (hpoint : cs.dropWhile Char.isDigit = '.' :: rest)
    (hplaces : rest.takeWhile Char.isDigit ≠ []) :
    numeral c cs =
      (⟨c :: cs.takeWhile Char.isDigit ++ '.' :: rest.takeWhile Char.isDigit,
        .token .number (some (.number
          (.ofNumeral (c :: cs.takeWhile Char.isDigit) (rest.takeWhile Char.isDigit))))⟩,
        rest.dropWhile Char.isDigit) := by
  simp [numeral, hpoint, hplaces]

/-- A numeral without a point that digits follow. -/
theorem Tile.numeral_whole (c : Char)
    (hnone : ∀ rest, cs.dropWhile Char.isDigit = '.' :: rest → rest.takeWhile Char.isDigit = []) :
    numeral c cs =
      (⟨c :: cs.takeWhile Char.isDigit,
        .token .number (some (.number (.ofNumeral (c :: cs.takeWhile Char.isDigit) [])))⟩,
        cs.dropWhile Char.isDigit) := by
  unfold numeral
  split
  · next rest hpoint => simp [hnone rest hpoint, hpoint]
  · rfl

end Numeral

/-! ### Words and their kinds -/

theorem Kind.ofWord_spelling (k : Keyword) : Kind.ofWord k.spelling = .keyword k := by
  rw [ofWord, Keyword.ofWord?_eq_some_iff.mpr rfl]

/-- A word that is the spelling of no keyword is an identifier. -/
theorem Kind.ofWord_of_free {text : List Char} (h : ∀ k : Keyword, k.spelling ≠ text) :
    Kind.ofWord text = .identifier := by
  unfold ofWord
  split
  · next k hk => exact absurd (Keyword.ofWord?_eq_some_iff.mp hk) (h k)
  · rfl

/-- No two kinds share a name. -/
theorem Kind.eq_of_name_eq {k l : Kind} (h : k.name.toList = l.name.toList) : k = l := by
  have hall : ∀ k ∈ all, ∀ l ∈ all, k.name.toList = l.name.toList → k = l := by decide +kernel
  exact hall k (mem_all k) l (mem_all l) h

/-- Every word is a lexeme: a keyword if it is spelt like one, else an identifier. -/
theorem Lexeme.ofWord {text : List Char} (h : IsWord text) :
    Lexeme text (.ofWord text) none := by
  cases hkeyword : Keyword.ofWord? text with
  | some k =>
      obtain rfl := Keyword.ofWord?_eq_some_iff.mp hkeyword
      rw [Kind.ofWord_spelling]
      exact .keyword k
  | none =>
      have hfree : ∀ k : Keyword, k.spelling ≠ text := by
        intro k heq
        subst heq
        simp [Keyword.ofWord?_eq_some_iff.mpr rfl] at hkeyword
      rw [Kind.ofWord_of_free hfree]
      exact .identifier h hfree

theorem Lexeme.ne_nil {text : List Char} {kind : Kind} {literal : Option Literal}
    (h : Lexeme text kind literal) : text ≠ [] := by
  cases h with
  | symbol s => cases s <;> exact List.cons_ne_nil _ _
  | keyword k => cases k <;> exact List.cons_ne_nil _ _
  | identifier hword _ =>
      obtain ⟨c, cs, rfl, -⟩ := hword
      exact List.cons_ne_nil _ _
  | string => exact List.cons_ne_nil _ _
  | whole hdigits => exact hdigits.1
  | fraction => simp

end LoxLexer
