import LoxLexer.Proofs.BlockComment
import LoxLexer.Proofs.Boundary
import LoxLexer.Proofs.Items

/-!
# Longest match

The rule of the language for cutting a text into tiles, in one relation that
mentions no reader.  White space is skipped by the character and comments as a
whole; a block comment or a string that is never closed takes all that is
left; and everywhere else the first tile is the longest lexeme that the text
begins with, or a stray character if it begins with none.

* `FirstTile`: the rule for one tile, and `Tiling`: the rule for a whole text.
* `firstTile_iff`: `Tile.first` reads exactly the tile of the rule.  What one
  tile can be is said here once, by the constructors of `FirstTile`; later
  files take a tile apart by cases on them.
* `scan_longestMatch`: a text has one tiling, and a scan hands out what the
  tiles of it stand for.
-/

namespace LoxLexer

/-- A text begins with nothing that the rule treats before lexemes. -/
structure Plain (text : List Char) : Prop where
  noSpace : ∀ c rest, text = c :: rest → c ∉ [' ', '\t', '\r', '\n'] ∧ c ≠ '#'
  noOpening : ¬ ['/', '*'] <+: text
  closed : ∀ rest, text = '"' :: rest → '"' ∈ rest

/-- The first tile of a text, and what is left behind it. -/
inductive FirstTile (source : List Char) : Tile → List Char → Prop
  | space {c : Char} {rest : List Char} (hsplit : source = c :: rest)
      (hspace : c ∈ [' ', '\t', '\r', '\n']) : FirstTile source ⟨[c], .blank⟩ rest
  | lineComment {body rest : List Char} (hsplit : source = '#' :: body ++ rest)
      (hbody : '\n' ∉ body) (hrest : rest = [] ∨ ∃ more, rest = '\n' :: more) :
      FirstTile source ⟨'#' :: body, .blank⟩ rest
  | blockComment {text rest : List Char} (hsplit : source = text ++ rest)
      (hcomplete : CompleteComment text) : FirstTile source ⟨text, .blank⟩ rest
  | openComment (hopen : ['/', '*'] <+: source)
      (hnever : ∀ front, front <+: source → ['/', '*'] <+: front → ¬ Balanced front) :
      FirstTile source ⟨source, .fault .unterminatedBlockComment⟩ []
  | openString {body : List Char} (hsplit : source = '"' :: body) (hbody : '"' ∉ body) :
      FirstTile source ⟨source, .fault .unterminatedString⟩ []
  | lexeme {text rest : List Char} {kind : Kind} {literal : Option Literal}
      (hplain : Plain source) (hsplit : source = text ++ rest)
      (hlexeme : Lexeme text kind literal)
      (hlongest : ∀ front, front <+: source → IsLexeme front → front.length ≤ text.length) :
      FirstTile source ⟨text, .token kind literal⟩ rest
  | stray {c : Char} {rest : List Char} (hplain : Plain source) (hsplit : source = c :: rest)
      (hnone : ∀ front, front <+: source → ¬ IsLexeme front) :
      FirstTile source ⟨[c], .fault (.unexpectedCharacter c)⟩ rest

/-- A text cut into tiles, from its front to its end. -/
inductive Tiling : List Char → List Tile → Prop
  | nil : Tiling [] []
  | cons {source rest : List Char} {t : Tile} {ts : List Tile}
      (hfirst : FirstTile source t rest) (htail : Tiling rest ts) : Tiling source (t :: ts)

/-! ### What a lexeme can look like, by its first character -/

/-- The characters behind the first one of a lexeme. -/
theorem Lexeme.tail_cases {c : Char} {cs : List Char} {kind : Kind} {literal : Option Literal}
    (h : Lexeme (c :: cs) kind literal) :
    (∃ s : Symbol, s.spelling = c :: cs) ∨
      (isWordStart c ∧ ∀ d ∈ cs, isWordPart d) ∨
      (c = '"' ∧ ∃ contents, cs = contents ++ ['"'] ∧ '"' ∉ contents) ∨
      (c.isDigit ∧ ∀ d ∈ cs, d.isDigit) ∨
      (c.isDigit ∧ ∃ ds places, cs = ds ++ '.' :: places ∧
        (∀ d ∈ ds, d.isDigit) ∧ IsDigits places) := by
  generalize htext : c :: cs = text at h
  cases h with
  | symbol s => exact Or.inl ⟨s, rfl⟩
  | keyword k =>
      obtain ⟨d, ds, heq, hstart, hparts⟩ := htext ▸ k.isWord_spelling
      cases heq
      exact Or.inr (Or.inl ⟨hstart, hparts⟩)
  | identifier hword _ =>
      obtain ⟨d, ds, heq, hstart, hparts⟩ := htext ▸ hword
      cases heq
      exact Or.inr (Or.inl ⟨hstart, hparts⟩)
  | @string contents hcontents =>
      rw [List.cons_append] at htext
      obtain ⟨hc, hcs⟩ := List.cons.inj htext
      exact Or.inr (Or.inr (Or.inl ⟨hc, contents, hcs, hcontents⟩))
  | whole hdigits =>
      subst htext
      exact Or.inr (Or.inr (Or.inr (Or.inl (List.forall_mem_cons.mp hdigits.2))))
  | @fraction digits places hdigits hplaces =>
      obtain ⟨d, ds, rfl⟩ := List.exists_cons_of_ne_nil hdigits.1
      rw [List.cons_append] at htext
      obtain ⟨rfl, hcs⟩ := List.cons.inj htext
      obtain ⟨hc, hds⟩ := List.forall_mem_cons.mp hdigits.2
      exact Or.inr (Or.inr (Or.inr (Or.inr ⟨hc, ds, places, hcs, hds, hplaces⟩)))

namespace IsLexeme

variable {c : Char} {cs : List Char}

/-- A lexeme that begins with a digit is digits, or digits with a point and places. -/
theorem of_isDigit (h : IsLexeme (c :: cs)) (hc : c.isDigit) :
    (∀ d ∈ cs, d.isDigit) ∨ ∃ ds places, cs = ds ++ '.' :: places ∧
      (∀ d ∈ ds, d.isDigit) ∧ IsDigits places := by
  obtain ⟨kind, literal, h⟩ := h
  obtain ⟨-, -, hquote, -, hword⟩ := class_of_isDigit hc
  rcases h.tail_cases with ⟨s, hs⟩ | ⟨hstart, -⟩ | ⟨rfl, -⟩ | ⟨-, hcs⟩ | ⟨-, hcs⟩
  · simp [Symbol.class_of_spelling hs] at hc
  · simp [hword] at hstart
  · exact absurd rfl hquote
  · exact Or.inl hcs
  · exact Or.inr hcs

/-- A lexeme that begins as words do goes on as words do. -/
theorem of_isWordStart (h : IsLexeme (c :: cs)) (hc : isWordStart c) :
    ∀ d ∈ cs, isWordPart d := by
  obtain ⟨kind, literal, h⟩ := h
  obtain ⟨-, -, hquote, -, hdigit⟩ := class_of_isWordStart hc
  rcases h.tail_cases with ⟨s, hs⟩ | ⟨-, hcs⟩ | ⟨rfl, -⟩ | ⟨hd, -⟩ | ⟨hd, -⟩
  · simp [Symbol.class_of_spelling hs] at hc
  · exact hcs
  · exact absurd rfl hquote
  · simp [hdigit] at hd
  · simp [hdigit] at hd

/-- A lexeme that begins with a quote ends with the only other one in it. -/
theorem of_quote (h : IsLexeme ('"' :: cs)) :
    ∃ contents, cs = contents ++ ['"'] ∧ '"' ∉ contents := by
  obtain ⟨kind, literal, h⟩ := h
  rcases h.tail_cases with ⟨s, hs⟩ | ⟨hstart, -⟩ | ⟨-, hcs⟩ | ⟨hd, -⟩ | ⟨hd, -⟩
  · exact absurd rfl (Symbol.class_of_spelling hs).2.2.1
  · exact absurd hstart (by decide)
  · exact hcs
  · exact absurd hd (by decide)
  · exact absurd hd (by decide)

/-- A lexeme that begins with anything else is a symbol. -/
theorem of_other (h : IsLexeme (c :: cs)) (hquote : c ≠ '"') (hdigit : c.isDigit = false)
    (hword : isWordStart c = false) : ∃ s : Symbol, s.spelling = c :: cs := by
  obtain ⟨kind, literal, h⟩ := h
  rcases h.tail_cases with hs | ⟨hstart, -⟩ | ⟨rfl, -⟩ | ⟨hd, -⟩ | ⟨hd, -⟩
  · exact hs
  · simp [hword] at hstart
  · exact absurd rfl hquote
  · simp [hdigit] at hd
  · simp [hdigit] at hd

/-- A lexeme in front of a text takes its first character and some of the others. -/
theorem exists_cons {front : List Char} (h : IsLexeme front) (hfront : front <+: c :: cs) :
    ∃ tail, front = c :: tail ∧ tail <+: cs := by
  obtain ⟨kind, literal, h⟩ := h
  rcases List.prefix_cons_iff.mp hfront with rfl | htail
  · exact absurd rfl h.ne_nil
  · exact htail

end IsLexeme

/-- What consists of characters of one class is within the run of that class. -/
theorem prefix_takeWhile {p : Char → Bool} {front text : List Char} (hfront : front <+: text)
    (hclass : ∀ d ∈ front, p d) : front <+: text.takeWhile p := by
  obtain ⟨rest, rfl⟩ := hfront
  rw [List.takeWhile_append_of_pos hclass]
  exact List.prefix_append front _

namespace Tile

/-! ### Each reader follows the rule -/

/-- The comment that is read is the first tile. -/
theorem lineComment_firstTile (cs : List Char) :
    FirstTile ('#' :: cs) (lineComment cs).1 (lineComment cs).2 := by
  by_cases hend : '\n' ∈ cs
  · obtain ⟨body, more, rfl, hbody⟩ := List.eq_append_cons_of_mem hend
    have hrest : ('\n' :: more : List Char) = [] ∨ ∃ more', '\n' :: more = '\n' :: more' :=
      Or.inr ⟨more, rfl⟩
    rw [lineComment_append hbody hrest]
    exact .lineComment rfl hbody hrest
  · have hread : lineComment (cs ++ []) = _ := lineComment_append hend (Or.inl rfl)
    rw [List.append_nil] at hread
    rw [hread]
    exact .lineComment (by simp) hend (Or.inl rfl)

/-- The block comment that is read is the first tile, be it closed or open. -/
theorem blockComment_firstTile (cs : List Char) :
    FirstTile ('/' :: '*' :: cs) (blockComment cs).1 (blockComment cs).2 := by
  unfold blockComment
  cases hafter : afterBlock 1 cs with
  | some rest =>
      obtain ⟨body, rfl, hcomplete⟩ := completeComment_of_afterBlock hafter
      have htake : (body ++ rest).take ((body ++ rest).length - rest.length) = body := by simp
      dsimp only
      rw [htake]
      exact .blockComment rfl hcomplete
  | none =>
      refine .openComment ⟨cs, rfl⟩ ?_
      intro front hfront hopen
      exact not_balanced_of_afterBlock_eq_none hafter hfront hopen

/-- A block comment is read up to its closing mark, whatever is behind that. -/
theorem blockComment_append {body : List Char} (h : CompleteComment ('/' :: '*' :: body))
    (rest : List Char) :
    blockComment (body ++ rest) = (⟨'/' :: '*' :: body, .blank⟩, rest) := by
  rw [blockComment, afterBlock_of_completeComment h]
  simp

/-- A block comment that no front of the source brings to its end is all of the source. -/
theorem blockComment_open {cs : List Char}
    (h : ∀ front, front <+: '/' :: '*' :: cs → ['/', '*'] <+: front → ¬ Balanced front) :
    blockComment cs = (⟨'/' :: '*' :: cs, .fault .unterminatedBlockComment⟩, []) := by
  unfold blockComment
  cases hafter : afterBlock 1 cs with
  | some rest =>
      obtain ⟨body, rfl, hopen, hbalanced, -⟩ := completeComment_of_afterBlock hafter
      exact absurd hbalanced (h _ ⟨rest, rfl⟩ hopen)
  | none => rfl

/-- The string that is read is the first tile, be it closed or open. -/
theorem quoted_firstTile (cs : List Char) :
    FirstTile ('"' :: cs) (quoted cs).1 (quoted cs).2 := by
  by_cases hclosed : '"' ∈ cs
  · have hplain : Plain ('"' :: cs) := by
      refine ⟨?_, ?_, ?_⟩
      · intro c rest heq
        cases heq
        decide
      · simp
      · intro rest heq
        cases heq
        exact hclosed
    have hlongest : ∀ front, front <+: '"' :: cs → IsLexeme front →
        front.length ≤ (quoted cs).1.text.length := by
      intro front hfront hlexeme
      obtain ⟨tail, rfl, htail⟩ := hlexeme.exists_cons hfront
      obtain ⟨contents, rfl, hcontents⟩ := hlexeme.of_quote
      obtain ⟨rest, rfl⟩ := htail
      rw [List.append_assoc, List.singleton_append, quoted_append hcontents]
      simp
    obtain ⟨contents, rest, rfl, hcontents⟩ := List.eq_append_cons_of_mem hclosed
    rw [quoted_append hcontents] at hlongest ⊢
    exact .lexeme hplain (by simp) (.string hcontents) hlongest
  · rw [quoted_open hclosed]
    exact .openString rfl hclosed

/-- A text that begins with a character of some use to lexemes alone is plain. -/
theorem plain_of_class {c : Char} {cs : List Char} (hspace : isSpace c = false) (hhash : c ≠ '#')
    (hquote : c ≠ '"') (hopen : ¬ ['/', '*'] <+: c :: cs) : Plain (c :: cs) := by
  refine ⟨?_, hopen, ?_⟩
  · intro d rest heq
    cases heq
    refine ⟨?_, hhash⟩
    rw [← isSpace_iff, hspace]
    decide
  · intro rest heq
    cases heq
    exact absurd rfl hquote

/-- The word that is read is the first tile. -/
theorem word_firstTile {c : Char} (hc : isWordStart c) (cs : List Char) :
    FirstTile (c :: cs) (word c cs).1 (word c cs).2 := by
  obtain ⟨hspace, hhash, hquote, hslash, -⟩ := class_of_isWordStart hc
  refine .lexeme (plain_of_class hspace hhash hquote (not_opening_of_ne hslash))
    (by simp [word]) ?_ ?_
  · exact .ofWord ⟨c, _, rfl, hc, fun d hd => List.mem_takeWhile_imp hd⟩
  · intro front hfront hlexeme
    obtain ⟨tail, rfl, htail⟩ := hlexeme.exists_cons hfront
    have hrun := prefix_takeWhile htail (hlexeme.of_isWordStart hc)
    simpa [word] using hrun.length_le

/-- Where a numeral with a fraction stands, its digits are the whole run of
digits, and the point and the places are behind that run. -/
theorem run_of_fraction {ds places cs : List Char} (hfront : ds ++ '.' :: places <+: cs)
    (hds : ∀ d ∈ ds, d.isDigit) :
    cs.takeWhile Char.isDigit = ds ∧
      ∃ more, cs.dropWhile Char.isDigit = '.' :: more ∧ places <+: more := by
  obtain ⟨rest, rfl⟩ := hfront
  rw [List.append_assoc, List.takeWhile_append_of_pos hds, List.dropWhile_append_of_pos hds]
  simp

/-- A run of digits with no digit behind a point after it is a tile. -/
theorem whole_firstTile {c : Char} (hc : c.isDigit) {cs : List Char}
    (hpoint : ∀ rest, cs.dropWhile Char.isDigit = '.' :: rest → rest.takeWhile Char.isDigit = []) :
    FirstTile (c :: cs)
      ⟨c :: cs.takeWhile Char.isDigit,
        .token .number (some (.number (.ofNumeral (c :: cs.takeWhile Char.isDigit) [])))⟩
      (cs.dropWhile Char.isDigit) := by
  obtain ⟨hspace, hhash, hquote, hslash, -⟩ := class_of_isDigit hc
  refine .lexeme (plain_of_class hspace hhash hquote (not_opening_of_ne hslash))
    (by simp) (.whole (isDigits_run hc cs)) ?_
  intro front hfront hlexeme
  obtain ⟨tail, rfl, htail⟩ := hlexeme.exists_cons hfront
  rcases hlexeme.of_isDigit hc with hdigits | ⟨ds, places, rfl, hds, hplaces⟩
  · exact Nat.succ_le_succ (prefix_takeWhile htail hdigits).length_le
  · obtain ⟨-, more, hmore, hfront'⟩ := run_of_fraction htail hds
    have hrun := prefix_takeWhile hfront' hplaces.2
    rw [hpoint more hmore] at hrun
    exact absurd (List.prefix_nil.mp hrun) hplaces.1

/-- A run of digits, a point and a run of digits are a tile. -/
theorem fraction_firstTile {c : Char} (hc : c.isDigit) {cs rest : List Char}
    (hpoint : cs.dropWhile Char.isDigit = '.' :: rest)
    (hplaces : rest.takeWhile Char.isDigit ≠ []) :
    FirstTile (c :: cs)
      ⟨c :: cs.takeWhile Char.isDigit ++ '.' :: rest.takeWhile Char.isDigit,
        .token .number (some (.number
          (.ofNumeral (c :: cs.takeWhile Char.isDigit) (rest.takeWhile Char.isDigit))))⟩
      (rest.dropWhile Char.isDigit) := by
  obtain ⟨hspace, hhash, hquote, hslash, -⟩ := class_of_isDigit hc
  have hsplit : c :: cs = (c :: cs.takeWhile Char.isDigit ++ '.' :: rest.takeWhile Char.isDigit) ++
      rest.dropWhile Char.isDigit := by
    conv => lhs; rw [← List.takeWhile_append_dropWhile (p := Char.isDigit) (l := cs), hpoint]
    simp
  refine .lexeme (plain_of_class hspace hhash hquote (not_opening_of_ne hslash)) hsplit
    (.fraction (isDigits_run hc cs) ⟨hplaces, fun _ hd => List.mem_takeWhile_imp hd⟩) ?_
  intro front hfront hlexeme
  obtain ⟨tail, rfl, htail⟩ := hlexeme.exists_cons hfront
  rcases hlexeme.of_isDigit hc with hdigits | ⟨ds, places', rfl, hds, hplaces'⟩
  · have hle := (prefix_takeWhile htail hdigits).length_le
    simp only [List.length_cons, List.length_append]
    omega
  · obtain ⟨hrun, more, hmore, hfront'⟩ := run_of_fraction htail hds
    obtain rfl : rest = more := by simpa [hpoint] using hmore
    have hle := (prefix_takeWhile hfront' hplaces'.2).length_le
    simp only [hrun, List.length_cons, List.length_append]
    omega

/-- The numeral that is read is the first tile. -/
theorem numeral_firstTile {c : Char} (hc : c.isDigit) (cs : List Char) :
    FirstTile (c :: cs) (numeral c cs).1 (numeral c cs).2 := by
  rcases point_cases cs with ⟨rest, hpoint, hplaces⟩ | hnone
  · rw [numeral_fraction c hpoint hplaces]
    exact fraction_firstTile hc hpoint hplaces
  · rw [numeral_whole c hnone]
    exact whole_firstTile hc hnone

theorem lexeme_ofChar? {c : Char} {s : Symbol} (h : Symbol.ofChar? c = some s) :
    Lexeme [c] (.symbol s) none := by
  have hlexeme := Lexeme.symbol s
  rwa [Symbol.spelling_of_ofChar? h] at hlexeme

theorem lexeme_ofPair? {c d : Char} {s : Symbol} (h : Symbol.ofPair? c d = some s) :
    Lexeme [c, d] (.symbol s) none := by
  have hlexeme := Lexeme.symbol s
  rwa [Symbol.spelling_of_ofPair? h] at hlexeme

/-- Where no lexeme is longer than one character, there is a symbol of one
character or a stray one. -/
theorem single_firstTile {c : Char} {cs : List Char} (hplain : Plain (c :: cs))
    (hfronts : ∀ front, front <+: c :: cs → IsLexeme front →
      front = [c] ∧ (Symbol.ofChar? c).isSome) :
    FirstTile (c :: cs) (single c cs).1 (single c cs).2 := by
  unfold single
  cases hone : Symbol.ofChar? c with
  | some s =>
      refine .lexeme hplain rfl (lexeme_ofChar? hone) ?_
      intro front hfront hlexeme
      rw [(hfronts front hfront hlexeme).1]
  | none =>
      refine .stray hplain rfl ?_
      intro front hfront hlexeme
      simpa [hone] using (hfronts front hfront hlexeme).2

/-- The symbol or the stray character that is read is the first tile. -/
theorem symbol_firstTile {c : Char} {cs : List Char} (hspace : isSpace c = false)
    (hhash : c ≠ '#') (hquote : c ≠ '"') (hdigit : c.isDigit = false)
    (hword : isWordStart c = false) (hopen : ¬ ['/', '*'] <+: c :: cs) :
    FirstTile (c :: cs) (symbol c cs).1 (symbol c cs).2 := by
  have hplain := plain_of_class hspace hhash hquote hopen
  have hfronts : ∀ front, front <+: c :: cs → IsLexeme front →
      (front = [c] ∧ (Symbol.ofChar? c).isSome) ∨
        ∃ d ds, front = [c, d] ∧ cs = d :: ds ∧ (Symbol.ofPair? c d).isSome := by
    intro front hfront hlexeme
    obtain ⟨tail, rfl, htail⟩ := hlexeme.exists_cons hfront
    obtain ⟨s, hs⟩ := hlexeme.of_other hquote hdigit hword
    rcases Symbol.spelling_cases hs with ⟨rfl, hone⟩ | ⟨d, rfl, htwo⟩
    · exact Or.inl ⟨rfl, by simp [hone]⟩
    · obtain ⟨ds, rfl⟩ := htail
      exact Or.inr ⟨d, ds, rfl, rfl, by simp [htwo]⟩
  by_cases hpair : ∃ d ds s, cs = d :: ds ∧ Symbol.ofPair? c d = some s
  · obtain ⟨d, ds, s, rfl, hpair⟩ := hpair
    rw [symbol_of_pair hpair]
    refine .lexeme hplain rfl (lexeme_ofPair? hpair) ?_
    intro front hfront hlexeme
    rcases hfronts front hfront hlexeme with ⟨rfl, -⟩ | ⟨d', ds', rfl, -, -⟩ <;> simp
  · have hnone : ∀ d rest, cs = d :: rest → Symbol.ofPair? c d = none := by
      intro d rest hcs
      cases htwo : Symbol.ofPair? c d with
      | none => rfl
      | some s => exact absurd ⟨d, rest, s, hcs, htwo⟩ hpair
    rw [symbol_of_none cs hnone]
    refine single_firstTile hplain ?_
    intro front hfront hlexeme
    rcases hfronts front hfront hlexeme with hone | ⟨d, ds, -, hcs, htwo⟩
    · exact hone
    · simp [hnone d ds hcs] at htwo

/-- The first tile follows the rule. -/
theorem first_firstTile (c : Char) (cs : List Char) :
    FirstTile (c :: cs) (first c cs).1 (first c cs).2 := by
  by_cases hspace : isSpace c
  · rw [first_space cs hspace]
    exact .space rfl (isSpace_iff.mp hspace)
  by_cases hhash : c = '#'
  · subst hhash
    exact lineComment_firstTile cs
  by_cases hquote : c = '"'
  · subst hquote
    exact quoted_firstTile cs
  by_cases hdigit : c.isDigit
  · rw [first_digit cs hdigit]
    exact numeral_firstTile hdigit cs
  by_cases hword : isWordStart c
  · rw [first_wordStart cs hword]
    exact word_firstTile hword cs
  by_cases hopen : ['/', '*'] <+: c :: cs
  · obtain ⟨rest, heq⟩ := hopen
    obtain ⟨rfl, rfl⟩ := List.cons.inj heq
    exact blockComment_firstTile rest
  · rw [Bool.not_eq_true] at hspace hdigit hword
    rw [first_other cs hspace hhash hquote hdigit hword hopen]
    exact symbol_firstTile hspace hhash hquote hdigit hword hopen

end Tile

/-! ### The rule leaves no choice -/

/-- In a plain text the rule asks for the longest lexeme, or for a stray
character if there is no lexeme. -/
theorem FirstTile.plain_cases {source rest : List Char} {t : Tile} (hplain : Plain source)
    (h : FirstTile source t rest) :
    source = t.text ++ rest ∧
      ((∃ kind literal, t.reading = .token kind literal ∧ Lexeme t.text kind literal ∧
          ∀ front, front <+: source → IsLexeme front → front.length ≤ t.text.length) ∨
        ∃ c, t = ⟨[c], .fault (.unexpectedCharacter c)⟩ ∧
          ∀ front, front <+: source → ¬ IsLexeme front) := by
  cases h with
  | space hsplit hspace => exact absurd hspace (hplain.noSpace _ _ hsplit).1
  | lineComment hsplit => exact absurd rfl (hplain.noSpace _ _ hsplit).2
  | blockComment hsplit hcomplete =>
      exact absurd (hcomplete.1.trans ⟨_, hsplit.symm⟩) hplain.noOpening
  | openComment hopen => exact absurd hopen hplain.noOpening
  | openString hsplit hbody => exact absurd (hplain.closed _ hsplit) hbody
  | lexeme _ hsplit hlexeme hlongest =>
      exact ⟨hsplit, Or.inl ⟨_, _, rfl, hlexeme, hlongest⟩⟩
  | stray _ hsplit hnone => exact ⟨hsplit, Or.inr ⟨_, rfl, hnone⟩⟩

/-- Two tiles that follow the rule in a plain text are the same. -/
theorem FirstTile.plain_unique {source rest rest' : List Char} {t t' : Tile}
    (hplain : Plain source) (h : FirstTile source t rest) (h' : FirstTile source t' rest') :
    (t, rest) = (t', rest') := by
  obtain ⟨hsplit, hcases⟩ := h.plain_cases hplain
  obtain ⟨hsplit', hcases'⟩ := h'.plain_cases hplain
  have hfront : t.text <+: source := ⟨rest, hsplit.symm⟩
  have hfront' : t'.text <+: source := ⟨rest', hsplit'.symm⟩
  have hrest : t = t' → (t, rest) = (t', rest') := by
    intro heq
    subst heq
    rw [List.append_cancel_left (hsplit.symm.trans hsplit')]
  rcases hcases with ⟨kind, literal, hreading, hlexeme, hlongest⟩ | ⟨c, rfl, hnone⟩
  · rcases hcases' with ⟨kind', literal', hreading', hlexeme', hlongest'⟩ | ⟨c', rfl, hnone'⟩
    · have hle := hlongest t'.text hfront' ⟨kind', literal', hlexeme'⟩
      have hle' := hlongest' t.text hfront ⟨kind, literal, hlexeme⟩
      have htext : t.text = t'.text :=
        (List.prefix_of_prefix_length_le hfront hfront' hle').eq_of_length
          (Nat.le_antisymm hle' hle)
      obtain ⟨rfl, rfl⟩ := hlexeme.unique (htext ▸ hlexeme')
      apply hrest
      cases t; cases t'
      simp_all
    · exact absurd ⟨kind, literal, hlexeme⟩ (hnone' t.text hfront)
  · rcases hcases' with ⟨kind', literal', -, hlexeme', -⟩ | ⟨c', rfl, -⟩
    · exact absurd ⟨kind', literal', hlexeme'⟩ (hnone t'.text hfront')
    · obtain ⟨rfl, -⟩ := List.cons.inj (hsplit.symm.trans hsplit')
      exact hrest rfl

/-- `Tile.first` reads the tile that the rule asks for, and no other tile
follows the rule. -/
theorem firstTile_iff {c : Char} {cs rest : List Char} {t : Tile} :
    FirstTile (c :: cs) t rest ↔ Tile.first c cs = (t, rest) := by
  constructor
  · intro h
    have hread := Tile.first_firstTile c cs
    cases h with
    | space hsplit hspace =>
        cases hsplit
        exact Tile.first_space cs (isSpace_iff.mpr hspace)
    | lineComment hsplit hbody hrest =>
        obtain ⟨rfl, rfl⟩ := List.cons.inj hsplit
        exact Tile.lineComment_append hbody hrest
    | blockComment hsplit hcomplete =>
        obtain ⟨body, rfl⟩ := hcomplete.1
        obtain ⟨rfl, rfl⟩ := List.cons.inj hsplit
        exact Tile.blockComment_append hcomplete rest
    | openComment hopen hnever =>
        obtain ⟨body, heq⟩ := hopen
        obtain ⟨rfl, rfl⟩ := List.cons.inj heq
        exact Tile.blockComment_open hnever
    | openString hsplit hbody =>
        cases hsplit
        exact Tile.quoted_open hbody
    | lexeme hplain hsplit hlexeme hlongest =>
        exact hread.plain_unique hplain (.lexeme hplain hsplit hlexeme hlongest)
    | stray hplain hsplit hnone =>
        exact hread.plain_unique hplain (.stray hplain hsplit hnone)
  · intro h
    have hread := Tile.first_firstTile c cs
    rwa [h] at hread

/-- A lexeme that ends there is the first tile. -/
theorem Lexeme.firstTile {text rest : List Char} {kind : Kind} {literal : Option Literal}
    (h : Lexeme text kind literal)
    (hends : (Tile.mk text (.token kind literal)).EndsBefore rest) :
    FirstTile (text ++ rest) ⟨text, .token kind literal⟩ rest := by
  obtain ⟨c, cs, rfl⟩ := List.exists_cons_of_ne_nil h.ne_nil
  exact firstTile_iff.mpr (h.first_append hends)

theorem FirstTile.exists_cons {source rest : List Char} {t : Tile} (h : FirstTile source t rest) :
    ∃ c cs, source = c :: cs := by
  apply List.exists_cons_of_ne_nil
  intro heq
  subst heq
  cases h with
  | space hsplit => cases hsplit
  | lineComment hsplit => cases hsplit
  | blockComment hsplit hcomplete =>
      obtain ⟨body, rfl⟩ := hcomplete.1
      cases hsplit
  | openComment hopen => simp at hopen
  | openString hsplit => cases hsplit
  | lexeme _ hsplit hlexeme => exact hlexeme.ne_nil (List.append_eq_nil_iff.mp hsplit.symm).1
  | stray _ hsplit => cases hsplit

/-- The first tile is the first of the tiles, and the others are those of what it leaves. -/
theorem tilesOf_of_firstTile {source rest : List Char} {t : Tile} (h : FirstTile source t rest) :
    tilesOf source = t :: tilesOf rest := by
  obtain ⟨c, cs, rfl⟩ := h.exists_cons
  rw [tilesOf, firstTile_iff.mp h]

/-- A text has one tiling, the tiles that are read off it one after the other. -/
theorem tiling_iff {source : List Char} {tiles : List Tile} :
    Tiling source tiles ↔ tiles = tilesOf source := by
  constructor
  · intro h
    induction h with
    | nil => rw [tilesOf]
    | cons hfirst _ ih => rw [tilesOf_of_firstTile hfirst, ih]
  · intro heq
    subst heq
    fun_induction tilesOf source with
    | case1 => exact .nil
    | case2 c cs ih => exact .cons (Tile.first_firstTile c cs) ih

/-! ### Scans -/

/-- What an item says, apart from its line. -/
inductive Finding where
  | token (kind : Kind) (lexeme : List Char) (literal : Option Literal)
  | fault (fault : Fault)
deriving DecidableEq, Repr

def Item.finding : Item → Finding
  | .token t => .token t.kind t.lexeme t.literal
  | .error e => .fault e.fault

/-- What a tile stands for in a list of items, if it is no blank. -/
def Tile.finding? (t : Tile) : Option Finding :=
  match t.reading with
  | .blank => none
  | .token kind literal => some (.token kind t.text literal)
  | .fault fault => some (.fault fault)

/-- Apart from the line, the item of a tile is a matter of the tile alone. -/
theorem Tile.map_finding_item? (t : Tile) (line : Nat) :
    (t.item? line).map Item.finding = t.finding? := by
  rcases t with ⟨text, _ | _ | _⟩ <;> rfl

/-- Lines aside, the items of a row of tiles are what the tiles stand for. -/
theorem map_finding_itemsOf (line : Nat) (tiles : List Tile) :
    (itemsOf line tiles).map Item.finding = tiles.filterMap Tile.finding? := by
  induction tiles generalizing line with
  | nil => rfl
  | cons t ts ih =>
      rw [itemsOf, List.map_append, ih, ← Option.toList_map, t.map_finding_item? line]
      cases h : t.finding? <;> simp [h]

/-- **Longest match.**  A source has exactly one tiling.  Its tiles are not
empty and make up the source; the items of the source are what they stand for,
in their order; and a scan returns the tokens among these items with the end
mark behind them, and reports the errors among them. -/
theorem scan_longestMatch (source : List Char) :
    ∃ tiles, (∀ tiles', Tiling source tiles' ↔ tiles' = tiles) ∧
      (∀ t ∈ tiles, t.text ≠ []) ∧ tiles.flatMap Tile.text = source ∧
      (Cursor.start source).items.map Item.finding = tiles.filterMap Tile.finding? ∧
      (scan source).tokens = (Cursor.start source).items.filterMap Item.token? ++
        [.endOfFile (1 + newlines source)] ∧
      (scan source).sink.toList = (Cursor.start source).items.filterMap Item.error? := by
  refine ⟨tilesOf source, fun tiles' => tiling_iff, ?_, flatMap_text_tilesOf source, ?_, ?_, ?_⟩
  · intro t ht
    exact text_ne_nil_of_mem_tilesOf ht
  · rw [Cursor.items_eq]
    exact map_finding_itemsOf _ _
  · exact (Cursor.start source).tokens_scanInto Diagnostics.sink {}
  · exact (Cursor.start source).errors_scanInto {}

end LoxLexer
