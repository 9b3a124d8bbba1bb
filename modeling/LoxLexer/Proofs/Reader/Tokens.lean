import LoxLexer.Proofs.Reader.Passing

/-!
# What a reader finds

While it reads a token, a reader knows the text of the token only by the place
where that began.  `Reader.Within` is what holds then: the source is what was
before, the text taken so far and what is in front, and the two places lie
between these.  Passing over more text keeps it, so that the lexeme is cut out
of the source where the token ends.

* `Reader.dispatch_eq`: with the first character taken, a reader finds the
  first tile.  It neither breaks down nor goes on for ever.
-/

namespace LoxLexer

theorem Symbol.newlines_spelling (s : Symbol) : newlines s.spelling = 0 := by
  cases s <;> rfl

/-- The verdict that a tile stands for if it ends on `line`. -/
def Tile.verdict? (line : Nat) (t : Tile) : Option Verdict :=
  match t.reading with
  | .blank => none
  | .token kind literal => some (.ok (kind, literal))
  | .fault fault => some (.error ⟨fault, line⟩)

namespace Reader

variable {β : Type} [Lookahead β]

/-- A reader is in a token: `text` has been taken since the token began, and
`rest` is in front. -/
structure Within (r : Reader β) (before text rest : List Char) : Prop where
  source : r.source = before ++ text ++ rest
  start : r.start = Utf8.size before
  current : r.current = Utf8.size (before ++ text)
  sees : r.Sees rest

/-- Passing over more text stays in the token. -/
theorem Within.passes {r after : Reader β} {before text text' rest rest' : List Char} {lines : Nat}
    (h : r.Within before text rest) (hpass : r.Passes text' rest' lines after)
    (hsplit : rest = text' ++ rest') : after.Within before (text ++ text') rest' where
  source := by rw [hpass.source, h.source, hsplit]; simp
  start := hpass.start.trans h.start
  current := by rw [hpass.current, h.current, ← Utf8.size_append, List.append_assoc]
  sees := hpass.sees

/-- The lexeme of a token is what has been taken since it began. -/
theorem Within.lexeme_eq {r : Reader β} {before text rest : List Char}
    (h : r.Within before text rest) : r.lexeme = Part.some text := by
  rw [lexeme, h.start, h.current, h.source, slice?_size_append before text rest]
  rfl

/-- What comes of reading is the tile of a split, if the token began behind
`before`: the verdict is that of the tile, and the reader is behind it, with its
line ends counted. -/
def Finds (r : Reader β) (before : List Char) (split : Tile × List Char)
    (result : Part (Option Verdict × Reader β)) : Prop :=
  ∃ after, result = Part.some (split.1.verdict? after.line, after) ∧
    after.Within before split.1.text split.2 ∧
    after.startLine = r.startLine ∧ after.line = r.line + newlines split.1.text

/-- What has been passed over is found, if reading it comes to the verdict of its tile. -/
theorem Finds.of_passes {r after : Reader β} {before cs text rest : List Char} {c : Char}
    {reading : Reading} {lines : Nat} {result : Part (Option Verdict × Reader β)}
    (h : r.Within before [c] cs) (hpass : r.Passes text rest lines after)
    (hsplit : cs = text ++ rest) (hlines : lines = newlines (c :: text))
    (hresult : result = Part.some ((Tile.mk (c :: text) reading).verdict? after.line, after)) :
    r.Finds before (⟨c :: text, reading⟩, rest) result :=
  ⟨after, hresult, h.passes hpass hsplit, hpass.startLine, hlines ▸ hpass.line⟩

/-- Looking ahead changes nothing of what is found. -/
theorem Finds.of_looked {r looked : Reader β} {before cs : List Char} {split : Tile × List Char}
    {result : Part (Option Verdict × Reader β)} (hlook : r.Passes [] cs 0 looked)
    (h : looked.Finds before split result) : r.Finds before split result := by
  obtain ⟨after, hresult, hwithin, hstart, hline⟩ := h
  refine ⟨after, hresult, hwithin, hstart.trans hlook.startLine, ?_⟩
  rw [hline, hlook.line, Nat.add_zero]

section Finds

variable {r : Reader β} {before cs : List Char} {c : Char}

/-- Reading up to the line end finds a comment. -/
theorem finds_lineComment (h : r.Within before ['#'] cs) :
    r.Finds before (Tile.lineComment cs) (do return (none, ← r.advanceUntil (· == '\n'))) := by
  obtain ⟨after, hloop, hpass⟩ := advanceUntil_eq h.sees (· == '\n')
  refine .of_passes h hpass List.takeWhile_append_dropWhile.symm ?_ ?_
  · exact (newlines_cons_of_ne (by decide) _).symm
  · simp only [hloop, Part.bind_eq_bind, Part.bind_some, Part.pure_eq_some]
    rfl

/-- Reading a word finds its tile. -/
theorem finds_word (h : r.Within before [c] cs) (hc : isWordStart c) :
    r.Finds before (Tile.word c cs)
      (do let (verdict, r) ← r.word; return (some verdict, r)) := by
  obtain ⟨after, hloop, hpass⟩ := advanceUntil_eq h.sees (!isWordPart ·)
  simp only [Bool.not_not] at hpass
  have hsplit := (List.takeWhile_append_dropWhile (p := isWordPart) (l := cs)).symm
  have hlexeme := (h.passes hpass hsplit).lexeme_eq
  have hnewline := ne_newline_of_isSpace (class_of_isWordStart hc).1
  refine .of_passes h hpass hsplit (newlines_cons_of_ne hnewline _).symm ?_
  simp only [word, hloop, Part.bind_eq_bind, Part.bind_some, Part.pure_eq_some, hlexeme]
  rfl

/-- The contents of a string are what stands between its quotes. -/
theorem slice?_quoted (contents : List Char) :
    slice? 1 (Utf8.size ('"' :: contents ++ ['"']) - 1) ('"' :: contents ++ ['"']) =
      some contents := by
  have hsize : Utf8.size ('"' :: contents ++ ['"']) - 1 = Utf8.size (['"'] ++ contents) := by
    rw [Utf8.size_append]
    rfl
  rw [hsize]
  exact slice?_size_append ['"'] contents ['"']

/-- Reading a string finds its tile, be it closed or open. -/
theorem finds_quoted (h : r.Within before ['"'] cs) :
    r.Finds before (Tile.quoted cs)
      (do let (verdict, r) ← r.quoted; return (some verdict, r)) := by
  by_cases hclosed : '"' ∈ cs
  · obtain ⟨contents, rest, rfl, hcontents⟩ := List.eq_append_cons_of_mem hclosed
    obtain ⟨looped, hloop, hpass⟩ := advanceUntil_run h.sees hcontents (Or.inr ⟨rest, rfl⟩)
    obtain ⟨after, hadvance, hpass'⟩ := advance_cons hpass.sees
    have hstring := hpass.trans hpass'
    have hsplit : contents ++ '"' :: rest = (contents ++ ['"']) ++ rest := by simp
    have hlexeme := (h.passes hstring hsplit).lexeme_eq
    have hcontents' := slice?_quoted contents
    rw [Tile.quoted_append hcontents, List.cons_append]
    refine .of_passes h hstring hsplit ?_ ?_
    · rw [newlines_cons_of_ne (by decide), newlines_append]
      rfl
    · rw [List.cons_append] at hcontents'
      simp only [quoted, hloop, hadvance, hlexeme, List.singleton_append, hcontents',
        Part.coe_some, Part.bind_eq_bind, Part.bind_some, Part.pure_eq_some]
      rfl
  · have hsees : r.Sees (cs ++ []) := by simpa using h.sees
    obtain ⟨looped, hloop, hpass⟩ := advanceUntil_run hsees hclosed (Or.inl rfl)
    obtain ⟨after, hadvance, hpass'⟩ := advance_nil hpass.sees
    have hstring := hpass.trans hpass'
    rw [List.append_nil] at hstring
    rw [Tile.quoted_open hclosed]
    refine .of_passes h hstring (List.append_nil cs).symm ?_ ?_
    · exact (newlines_cons_of_ne (by decide) _).symm
    · simp only [quoted, hloop, Part.bind_eq_bind, Part.bind_some, Part.pure_eq_some, hadvance]
      rfl

/-- Digits are read as a number. -/
theorem parseNumeral?_whole {digits : List Char} (h : IsDigits digits) :
    parseNumeral? digits = some (.ofNumeral digits []) := by
  have htake := List.takeWhile_eq_self_iff.mpr h.2
  have hdrop := List.dropWhile_eq_nil_iff.mpr h.2
  simp [parseNumeral?, htake, hdrop, h.1]

theorem parseNumeral?_fraction {digits places : List Char} (h : IsDigits digits)
    (hplaces : IsDigits places) :
    parseNumeral? (digits ++ '.' :: places) = some (.ofNumeral digits places) := by
  have htake : (digits ++ '.' :: places).takeWhile Char.isDigit = digits := by
    rw [List.takeWhile_append_of_pos h.2]
    simp
  have hdrop : (digits ++ '.' :: places).dropWhile Char.isDigit = '.' :: places := by
    rw [List.dropWhile_append_of_pos h.2]
    simp
  have hall : places.all Char.isDigit = true := List.all_eq_true.mpr hplaces.2
  simp [parseNumeral?, htake, hdrop, hall, h.1]

/-- There are places behind a point just if the next character is a digit. -/
theorem any_isDigit_iff {rest : List Char} :
    rest[0]?.any Char.isDigit = true ↔ rest.takeWhile Char.isDigit ≠ [] := by
  cases rest with
  | nil => simp
  | cons d ds => simp [List.takeWhile_cons]

/-- A point with places behind it is taken together with them. -/
theorem fraction_of_digits {rest : List Char} (h : r.Sees ('.' :: rest))
    (hplaces : rest.takeWhile Char.isDigit ≠ []) :
    ∃ after, r.fraction = Part.some after ∧
      r.Passes ('.' :: rest.takeWhile Char.isDigit) (rest.dropWhile Char.isDigit)
        (newlines (rest.takeWhile Char.isDigit)) after := by
  obtain ⟨looked, hlook, hpass⟩ := peek_eq h 0
  obtain ⟨looked', hlook', hpass'⟩ := peek_eq hpass.sees 1
  obtain ⟨taken, hadvance, hpoint⟩ := advance_cons hpass'.sees
  obtain ⟨after, hloop, hdigits⟩ := advanceUntil_eq hpoint.sees (!·.isDigit)
  simp only [Bool.not_not] at hdigits
  refine ⟨after, ?_, ?_⟩
  · simp [fraction, hlook, hlook', any_isDigit_iff.mpr hplaces, hadvance, hloop]
  · simpa using ((hpass.trans hpass').trans hpoint).trans hdigits

/-- A point without places is left where it is. -/
theorem fraction_of_none {rest : List Char} (h : r.Sees rest)
    (hnone : ∀ more, rest = '.' :: more → more.takeWhile Char.isDigit = []) :
    ∃ after, r.fraction = Part.some after ∧ r.Passes [] rest 0 after := by
  obtain ⟨looked, hlook, hpass⟩ := peek_eq h 0
  by_cases hpoint : rest.head? = some '.'
  · obtain ⟨more, rfl⟩ := List.head?_eq_some_iff.mp hpoint
    obtain ⟨looked', hlook', hpass'⟩ := peek_eq hpass.sees 1
    have hdigit : ¬ more[0]?.any Char.isDigit = true := by
      rw [any_isDigit_iff, hnone more rfl]
      simp
    refine ⟨looked', ?_, hpass.trans hpass'⟩
    simp [fraction, hlook, hlook', hdigit]
  · rw [List.head?_eq_getElem?] at hpoint
    refine ⟨looked, ?_, hpass⟩
    simp only [fraction, hlook, if_neg hpoint, Part.pure_eq_some]

/-- A numeral is read as soon as its text is known to be one. -/
theorem finds_of_numeral {text rest : List Char} {lines : Nat} {number : Binary64}
    {taken after : Reader β} (h : r.Within before [c] cs) (hc : c.isDigit)
    (hloop : r.advanceUntil (!·.isDigit) = Part.some taken)
    (hfraction : taken.fraction = Part.some after)
    (hpass : r.Passes text rest lines after) (hsplit : cs = text ++ rest)
    (hlines : lines = newlines text) (hnumber : parseNumeral? (c :: text) = some number) :
    r.Finds before (⟨c :: text, .token .number (some (.number number))⟩, rest)
      (do let (verdict, r) ← r.numeral; return (some verdict, r)) := by
  have hnewline := ne_newline_of_isSpace (class_of_isDigit hc).1
  have hlexeme := (h.passes hpass hsplit).lexeme_eq
  rw [List.singleton_append] at hlexeme
  refine .of_passes h hpass hsplit ?_ ?_
  · rw [hlines, newlines_cons_of_ne hnewline]
  · simp only [numeral, hloop, hfraction, hlexeme, hnumber, Part.bind_eq_bind, Part.bind_some,
      Part.pure_eq_some]
    rfl

/-- Reading a numeral finds its tile. -/
theorem finds_numeral (h : r.Within before [c] cs) (hc : c.isDigit) :
    r.Finds before (Tile.numeral c cs)
      (do let (verdict, r) ← r.numeral; return (some verdict, r)) := by
  have hsplit := (List.takeWhile_append_dropWhile (p := Char.isDigit) (l := cs)).symm
  obtain ⟨taken, hloop, hdigits⟩ := advanceUntil_eq h.sees (!·.isDigit)
  simp only [Bool.not_not] at hdigits
  rcases point_cases cs with ⟨rest, hpoint, hplaces⟩ | hnone
  · rw [hpoint] at hdigits
    obtain ⟨after, hfraction, hpass⟩ := fraction_of_digits hdigits.sees hplaces
    rw [Tile.numeral_fraction c hpoint hplaces, List.cons_append]
    have hplaces' : IsDigits (rest.takeWhile Char.isDigit) :=
      ⟨hplaces, fun _ hd => List.mem_takeWhile_imp hd⟩
    refine finds_of_numeral h hc hloop hfraction (hdigits.trans hpass) ?_ ?_ ?_
    · rw [List.append_assoc, List.cons_append, List.takeWhile_append_dropWhile, ← hpoint]
      exact hsplit
    · rw [newlines_append, newlines_cons_of_ne (by decide)]
    · exact parseNumeral?_fraction (isDigits_run hc cs) hplaces'
  · obtain ⟨after, hfraction, hpass⟩ := fraction_of_none hdigits.sees hnone
    rw [Tile.numeral_whole c hnone]
    refine finds_of_numeral h hc hloop hfraction (by simpa using hdigits.trans hpass) hsplit rfl ?_
    exact parseNumeral?_whole (isDigits_run hc cs)

/-- A symbol that no longer one begins with. -/
theorem finds_symbol {s : Symbol} (h : r.Within before [c] cs) (hchar : Symbol.ofChar? c = some s)
    (hpair : ∀ d rest, cs = d :: rest → Symbol.ofPair? c d = none) :
    r.Finds before (Tile.symbol c cs) (r.symbol s) := by
  have hlines : 0 = newlines [c] := by
    rw [← Symbol.spelling_of_ofChar? hchar, Symbol.newlines_spelling]
  rw [Tile.symbol_of_none cs hpair, Tile.single_of_char cs hchar]
  exact .of_passes h (.refl h.sees) rfl hlines rfl

/-- Reading the longer or the shorter of two symbols finds the one that is there. -/
theorem finds_either {d : Char} {long short : Symbol} (h : r.Within before [c] cs)
    (hlong : Symbol.ofPair? c d = some long) (hshort : Symbol.ofChar? c = some short) :
    r.Finds before (Tile.symbol c cs) (r.either d long short) := by
  by_cases hd : cs.head? = some d
  · obtain ⟨rest, rfl⟩ := List.head?_eq_some_iff.mp hd
    obtain ⟨after, hnext, hpass⟩ := nextIs_cons h.sees
    have hlines : 0 = newlines [c, d] := by
      rw [← Symbol.spelling_of_ofPair? hlong, Symbol.newlines_spelling]
    rw [Tile.symbol_of_pair hlong]
    refine .of_passes h hpass rfl hlines ?_
    rw [either, hnext]
    rfl
  -- The character behind `c` has been looked at and is still in front.
  · obtain ⟨looked, hnext, hpass⟩ := nextIs_of_ne h.sees hd
    have hpair : ∀ e rest, cs = e :: rest → Symbol.ofPair? c e = none := by
      intro e rest heq
      subst heq
      exact Symbol.ofPair?_of_ne hlong fun heq => hd (congrArg some heq)
    have hfinds := finds_symbol (h.passes hpass rfl) hshort hpair
    rw [either, hnext]
    exact .of_looked hpass hfinds

/-- Passing over a block comment finds its tile, be it closed or open. -/
theorem finds_blockComment {taken : Reader β} (h : r.Within before ['/'] ('*' :: cs))
    (hpass : r.Passes ['*'] cs 0 taken) :
    r.Finds before (Tile.blockComment cs) (do
      match ← taken.skipBlock 1 with
      | (.ok (), r) => return (none, r)
      | (.error e, r) => return (some (.error e), r)) := by
  obtain ⟨verdict, text, rest, after, hskip, rfl, hpass', hverdict⟩ := skipsBlock hpass.sees 1
  have hlines : 0 + newlines text = newlines ('/' :: '*' :: text) := by
    rw [newlines_cons_of_ne (by decide), newlines_cons_of_ne (by decide), Nat.zero_add]
  have hall := hpass.trans hpass'
  rw [hskip, Part.bind_eq_bind, Part.bind_some]
  rcases hverdict with ⟨hblock, rfl⟩ | ⟨hblock, rfl, rfl⟩
  · have htake : (text ++ rest).take ((text ++ rest).length - rest.length) = text := by simp
    rw [Tile.blockComment, hblock]
    dsimp only
    rw [htake]
    exact .of_passes h hall rfl hlines rfl
  · rw [Tile.blockComment, hblock]
    simp only [List.append_nil]
    exact .of_passes h hall (by simp) hlines rfl

/-- Reading on behind a slash finds a comment, a division or a floor division. -/
theorem finds_slash (h : r.Within before ['/'] cs) :
    r.Finds before (Tile.first '/' cs) r.slash := by
  by_cases hstar : cs.head? = some '*'
  · obtain ⟨rest, rfl⟩ := List.head?_eq_some_iff.mp hstar
    obtain ⟨taken, hnext, hpass⟩ := nextIs_cons h.sees
    rw [slash, hnext, Tile.first_opening]
    exact finds_blockComment h hpass
  · obtain ⟨looked, hnext, hpass⟩ := nextIs_of_ne h.sees hstar
    have hopen : ¬ ['/', '*'] <+: '/' :: cs := by
      intro hfront
      obtain ⟨rest, heq⟩ := hfront
      cases heq
      exact hstar rfl
    rw [slash, hnext, Tile.first_other cs rfl (by decide) (by decide) rfl rfl hopen]
    exact .of_looked hpass (finds_either (h.passes hpass rfl) rfl rfl)

/-- Reading on behind a character that settles nothing finds a numeral, a word or a stray
character. -/
theorem finds_ordinary (h : r.Within before [c] cs) (hspace : isSpace c = false)
    (hhash : c ≠ '#') (hquote : c ≠ '"') (hchar : Symbol.ofChar? c = none) :
    r.Finds before (Tile.first c cs) (r.ordinary c) := by
  unfold ordinary
  split
  · next hdigit =>
      rw [Tile.first_digit cs hdigit]
      exact finds_numeral h hdigit
  split
  · next hdigit hword =>
      rw [Tile.first_wordStart cs hword]
      exact finds_word h hword
  · next hdigit hword =>
      have hslash : c ≠ '/' := by
        intro heq
        subst heq
        cases hchar
      rw [Bool.not_eq_true] at hdigit hword
      rw [Tile.first_other cs hspace hhash hquote hdigit hword (Tile.not_opening_of_ne hslash),
        Tile.symbol_of_none cs fun d _ _ => Symbol.ofPair?_of_none hchar d,
        Tile.single_of_none cs hchar]
      have hlines := newlines_cons_of_ne (ne_newline_of_isSpace hspace) []
      exact .of_passes h (.refl h.sees) rfl hlines.symm rfl

end Finds

/-- What begins with a character is the first tile. -/
theorem dispatch_eq {r : Reader β} {before cs : List Char} {c : Char}
    (h : r.Within before [c] cs) : r.Finds before (Tile.first c cs) (r.dispatch c) := by
  fun_cases dispatch c r with
  -- The symbols that no longer one begins with, and then those that one may begin with.
  | case1 | case2 | case3 | case4 | case5 | case6 | case7 | case8 | case9 | case10 =>
      exact finds_symbol h rfl fun _ _ _ => rfl
  | case11 | case13 | case14 | case15 | case16 => exact finds_either h rfl rfl
  | case12 => exact finds_slash h
  | case17 => exact finds_lineComment h
  -- White space; only the newline is counted.
  | case18 | case19 | case20 => exact .of_passes h (.refl h.sees) rfl rfl rfl
  | case21 =>
      have hline : r.Passes [] cs 1 (r.countLine '\n') := ⟨rfl, rfl, rfl, rfl, rfl, h.sees⟩
      exact .of_passes h hline rfl rfl rfl
  | case22 => exact finds_quoted h
  | case23 =>
      have hchar : Symbol.ofChar? c = none := by
        unfold Symbol.ofChar?
        split <;> first | rfl | contradiction
      exact finds_ordinary h (by simp_all [isSpace]) ‹_› ‹_› hchar

end Reader

end LoxLexer
