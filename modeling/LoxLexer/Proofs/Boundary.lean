import LoxLexer.Proofs.Lexeme

/-!
# Where tiles end

What a tile is can be told from its own text.  What stands behind it has one
thing to say only, which is whether the tile ends there, and it says so with
its first two characters: the first one must not be a character that the tile
would take in, and where the tile is a numeral without a point, the two must
not be a point and a digit.

* `Tile.EndsBefore`: a tile ends where some text begins.
* `Lexeme.first_append`: a lexeme that ends there is read whole, as what the
  grammar says it is.
* `Lexeme.unique`: hence the text alone settles the kind and the value.
* `Lexeme.endsBefore`: the longest lexeme that a text begins with ends there.
-/

namespace LoxLexer

/-- The character makes a longer symbol of this one, or an opening mark. -/
def Symbol.takes : Symbol → Char → Bool
  | .star, '*' => true
  | .slash, '/' => true
  | .slash, '*' => true
  | .bang, '=' => true
  | .equal, '=' => true
  | .less, '=' => true
  | .greater, '=' => true
  | _, _ => false

/-- White space makes no symbol longer. -/
theorem Symbol.takes_of_isSpace {s : Symbol} {d : Char} (h : isSpace d) : s.takes d = false := by
  unfold takes
  split <;> first | rfl | cases h

/-- The character would belong to the tile if it came right behind it. What is
left open at the end of a source takes in everything. -/
def Tile.takes (t : Tile) (d : Char) : Bool :=
  match t.reading with
  | .blank => t.text.head? == some '#' && d != '\n'
  | .token (.symbol s) _ => s.takes d
  | .token (.keyword _) _ => isWordPart d
  | .token .identifier _ => isWordPart d
  | .token .number _ => d.isDigit
  | .token .string _ => false
  | .token .endOfFile _ => false
  | .fault .unterminatedString => true
  | .fault .unterminatedBlockComment => true
  | .fault (.unexpectedCharacter _) => false
  | .fault (.invalidNumber _) => false

/-- The tile is a numeral that has no point yet. -/
def Tile.isWhole (t : Tile) : Bool :=
  match t.reading with
  | .token .number _ => !t.text.contains '.'
  | _ => false

/-- The tile ends where `rest` begins. -/
structure Tile.EndsBefore (t : Tile) (rest : List Char) : Prop where
  stops : ∀ d more, rest = d :: more → t.takes d = false
  noPlaces : t.isWhole → ∀ d more, rest = '.' :: d :: more → d.isDigit = false

theorem Tile.endsBefore_nil (t : Tile) : t.EndsBefore [] where
  stops _ _ h := by cases h
  noPlaces _ _ _ h := by cases h

/-- No token takes in white space. -/
theorem Tile.takes_token_of_isSpace {text : List Char} {kind : Kind} {literal : Option Literal}
    {d : Char} (h : isSpace d) : (Tile.mk text (.token kind literal)).takes d = false := by
  obtain ⟨-, -, hdigit, hword, -⟩ := class_of_isSpace h
  have hpart : isWordPart d = false := by rw [isWordPart, hword, hdigit]; rfl
  cases kind with
  | symbol s => exact s.takes_of_isSpace h
  | keyword => exact hpart
  | identifier => exact hpart
  | number => exact hdigit
  | string => rfl
  | endOfFile => rfl

/-- A token ends before white space. -/
theorem Tile.endsBefore_of_isSpace {text : List Char} {kind : Kind} {literal : Option Literal}
    {d : Char} (h : isSpace d) (more : List Char) :
    (Tile.mk text (.token kind literal)).EndsBefore (d :: more) := by
  constructor
  · intro e more' heq
    obtain ⟨rfl, -⟩ := List.cons.inj heq
    exact takes_token_of_isSpace h
  · intro _ e more' heq
    obtain ⟨rfl, -⟩ := List.cons.inj heq
    cases h

/-! ### A lexeme that ends is read -/

/-- A character that does not make a symbol longer makes no pair with it. -/
theorem Symbol.ofPair?_of_takes {s : Symbol} {c d : Char} (hchar : ofChar? c = some s)
    (hstop : s.takes d = false) : ofPair? c d = none := by
  cases hpair : ofPair? c d with
  | none => rfl
  | some long =>
      unfold ofPair? at hpair
      split at hpair <;> cases hpair <;> cases hchar <;> cases hstop

/-- No opening mark begins with a symbol that ends there. -/
theorem Symbol.not_opening {s : Symbol} {rest : List Char}
    (hstop : ∀ d more, rest = d :: more → s.takes d = false) :
    ¬ ['/', '*'] <+: s.spelling ++ rest := by
  intro hopen
  obtain ⟨more, heq⟩ := hopen
  cases s <;> cases heq
  -- Only the slash is left, with a star behind it.
  cases hstop '*' more rfl

/-- A symbol is read as a whole in front of what does not make it longer. -/
theorem Symbol.first_append {s : Symbol} {c : Char} {cs rest : List Char}
    (h : s.spelling = c :: cs) (hstop : ∀ d more, rest = d :: more → s.takes d = false) :
    Tile.first c (cs ++ rest) = (⟨c :: cs, .token (.symbol s) none⟩, rest) := by
  obtain ⟨hspace, hhash, hquote, hdigit, hword⟩ := class_of_spelling h
  have hopen : ¬ ['/', '*'] <+: c :: (cs ++ rest) := by
    have hnot := not_opening hstop
    rwa [h, List.cons_append] at hnot
  rw [Tile.first_other _ hspace hhash hquote hdigit hword hopen]
  rcases spelling_cases h with ⟨rfl, hchar⟩ | ⟨d, rfl, hpair⟩
  · rw [List.nil_append,
      Tile.symbol_of_none _ fun d more heq => ofPair?_of_takes hchar (hstop d more heq),
      Tile.single_of_char _ hchar]
  · exact Tile.symbol_of_pair hpair rest

/-- There is no point in a text of digits. -/
theorem IsDigits.not_mem_point {text : List Char} (h : IsDigits text) : '.' ∉ text := by
  intro hmem
  exact absurd (h.2 '.' hmem) (by decide)

/-- A word is read as a whole in front of what is no part of words. -/
theorem IsWord.first_append {c : Char} {cs rest : List Char} (h : IsWord (c :: cs))
    (hstop : ∀ d more, rest = d :: more → isWordPart d = false) :
    Tile.first c (cs ++ rest) = (⟨c :: cs, .token (.ofWord (c :: cs)) none⟩, rest) := by
  obtain ⟨_, _, heq, hstart, hparts⟩ := h
  cases heq
  obtain ⟨htake, hdrop⟩ := run_of_stop hparts hstop
  rw [Tile.first_wordStart _ hstart, Tile.word, htake, hdrop]

/-- Digits are read as a numeral in front of what is neither a digit nor places. -/
theorem IsDigits.first_append {c : Char} {cs rest : List Char} (h : IsDigits (c :: cs))
    (hstop : ∀ d more, rest = d :: more → d.isDigit = false)
    (hplaces : ∀ d more, rest = '.' :: d :: more → d.isDigit = false) :
    Tile.first c (cs ++ rest) =
      (⟨c :: cs, .token .number (some (.number (.ofNumeral (c :: cs) [])))⟩, rest) := by
  obtain ⟨hc, hcs⟩ := List.forall_mem_cons.mp h.2
  obtain ⟨htake, hdrop⟩ := run_of_stop hcs hstop
  rw [Tile.first_digit _ hc, Tile.numeral_whole c, htake, hdrop]
  intro more heq
  rw [hdrop] at heq
  cases more with
  | nil => rfl
  | cons d more => simp [hplaces d more heq]

/-- Digits with places are read as a numeral in front of what is not a digit. -/
theorem IsDigits.first_append_fraction {c : Char} {cs places rest : List Char}
    (h : IsDigits (c :: cs)) (hplaces : IsDigits places)
    (hstop : ∀ d more, rest = d :: more → d.isDigit = false) :
    Tile.first c (cs ++ '.' :: places ++ rest) =
      (⟨c :: cs ++ '.' :: places,
        .token .number (some (.number (.ofNumeral (c :: cs) places)))⟩, rest) := by
  obtain ⟨hc, hcs⟩ := List.forall_mem_cons.mp h.2
  have hpoint : ∀ d more, '.' :: (places ++ rest) = d :: more → d.isDigit = false := by
    intro d more heq
    obtain ⟨rfl, -⟩ := List.cons.inj heq
    decide
  obtain ⟨htake, hdrop⟩ := run_of_stop hcs hpoint
  obtain ⟨htake', hdrop'⟩ := run_of_stop hplaces.2 hstop
  rw [List.append_assoc, List.cons_append, Tile.first_digit _ hc,
    Tile.numeral_fraction c hdrop (by rw [htake']; exact hplaces.1), htake, htake', hdrop']

/-- A lexeme that ends there is the first tile. -/
theorem Lexeme.first_append {c : Char} {cs rest : List Char} {kind : Kind}
    {literal : Option Literal} (h : Lexeme (c :: cs) kind literal)
    (hends : (Tile.mk (c :: cs) (.token kind literal)).EndsBefore rest) :
    Tile.first c (cs ++ rest) = (⟨c :: cs, .token kind literal⟩, rest) := by
  generalize htext : c :: cs = text at h hends
  cases h with
  | symbol s =>
      rw [Symbol.first_append htext.symm hends.stops, htext]
  | keyword k =>
      have hword : IsWord (c :: cs) := htext ▸ k.isWord_spelling
      rw [hword.first_append hends.stops, htext, Kind.ofWord_spelling]
  | identifier hword hfree =>
      rw [← htext] at hword
      rw [hword.first_append hends.stops, htext, Kind.ofWord_of_free hfree]
  | @string contents hcontents =>
      rw [List.cons_append] at htext
      obtain ⟨rfl, rfl⟩ := List.cons.inj htext
      rw [List.append_assoc]
      exact Tile.quoted_append hcontents rest
  | whole hdigits =>
      subst htext
      have hwhole := hends.noPlaces (by simpa [Tile.isWhole] using hdigits.not_mem_point)
      exact hdigits.first_append hends.stops hwhole
  | @fraction digits places hdigits hplaces =>
      obtain ⟨d, ds, rfl⟩ := List.exists_cons_of_ne_nil hdigits.1
      rw [List.cons_append] at htext
      obtain ⟨rfl, rfl⟩ := List.cons.inj htext
      exact hdigits.first_append_fraction hplaces hends.stops

/-- The text of a lexeme settles its kind and its value. -/
theorem Lexeme.unique {text : List Char} {kind kind' : Kind} {literal literal' : Option Literal}
    (h : Lexeme text kind literal) (h' : Lexeme text kind' literal') :
    kind = kind' ∧ literal = literal' := by
  obtain ⟨c, cs, rfl⟩ := List.exists_cons_of_ne_nil h.ne_nil
  have hread := h.first_append (Tile.endsBefore_nil _)
  have heq := hread.symm.trans (h'.first_append (Tile.endsBefore_nil _))
  simpa using heq

/-- All characters of a word are parts of words, also the first one. -/
theorem IsWord.isPart_of_mem {text : List Char} (h : IsWord text) : ∀ d ∈ text, isWordPart d := by
  obtain ⟨c, cs, rfl, hc, hcs⟩ := h
  intro d hd
  rcases List.mem_cons.mp hd with rfl | hd
  · rw [isWordPart, hc, Bool.true_or]
  · exact hcs d hd

theorem isWordPart_of_isDigit {c : Char} (h : c.isDigit) : isWordPart c := by
  rw [isWordPart, h, Bool.or_true]

/-- A character of a lexeme is part of a word or a symbol by itself, unless the
lexeme is a string. -/
theorem Lexeme.mem_cases {text : List Char} {kind : Kind} {literal : Option Literal}
    (h : Lexeme text kind literal) (hkind : kind ≠ .string) :
    ∀ d ∈ text, isWordPart d ∨ (Symbol.ofChar? d).isSome := by
  cases h with
  | symbol s =>
      have hall : s.spelling.all (fun d => (Symbol.ofChar? d).isSome) = true := by cases s <;> rfl
      exact fun d hd => Or.inr (List.all_eq_true.mp hall d hd)
  | keyword k => exact fun d hd => Or.inl (k.isWord_spelling.isPart_of_mem d hd)
  | identifier hword _ => exact fun d hd => Or.inl (hword.isPart_of_mem d hd)
  | string => exact absurd rfl hkind
  | whole hdigits => exact fun d hd => Or.inl (isWordPart_of_isDigit (hdigits.2 d hd))
  | fraction hdigits hplaces =>
      intro d hd
      rcases List.mem_append.mp hd with hd | hd
      · exact Or.inl (isWordPart_of_isDigit (hdigits.2 d hd))
      · rcases List.mem_cons.mp hd with rfl | hd
        · exact Or.inr rfl
        · exact Or.inl (isWordPart_of_isDigit (hplaces.2 d hd))

/-- There is no white space in a lexeme, unless it is a string. -/
theorem Lexeme.isSpace_eq_false {text : List Char} {kind : Kind} {literal : Option Literal}
    (h : Lexeme text kind literal) (hkind : kind ≠ .string) : ∀ d ∈ text, isSpace d = false := by
  intro d hd
  by_contra hspace
  rw [Bool.not_eq_false] at hspace
  obtain ⟨-, -, hdigit, hword, hsymbol⟩ := class_of_isSpace hspace
  rcases h.mem_cases hkind d hd with hpart | hsome
  · simp [isWordPart, hword, hdigit] at hpart
  · rw [hsymbol] at hsome
    cases hsome

/-! ### The longest lexeme ends -/

/-- A symbol with a character that makes it longer is a symbol again, or an opening mark. -/
theorem Symbol.grows_of_takes {s : Symbol} {d : Char} (h : s.takes d) :
    IsLexeme (s.spelling ++ [d]) ∨ s.spelling ++ [d] = ['/', '*'] := by
  unfold takes at h
  split at h
  · exact Or.inl ⟨_, _, .symbol .power⟩
  · exact Or.inl ⟨_, _, .symbol .doubleSlash⟩
  · exact Or.inr rfl
  · exact Or.inl ⟨_, _, .symbol .bangEqual⟩
  · exact Or.inl ⟨_, _, .symbol .equalEqual⟩
  · exact Or.inl ⟨_, _, .symbol .lessEqual⟩
  · exact Or.inl ⟨_, _, .symbol .greaterEqual⟩
  · cases h

theorem IsWord.snoc {text : List Char} {d : Char} (h : IsWord text) (hd : isWordPart d) :
    IsWord (text ++ [d]) := by
  obtain ⟨c, cs, rfl, hc, hcs⟩ := h
  refine ⟨c, cs ++ [d], rfl, hc, ?_⟩
  intro e he
  rcases List.mem_append.mp he with he | he
  · exact hcs e he
  · rwa [List.mem_singleton.mp he]

theorem IsDigits.snoc {text : List Char} {d : Char} (h : IsDigits text) (hd : d.isDigit) :
    IsDigits (text ++ [d]) := by
  refine ⟨by simp, ?_⟩
  intro e he
  rcases List.mem_append.mp he with he | he
  · exact h.2 e he
  · rwa [List.mem_singleton.mp he]

/-- A character that a token would take in makes a longer lexeme of it, or an
opening mark. -/
theorem Lexeme.grows_of_takes {text : List Char} {kind : Kind} {literal : Option Literal}
    {d : Char} (h : Lexeme text kind literal)
    (htakes : (Tile.mk text (.token kind literal)).takes d) :
    IsLexeme (text ++ [d]) ∨ text ++ [d] = ['/', '*'] := by
  cases h with
  | symbol s => exact s.grows_of_takes htakes
  | keyword k => exact Or.inl ⟨_, _, .ofWord (k.isWord_spelling.snoc htakes)⟩
  | identifier hword _ => exact Or.inl ⟨_, _, .ofWord (hword.snoc htakes)⟩
  | string => cases htakes
  | whole hdigits => exact Or.inl ⟨_, _, .whole (hdigits.snoc htakes)⟩
  | @fraction digits places hdigits hplaces =>
      refine Or.inl ⟨.number, some (.number (.ofNumeral digits (places ++ [d]))), ?_⟩
      rw [List.append_assoc, List.cons_append]
      exact .fraction hdigits (hplaces.snoc htakes)

/-- A numeral that has no point yet is a longer one with a point and a digit. -/
theorem Lexeme.grows_of_isWhole {text : List Char} {kind : Kind} {literal : Option Literal}
    {d : Char} (h : Lexeme text kind literal)
    (hwhole : (Tile.mk text (.token kind literal)).isWhole) (hd : d.isDigit) :
    IsLexeme (text ++ ['.', d]) := by
  cases h with
  | whole hdigits =>
      exact ⟨_, _, .fraction hdigits ⟨List.cons_ne_nil d [], by simpa using hd⟩⟩
  | fraction => simp [Tile.isWhole] at hwhole
  | _ => cases hwhole

/-- A lexeme that is the longest one in front ends there. -/
theorem Lexeme.endsBefore {text rest : List Char} {kind : Kind} {literal : Option Literal}
    (h : Lexeme text kind literal) (hopen : ¬ ['/', '*'] <+: text ++ rest)
    (hlongest : ∀ front, front <+: text ++ rest → IsLexeme front → front.length ≤ text.length) :
    (Tile.mk text (.token kind literal)).EndsBefore rest := by
  constructor
  · intro d more hrest
    subst hrest
    have hfront : text ++ [d] <+: text ++ d :: more := ⟨more, by simp⟩
    by_contra htakes
    rw [Bool.not_eq_false] at htakes
    rcases h.grows_of_takes htakes with hlexeme | hmark
    · have hle := hlongest _ hfront hlexeme
      rw [List.length_append, List.length_singleton] at hle
      omega
    · exact hopen (hmark ▸ hfront)
  · intro hwhole d more hrest
    subst hrest
    have hfront : text ++ ['.', d] <+: text ++ '.' :: d :: more := ⟨more, by simp⟩
    by_contra hdigit
    rw [Bool.not_eq_false] at hdigit
    have hle := hlongest _ hfront (h.grows_of_isWhole hwhole hdigit)
    rw [List.length_append, List.length_cons] at hle
    omega

end LoxLexer
