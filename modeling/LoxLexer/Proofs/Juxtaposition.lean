import LoxLexer.Proofs.Rows
import LoxLexer.Proofs.RoundTrip

/-!
# Tokens written side by side

Tokens written down with nothing between them are not always read back.  Some
pairs run together into one token or into the opening of a comment, and a
numeral, a point and a numeral run together where neither pair does.  These are
the only obstacles, and none of them can be made good by what stands around it.

The text of some tokens is read back if and only if each of them ends where the
text of the next ones begins, and that is a question about the first character
of the next lexeme, and the second one if the first is a point.  The kind of a
token says what its first character can be.

* `Kind.Clashes`, `Token.IsWhole`: the obstacles, said of tokens.
* `Kind.takes_iff_clashes`: what the first character has to do with the kind.
* `fits_map_tile_iff`: a row of tokens fits if and only if there is no obstacle.
* `scan_juxtaposed`: the statement for scans.
-/

namespace LoxLexer

/-- A keyword or an identifier. -/
def Kind.IsWord (k : Kind) : Prop := k = .identifier ∨ ∃ keyword, k = .keyword keyword

/-- The kinds that run together.  A word takes in a word or a number, a number takes
in a number, and some symbols make longer symbols or the opening of a comment. -/
inductive Kind.Clashes : Kind → Kind → Prop
  | word {k l : Kind} (hk : k.IsWord) (hl : l.IsWord ∨ l = .number) : Clashes k l
  | number : Clashes .number .number
  | star {s : Symbol} (h : s ∈ [.star, .power]) : Clashes (.symbol .star) (.symbol s)
  | slash {s : Symbol} (h : s ∈ [.slash, .doubleSlash, .star, .power]) :
      Clashes (.symbol .slash) (.symbol s)
  | equal {s t : Symbol} (hs : s ∈ [.bang, .equal, .less, .greater])
      (ht : t ∈ [.equal, .equalEqual]) : Clashes (.symbol s) (.symbol t)

/-- A number that is written without a point. -/
def Token.IsWhole (t : Token) : Prop := t.kind = .number ∧ '.' ∉ t.lexeme

/-- The tile that a token is read from. -/
def Token.tile (t : Token) : Tile := ⟨t.lexeme, .token t.kind t.literal⟩

/-! ### Kinds and first characters -/

/-- A lexeme of this kind can begin with the character. -/
def Kind.Begins : Kind → Char → Prop
  | .symbol s, c => s.spelling.head? = some c
  | .keyword _, c => isWordStart c
  | .identifier, c => isWordStart c
  | .string, c => c = '"'
  | .number, c => c.isDigit
  | .endOfFile, _ => False

/-- The first character of a lexeme is one that its kind can begin with. -/
theorem Lexeme.begins {c : Char} {cs : List Char} {kind : Kind} {literal : Option Literal}
    (h : Lexeme (c :: cs) kind literal) : kind.Begins c := by
  generalize htext : c :: cs = text at h
  cases h with
  | symbol s => rw [Kind.Begins, ← htext, List.head?_cons]
  | keyword k =>
      obtain ⟨d, ds, heq, hstart, -⟩ := htext ▸ k.isWord_spelling
      cases heq
      exact hstart
  | identifier hword _ =>
      obtain ⟨d, ds, heq, hstart, -⟩ := htext ▸ hword
      cases heq
      exact hstart
  | string =>
      cases htext
      rfl
  | whole hdigits => exact hdigits.2 c (htext ▸ List.mem_cons_self)
  | @fraction digits places hdigits hplaces =>
      obtain ⟨d, ds, rfl⟩ := List.exists_cons_of_ne_nil hdigits.1
      cases htext
      exact hdigits.2 c List.mem_cons_self

namespace Symbol

/-- What a symbol takes in is the first character of the symbols it clashes with. -/
theorem takes_iff_clashes {s t : Symbol} {c : Char} (h : t.spelling.head? = some c) :
    s.takes c ↔ (Kind.symbol s).Clashes (.symbol t) := by
  have htaken : ∀ s ∈ all, ∀ t ∈ all, t.spelling.head?.any s.takes →
      (s = .star ∧ t ∈ [.star, .power]) ∨
        (s = .slash ∧ t ∈ [.slash, .doubleSlash, .star, .power]) ∨
        (s ∈ [.bang, .equal, .less, .greater] ∧ t ∈ [.equal, .equalEqual]) := by decide +kernel
  have hclashing : (∀ t ∈ [star, power], t.spelling.head?.any star.takes) ∧
      (∀ t ∈ [slash, doubleSlash, star, power], t.spelling.head?.any slash.takes) ∧
      ∀ s ∈ [bang, equal, less, greater], ∀ t ∈ [equal, equalEqual],
        t.spelling.head?.any s.takes := by decide
  have hany : s.takes c ↔ t.spelling.head?.any s.takes := by rw [h, Option.any_some]
  rw [hany]
  constructor
  · intro htakes
    rcases htaken s (mem_all s) t (mem_all t) htakes with ⟨rfl, ht⟩ | ⟨rfl, ht⟩ | ⟨hs, ht⟩
    · exact .star ht
    · exact .slash ht
    · exact .equal hs ht
  · intro hclash
    cases hclash with
    | word hk =>
        rcases hk with heq | ⟨keyword, heq⟩
        · cases heq
        · cases heq
    | star ht => exact hclashing.1 t ht
    | slash ht => exact hclashing.2.1 t ht
    | equal hs ht => exact hclashing.2.2 s hs t ht

/-- What a symbol takes in begins no word, no numeral and no string. -/
theorem class_of_takes {s : Symbol} {c : Char} (h : s.takes c) :
    isWordStart c = false ∧ c.isDigit = false ∧ c ≠ '"' := by
  unfold takes at h
  split at h <;> first | decide | cases h

end Symbol

/-- Keywords and identifiers begin as words do. -/
theorem Kind.IsWord.isWordStart {k : Kind} {c : Char} (h : k.IsWord) (hc : k.Begins c) :
    isWordStart c := by
  rcases h with rfl | ⟨keyword, rfl⟩
  · exact hc
  · exact hc

/-- A character that can go on with a word begins a word or a numeral. -/
theorem Kind.isWordPart_iff {l : Kind} {c : Char} (h : l.Begins c) :
    isWordPart c ↔ l.IsWord ∨ l = .number := by
  constructor
  · intro hpart
    cases l with
    | symbol s =>
        obtain ⟨cs, hs⟩ : ∃ cs, s.spelling = c :: cs := List.head?_eq_some_iff.mp h
        obtain ⟨-, -, -, hdigit, hstart⟩ := Symbol.class_of_spelling hs
        simp [isWordPart, hdigit, hstart] at hpart
    | keyword keyword => exact Or.inl (Or.inr ⟨keyword, rfl⟩)
    | identifier => exact Or.inl (Or.inl rfl)
    | string =>
        cases h
        cases hpart
    | number => exact Or.inr rfl
    | endOfFile => cases h
  · rintro (hword | rfl)
    · rw [isWordPart, hword.isWordStart h, Bool.true_or]
    · exact isWordPart_of_isDigit h

/-- A digit begins numerals only. -/
theorem Kind.isDigit_iff {l : Kind} {c : Char} (h : l.Begins c) : c.isDigit ↔ l = .number := by
  constructor
  · intro hdigit
    rcases (isWordPart_iff h).mp (isWordPart_of_isDigit hdigit) with hword | hnumber
    · rw [isDigit_eq_false_of_isWordStart (hword.isWordStart h)] at hdigit
      cases hdigit
    · exact hnumber
  · intro hl
    subst hl
    exact h

/-- What a symbol takes in begins a symbol. -/
theorem Kind.exists_symbol_of_takes {s : Symbol} {l : Kind} {c : Char} (h : l.Begins c)
    (htakes : s.takes c) : ∃ t, l = .symbol t := by
  obtain ⟨hstart, hdigit, hquote⟩ := Symbol.class_of_takes htakes
  cases l with
  | symbol t => exact ⟨t, rfl⟩
  | keyword => exact absurd h (by simp [Begins, hstart])
  | identifier => exact absurd h (by simp [Begins, hstart])
  | string => exact absurd h hquote
  | number => exact absurd h (by simp [Begins, hdigit])
  | endOfFile => cases h

/-- What clashes with a word goes on with it. -/
theorem Kind.IsWord.clashes_iff {k l : Kind} (hk : k.IsWord) :
    k.Clashes l ↔ l.IsWord ∨ l = .number := by
  constructor
  · intro hclash
    cases hclash with
    | word _ hl => exact hl
    | _ => simp [IsWord] at hk
  · exact .word hk

/-- Apart from words, numbers and symbols clash, and with their like only. -/
theorem Kind.Clashes.cases_of_not_isWord {k l : Kind} (h : k.Clashes l) (hk : ¬ k.IsWord) :
    (k = .number ∧ l = .number) ∨ ∃ s t, k = .symbol s ∧ l = .symbol t := by
  cases h with
  | word hword => exact absurd hword hk
  | number => exact Or.inl ⟨rfl, rfl⟩
  | star => exact Or.inr ⟨_, _, rfl, rfl⟩
  | slash => exact Or.inr ⟨_, _, rfl, rfl⟩
  | equal => exact Or.inr ⟨_, _, rfl, rfl⟩

/-- A token takes in the first character of a lexeme if and only if the kinds
clash. -/
theorem Kind.takes_iff_clashes {k l : Kind} {c : Char} (h : l.Begins c) (text : List Char)
    (literal : Option Literal) : (Tile.mk text (.token k literal)).takes c ↔ k.Clashes l := by
  by_cases hword : k.IsWord
  · rw [hword.clashes_iff, ← isWordPart_iff h]
    rcases hword with rfl | ⟨keyword, rfl⟩
    · exact Iff.rfl
    · exact Iff.rfl
  constructor
  · intro htakes
    cases k with
    | symbol s =>
        obtain ⟨t, rfl⟩ := exists_symbol_of_takes h htakes
        exact (Symbol.takes_iff_clashes h).mp htakes
    | keyword keyword => exact absurd (Or.inr ⟨keyword, rfl⟩) hword
    | identifier => exact absurd (Or.inl rfl) hword
    | string => cases htakes
    | number =>
        obtain rfl := (isDigit_iff h).mp htakes
        exact .number
    | endOfFile => cases htakes
  · intro hclash
    rcases hclash.cases_of_not_isWord hword with ⟨rfl, rfl⟩ | ⟨s, t, rfl, rfl⟩
    · exact (isDigit_iff h).mpr rfl
    · exact (Symbol.takes_iff_clashes h).mpr hclash

/-! ### Where a token ends in a row -/

theorem Lexeme.eq_spelling {text : List Char} {s : Symbol} {literal : Option Literal}
    (h : Lexeme text (.symbol s) literal) : text = s.spelling := by
  cases h with
  | symbol => rfl

/-- The only lexeme that begins with a point is the point. -/
theorem Lexeme.eq_point {cs : List Char} {kind : Kind} {literal : Option Literal}
    (h : Lexeme ('.' :: cs) kind literal) : cs = [] ∧ kind = .symbol .dot := by
  obtain ⟨s, hs⟩ := IsLexeme.of_other ⟨kind, literal, h⟩ (by decide) (by decide) (by decide)
  have hdot : s = .dot ∧ cs = [] := by
    cases s <;> cases hs
    exact ⟨rfl, rfl⟩
  obtain ⟨rfl, rfl⟩ := hdot
  exact ⟨rfl, (h.unique (.symbol .dot)).1⟩

theorem Token.isWhole_tile {t : Token} : t.tile.isWhole ↔ t.IsWhole := by
  obtain ⟨kind, text, literal, line⟩ := t
  cases kind <;> simp [Tile.isWhole, IsWhole, tile]

section Row

variable {t : Token} {ts : List Token}

/-- A token has a first character, with which its kind can begin. -/
theorem exists_first_of_lexeme (h : Lexeme t.lexeme t.kind t.literal) :
    ∃ d ds, t.lexeme = d :: ds ∧ t.kind.Begins d := by
  obtain ⟨d, ds, heq⟩ := List.exists_cons_of_ne_nil h.ne_nil
  rw [heq] at h
  exact ⟨d, ds, heq, h.begins⟩

/-- A token takes in nothing of the next one if they do not clash. -/
theorem Token.stops_iff (hts : ∀ u ∈ ts, Lexeme u.lexeme u.kind u.literal) :
    (∀ d more, ts.flatMap Token.lexeme = d :: more → t.tile.takes d = false) ↔
      ∀ b, [b] <+: ts → ¬ t.kind.Clashes b.kind := by
  constructor
  · rintro hstops b ⟨us, rfl⟩ hclash
    obtain ⟨d, ds, hb, hbegins⟩ := exists_first_of_lexeme (hts b (by simp))
    have hstop := hstops d (ds ++ us.flatMap Token.lexeme) (by simp [hb])
    have htakes : t.tile.takes d := (Kind.takes_iff_clashes hbegins _ _).mpr hclash
    rw [htakes] at hstop
    cases hstop
  · intro hfree d more heq
    cases ts with
    | nil => cases heq
    | cons b us =>
        obtain ⟨e, es, hb, hbegins⟩ := exists_first_of_lexeme (hts b (by simp))
        rw [List.flatMap_cons, hb, List.cons_append] at heq
        obtain ⟨rfl, -⟩ := List.cons.inj heq
        rw [← Bool.not_eq_true]
        intro htakes
        exact hfree b (by simp) ((Kind.takes_iff_clashes hbegins _ _).mp htakes)

/-- A numeral without a point gets no places from the next two tokens if they are not
a point and a number. -/
theorem Token.noPlaces_iff (hts : ∀ u ∈ ts, Lexeme u.lexeme u.kind u.literal) :
    (∀ d more, ts.flatMap Token.lexeme = '.' :: d :: more → d.isDigit = false) ↔
      ∀ b c, [b, c] <+: ts → ¬ (b.kind = .symbol .dot ∧ c.kind = .number) := by
  constructor
  · rintro hplaces b c ⟨us, rfl⟩ ⟨hpoint, hnumber⟩
    have hb : b.lexeme = ['.'] := Lexeme.eq_spelling (hpoint ▸ hts b (by simp))
    obtain ⟨d, ds, hc, hbegins⟩ := exists_first_of_lexeme (hts c (by simp))
    have hstop := hplaces d (ds ++ us.flatMap Token.lexeme) (by simp [hb, hc])
    rw [(Kind.isDigit_iff hbegins).mpr hnumber] at hstop
    cases hstop
  · intro hfree d more heq
    cases ts with
    | nil => cases heq
    | cons b us =>
        have hlexeme := hts b (by simp)
        obtain ⟨e, es, hb, -⟩ := exists_first_of_lexeme hlexeme
        rw [List.flatMap_cons, hb, List.cons_append] at heq
        obtain ⟨rfl, hbehind⟩ := List.cons.inj heq
        rw [hb] at hlexeme
        obtain ⟨rfl, hpoint⟩ := hlexeme.eq_point
        cases us with
        | nil => cases hbehind
        | cons c us =>
            obtain ⟨f, fs, hc, hbegins⟩ := exists_first_of_lexeme (hts c (by simp))
            rw [List.nil_append, List.flatMap_cons, hc, List.cons_append] at hbehind
            obtain ⟨rfl, -⟩ := List.cons.inj hbehind
            rw [← Bool.not_eq_true]
            intro hdigit
            exact hfree b c (by simp) ⟨hpoint, (Kind.isDigit_iff hbegins).mp hdigit⟩

/-- The kinds of the next two tokens say whether a token ends before their text. -/
theorem Token.endsBefore_iff (hts : ∀ u ∈ ts, Lexeme u.lexeme u.kind u.literal) :
    t.tile.EndsBefore (ts.flatMap Token.lexeme) ↔
      (∀ b, [b] <+: ts → ¬ t.kind.Clashes b.kind) ∧
        ∀ b c, [b, c] <+: ts → ¬ (t.IsWhole ∧ b.kind = .symbol .dot ∧ c.kind = .number) := by
  rw [← stops_iff hts, ← isWhole_tile]
  constructor
  · intro hends
    refine ⟨hends.stops, ?_⟩
    rintro b c hfront ⟨hwhole, hkinds⟩
    exact (noPlaces_iff hts).mp (hends.noPlaces hwhole) b c hfront hkinds
  · rintro ⟨hstops, hfree⟩
    refine ⟨hstops, fun hwhole => (noPlaces_iff hts).mpr ?_⟩
    intro b c hfront hkinds
    exact hfree b c hfront ⟨hwhole, hkinds⟩

theorem flatMap_text_map_tile (ts : List Token) :
    (ts.map Token.tile).flatMap Tile.text = ts.flatMap Token.lexeme :=
  List.flatMap_map Token.tile Tile.text ts

/-- Tokens fit if the first one ends before the others and these fit. -/
theorem fits_map_tile_cons (ht : Lexeme t.lexeme t.kind t.literal) :
    Fits ((t :: ts).map Token.tile) ↔
      t.tile.EndsBefore (ts.flatMap Token.lexeme) ∧ Fits (ts.map Token.tile) := by
  rw [← flatMap_text_map_tile, List.map_cons]
  constructor
  · intro hfits
    cases hfits with
    | cons _ hends htail => exact ⟨hends, htail⟩
  · rintro ⟨hends, htail⟩
    have halone := ht.firstTile (Tile.endsBefore_nil _)
    rw [List.append_nil] at halone
    exact .cons halone hends htail

/-- A pair of neighbours begins with the first token or is one of the others. -/
theorem forall_pair_cons {P : Token → Token → Prop} :
    (∀ a b, [a, b] <:+: t :: ts → P a b) ↔
      (∀ b, [b] <+: ts → P t b) ∧ ∀ a b, [a, b] <:+: ts → P a b := by
  simp only [List.infix_cons_iff, List.cons_prefix_cons]
  constructor
  · intro h
    exact ⟨fun b hb => h t b (Or.inl ⟨rfl, hb⟩), fun a b hab => h a b (Or.inr hab)⟩
  · rintro ⟨hfirst, hothers⟩ a b (⟨rfl, hb⟩ | hab)
    · exact hfirst b hb
    · exact hothers a b hab

/-- So does a triple. -/
theorem forall_triple_cons {P : Token → Token → Token → Prop} :
    (∀ a b c, [a, b, c] <:+: t :: ts → P a b c) ↔
      (∀ b c, [b, c] <+: ts → P t b c) ∧ ∀ a b c, [a, b, c] <:+: ts → P a b c := by
  simp only [List.infix_cons_iff, List.cons_prefix_cons]
  constructor
  · intro h
    exact ⟨fun b c hb => h t b c (Or.inl ⟨rfl, hb⟩), fun a b c habc => h a b c (Or.inr habc)⟩
  · rintro ⟨hfirst, hothers⟩ a b c (⟨rfl, hb⟩ | habc)
    · exact hfirst b c hb
    · exact hothers a b c habc

/-- **The obstacles.**  A row of lexemes fits if and only if no two neighbours clash
and no numeral gets places from the next two tokens. -/
theorem fits_map_tile_iff (hts : ∀ u ∈ ts, Lexeme u.lexeme u.kind u.literal) :
    Fits (ts.map Token.tile) ↔
      (∀ a b, [a, b] <:+: ts → ¬ a.kind.Clashes b.kind) ∧
        ∀ a b c, [a, b, c] <:+: ts →
          ¬ (a.IsWhole ∧ b.kind = .symbol .dot ∧ c.kind = .number) := by
  induction ts with
  | nil => simp [Fits.nil]
  | cons t ts ih =>
      obtain ⟨ht, hothers⟩ := List.forall_mem_cons.mp hts
      rw [fits_map_tile_cons ht, Token.endsBefore_iff hothers, ih hothers, forall_pair_cons,
        forall_triple_cons, and_and_and_comm]

end Row

/-! ### Reading tokens and nothing else -/

/-- A row of tokens is read as tokens, with no error among them. -/
theorem itemsOf_map_tile (ts : List Token) (line : Nat) :
    (itemsOf line (ts.map Token.tile)).filterMap Item.error? = [] ∧
      ((itemsOf line (ts.map Token.tile)).filterMap Item.token?).map Token.lexeme =
        ts.map Token.lexeme := by
  induction ts generalizing line with
  | nil => exact ⟨rfl, rfl⟩
  | cons t ts ih =>
      obtain ⟨herrors, htokens⟩ := ih (line + newlines t.lexeme)
      exact ⟨herrors, congrArg (t.lexeme :: ·) htokens⟩

/-- A tile is read as its token, or it adds no token. -/
theorem tokens_itemsOf_cons (line : Nat) (t : Tile) (tiles : List Tile) :
    (∃ u : Token, t = u.tile ∧ (itemsOf line (t :: tiles)).filterMap Item.token? =
      u :: (itemsOf (line + newlines t.text) tiles).filterMap Item.token?) ∨
      (itemsOf line (t :: tiles)).filterMap Item.token? =
        (itemsOf (line + newlines t.text) tiles).filterMap Item.token? := by
  obtain ⟨text, reading⟩ := t
  cases reading with
  | blank => exact Or.inr rfl
  | token kind literal => exact Or.inl ⟨⟨kind, text, literal, line⟩, rfl, rfl⟩
  | fault fault => exact Or.inr rfl

/-- The lexemes of the tokens in a row of tiles are no longer than the row. -/
theorem length_flatMap_lexeme_le (tiles : List Tile) (line : Nat) :
    (((itemsOf line tiles).filterMap Item.token?).flatMap Token.lexeme).length ≤
      (tiles.flatMap Tile.text).length := by
  induction tiles generalizing line with
  | nil => exact Nat.le_refl 0
  | cons t tiles ih =>
      have htail := ih (line + newlines t.text)
      rw [List.flatMap_cons, List.length_append]
      rcases tokens_itemsOf_cons line t tiles with ⟨u, rfl, htokens⟩ | htokens
      · rw [htokens, List.flatMap_cons, List.length_append]
        exact Nat.add_le_add_left htail u.lexeme.length
      · rw [htokens]
        omega

/-- If the lexemes take up the whole text, every tile is a token. -/
theorem eq_map_tile_of_length {tiles : List Tile} (hne : ∀ t ∈ tiles, t.text ≠ []) (line : Nat)
    (hlength : (tiles.flatMap Tile.text).length ≤
      (((itemsOf line tiles).filterMap Item.token?).flatMap Token.lexeme).length) :
    tiles = ((itemsOf line tiles).filterMap Item.token?).map Token.tile := by
  induction tiles generalizing line with
  | nil => rfl
  | cons t tiles ih =>
      obtain ⟨ht, hothers⟩ := List.forall_mem_cons.mp hne
      rw [List.flatMap_cons, List.length_append] at hlength
      rcases tokens_itemsOf_cons line t tiles with ⟨u, rfl, htokens⟩ | htokens
      · rw [htokens, List.flatMap_cons, List.length_append] at hlength
        rw [htokens, List.map_cons]
        exact congrArg (u.tile :: ·) (ih hothers _ (Nat.le_of_add_le_add_left hlength))
      · have htail := length_flatMap_lexeme_le tiles (line + newlines t.text)
        have hpos := List.length_pos_iff.mpr ht
        rw [htokens] at hlength
        omega

/-- A lexeme settles the tile. -/
theorem map_tile_eq_of_map_lexeme_eq {ts us : List Token}
    (hts : ∀ t ∈ ts, Lexeme t.lexeme t.kind t.literal)
    (hus : ∀ u ∈ us, Lexeme u.lexeme u.kind u.literal)
    (h : ts.map Token.lexeme = us.map Token.lexeme) :
    ts.map Token.tile = us.map Token.tile := by
  induction ts generalizing us with
  | nil =>
      cases us with
      | nil => rfl
      | cons u us => cases h
  | cons t ts ih =>
      cases us with
      | nil => cases h
      | cons u us =>
          obtain ⟨ht, hts⟩ := List.forall_mem_cons.mp hts
          obtain ⟨hu, hus⟩ := List.forall_mem_cons.mp hus
          rw [List.map_cons, List.map_cons] at h
          obtain ⟨htext, htail⟩ := List.cons.inj h
          rw [htext] at ht
          obtain ⟨hkind, hliteral⟩ := ht.unique hu
          rw [List.map_cons, List.map_cons, ih hts hus htail, Token.tile, Token.tile, htext, hkind,
            hliteral]

/-- The text of some lexemes is read back if and only if the row of them fits. -/
theorem scan_flatMap_lexeme_iff {ts : List Token}
    (hts : ∀ t ∈ ts, Lexeme t.lexeme t.kind t.literal) :
    ((scan (ts.flatMap Token.lexeme)).sink.toList = [] ∧
      ∃ tokens line, (scan (ts.flatMap Token.lexeme)).tokens = tokens ++ [.endOfFile line] ∧
        tokens.map Token.lexeme = ts.map Token.lexeme) ↔ Fits (ts.map Token.tile) := by
  constructor
  · rintro ⟨-, tokens, line, htokens, hlexemes⟩
    rw [tokens_scan] at htokens
    obtain ⟨hfound, -⟩ := List.append_inj' htokens rfl
    have hread : ∀ t ∈ tokens, Lexeme t.lexeme t.kind t.literal := by
      intro t ht
      rw [← hfound, mem_filterMap_token?] at ht
      exact lexeme_of_mem_itemsOf ht
    have hall : (tokens.flatMap Token.lexeme) = ts.flatMap Token.lexeme := by
      rw [List.flatMap_def, hlexemes, ← List.flatMap_def]
    have htiles : tilesOf (ts.flatMap Token.lexeme) = tokens.map Token.tile := by
      rw [← hfound]
      refine eq_map_tile_of_length (fun t ht => text_ne_nil_of_mem_tilesOf ht) 1 ?_
      rw [hfound, hall, flatMap_text_tilesOf]
    rw [← map_tile_eq_of_map_lexeme_eq hread hts hlexemes, ← htiles]
    exact fits_tilesOf _
  · intro hfits
    have htiles : tilesOf (ts.flatMap Token.lexeme) = ts.map Token.tile := by
      rw [← flatMap_text_map_tile]
      exact tilesOf_flatMap_text hfits
    obtain ⟨herrors, htokens⟩ := itemsOf_map_tile ts 1
    rw [errors_scan, tokens_scan, htiles]
    exact ⟨herrors, _, _, rfl, htokens⟩

/-- **Exact juxtaposition.**  Lexemes of scanned tokens written side by side are
read back as tokens with these lexemes, and nothing else, if and only if no two
neighbours clash and nowhere a number without a point, a point and a number
follow each other. -/
theorem scan_juxtaposed {ts : List Token} (h : ∀ t ∈ ts, Scanned t) :
    ((scan (ts.flatMap Token.lexeme)).sink.toList = [] ∧
      ∃ tokens line, (scan (ts.flatMap Token.lexeme)).tokens = tokens ++ [.endOfFile line] ∧
        tokens.map Token.lexeme = ts.map Token.lexeme) ↔
      (∀ a b, [a, b] <:+: ts → ¬ a.kind.Clashes b.kind) ∧
        ∀ a b c, [a, b, c] <:+: ts →
          ¬ (a.IsWhole ∧ b.kind = .symbol .dot ∧ c.kind = .number) := by
  have hts : ∀ t ∈ ts, Lexeme t.lexeme t.kind t.literal := fun t ht => (h t ht).lexeme
  rw [scan_flatMap_lexeme_iff hts, fits_map_tile_iff hts]

/-- A numeral, a point and a numeral are not read back; a numeral, a point and a
word are. -/
theorem scan_juxtaposed_point :
    let one : Token := ⟨.number, ['1'], some (.number ⟨0x3ff0000000000000⟩), 1⟩
    let point : Token := ⟨.symbol .dot, ['.'], none, 1⟩
    let word : Token := ⟨.identifier, ['x'], none, 1⟩
    let readBack (ts : List Token) : Prop :=
      (scan (ts.flatMap Token.lexeme)).sink.toList = [] ∧
        ∃ tokens line, (scan (ts.flatMap Token.lexeme)).tokens = tokens ++ [.endOfFile line] ∧
          tokens.map Token.lexeme = ts.map Token.lexeme
    (∀ t ∈ [one, point, word], Scanned t) ∧ ¬ readBack [one, point, one] ∧
      readBack [one, point, word] := by
  intro one point word readBack
  have hone : Scanned one := ⟨['1'], by decide +kernel, by decide⟩
  have hpoint : Scanned point := ⟨['.'], by decide +kernel, by decide⟩
  have hword : Scanned word := ⟨['x'], by decide +kernel, by decide⟩
  refine ⟨by simp [hone, hpoint, hword], ?_, ?_⟩
  · intro hread
    have hfree := (scan_juxtaposed (by simp [hone, hpoint])).mp hread
    exact hfree.2 one point one List.infix_rfl ⟨⟨rfl, by decide⟩, rfl, rfl⟩
  · refine (scan_juxtaposed (by simp [hone, hpoint, hword])).mpr ⟨?_, ?_⟩
    · intro a b hinfix hclash
      have hpair : (a = one ∧ b = point) ∨ (a = point ∧ b = word) := by
        simpa [List.infix_cons_iff] using hinfix
      rcases hpair with ⟨rfl, rfl⟩ | ⟨rfl, rfl⟩
      · cases hclash with
        | word hk => simp [Kind.IsWord] at hk
      · cases hclash with
        | word hk => simp [Kind.IsWord] at hk
    · rintro a b c hinfix ⟨-, -, hnumber⟩
      obtain ⟨rfl, rfl, rfl⟩ : a = one ∧ b = point ∧ c = word := by
        simpa [List.infix_cons_iff] using hinfix
      cases hnumber

end LoxLexer
