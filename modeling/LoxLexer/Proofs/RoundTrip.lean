import LoxLexer.Proofs.LongestMatch

/-!
# Writing tokens down and reading them back

Tokens that some scans have returned can be written down in any order, with
separators between them, and a scan of that text returns them again.  A
separator is white space and complete comments; one that stands between two
tokens, or behind the last one, begins with white space.

Two facts carry the proof.  A lexeme with white space behind it is the first
tile, since no token takes in white space.  And a separator leaves no trace in
front of any text.

* `Lexeme.firstTile_append`, `Separator.itemsOf_append`: the two facts.
* `scan_written`: the round trip.
-/

namespace LoxLexer

/-- A token that a scan of some source returns, other than the end mark. -/
def Scanned (t : Token) : Prop := ∃ source, t ∈ (scan source).tokens ∧ t.kind ≠ .endOfFile

/-- White space and complete comments, in any order and number. -/
inductive Separator : List Char → Prop
  | nil : Separator []
  | space {c : Char} {text : List Char} (hspace : c ∈ [' ', '\t', '\r', '\n'])
      (htail : Separator text) : Separator (c :: text)
  | lineComment {body text : List Char} (hbody : '\n' ∉ body) (htail : Separator text) :
      Separator ('#' :: body ++ '\n' :: text)
  | blockComment {comment text : List Char} (hcomplete : CompleteComment comment)
      (htail : Separator text) : Separator (comment ++ text)

/-- A text begins with white space. -/
def BeginsBlank (text : List Char) : Prop :=
  ∃ c rest, text = c :: rest ∧ c ∈ [' ', '\t', '\r', '\n']

/-- Scanned tokens, each with the separator behind it. The separators between
tokens begin with white space, the last one does or is empty. -/
inductive Spaced : List (Token × List Char) → Prop
  | nil : Spaced []
  | last {t : Token} {gap : List Char} (htoken : Scanned t) (hgap : Separator gap)
      (hend : gap = [] ∨ BeginsBlank gap) : Spaced [(t, gap)]
  | cons {t : Token} {gap : List Char} {pieces : List (Token × List Char)} (htoken : Scanned t)
      (hgap : Separator gap) (hblank : BeginsBlank gap) (htail : Spaced pieces) :
      Spaced ((t, gap) :: pieces)

/-- The text of tokens and separators. -/
def written (pieces : List (Token × List Char)) : List Char :=
  pieces.flatMap (fun p => p.1.lexeme ++ p.2)

/-! ### Scanned tokens are lexemes -/

/-- An item in a row is that of one of its tiles, on the line of the tile. -/
theorem exists_tile_of_mem_itemsOf {item : Item} {line : Nat} {tiles : List Tile}
    (h : item ∈ itemsOf line tiles) :
    ∃ ts t us, tiles = ts ++ t :: us ∧
      t.item? (line + newlines (ts.flatMap Tile.text)) = some item := by
  induction tiles generalizing line with
  | nil => cases h
  | cons t tiles ih =>
      rcases List.mem_append.mp h with hhere | hlater
      · exact ⟨[], t, tiles, rfl, Option.mem_toList.mp hhere⟩
      · obtain ⟨ts, u, us, rfl, hitem⟩ := ih hlater
        refine ⟨t :: ts, u, us, rfl, ?_⟩
        rw [List.flatMap_cons, newlines_append, ← Nat.add_assoc]
        exact hitem

/-- Every tile of a text is the first one of what is left at its place. -/
theorem firstTile_of_mem_tilesOf {source : List Char} {t : Tile} (h : t ∈ tilesOf source) :
    ∃ here rest, FirstTile here t rest := by
  fun_induction tilesOf source with
  | case1 => cases h
  | case2 c cs ih =>
      rcases List.mem_cons.mp h with rfl | h
      · exact ⟨c :: cs, _, Tile.first_firstTile c cs⟩
      · exact ih h

/-- The token that a tile of a text stands for has a lexeme of its kind and value. -/
theorem lexeme_of_mem_itemsOf {source : List Char} {line : Nat} {t : Token}
    (h : .token t ∈ itemsOf line (tilesOf source)) : Lexeme t.lexeme t.kind t.literal := by
  obtain ⟨ts, tile, us, htiles, hread⟩ := exists_tile_of_mem_itemsOf h
  have htile : tile ∈ tilesOf source := by rw [htiles]; exact List.mem_append_cons_self
  obtain ⟨here, rest, hfirst⟩ := firstTile_of_mem_tilesOf htile
  cases hfirst with
  | lexeme _ _ hlexeme => cases hread; exact hlexeme
  | _ => cases hread

theorem Scanned.lexeme {t : Token} (h : Scanned t) : Lexeme t.lexeme t.kind t.literal := by
  obtain ⟨source, hmem, hkind⟩ := h
  rcases mem_tokens_scan.mp hmem with hitem | rfl
  · exact lexeme_of_mem_itemsOf hitem
  · exact absurd rfl hkind

/-- No scan calls a number invalid. -/
theorem ne_invalidNumber_of_mem_scan {source : List Char} {e : LexicalError}
    (h : e ∈ (scan source).sink.toList) (text : List Char) : e.fault ≠ .invalidNumber text := by
  obtain ⟨ts, tile, us, htiles, hread⟩ := exists_tile_of_mem_itemsOf (mem_errors_scan.mp h)
  have htile : tile ∈ tilesOf source := by rw [htiles]; exact List.mem_append_cons_self
  obtain ⟨here, rest, hfirst⟩ := firstTile_of_mem_tilesOf htile
  cases hfirst <;> cases hread <;> exact Fault.noConfusion

/-! ### A lexeme in front of white space -/

/-- A lexeme with nothing or white space behind it is the first tile. -/
theorem Lexeme.firstTile_append {text rest : List Char} {kind : Kind} {literal : Option Literal}
    (h : Lexeme text kind literal) (hrest : rest = [] ∨ BeginsBlank rest) :
    FirstTile (text ++ rest) ⟨text, .token kind literal⟩ rest := by
  refine h.firstTile ?_
  rcases hrest with rfl | ⟨d, more, rfl, hd⟩
  · exact Tile.endsBefore_nil _
  · exact Tile.endsBefore_of_isSpace (isSpace_iff.mpr hd) more

/-! ### Reading what has been written -/

/-- A blank tile leaves no trace but its line ends. -/
theorem itemsOf_of_blank {source text rest : List Char}
    (h : FirstTile source ⟨text, .blank⟩ rest) (line : Nat) :
    itemsOf line (tilesOf source) = itemsOf (line + newlines text) (tilesOf rest) := by
  rw [tilesOf_of_firstTile h]
  rfl

/-- A separator leaves no trace but its line ends, whatever follows it. -/
theorem Separator.itemsOf_append {gap : List Char} (h : Separator gap) (rest : List Char)
    (line : Nat) :
    itemsOf line (tilesOf (gap ++ rest)) = itemsOf (line + newlines gap) (tilesOf rest) := by
  induction h generalizing line with
  | nil => rfl
  | @space c text hspace htail ih =>
      rw [List.cons_append, itemsOf_of_blank (.space rfl hspace), ih, Nat.add_assoc,
        ← newlines_append, List.singleton_append]
  | @lineComment body text hbody htail ih =>
      have hcomment : FirstTile ('#' :: body ++ '\n' :: (text ++ rest)) ⟨'#' :: body, .blank⟩
          ('\n' :: (text ++ rest)) := .lineComment rfl hbody (Or.inr ⟨_, rfl⟩)
      have hend : FirstTile ('\n' :: (text ++ rest)) ⟨['\n'], .blank⟩ (text ++ rest) :=
        .space rfl (by decide)
      have hsplit : '#' :: body ++ '\n' :: text ++ rest =
          '#' :: body ++ '\n' :: (text ++ rest) := by simp
      have hlines : newlines ('\n' :: text) = newlines ['\n'] + newlines text :=
        newlines_append ['\n'] text
      rw [hsplit, itemsOf_of_blank hcomment, itemsOf_of_blank hend, ih, newlines_append, hlines]
      simp only [Nat.add_assoc]
  | @blockComment comment text hcomplete htail ih =>
      rw [List.append_assoc, itemsOf_of_blank (.blockComment rfl hcomplete), ih, Nat.add_assoc,
        ← newlines_append]

/-- A lexeme in front of a blank, or of nothing, is the first token. -/
theorem itemsOf_of_lexeme {text rest : List Char} {kind : Kind} {literal : Option Literal}
    (h : Lexeme text kind literal) (hrest : rest = [] ∨ BeginsBlank rest) (line : Nat) :
    itemsOf line (tilesOf (text ++ rest)) =
      .token ⟨kind, text, literal, line⟩ :: itemsOf (line + newlines text) (tilesOf rest) := by
  rw [tilesOf_of_firstTile (h.firstTile_append hrest)]
  rfl

theorem written_cons (t : Token) (gap : List Char) (pieces : List (Token × List Char)) :
    written ((t, gap) :: pieces) = t.lexeme ++ (gap ++ written pieces) := by
  rw [written, List.flatMap_cons, List.append_assoc]
  rfl

/-- The tokens of some pieces, each on the line where it stands if the text of
the pieces stands behind `before`. -/
def relined (before : List Char) (pieces : List (Token × List Char)) : List Token :=
  pieces.mapIdx fun i p => { p.1 with line := 1 + newlines (before ++ written (pieces.take i)) }

/-- The first token is on the line that what is before it leads to, and counts among what is
before the others. -/
theorem relined_cons (before : List Char) (t : Token) (gap : List Char)
    (pieces : List (Token × List Char)) :
    relined before ((t, gap) :: pieces) =
      { t with line := 1 + newlines before } ::
        relined (before ++ (t.lexeme ++ gap)) pieces := by
  simp [relined, List.mapIdx_cons, written]

/-- Reading the pieces behind any text gives their tokens and nothing else. -/
theorem Spaced.itemsOf_written {pieces : List (Token × List Char)} (h : Spaced pieces)
    (before : List Char) :
    itemsOf (1 + newlines before) (tilesOf (written pieces)) =
      (relined before pieces).map Item.token := by
  induction h generalizing before with
  | nil => rw [written, List.flatMap_nil, tilesOf]; rfl
  | @last t gap htoken hgap hend =>
      have hgap' : tilesOf gap = tilesOf (gap ++ []) := by rw [List.append_nil]
      rw [written_cons, relined_cons, written, List.flatMap_nil, List.append_nil,
        itemsOf_of_lexeme htoken.lexeme hend, hgap', hgap.itemsOf_append, tilesOf]
      rfl
  | @cons t gap pieces htoken hgap hblank htail ih =>
      have hrest : BeginsBlank (gap ++ written pieces) := by
        obtain ⟨c, rest, rfl, hc⟩ := hblank
        exact ⟨c, rest ++ written pieces, rfl, hc⟩
      have hline : 1 + newlines before + newlines t.lexeme + newlines gap =
          1 + newlines (before ++ (t.lexeme ++ gap)) := by
        rw [newlines_append, newlines_append]
        omega
      rw [written_cons, relined_cons, itemsOf_of_lexeme htoken.lexeme (Or.inr hrest),
        hgap.itemsOf_append, hline, ih]
      rfl

/-- **Round trip.**  Tokens written down with separators before, between and
behind them are read back, each on the line where it now stands, and nothing is
reported.  So is the lexeme of one token, written down alone. -/
theorem scan_written :
    (∀ lead pieces, Separator lead → Spaced pieces →
      (scan (lead ++ written pieces)).tokens = relined lead pieces ++
        [.endOfFile (1 + newlines (lead ++ written pieces))] ∧
      (scan (lead ++ written pieces)).sink.toList = []) ∧
    ∀ t, Scanned t →
      (scan t.lexeme).tokens = [{ t with line := 1 }, .endOfFile (1 + newlines t.lexeme)] ∧
      (scan t.lexeme).sink.toList = [] := by
  have hall : ∀ lead pieces, Separator lead → Spaced pieces →
      (scan (lead ++ written pieces)).tokens = relined lead pieces ++
        [.endOfFile (1 + newlines (lead ++ written pieces))] ∧
      (scan (lead ++ written pieces)).sink.toList = [] := by
    intro lead pieces hlead hpieces
    have hitems : (Cursor.start (lead ++ written pieces)).items =
        (relined lead pieces).map Item.token := by
      rw [Cursor.items_eq]
      exact (hlead.itemsOf_append _ 1).trans (hpieces.itemsOf_written lead)
    constructor
    · refine ((Cursor.start _).tokens_scanInto Diagnostics.sink {}).trans ?_
      rw [hitems]
      simp [List.filterMap_map, Function.comp_def, Item.token?, Cursor.start]
    · refine ((Cursor.start _).errors_scanInto {}).trans ?_
      rw [hitems]
      simp [List.filterMap_map, Function.comp_def, Item.error?, Diagnostics.toList]
  refine ⟨hall, ?_⟩
  intro t ht
  have halone := hall [] [(t, [])] .nil (.last ht .nil (Or.inl rfl))
  simpa [written, relined] using halone

/-- A string over two lines and a division sign, with comments before and
between them. -/
theorem scan_written_string_slash :
    let text := ['#', '\n'] ++ written
      [(⟨.string, ['"', '\n', '"'], some (.string ['\n']), 1⟩, ['\n', '/', '*', '*', '/']),
        (⟨.symbol .slash, ['/'], none, 2⟩, [])]
    (scan text).tokens = [⟨.string, ['"', '\n', '"'], some (.string ['\n']), 2⟩,
      ⟨.symbol .slash, ['/'], none, 4⟩, .endOfFile 4] ∧ (scan text).sink.toList = [] := by
  have hstring : Scanned ⟨.string, ['"', '\n', '"'], some (.string ['\n']), 1⟩ :=
    ⟨['"', '\n', '"'], by decide +kernel, by decide⟩
  have hslash : Scanned ⟨.symbol .slash, ['/'], none, 2⟩ :=
    ⟨['\n', '/', ';'], by decide +kernel, by decide⟩
  have hcomment : CompleteComment ['/', '*', '*', '/'] := by
    have hafter : afterBlock 1 ['*', '/'] = some [] := by decide
    obtain ⟨body, heq, hcomplete⟩ := completeComment_of_afterBlock hafter
    rw [List.append_nil] at heq
    exact heq ▸ hcomplete
  have hgap : Separator ['\n', '/', '*', '*', '/'] := by
    have htail : Separator (['/', '*', '*', '/'] ++ []) := .blockComment hcomment .nil
    exact .space (by decide) htail
  have hlead : Separator ('#' :: [] ++ '\n' :: []) := .lineComment (by decide) .nil
  obtain ⟨htokens, herrors⟩ := scan_written.1 _ _ hlead
    (.cons hstring hgap ⟨_, _, rfl, by decide⟩ (.last hslash .nil (Or.inl rfl)))
  exact ⟨htokens.trans (by decide), herrors⟩

end LoxLexer
