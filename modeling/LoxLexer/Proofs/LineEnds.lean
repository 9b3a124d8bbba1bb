import LoxLexer.Proofs.RoundTrip
import LoxLexer.Proofs.Rows

/-!
# Line ends of two characters

Lines may end with a return and a newline instead of a newline alone.  If a
return is put before every newline of a source, the source has the same tokens
and errors as before, on the same lines: between tiles a return is white space
of its own, a comment takes it in, and whatever ends before a newline ends
before a return as well.  Only what is inside a string is kept as it is, so the
returns are in its lexeme and in its value.

* `afterBlock_crlf`: returns open and close no block comment.
* `Lexeme.crlf_eq`: only strings have returns put into them.
* `Lexeme.firstTile_crlf`: a lexeme with the returns in it is still one.
* `FirstTile.itemsOf_crlf`: the statement for the first tile of a source, which
  a return may join or follow as a tile of its own.
* `scan_crlf`: the statement for scans.
-/

namespace LoxLexer

/-- The text with a return put before every newline. -/
def crlf (text : List Char) : List Char :=
  text.flatMap fun c => if c = '\n' then ['\r', '\n'] else [c]

/-- The value with its contents changed, if it is a string. -/
def Literal.mapText (f : List Char → List Char) : Literal → Literal
  | string contents => string (f contents)
  | number value => number value

/-- The reading with the contents of a string changed. -/
def Reading.mapText (f : List Char → List Char) : Reading → Reading
  | token kind literal => token kind (literal.map (Literal.mapText f))
  | reading => reading

/-- The tile with its text changed, and with it the contents of a string. -/
def Tile.mapText (f : List Char → List Char) (t : Tile) : Tile := ⟨f t.text, t.reading.mapText f⟩

/-- The token with its lexeme changed, and with it the contents of a string. -/
def Token.mapText (f : List Char → List Char) (t : Token) : Token :=
  { t with lexeme := f t.lexeme, literal := t.literal.map (Literal.mapText f) }

/-- The item with the lexeme of its token changed. Errors stay as they are. -/
def Item.mapText (f : List Char → List Char) : Item → Item
  | token t => token (t.mapText f)
  | error e => error e

/-! ### Texts -/

@[simp] theorem crlf_nil : crlf [] = [] := rfl

@[simp] theorem crlf_append (s t : List Char) : crlf (s ++ t) = crlf s ++ crlf t :=
  List.flatMap_append

theorem crlf_cons_newline (text : List Char) :
    crlf ('\n' :: text) = '\r' :: '\n' :: crlf text := rfl

theorem crlf_cons_of_ne {c : Char} (h : c ≠ '\n') (text : List Char) :
    crlf (c :: text) = c :: crlf text := by
  rw [crlf, List.flatMap_cons, if_neg h]
  rfl

theorem crlf_of_not_mem {text : List Char} (h : '\n' ∉ text) : crlf text = text := by
  induction text with
  | nil => rfl
  | cons c cs ih =>
      obtain ⟨hc, hcs⟩ := not_or.mp (mt List.mem_cons.mpr h)
      rw [crlf_cons_of_ne (Ne.symm hc), ih hcs]

/-- Only returns are new. -/
theorem not_mem_crlf {c : Char} {text : List Char} (h : c ∉ text) (hc : c ≠ '\r') :
    c ∉ crlf text := by
  intro hmem
  obtain ⟨d, hd, hcd⟩ := List.mem_flatMap.mp hmem
  split at hcd
  · next hnewline =>
      simp only [List.mem_cons, List.not_mem_nil, or_false, hc, false_or] at hcd
      exact h (by rw [hcd, ← hnewline]; exact hd)
  · rw [List.mem_singleton.mp hcd] at h
    exact h hd

/-- No text but the one that begins with a newline gets another first character. -/
theorem exists_of_crlf_eq_cons {text tail : List Char} {c : Char} (h : crlf text = c :: tail)
    (hc : c ≠ '\r') : ∃ more, text = c :: more ∧ tail = crlf more := by
  cases text with
  | nil => cases h
  | cons d ds =>
      by_cases hd : d = '\n'
      · subst hd
        cases h
        exact absurd rfl hc
      · rw [crlf_cons_of_ne hd] at h
        cases h
        exact ⟨ds, rfl, rfl⟩

/-- Returns make no lines. -/
theorem newlines_crlf (text : List Char) : newlines (crlf text) = newlines text := by
  induction text with
  | nil => rfl
  | cons c cs ih =>
      by_cases hc : c = '\n'
      · subst hc
        have hsplit (text : List Char) : newlines ('\n' :: text) = 1 + newlines text :=
          newlines_append ['\n'] text
        rw [crlf_cons_newline, newlines_cons_of_ne (by decide), hsplit, hsplit, ih]
      · rw [crlf_cons_of_ne hc, newlines_cons_of_ne hc, newlines_cons_of_ne hc, ih]

/-! ### Block comments -/

/-- Returns open and close no block comment. -/
theorem afterBlock_crlf (depth : Nat) (cs : List Char) :
    afterBlock depth (crlf cs) = (afterBlock depth cs).map crlf := by
  fun_induction afterBlock depth cs with
  | case1 cs => rw [afterBlock]; rfl
  | case2 depth cs ih =>
      rw [crlf_cons_of_ne (by decide), crlf_cons_of_ne (by decide), afterBlock, ih]
  | case3 depth cs ih =>
      rw [crlf_cons_of_ne (by decide), crlf_cons_of_ne (by decide), afterBlock, ih]
  | case4 depth c cs hopen hclose ih =>
      by_cases hc : c = '\n'
      · subst hc
        rw [crlf_cons_newline, afterBlock.eq_4 _ _ _ (by simp) (by simp),
          afterBlock.eq_4 _ _ _ (by simp) (by simp), ih]
      -- What is no mark has not become one.
      · rw [crlf_cons_of_ne hc, afterBlock.eq_4, ih]
        · intro tail hslash hstar
          obtain ⟨more, rfl, -⟩ := exists_of_crlf_eq_cons hstar (by decide)
          exact hopen more hslash rfl
        · intro tail hstar hslash
          obtain ⟨more, rfl, -⟩ := exists_of_crlf_eq_cons hslash (by decide)
          exact hclose more hstar rfl
  | case5 depth => rw [crlf_nil, afterBlock]; rfl

/-- A block comment with the returns in it is read as one. -/
theorem Tile.blockComment_crlf (cs : List Char) :
    blockComment (crlf cs) = ((blockComment cs).1.mapText crlf, crlf (blockComment cs).2) := by
  have hmark (body : List Char) : crlf ('/' :: '*' :: body) = '/' :: '*' :: crlf body := by
    rw [crlf_cons_of_ne (by decide), crlf_cons_of_ne (by decide)]
  cases hafter : afterBlock 1 cs with
  | none =>
      have hafter' : afterBlock 1 (crlf cs) = none := by rw [afterBlock_crlf, hafter]; rfl
      simp only [blockComment, hafter, hafter', mapText, Reading.mapText, hmark, crlf_nil]
  | some rest =>
      have hafter' : afterBlock 1 (crlf cs) = some (crlf rest) := by
        rw [afterBlock_crlf, hafter]
        rfl
      obtain ⟨body, rfl⟩ := suffix_of_afterBlock hafter
      simp only [blockComment, hafter, hafter', mapText, Reading.mapText, hmark]
      simp

/-! ### Lexemes -/

/-- Returns change no token but strings. -/
theorem Lexeme.crlf_eq {text : List Char} {kind : Kind} {literal : Option Literal}
    (h : Lexeme text kind literal) (hkind : kind ≠ .string) :
    crlf text = text ∧ literal.map (Literal.mapText crlf) = literal := by
  constructor
  · exact crlf_of_not_mem fun hmem => by cases h.isSpace_eq_false hkind _ hmem
  · cases h <;> first | rfl | exact absurd rfl hkind

/-- A token that ends before some text ends before it with the returns in it. -/
theorem Tile.EndsBefore.crlf {text rest : List Char} {kind : Kind} {literal : Option Literal}
    (h : (Tile.mk text (.token kind literal)).EndsBefore rest) :
    (Tile.mk text (.token kind literal)).EndsBefore (crlf rest) := by
  match rest, h with
  | [], h => exact h
  | d :: more, h =>
      by_cases hd : d = '\n'
      · subst hd
        exact Tile.endsBefore_of_isSpace rfl _
      · rw [crlf_cons_of_ne hd]
        constructor
        · intro e more' heq
          obtain ⟨rfl, -⟩ := List.cons.inj heq
          exact h.stops d more rfl
        · intro hwhole e more' heq
          obtain ⟨rfl, htail⟩ := List.cons.inj heq
          by_cases he : e = '\r'
          · subst he
            rfl
          · obtain ⟨tail, rfl, -⟩ := exists_of_crlf_eq_cons htail he
            exact h.noPlaces hwhole e tail rfl

/-- A lexeme with the returns in it is read as a token of the same kind. -/
theorem Lexeme.firstTile_crlf {text rest : List Char} {kind : Kind} {literal : Option Literal}
    (h : Lexeme text kind literal)
    (hends : (Tile.mk text (.token kind literal)).EndsBefore rest) :
    FirstTile (crlf (text ++ rest)) ((Tile.mk text (.token kind literal)).mapText crlf)
      (crlf rest) := by
  rw [crlf_append, Tile.mapText, Reading.mapText]
  by_cases hkind : kind = .string
  · subst hkind
    obtain ⟨contents, rfl, rfl, hcontents⟩ := h.exists_contents
    have htext : crlf ('"' :: contents ++ ['"']) = '"' :: crlf contents ++ ['"'] := by
      rw [crlf_append, List.cons_append, crlf_cons_of_ne (by decide)]
      rfl
    rw [htext]
    have hstring := Lexeme.string (not_mem_crlf hcontents (by decide))
    exact hstring.firstTile ⟨fun _ _ _ => rfl, fun hwhole => by cases hwhole⟩
  · obtain ⟨htext, hliteral⟩ := h.crlf_eq hkind
    rw [htext, hliteral]
    exact h.firstTile hends.crlf

/-! ### Tiles -/

/-- A tile with the returns in it stands for the same item, with the returns in it. -/
theorem Tile.item?_crlf (t : Tile) (line : Nat) :
    (t.mapText crlf).item? line = (t.item? line).map (Item.mapText crlf) := by
  obtain ⟨text, reading⟩ := t
  cases reading with
  | blank => rfl
  | token kind literal => rfl
  | fault fault =>
      refine congrArg (fun n => some (Item.error ⟨fault, line + n⟩)) ?_
      exact newlines_crlf text

/-- What is said below of the first tile of a source, if it is read there with
the returns in it. -/
theorem itemsOf_of_mapText {source rest : List Char} {t : Tile}
    (h : FirstTile (crlf source) (t.mapText crlf) (crlf rest)) (line : Nat) :
    itemsOf line (tilesOf (crlf source)) =
      ((t.item? line).map (Item.mapText crlf)).toList ++
        itemsOf (line + newlines t.text) (tilesOf (crlf rest)) := by
  have hlines : newlines (t.mapText crlf).text = newlines t.text := newlines_crlf t.text
  rw [tilesOf_of_firstTile h, itemsOf, Tile.item?_crlf, hlines]

/-- A block comment with the returns in it is read as one. -/
theorem FirstTile.crlf_of_opening {source rest : List Char} {t : Tile}
    (h : FirstTile source t rest) (hopen : ['/', '*'] <+: source) :
    FirstTile (crlf source) (t.mapText crlf) (crlf rest) := by
  obtain ⟨cs, rfl⟩ := hopen
  have hread : Tile.blockComment cs = (t, rest) := firstTile_iff.mp h
  have hread' := Tile.blockComment_crlf cs
  rw [hread] at hread'
  exact firstTile_iff.mpr hread'

/-- A return goes in front of the newline behind a comment, and joins the comment. -/
theorem itemsOf_lineComment_crlf {body rest : List Char} (hbody : '\n' ∉ body)
    (hrest : rest = [] ∨ ∃ more, rest = '\n' :: more) (line : Nat) :
    itemsOf line (tilesOf (crlf ('#' :: body ++ rest))) =
      itemsOf (line + newlines ('#' :: body)) (tilesOf (crlf rest)) := by
  have htext : crlf ('#' :: body) = '#' :: body := by
    rw [crlf_cons_of_ne (by decide), crlf_of_not_mem hbody]
  rw [crlf_append, htext]
  rcases hrest with rfl | ⟨more, rfl⟩
  · exact itemsOf_of_blank (.lineComment rfl hbody (Or.inl rfl)) line
  · have hbody' : '\n' ∉ body ++ ['\r'] := by simp [hbody]
    have hcomment : FirstTile ('#' :: body ++ '\r' :: '\n' :: crlf more)
        ⟨'#' :: (body ++ ['\r']), .blank⟩ ('\n' :: crlf more) :=
      .lineComment (by simp) hbody' (Or.inr ⟨_, rfl⟩)
    have hreturn : FirstTile ('\r' :: '\n' :: crlf more) ⟨['\r'], .blank⟩ ('\n' :: crlf more) :=
      .space rfl (by decide)
    have hlines : newlines ('#' :: (body ++ ['\r'])) = newlines ('#' :: body) + newlines ['\r'] :=
      newlines_append ('#' :: body) ['\r']
    rw [crlf_cons_newline, itemsOf_of_blank hcomment, itemsOf_of_blank hreturn, hlines,
      Nat.add_assoc]

/-- The first tile of a source is read with the returns in it, but for a return
that may join its end or stand before it. -/
theorem FirstTile.itemsOf_crlf {source rest : List Char} {t : Tile} (h : FirstTile source t rest)
    (line : Nat) :
    itemsOf line (tilesOf (crlf source)) =
      ((t.item? line).map (Item.mapText crlf)).toList ++
        itemsOf (line + newlines t.text) (tilesOf (crlf rest)) := by
  have hends := h.endsBefore
  have hopening := h.crlf_of_opening
  cases h with
  | @space c rest hsplit hspace =>
      subst hsplit
      by_cases hc : c = '\n'
      · subst hc
        have hreturn : FirstTile ('\r' :: '\n' :: crlf rest) ⟨['\r'], .blank⟩
            ('\n' :: crlf rest) := .space rfl (by decide)
        have hnewline : FirstTile ('\n' :: crlf rest) ⟨['\n'], .blank⟩ (crlf rest) :=
          .space rfl (by decide)
        rw [crlf_cons_newline, itemsOf_of_blank hreturn, itemsOf_of_blank hnewline]
        rfl
      · rw [crlf_cons_of_ne hc, itemsOf_of_blank (.space rfl hspace)]
        rfl
  | lineComment hsplit hbody hrest =>
      subst hsplit
      exact itemsOf_lineComment_crlf hbody hrest line
  | blockComment hsplit hcomplete =>
      have hopen : ['/', '*'] <+: source := hcomplete.1.trans ⟨_, hsplit.symm⟩
      exact itemsOf_of_mapText (hopening hopen) line
  | openComment hopen hnever => exact itemsOf_of_mapText (hopening hopen) line
  | openString hsplit hbody =>
      subst hsplit
      refine itemsOf_of_mapText ?_ line
      rw [Tile.mapText, crlf_cons_of_ne (by decide)]
      exact .openString rfl (not_mem_crlf hbody (by decide))
  | lexeme hplain hsplit hlexeme hlongest =>
      subst hsplit
      exact itemsOf_of_mapText (hlexeme.firstTile_crlf hends) line
  | @stray c rest hplain hsplit hnone =>
      subst hsplit
      have hstray := isStray_of_plain hplain hnone
      have hc : c ≠ '\n' := ne_newline_of_isSpace hstray.isSpace
      refine itemsOf_of_mapText ?_ line
      rw [Tile.mapText, crlf_cons_of_ne hc, crlf_cons_of_ne hc]
      exact hstray.firstTile (crlf rest)

/-- The items of a source with the returns in it. -/
theorem itemsOf_crlf (source : List Char) (line : Nat) :
    itemsOf line (tilesOf (crlf source)) =
      (itemsOf line (tilesOf source)).map (Item.mapText crlf) := by
  fun_induction tilesOf source generalizing line with
  | case1 => rw [crlf_nil, tilesOf]; rfl
  | case2 c cs ih =>
      rw [(Tile.first_firstTile c cs).itemsOf_crlf line, ih, itemsOf, List.map_append,
        Option.toList_map]

/-- **Line ends.**  If a return is put before every newline of a source, a scan
returns the same tokens as before, of the same kinds, on the same lines and with
the same numbers; returns are put before the newlines in their lexemes and in
the values of strings.  It reports the same errors on the same lines. -/
theorem scan_crlf (source : List Char) :
    (scan (crlf source)).tokens = (scan source).tokens.map (Token.mapText crlf) ∧
      (scan (crlf source)).sink.toList = (scan source).sink.toList := by
  constructor
  · rw [tokens_scan, tokens_scan, itemsOf_crlf, newlines_crlf, List.map_append,
      List.filterMap_map, List.map_filterMap]
    congr 2
    funext item
    cases item <;> rfl
  · rw [errors_scan, errors_scan, itemsOf_crlf, List.filterMap_map]
    congr 1
    funext item
    cases item <;> rfl

end LoxLexer
