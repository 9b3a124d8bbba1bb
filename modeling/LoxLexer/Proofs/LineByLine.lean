import LoxLexer.Proofs.Rows

/-!
# Line by line

A text that leaves nothing open can be scanned apart from what is on the lines
below it.  Every tile of such a text ends before a line end if it ends at the
end of the text, whichever reader was at work there: one that waits for a digit
behind a point, for the second character of a symbol, for more of a word or for
the end of a comment.

* `Tile.EndsBefore.append_newline`: the statement for one tile.
* `tilesOf_append_newline`: the statement for a row of tiles.
* `scan_append_newline`: the statement for scans.
-/

namespace LoxLexer

/-- A scan of the text reports no string and no comment that is left open. -/
def LeavesNothingOpen (source : List Char) : Prop :=
  ∀ e ∈ (scan source).sink.toList,
    e.fault ≠ .unterminatedString ∧ e.fault ≠ .unterminatedBlockComment

/-- A tile that is left open at the end of its source. -/
def Tile.IsOpen (t : Tile) : Prop :=
  t.reading = .fault .unterminatedString ∨ t.reading = .fault .unterminatedBlockComment

/-- A line end belongs to nothing but what is left open. -/
theorem Tile.takes_newline {t : Tile} (h : ¬ t.IsOpen) : t.takes '\n' = false := by
  obtain ⟨text, reading⟩ := t
  cases reading with
  | blank => simp [takes]
  | token kind literal => exact takes_token_of_isSpace rfl
  | fault fault =>
      cases fault with
      | unterminatedString => exact absurd (Or.inl rfl) h
      | unterminatedBlockComment => exact absurd (Or.inr rfl) h
      | _ => rfl

/-- What ends at the end of a text ends before white space, if that does not belong to it. -/
theorem Tile.EndsBefore.append_space {t : Tile} {rest : List Char} (h : t.EndsBefore rest)
    {c : Char} (hc : isSpace c) (htakes : rest = [] → t.takes c = false) (text : List Char) :
    t.EndsBefore (rest ++ c :: text) := by
  constructor
  · intro d more heq
    cases rest with
    | nil =>
        obtain ⟨rfl, -⟩ := List.cons.inj heq
        exact htakes rfl
    | cons e rest =>
        obtain ⟨rfl, -⟩ := List.cons.inj heq
        exact h.stops e rest rfl
  · intro hwhole d more heq
    match rest, h, heq with
    | [], _, heq => cases heq; cases hc
    | [_], _, heq => cases heq; exact (class_of_isSpace hc).2.2.1
    | _ :: e :: rest, h, heq => cases heq; exact h.noPlaces hwhole _ _ rfl

/-- What ends at the end of a text ends before a line end. -/
theorem Tile.EndsBefore.append_newline {t : Tile} {rest : List Char} (h : t.EndsBefore rest)
    (hopen : ¬ t.IsOpen) (text : List Char) : t.EndsBefore (rest ++ '\n' :: text) :=
  h.append_space rfl (fun _ => t.takes_newline hopen) text

/-- Two rows fit with a line end between them. -/
theorem Fits.append_newline {ts us : List Tile} (hts : Fits ts) (hus : Fits us)
    (hopen : ∀ t ∈ ts, ¬ t.IsOpen) : Fits (ts ++ ⟨['\n'], .blank⟩ :: us) := by
  induction hts with
  | nil =>
      have hnewline : FirstTile ['\n'] ⟨['\n'], .blank⟩ [] := .space rfl (by decide)
      have hends : FirstTile ('\n' :: us.flatMap Tile.text) ⟨['\n'], .blank⟩
          (us.flatMap Tile.text) := .space rfl (by decide)
      exact .cons hnewline hends.endsBefore hus
  | @cons t ts halone hends _ ih =>
      obtain ⟨hhere, hlater⟩ := List.forall_mem_cons.mp hopen
      have hends' := hends.append_newline hhere (us.flatMap Tile.text)
      have htext : (ts ++ ⟨['\n'], .blank⟩ :: us).flatMap Tile.text =
          ts.flatMap Tile.text ++ '\n' :: us.flatMap Tile.text := by
        rw [List.flatMap_append, List.flatMap_cons]
        rfl
      exact .cons halone (htext ▸ hends') (ih hlater)

/-- The tiles of a text that leaves nothing open, with a line below it. -/
theorem tilesOf_append_newline {source : List Char} (hopen : ∀ t ∈ tilesOf source, ¬ t.IsOpen)
    (text : List Char) :
    tilesOf (source ++ '\n' :: text) = tilesOf source ++ ⟨['\n'], .blank⟩ :: tilesOf text := by
  have hfits := (fits_tilesOf source).append_newline (fits_tilesOf text) hopen
  have htiles := tilesOf_flatMap_text hfits
  rwa [List.flatMap_append, List.flatMap_cons, flatMap_text_tilesOf, flatMap_text_tilesOf]
    at htiles

/-- What a row of tiles finds wrong is among the errors of the row. -/
theorem exists_error_of_mem {t : Tile} {ts : List Tile} {fault : Fault} (hmem : t ∈ ts)
    (hreading : t.reading = .fault fault) (line : Nat) :
    ∃ line', ⟨fault, line'⟩ ∈ (itemsOf line ts).filterMap Item.error? := by
  induction ts generalizing line with
  | nil => cases hmem
  | cons u ts ih =>
      rw [itemsOf, List.filterMap_append]
      rcases List.mem_cons.mp hmem with rfl | hlater
      · refine ⟨line + newlines t.text, List.mem_append_left _ ?_⟩
        simp [Tile.item?, hreading, Item.error?]
      · obtain ⟨line', herror⟩ := ih hlater (line + newlines u.text)
        exact ⟨line', List.mem_append_right _ herror⟩

/-- Where nothing is left open, no tile is. -/
theorem LeavesNothingOpen.not_isOpen {source : List Char} (h : LeavesNothingOpen source) :
    ∀ t ∈ tilesOf source, ¬ t.IsOpen := by
  intro t hmem hopen
  rcases hopen with hstring | hcomment
  · obtain ⟨line, herror⟩ := exists_error_of_mem hmem hstring 1
    exact (h _ (errors_scan source ▸ herror)).1 rfl
  · obtain ⟨line, herror⟩ := exists_error_of_mem hmem hcomment 1
    exact (h _ (errors_scan source ▸ herror)).2 rfl

/-- The items of a text that leaves nothing open, with a line below it. -/
theorem itemsOf_append_newline {source : List Char} (h : LeavesNothingOpen source)
    (text : List Char) :
    itemsOf 1 (tilesOf (source ++ '\n' :: text)) = itemsOf 1 (tilesOf source) ++
      (itemsOf 1 (tilesOf text)).map (Item.shift (1 + newlines source)) := by
  have hline : 1 + newlines source + newlines ['\n'] = 1 + (1 + newlines source) :=
    Nat.add_comm _ 1
  rw [tilesOf_append_newline h.not_isOpen, itemsOf_append, flatMap_text_tilesOf, ← itemsOf_add,
    ← hline]
  rfl

/-- **Line by line.**  If a text leaves nothing open, a scan of it with more
text on the lines below returns its tokens without the end mark and then those
of the other text, moved down; and it reports its errors and then those of the
other text, moved down. -/
theorem scan_append_newline {source : List Char} (hopen : LeavesNothingOpen source)
    (text : List Char) :
    ∃ tokens, (scan source).tokens = tokens ++ [.endOfFile (1 + newlines source)] ∧
      (scan (source ++ '\n' :: text)).tokens =
        tokens ++ (scan text).tokens.map (Token.shift (1 + newlines source)) ∧
      (scan (source ++ '\n' :: text)).sink.toList = (scan source).sink.toList ++
        (scan text).sink.toList.map (LexicalError.shift (1 + newlines source)) := by
  refine ⟨_, tokens_scan source, ?_, ?_⟩
  · have hline : newlines (source ++ '\n' :: text) = newlines source + (1 + newlines text) := by
      rw [newlines_append]
      simp [newlines, Nat.add_comm]
    rw [tokens_scan, tokens_scan, itemsOf_append_newline hopen, List.filterMap_append,
      filterMap_token?_shift, hline]
    simp [Token.shift, Token.endOfFile, Nat.add_comm, Nat.add_left_comm]
  · rw [errors_scan, errors_scan, errors_scan, itemsOf_append_newline hopen,
      List.filterMap_append, filterMap_error?_shift]

/-- A numeral with a point behind it and a digit on the line below. -/
theorem scan_append_newline_point :
    LeavesNothingOpen ['@', '1', '.'] ∧
      (scan (['@', '1', '.'] ++ '\n' :: ['5', '"'])).tokens =
        [⟨.number, ['1'], some (.number (.ofNumeral ['1'] [])), 1⟩, ⟨.symbol .dot, ['.'], none, 1⟩,
          ⟨.number, ['5'], some (.number (.ofNumeral ['5'] [])), 2⟩, .endOfFile 2] ∧
      (scan (['@', '1', '.'] ++ '\n' :: ['5', '"'])).sink.toList =
        [⟨.unexpectedCharacter '@', 1⟩, ⟨.unterminatedString, 2⟩] := by
  have hopen : LeavesNothingOpen ['@', '1', '.'] := by
    unfold LeavesNothingOpen
    decide +kernel
  obtain ⟨tokens, htokens, hall, herrors⟩ := scan_append_newline hopen ['5', '"']
  refine ⟨hopen, hall.trans ?_, herrors.trans (by decide +kernel)⟩
  have hfirst : (scan ['@', '1', '.']).tokens =
      [⟨.number, ['1'], some (.number (.ofNumeral ['1'] [])), 1⟩,
        ⟨.symbol .dot, ['.'], none, 1⟩] ++ [.endOfFile 1] := by decide +kernel
  rw [← List.append_cancel_right (hfirst.symm.trans htokens)]
  decide +kernel

end LoxLexer
