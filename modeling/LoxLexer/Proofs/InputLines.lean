import LoxLexer.Proofs.Decoding
import LoxLexer.Text.Lines
import LoxLexer.Text.Typed
import Mathlib.Data.List.TakeWhile

/-!
# Lines of input

Input comes as bytes and is cut into lines of bytes; each line is read as text,
and what was typed is made out of it.  None of this looks further than the end
of a line.  So input that ends with a line end can be cut off from what follows
it, and if all of it is text, it may as well be read first and cut into lines of
text.

* `line_induction`: a list is a row of lines, each with its end, and a last line
  without one.
* `linesOf_append`: the lines of input behind a line end.
* `linesOf_encode`: the lines of a text.
* `Typed.line?_of_not_mem`: a line without backspaces is taken as it stands.
-/

namespace LoxLexer

/-- A text without the return that it ends with, if it does. -/
def withoutReturn (line : List Char) : List Char :=
  if line.getLast? = some '\r' then line.dropLast else line

/-- The lines of a text: what stands before each newline, without a return right
before that, and what stands behind the last one, if anything does. -/
def textLines (text : List Char) : List (List Char) :=
  (text.splitOn '\n').dropLast.map withoutReturn ++
    (text.splitOn '\n').getLast?.toList.filter (· ≠ [])

/-! ### Cutting off a line -/

/-- A property holds of a list if it holds of a line without an end, and can be
carried from what stands behind the end of a line to the line and its end. -/
@[elab_as_elim]
theorem line_induction {α : Type} [DecidableEq α] (ending : α) {motive : List α → Prop}
    (last : ∀ line, ending ∉ line → motive line)
    (cons : ∀ line rest, ending ∉ line → motive rest → motive (line ++ ending :: rest))
    (text : List α) : motive text := by
  by_cases hmem : ending ∈ text
  · obtain ⟨line, rest, rfl, hline⟩ := List.eq_append_cons_of_mem hmem
    exact cons line rest hline (line_induction ending last cons rest)
  · exact last text hmem
termination_by text.length
decreasing_by
  subst_vars
  simp only [List.length_append, List.length_cons]
  omega

section Bytes

variable {line : List UInt8} (hline : 10 ∉ line)
include hline

theorem forall_ne_newline : ∀ b ∈ line, (b != 10) = true := by
  intro b hb
  rw [bne_iff_ne]
  exact fun heq => hline (heq ▸ hb)

/-- Bytes without a line end are one line, if there are any. -/
theorem linesOf_last : linesOf line = if line = [] then [] else [line] := by
  have hdrop : line.dropWhile (· != 10) = [] :=
    List.dropWhile_eq_nil_iff.mpr (forall_ne_newline hline)
  rw [linesOf]
  split
  · simp
  · next heq => rw [hdrop] at heq; cases heq

/-- The first line is what stands before the first line end, without its return. -/
theorem linesOf_cons (rest : List UInt8) :
    linesOf (line ++ 10 :: rest) = dropReturn line :: linesOf rest := by
  have hdrop : (line ++ 10 :: rest).dropWhile (· != 10) = 10 :: rest := by
    rw [List.dropWhile_append_of_pos (forall_ne_newline hline)]
    rfl
  have htake : (line ++ 10 :: rest).takeWhile (· != 10) = line := by
    rw [List.takeWhile_append_of_pos (forall_ne_newline hline)]
    exact List.append_nil line
  rw [linesOf]
  split
  · next heq => rw [hdrop] at heq; cases heq
  · next heq =>
      rw [hdrop] at heq
      obtain ⟨-, rfl⟩ := List.cons.inj heq
      rw [htake]

end Bytes

/-- What stands behind a line end is cut into lines for itself. -/
theorem linesOf_append {front : List UInt8} (h : front = [] ∨ front.getLast? = some 10)
    (rest : List UInt8) : linesOf (front ++ rest) = linesOf front ++ linesOf rest := by
  induction front using line_induction (10 : UInt8) with
  | last line hline =>
      have hempty : line = [] := by
        rcases h with h | h
        · exact h
        · exact absurd (List.mem_of_getLast? h) hline
      subst hempty
      rw [linesOf_last hline]
      rfl
  | cons line more hline ih =>
      have hmore : more = [] ∨ more.getLast? = some 10 := by
        rcases h with h | h
        · exact absurd h (List.append_ne_nil_of_right_ne_nil _ (List.cons_ne_nil _ _))
        · rw [List.getLast?_append_cons] at h
          cases more with
          | nil => exact Or.inl rfl
          | cons b bs => exact Or.inr h
      rw [List.append_assoc, List.cons_append, linesOf_cons hline, linesOf_cons hline, ih hmore]
      rfl

/-- What is cut off behind the last line end is what stands behind it, and the rest is
nothing or ends with a line end. -/
theorem splitEnded_cases (bytes : List UInt8) :
    (splitEnded bytes).1 ++ (splitEnded bytes).2 = bytes ∧
      ((splitEnded bytes).1 = [] ∨ (splitEnded bytes).1.getLast? = some 10) := by
  constructor
  · rw [splitEnded, ← List.reverse_append, List.takeWhile_append_dropWhile, List.reverse_reverse]
  · rw [splitEnded, List.getLast?_reverse, List.reverse_eq_nil_iff]
    cases hended : bytes.reverse.dropWhile (· != 10) with
    | nil => exact Or.inl rfl
    | cons b bs =>
        have hlast := List.head?_dropWhile_not (· != 10) bytes.reverse
        rw [hended] at hlast
        exact Or.inr (by simpa using hlast)

theorem not_mem_dropReturn {b : UInt8} {line : List UInt8} (h : b ∉ line) :
    b ∉ dropReturn line := by
  unfold dropReturn
  split
  · exact fun hmem => h (List.dropLast_subset line hmem)
  · exact h

/-- A line has no line end in it. -/
theorem not_mem_of_mem_linesOf {line bytes : List UInt8} (h : line ∈ linesOf bytes) :
    10 ∉ line := by
  induction bytes using line_induction (10 : UInt8) with
  | last last hlast =>
      rw [linesOf_last hlast] at h
      split at h
      · cases h
      · rwa [List.mem_singleton.mp h]
  | cons first rest hfirst ih =>
      rw [linesOf_cons hfirst] at h
      rcases List.mem_cons.mp h with rfl | hlater
      · exact not_mem_dropReturn hfirst
      · exact ih hlater

section Text

variable {line : List Char} (hline : '\n' ∉ line)
include hline

/-- A text without a line end is one line, if it is not empty. -/
theorem textLines_last : textLines line = if line = [] then [] else [line] := by
  rw [textLines, List.splitOn_eq_singleton hline]
  by_cases hempty : line = []
  · subst hempty
    rfl
  · simp [hempty]

/-- The first line of a text is what stands before its first newline, without its return. -/
theorem textLines_cons (rest : List Char) :
    textLines (line ++ '\n' :: rest) = withoutReturn line :: textLines rest := by
  have hne : rest.splitOn '\n' ≠ [] := List.splitOn_ne_nil '\n' rest
  rw [textLines, List.splitOn_append_cons_self_of_not_mem hline, List.dropLast_cons_of_ne_nil hne,
    List.getLast?_cons_of_ne_nil hne]
  rfl

end Text

/-! ### Encodings -/

namespace Utf8

@[simp] theorem encode_nil : encode [] = [] := rfl

@[simp] theorem encode_append (s t : List Char) : encode (s ++ t) = encode s ++ encode t :=
  List.flatMap_append

theorem encode_cons (c : Char) (text : List Char) :
    encode (c :: text) = String.utf8EncodeChar c ++ encode text := rfl

/-- The encoding of a text is cut into those of its characters. -/
theorem decoding_encode (text : List Char) :
    Decoding (encode text) (text.map fun c => (String.utf8EncodeChar c, some c)) := by
  induction text with
  | nil => exact .nil
  | cons c cs ih => exact .char c ih

/-- Encoded characters are the pieces of an encoded text. -/
theorem pieces_encode (text : List Char) : pieces (encode text) = text.map some := by
  rw [(decoding_encode text).pieces_eq, List.map_map]
  rfl

/-- What has been encoded is read back, also by a reader that would put up with
anything. -/
theorem decodeLossy_encode (text : List Char) : decodeLossy (encode text) = text := by
  rw [decodeLossy, pieces_encode, List.map_map]
  exact List.map_id text

/-- A row of answers holds an answer to every question if each of them is one. -/
theorem mapM_id_eq_some_iff {α : Type} {xs : List (Option α)} {ys : List α} :
    xs.mapM id = some ys ↔ xs = ys.map some := by
  induction xs generalizing ys with
  | nil => cases ys <;> simp
  | cons x xs ih =>
      cases x with
      | none => cases ys <;> simp [List.mapM_cons]
      | some x =>
          have hcons : (some x :: xs).mapM id = (xs.mapM id).map (x :: ·) := by
            rw [List.mapM_cons]
            cases xs.mapM id <;> rfl
          rw [hcons]
          cases ys <;> simp [ih, and_comm]

/-- An encoded text is decoded again. -/
theorem decode?_encode (text : List Char) : decode? (encode text) = some text := by
  rw [decode?, pieces_encode, mapM_id_eq_some_iff]

/-- Only the encoding of a text is read as that text. -/
theorem eq_encode_of_decode? {bytes : List UInt8} {text : List Char}
    (h : decode? bytes = some text) : bytes = encode text := by
  obtain ⟨segments, hdecoding⟩ := exists_decoding bytes
  rw [decode?, hdecoding.pieces_eq, mapM_id_eq_some_iff] at h
  induction hdecoding generalizing text with
  | nil =>
      cases text with
      | nil => rfl
      | cons => cases h
  | char c _ ih =>
      cases text with
      | nil => cases h
      | cons d ds =>
          obtain ⟨hhead, htail⟩ := List.cons.inj h
          obtain rfl := Option.some.inj hhead
          rw [ih htail, encode_cons]
  | illFormed =>
      cases text with
      | nil => cases h
      | cons => cases (List.cons.inj h).1

/-- A character has one byte of its own, or none that is the byte of another one. -/
theorem utf8EncodeChar_cases (c : Char) :
    (∃ b, b.toNat < 128 ∧ String.utf8EncodeChar c = [b] ∧ Char.ofNat b.toNat = c) ∨
      ∀ b ∈ String.utf8EncodeChar c, 0x80 ≤ b := by
  rcases Nat.lt_or_ge c.val.toNat 128 with hc | hc
  · exact Or.inl (encode_of_lt hc)
  · right
    obtain ⟨b, l, tail, hencode, hlead, hcontinues, -⟩ := exists_lead c hc
    have hb : 0x80 ≤ b := by
      rw [UInt8.le_iff_toNat_le]
      rcases lead_cases hlead with hrange | hrange | hrange <;>
        exact Nat.le_trans (by decide) hrange.1
    rw [hencode]
    exact List.forall_mem_cons.mpr ⟨hb, hcontinues.le (lead_bounds hlead).1⟩

/-- A byte that is a character of its own stands for that character only. -/
theorem mem_encode {b : UInt8} (hb : b.toNat < 128) {text : List Char} (h : b ∈ encode text) :
    Char.ofNat b.toNat ∈ text := by
  obtain ⟨c, hc, hmem⟩ := List.mem_flatMap.mp h
  rcases utf8EncodeChar_cases c with ⟨b', -, hencode, rfl⟩ | hhigh
  · rw [hencode, List.mem_singleton] at hmem
    rwa [hmem]
  · have hle := UInt8.le_iff_toNat_le.mp (hhigh b hmem)
    exact absurd hb (Nat.not_lt_of_le hle)

/-- Only a newline is encoded with the byte of a line end. -/
theorem not_mem_encode {text : List Char} (h : '\n' ∉ text) : 10 ∉ encode text :=
  fun hmem => h (mem_encode (by decide) hmem)

theorem encode_eq_nil {text : List Char} : encode text = [] ↔ text = [] := by
  constructor
  · intro h
    cases text with
    | nil => rfl
    | cons c cs =>
        rw [encode_cons] at h
        exact absurd (List.append_eq_nil_iff.mp h).1 String.utf8EncodeChar_ne_nil
  · rintro rfl
    rfl

/-- A return at the end of a text is one at the end of its encoding. -/
theorem dropReturn_encode (line : List Char) :
    dropReturn (encode line) = encode (withoutReturn line) := by
  rcases List.eq_nil_or_concat line with rfl | ⟨front, c, rfl⟩
  · rfl
  by_cases hc : c = '\r'
  · subst hc
    have hencode : encode (front ++ ['\r']) = encode front ++ [13] := encode_append front ['\r']
    rw [List.concat_eq_append, hencode, dropReturn, withoutReturn]
    simp
  · have hlast : (encode (front ++ [c])).getLast? ≠ some 13 := by
      intro hreturn
      have hne : String.utf8EncodeChar c ≠ [] := String.utf8EncodeChar_ne_nil
      have hsingle : encode [c] = String.utf8EncodeChar c := by
        rw [encode_cons, encode_nil, List.append_nil]
      rw [encode_append, hsingle, List.getLast?_append_of_ne_nil _ hne] at hreturn
      have hmem : 13 ∈ encode [c] := hsingle ▸ List.mem_of_getLast? hreturn
      exact hc (List.mem_singleton.mp (mem_encode (by decide) hmem)).symm
    rw [List.concat_eq_append, dropReturn, if_neg hlast, withoutReturn, List.getLast?_concat,
      if_neg (by simpa using hc)]

/-- **The lines of a text.**  It makes no difference whether text is encoded and then
cut into lines, or the other way round. -/
theorem linesOf_encode (text : List Char) :
    linesOf (encode text) = (textLines text).map encode := by
  induction text using line_induction '\n' with
  | last line hline =>
      rw [linesOf_last (not_mem_encode hline), textLines_last hline]
      by_cases hempty : line = []
      · rw [if_pos hempty, if_pos (encode_eq_nil.mpr hempty)]
        rfl
      · rw [if_neg hempty, if_neg (mt encode_eq_nil.mp hempty)]
        rfl
  | cons line rest hline ih =>
      have hencode : encode (line ++ '\n' :: rest) = encode line ++ 10 :: encode rest :=
        encode_append line ('\n' :: rest)
      rw [hencode, linesOf_cons (not_mem_encode hline), dropReturn_encode, textLines_cons hline, ih]
      rfl

/-- What is behind a cut was there before. -/
theorem subset_of_cut? {n : Nat} {text front rest : List Char}
    (h : cut? n text = some (front, rest)) : rest ⊆ text := by
  induction text generalizing n front with
  | nil =>
      cases n with
      | zero => cases h; exact List.Subset.refl _
      | succ n => cases h
  | cons c cs ih =>
      cases n with
      | zero => cases h; exact List.Subset.refl _
      | succ n =>
          rw [cut?] at h
          split at h
          · obtain ⟨⟨front', rest'⟩, hcut, heq⟩ := Option.map_eq_some_iff.mp h
            cases heq
            exact List.subset_cons_of_subset c (ih hcut)
          · cases h

end Utf8

/-! ### What was typed -/

namespace Typed

/-- Whatever is pressed but a backspace is kept. -/
theorem press_of_ne {cluster : List Char} (h : cluster ≠ [backspace]) (t : Typed) :
    t.press cluster = some ⟨Utf8.size cluster % 256 :: t.sizes, cluster.reverse ++ t.kept⟩ :=
  if_neg h

/-- Keys other than backspaces are kept, all of them and in order. -/
theorem foldlM_press_of_not_mem {pieces : List (List Char)} (h : backspace ∉ pieces.flatten)
    (t : Typed) :
    ∃ sizes, pieces.foldlM press t = some ⟨sizes, pieces.flatten.reverse ++ t.kept⟩ := by
  induction pieces generalizing t with
  | nil => exact ⟨t.sizes, rfl⟩
  | cons piece pieces ih =>
      rw [List.flatten_cons, List.mem_append] at h
      obtain ⟨hpiece, hpieces⟩ := not_or.mp h
      have hne : piece ≠ [backspace] := fun heq => hpiece (heq ▸ List.mem_singleton_self _)
      obtain ⟨sizes, hfold⟩ := ih hpieces
        ⟨Utf8.size piece % 256 :: t.sizes, piece.reverse ++ t.kept⟩
      refine ⟨sizes, ?_⟩
      rw [List.foldlM_cons, press_of_ne hne, List.flatten_cons, List.reverse_append,
        List.append_assoc]
      exact hfold

/-- A line without backspaces is taken as it stands. -/
theorem line?_of_not_mem {keys : List Char} (h : backspace ∉ keys) : line? keys = some keys := by
  rw [← flatten_clusters keys] at h
  obtain ⟨sizes, hfold⟩ := foldlM_press_of_not_mem h {}
  rw [line?, hfold, flatten_clusters]
  simp

/-- What is kept was there before or has been pressed now. -/
theorem mem_of_press {t t' : Typed} {cluster : List Char} (h : t.press cluster = some t') :
    ∀ c ∈ t'.kept, c ∈ t.kept ∨ c ∈ cluster := by
  intro c hc
  by_cases hback : cluster = [backspace]
  · rw [press, if_pos hback] at h
    split at h
    · cases h
      exact Or.inl hc
    · obtain ⟨halves, hcut, rfl⟩ := Option.map_eq_some_iff.mp h
      exact Or.inl (Utf8.subset_of_cut? hcut hc)
  · rw [press_of_ne hback] at h
    cases h
    rcases List.mem_append.mp hc with hnew | hold
    · exact Or.inr (List.mem_reverse.mp hnew)
    · exact Or.inl hold

/-- No key makes a character that was not typed. -/
theorem mem_of_foldlM_press {t t' : Typed} {pieces : List (List Char)}
    (h : pieces.foldlM press t = some t') : ∀ c ∈ t'.kept, c ∈ t.kept ∨ c ∈ pieces.flatten := by
  induction pieces generalizing t with
  | nil =>
      cases h
      exact fun c hc => Or.inl hc
  | cons piece pieces ih =>
      rw [List.foldlM_cons] at h
      obtain ⟨between, hpress, hfold⟩ := Option.bind_eq_some_iff.mp (h : Option.bind _ _ = _)
      intro c hc
      rw [List.flatten_cons, List.mem_append]
      rcases ih hfold c hc with hearly | hlate
      · exact (mem_of_press hpress c hearly).imp_right Or.inl
      · exact Or.inr (Or.inr hlate)

/-- Nothing is in a line that was not typed. -/
theorem subset_of_line? {keys text : List Char} (h : line? keys = some text) : text ⊆ keys := by
  obtain ⟨t, hfold, rfl⟩ := Option.map_eq_some_iff.mp h
  intro c hc
  rcases mem_of_foldlM_press hfold c (List.mem_reverse.mp hc) with hnever | hkey
  · cases hnever
  · rwa [flatten_clusters] at hkey

end Typed

end LoxLexer
