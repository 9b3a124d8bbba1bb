import LoxLexer.Proofs.RoundTrip

/-!
# Block comments by grammar

A block comment is an opening mark, a row of items and a closing mark.  An item
is a block comment in its turn or a single character; only where a character
makes a mark together with the one behind it can it not be read singly.  So the
grammar says what counting says, without a count.

Counting is for any number of comments at once, the grammar for one at a time.
Between the two stands a row of tails, one for each comment that is open.

* `CommentTail.afterBlock_append`: a tail closes one comment.
* `exists_tails_of_afterBlock`: what closes `depth` comments is a row of as many
  tails.
* `nestedComment_iff`: the grammar derives the complete comments.
* `scan_commentGrammar`: the statement for scans.
-/

namespace LoxLexer

/-- The two characters are an opening mark or a closing mark. -/
def IsMark (c d : Char) : Prop := [c, d] = ['/', '*'] ∨ [c, d] = ['*', '/']

/-- What stands behind the opening mark of a comment: items, and the closing
mark behind the last one. A character is an item unless it makes a mark together
with the character that follows it, and a comment is an item too. -/
inductive CommentTail : List Char → Prop
  | closing : CommentTail ['*', '/']
  | char {c d : Char} {more : List Char} (hfree : ¬ IsMark c d)
      (hmore : CommentTail (d :: more)) : CommentTail (c :: d :: more)
  | comment {inner more : List Char} (hinner : CommentTail inner)
      (hmore : CommentTail more) : CommentTail ('/' :: '*' :: inner ++ more)

/-- The text is a block comment by the grammar. -/
def NestedComment (text : List Char) : Prop :=
  ∃ tail, text = '/' :: '*' :: tail ∧ CommentTail tail

/-! ### Tails -/

/-- There is always something behind an opening mark, if only the closing one. -/
theorem CommentTail.exists_cons {tail : List Char} (h : CommentTail tail) :
    ∃ c cs, tail = c :: cs := by
  cases h with
  | closing => exact ⟨_, _, rfl⟩
  | char => exact ⟨_, _, rfl⟩
  | comment => exact ⟨_, _, rfl⟩

/-- A character that makes no mark is passed over. -/
theorem afterBlock_cons {c d : Char} (hfree : ¬ IsMark c d) (depth : Nat) (cs : List Char) :
    afterBlock (depth + 1) (c :: d :: cs) = afterBlock (depth + 1) (d :: cs) := by
  apply afterBlock.eq_4
  · rintro tail rfl htail
    obtain ⟨rfl, -⟩ := List.cons.inj htail
    exact hfree (Or.inl rfl)
  · rintro tail rfl htail
    obtain ⟨rfl, -⟩ := List.cons.inj htail
    exact hfree (Or.inr rfl)

/-- A tail closes one comment, whatever follows it. -/
theorem CommentTail.afterBlock_append {tail : List Char} (h : CommentTail tail) (depth : Nat)
    (rest : List Char) : afterBlock (depth + 1) (tail ++ rest) = afterBlock depth rest := by
  induction h generalizing depth rest with
  | closing => rw [List.cons_append, List.cons_append, List.nil_append, afterBlock]
  | char hfree _ ih =>
      rw [List.cons_append, List.cons_append, afterBlock_cons hfree]
      exact ih depth rest
  | @comment inner more _ _ ihinner ihmore =>
      have hsplit : '/' :: '*' :: inner ++ more ++ rest =
          '/' :: '*' :: (inner ++ (more ++ rest)) := by simp
      rw [hsplit, afterBlock, ihinner, ihmore]

/-- What closes `depth` comments is a row of `depth` tails. An opening mark and
the first two tails behind it are one tail: the comment, and what follows it. -/
theorem exists_tails_of_afterBlock {depth : Nat} {cs rest : List Char}
    (h : afterBlock depth cs = some rest) :
    ∃ tails : List (List Char), tails.length = depth ∧ (∀ tail ∈ tails, CommentTail tail) ∧
      cs = tails.flatten ++ rest := by
  fun_induction afterBlock depth cs with
  | case1 cs =>
      cases h
      exact ⟨[], rfl, by simp, rfl⟩
  | case2 depth cs ih =>
      obtain ⟨tails, hlength, htails, rfl⟩ := ih h
      obtain ⟨inner, tails, rfl⟩ := List.exists_cons_of_length_eq_add_one hlength
      obtain ⟨more, tails, rfl⟩ :=
        List.exists_cons_of_length_eq_add_one (Nat.succ.inj hlength)
      obtain ⟨hinner, hmore, hothers⟩ := by simpa only [List.forall_mem_cons] using htails
      refine ⟨('/' :: '*' :: inner ++ more) :: tails, by simpa using hlength, ?_, by simp⟩
      exact List.forall_mem_cons.mpr ⟨.comment hinner hmore, hothers⟩
  | case3 depth cs ih =>
      obtain ⟨tails, hlength, htails, rfl⟩ := ih h
      refine ⟨['*', '/'] :: tails, by simpa using hlength, ?_, by simp⟩
      exact List.forall_mem_cons.mpr ⟨.closing, htails⟩
  | case4 depth c cs hopen hclose ih =>
      obtain ⟨tails, hlength, htails, rfl⟩ := ih h
      obtain ⟨tail, tails, rfl⟩ := List.exists_cons_of_length_eq_add_one hlength
      obtain ⟨htail, hothers⟩ := List.forall_mem_cons.mp htails
      obtain ⟨d, more, rfl⟩ := htail.exists_cons
      have hfree : ¬ IsMark c d := by
        rintro (hmark | hmark)
        · cases hmark
          exact hopen _ rfl rfl
        · cases hmark
          exact hclose _ rfl rfl
      refine ⟨(c :: d :: more) :: tails, hlength, ?_, by simp⟩
      exact List.forall_mem_cons.mpr ⟨.char hfree htail, hothers⟩
  | case5 => cases h

/-! ### Comments -/

/-- The tails are the texts that close one comment and end there. -/
theorem commentTail_iff {tail : List Char} : CommentTail tail ↔ afterBlock 1 tail = some [] := by
  constructor
  · intro h
    have hafter := h.afterBlock_append 0 []
    rwa [List.append_nil, afterBlock] at hafter
  · intro h
    obtain ⟨tails, hlength, htails, heq⟩ := exists_tails_of_afterBlock h
    obtain ⟨tail', rfl⟩ := List.length_eq_one_iff.mp hlength
    have hsame : tail = tail' := by simpa using heq
    exact hsame ▸ htails tail' List.mem_cons_self

/-- **The grammar and the count.**  The grammar derives the complete comments. -/
theorem nestedComment_iff {text : List Char} : NestedComment text ↔ CompleteComment text := by
  constructor
  · rintro ⟨tail, rfl, htail⟩
    exact completeComment_of_closed (commentTail_iff.mp htail)
  · intro h
    obtain ⟨tail, rfl⟩ := h.1
    have hafter := afterBlock_of_completeComment h []
    rw [List.append_nil] at hafter
    exact ⟨tail, rfl, commentTail_iff.mpr hafter⟩

/-- If no comment is at the front of a text with an opening mark, its marks are
never balanced. -/
theorem not_balanced_of_not_nestedComment {source : List Char} (hopen : ['/', '*'] <+: source)
    (hnone : ∀ front, front <+: source → ¬ NestedComment front) :
    ∀ front, front <+: source → ['/', '*'] <+: front → ¬ Balanced front := by
  obtain ⟨cs, rfl⟩ := hopen
  cases hafter : afterBlock 1 cs with
  | none => exact fun front hfront hmark => not_balanced_of_afterBlock_eq_none hafter hfront hmark
  | some rest =>
      obtain ⟨body, rfl, hcomplete⟩ := completeComment_of_afterBlock hafter
      exact absurd (nestedComment_iff.mpr hcomplete) (hnone _ ⟨rest, by simp⟩)

/-- Where the count does not come to an end, there is no comment. -/
theorem not_nestedComment_of_afterBlock {cs : List Char} (h : afterBlock 1 cs = none) :
    ∀ front, front <+: '/' :: '*' :: cs → ¬ NestedComment front := by
  intro front hfront hnested
  have hcomplete := nestedComment_iff.mp hnested
  exact not_balanced_of_afterBlock_eq_none h hfront hcomplete.1 hcomplete.2.1

/-! ### Scans -/

/-- **Block comments.**  No comment that the grammar derives is the beginning of
another one.  In front of any text a comment has no effect on a scan but to move
everything down by its lines.  A source that begins with an opening mark, and with
no comment, has no tokens and one error, which is that the comment is left open. -/
theorem scan_commentGrammar :
    (∀ comment shorter, NestedComment comment → NestedComment shorter →
      shorter <+: comment → shorter = comment) ∧
    (∀ comment text, NestedComment comment →
      (scan (comment ++ text)).tokens =
          (scan text).tokens.map (Token.shift (newlines comment)) ∧
        (scan (comment ++ text)).sink.toList =
          (scan text).sink.toList.map (LexicalError.shift (newlines comment))) ∧
    ∀ source, ['/', '*'] <+: source → (∀ front, front <+: source → ¬ NestedComment front) →
      (scan source).tokens = [.endOfFile (1 + newlines source)] ∧
        (scan source).sink.toList = [⟨.unterminatedBlockComment, 1 + newlines source⟩] := by
  refine ⟨?_, ?_, ?_⟩
  · intro comment shorter hcomment hshorter hfront
    obtain ⟨-, -, hleast⟩ := nestedComment_iff.mp hcomment
    obtain ⟨hopen, hbalanced, -⟩ := nestedComment_iff.mp hshorter
    exact hleast shorter hfront hopen hbalanced
  · intro comment text hcomment
    have hitems : itemsOf 1 (tilesOf (comment ++ text)) =
        (itemsOf 1 (tilesOf text)).map (Item.shift (newlines comment)) := by
      rw [itemsOf_of_blank (.blockComment rfl (nestedComment_iff.mp hcomment)), itemsOf_add]
    have hline : 1 + newlines (comment ++ text) = 1 + newlines text + newlines comment := by
      rw [newlines_append]
      omega
    constructor
    · rw [tokens_scan, tokens_scan, hitems, filterMap_token?_shift, List.map_append, hline]
      rfl
    · rw [errors_scan, errors_scan, hitems, filterMap_error?_shift]
  · intro source hopen hnone
    have htiles := tilesOf_of_firstTile
      (.openComment hopen (not_balanced_of_not_nestedComment hopen hnone))
    have hitems : itemsOf 1 (tilesOf source) =
        [.error ⟨.unterminatedBlockComment, 1 + newlines source⟩] := by
      rw [htiles, tilesOf]
      rfl
    constructor
    · rw [tokens_scan, hitems]
      rfl
    · rw [errors_scan, hitems]
      rfl

/-- Marks that share characters with what is beside them: a comment that has a slash
behind its opening mark and stars before the closing ones, with a star and a slash
behind it that close nothing, and a source in which no mark closes. -/
theorem scan_commentGrammar_shared :
    let comment := ['/', '*', '/', '\n', '/', '*', '*', '*', '/', '*', '*', '/']
    let source := ['/', '*', '/', '*', '/']
    (NestedComment comment ∧ newlines comment = 1 ∧
        (scan (comment ++ ['*', '/', '@'])).tokens =
          [⟨.symbol .star, ['*'], none, 2⟩, ⟨.symbol .slash, ['/'], none, 2⟩, .endOfFile 2] ∧
        (scan (comment ++ ['*', '/', '@'])).sink.toList = [⟨.unexpectedCharacter '@', 2⟩]) ∧
      (∀ shorter, NestedComment shorter → shorter <+: comment → shorter = comment) ∧
      (∀ front, front <+: source → ¬ NestedComment front) ∧
      (scan source).tokens = [.endOfFile 1] ∧
      (scan source).sink.toList = [⟨.unterminatedBlockComment, 1⟩] := by
  intro comment source
  have hcomment : NestedComment comment :=
    ⟨_, rfl, commentTail_iff.mpr (by decide)⟩
  have hnone : ∀ front, front <+: source → ¬ NestedComment front :=
    not_nestedComment_of_afterBlock (by decide)
  obtain ⟨hleast, hfront, hopen⟩ := scan_commentGrammar
  obtain ⟨htokens, herrors⟩ := hfront comment ['*', '/', '@'] hcomment
  obtain ⟨htokens', herrors'⟩ := hopen source ⟨['/', '*', '/'], rfl⟩ hnone
  refine ⟨⟨hcomment, rfl, htokens.trans (by decide +kernel), herrors.trans (by decide +kernel)⟩,
    fun shorter hshorter => hleast comment shorter hcomment hshorter, hnone, htokens', herrors'⟩

end LoxLexer
