import LoxLexer.Comment

/-!
# Block comments by counting

A block comment can be told from its text alone, without a reader that keeps
count: it begins with an opening mark, it has as many closing marks as opening
ones, and no shorter text that begins the same way has.  The marks are those
that reading from left to right without overlap comes upon.

`afterBlock` finds the ends of just these texts:

* `completeComment_of_afterBlock`: what it passes over, together with the
  opening mark before it, is a complete comment.
* `not_balanced_of_afterBlock_eq_none`: where it runs out of text, no
  beginning of the text is balanced.
-/

namespace LoxLexer

/-- A mark of block comments. -/
inductive Mark where
  | opening
  | closing
deriving DecidableEq, Repr

/-- The marks in a text, from left to right and without overlap. -/
def marks : List Char → List Mark
  | '/' :: '*' :: cs => .opening :: marks cs
  | '*' :: '/' :: cs => .closing :: marks cs
  | _ :: cs => marks cs
  | [] => []

/-- A text has as many closing marks as opening ones. -/
def Balanced (text : List Char) : Prop :=
  (marks text).count .closing = (marks text).count .opening

/-- A text is one whole block comment: the shortest balanced text that begins
with its opening mark. -/
def CompleteComment (text : List Char) : Prop :=
  ['/', '*'] <+: text ∧ Balanced text ∧
    ∀ shorter, shorter <+: text → ['/', '*'] <+: shorter → Balanced shorter → shorter = text

/-- A text closes `depth` more comments than it opens. -/
def Closes (depth : Nat) (text : List Char) : Prop :=
  (marks text).count .closing = (marks text).count .opening + depth

@[simp] theorem marks_nil : marks [] = [] := rfl

@[simp] theorem marks_opening (cs : List Char) :
    marks ('/' :: '*' :: cs) = .opening :: marks cs := by
  rw [marks]

@[simp] theorem marks_closing (cs : List Char) :
    marks ('*' :: '/' :: cs) = .closing :: marks cs := by
  rw [marks]

@[simp] theorem marks_singleton (c : Char) : marks [c] = [] := by
  simp [marks]

/-- A character that begins no mark of a text begins none of any beginning of
that text. -/
theorem marks_cons {c : Char} {cs front : List Char}
    (hopen : ∀ tail, c = '/' → cs = '*' :: tail → False)
    (hclose : ∀ tail, c = '*' → cs = '/' :: tail → False)
    (hfront : front <+: cs) : marks (c :: front) = marks front := by
  obtain ⟨rest, rfl⟩ := hfront
  apply marks.eq_3
  · intro tail heq heq'
    subst heq
    subst heq'
    exact hopen (tail ++ rest) rfl rfl
  · intro tail heq heq'
    subst heq
    subst heq'
    exact hclose (tail ++ rest) rfl rfl

/-- Behind an opening mark there is one more comment to be closed. -/
theorem closes_opening {depth : Nat} {text : List Char} :
    Closes depth ('/' :: '*' :: text) ↔ Closes (depth + 1) text := by
  unfold Closes
  rw [marks_opening, List.count_cons_self, List.count_cons_of_ne (by decide)]
  omega

/-- Behind a closing mark there is one comment less to be closed. -/
theorem closes_closing {depth : Nat} {text : List Char} :
    Closes (depth + 1) ('*' :: '/' :: text) ↔ Closes depth text := by
  unfold Closes
  rw [marks_closing, List.count_cons_self, List.count_cons_of_ne (by decide)]
  omega

/-- A text too short for a mark closes nothing. -/
theorem not_closes_nil (depth : Nat) : ¬ Closes (depth + 1) [] := by
  simp [Closes]

theorem not_closes_singleton (depth : Nat) (c : Char) : ¬ Closes (depth + 1) [c] := by
  simp [Closes]

/-- The beginnings of a text whose first two characters are known. -/
theorem front_pair_cases {c d : Char} {cs front : List Char} (h : front <+: c :: d :: cs) :
    front = [] ∨ front = [c] ∨ ∃ more, front = c :: d :: more ∧ more <+: cs := by
  rcases List.prefix_cons_iff.mp h with rfl | ⟨tail, rfl, htail⟩
  · exact Or.inl rfl
  · rcases List.prefix_cons_iff.mp htail with rfl | ⟨more, rfl, hmore⟩
    · exact Or.inr (Or.inl rfl)
    · exact Or.inr (Or.inr ⟨more, rfl, hmore⟩)

/-- `afterBlock` passes over a text that closes what is open, and over no more
than that. -/
theorem closes_of_afterBlock {depth : Nat} {cs rest : List Char}
    (h : afterBlock depth cs = some rest) :
    ∃ body, cs = body ++ rest ∧ Closes depth body ∧
      ∀ front, front <+: body → Closes depth front → front = body := by
  fun_induction afterBlock depth cs with
  | case1 cs =>
      cases h
      refine ⟨[], rfl, rfl, ?_⟩
      intro front hfront _
      exact List.prefix_nil.mp hfront
  | case2 depth cs ih =>
      obtain ⟨body, rfl, hbody, hleast⟩ := ih h
      refine ⟨'/' :: '*' :: body, rfl, closes_opening.mpr hbody, ?_⟩
      intro front hfront hcloses
      rcases front_pair_cases hfront with rfl | rfl | ⟨more, rfl, hmore⟩
      · exact absurd hcloses (not_closes_nil depth)
      · exact absurd hcloses (not_closes_singleton depth '/')
      · rw [hleast more hmore (closes_opening.mp hcloses)]
  | case3 depth cs ih =>
      obtain ⟨body, rfl, hbody, hleast⟩ := ih h
      refine ⟨'*' :: '/' :: body, rfl, closes_closing.mpr hbody, ?_⟩
      intro front hfront hcloses
      rcases front_pair_cases hfront with rfl | rfl | ⟨more, rfl, hmore⟩
      · exact absurd hcloses (not_closes_nil depth)
      · exact absurd hcloses (not_closes_singleton depth '*')
      · rw [hleast more hmore (closes_closing.mp hcloses)]
  | case4 depth c cs hopen hclose ih =>
      obtain ⟨body, rfl, hbody, hleast⟩ := ih h
      have hmarks : ∀ front, front <+: body → marks (c :: front) = marks front := by
        intro front hfront
        exact marks_cons hopen hclose (hfront.trans (List.prefix_append body rest))
      refine ⟨c :: body, rfl, ?_, ?_⟩
      · unfold Closes
        rw [hmarks body (List.prefix_refl body)]
        exact hbody
      · intro front hfront hcloses
        rcases List.prefix_cons_iff.mp hfront with rfl | ⟨more, rfl, hmore⟩
        · exact absurd hcloses (not_closes_nil depth)
        · unfold Closes at hcloses
          rw [hmarks more hmore] at hcloses
          rw [hleast more hmore hcloses]
  | case5 => cases h

/-- Where `afterBlock` runs out of text, no beginning of the text closes what
is open. -/
theorem not_closes_of_afterBlock_eq_none {depth : Nat} {cs : List Char}
    (h : afterBlock depth cs = none) : ∀ front, front <+: cs → ¬ Closes depth front := by
  fun_induction afterBlock depth cs with
  | case1 cs => cases h
  | case2 depth cs ih =>
      intro front hfront
      rcases front_pair_cases hfront with rfl | rfl | ⟨more, rfl, hmore⟩
      · exact not_closes_nil depth
      · exact not_closes_singleton depth '/'
      · exact fun hcloses => ih h more hmore (closes_opening.mp hcloses)
  | case3 depth cs ih =>
      intro front hfront
      rcases front_pair_cases hfront with rfl | rfl | ⟨more, rfl, hmore⟩
      · exact not_closes_nil depth
      · exact not_closes_singleton depth '*'
      · exact fun hcloses => ih h more hmore (closes_closing.mp hcloses)
  | case4 depth c cs hopen hclose ih =>
      intro front hfront
      rcases List.prefix_cons_iff.mp hfront with rfl | ⟨more, rfl, hmore⟩
      · exact not_closes_nil depth
      · unfold Closes
        rw [marks_cons hopen hclose hmore]
        exact ih h more hmore
  | case5 depth =>
      intro front hfront
      rw [List.prefix_nil.mp hfront]
      exact not_closes_nil depth

/-- A text with its opening mark is balanced if the rest of it closes one comment. -/
theorem balanced_opening {body : List Char} :
    Balanced ('/' :: '*' :: body) ↔ Closes 1 body :=
  (closes_opening : Closes 0 _ ↔ _)

/-- The comment that `afterBlock` passes over is complete. -/
theorem completeComment_of_afterBlock {cs rest : List Char} (h : afterBlock 1 cs = some rest) :
    ∃ body, cs = body ++ rest ∧ CompleteComment ('/' :: '*' :: body) := by
  obtain ⟨body, rfl, hbody, hleast⟩ := closes_of_afterBlock h
  refine ⟨body, rfl, ⟨body, rfl⟩, balanced_opening.mpr hbody, ?_⟩
  intro shorter hshorter hopening hbalanced
  obtain ⟨front, rfl⟩ := hopening
  have hfront : front <+: body := by simpa using hshorter
  rw [← hleast front hfront (balanced_opening.mp hbalanced)]
  rfl

/-- A text that `afterBlock` passes over to its end makes a comment. -/
theorem completeComment_of_closed {body : List Char} (h : afterBlock 1 body = some []) :
    CompleteComment ('/' :: '*' :: body) := by
  obtain ⟨body', heq, hcomplete⟩ := completeComment_of_afterBlock h
  rw [List.append_nil] at heq
  exact heq ▸ hcomplete

/-- Where the closing mark of a comment is not found, no front of the text is balanced. -/
theorem not_balanced_of_afterBlock_eq_none {cs : List Char} (h : afterBlock 1 cs = none)
    {front : List Char} (hfront : front <+: '/' :: '*' :: cs) (hopen : ['/', '*'] <+: front) :
    ¬ Balanced front := by
  obtain ⟨body, rfl⟩ := hopen
  have hbody : body <+: cs := by simpa using hfront
  intro hbalanced
  exact not_closes_of_afterBlock_eq_none h body hbody (balanced_opening.mp hbalanced)

/-- A complete comment in front of any text is what `afterBlock` passes over. -/
theorem afterBlock_of_completeComment {body : List Char}
    (h : CompleteComment ('/' :: '*' :: body)) (rest : List Char) :
    afterBlock 1 (body ++ rest) = some rest := by
  obtain ⟨_, hbalanced, hleast⟩ := h
  have hcloses : Closes 1 body := balanced_opening.mp hbalanced
  cases hafter : afterBlock 1 (body ++ rest) with
  | none =>
      exact absurd hcloses
        (not_closes_of_afterBlock_eq_none hafter body (List.prefix_append body rest))
  | some rest' =>
      obtain ⟨body', heq, hcloses', hleast'⟩ := closes_of_afterBlock hafter
      have hsame : body = body' := by
        rcases List.prefix_or_prefix_of_prefix (List.prefix_append body rest)
            (heq ▸ List.prefix_append body' rest') with hle | hle
        · exact hleast' body hle hcloses
        · have := hleast ('/' :: '*' :: body') (by simpa using hle) ⟨body', rfl⟩
            (balanced_opening.mpr hcloses')
          simpa using this.symm
      subst hsame
      rw [List.append_cancel_left heq]

/-! ### The last character of a comment -/

/-- A character that is part of no mark adds none. -/
theorem marks_snoc {c : Char} (hstar : c ≠ '*') (hslash : c ≠ '/') (front : List Char) :
    marks (front ++ [c]) = marks front := by
  fun_induction marks front with
  | case1 cs ih => rw [List.cons_append, List.cons_append, marks_opening, ih]
  | case2 cs ih => rw [List.cons_append, List.cons_append, marks_closing, ih]
  | case3 x cs hopen hclose ih =>
      rw [← ih]
      apply marks.eq_3
      · intro tail hx htail
        cases cs with
        | nil => exact hstar (List.cons.inj htail).1
        | cons y cs => exact hopen cs hx (by rw [(List.cons.inj htail).1])
      · intro tail hx htail
        cases cs with
        | nil => exact hslash (List.cons.inj htail).1
        | cons y cs => exact hclose cs hx (by rw [(List.cons.inj htail).1])
  | case4 => exact marks_singleton c

/-- No complete comment ends with a character that is part of no mark. -/
theorem not_completeComment_snoc {front : List Char} {c : Char} (hstar : c ≠ '*')
    (hslash : c ≠ '/') : ¬ CompleteComment (front ++ [c]) := by
  rintro ⟨⟨body, hbody⟩, hbalanced, hleast⟩
  have hopening : ['/', '*'] <+: front := by
    match front, hbody with
    | [x], hbody => exact absurd (List.cons.inj (List.cons.inj hbody).2).1.symm hstar
    | x :: y :: front, hbody =>
      obtain ⟨rfl, hrest⟩ := List.cons.inj hbody
      obtain ⟨rfl, -⟩ := List.cons.inj hrest
      exact ⟨front, rfl⟩
  have hfront : Balanced front := by
    rwa [Balanced, marks_snoc hstar hslash] at hbalanced
  have hsame := hleast front ⟨[c], rfl⟩ hopening hfront
  simp at hsame

end LoxLexer
