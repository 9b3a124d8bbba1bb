import LoxLexer.Proofs.Items
import LoxLexer.Proofs.Lexeme
import LoxLexer.Proofs.Reader.Basic

/-!
# What a reader passes over

Every operation of a reader passes over some text, and `Reader.Passes` says
once what that does to it: the place moves by the bytes of the text, the line
by the line ends that were counted, and nothing else changes but what the
iterator has stored.  For each operation on characters, and for each loop, one
lemma says which text that is, given what is in front of the reader.

* `Utf8.cut?_size_append`, `slice?_size_append`: places that lie between
  characters cut a source where it should be cut.
* `Reader.advanceUntil_eq`, `Reader.skipsBlock`: the loops end, and pass over a
  run of characters and over a block comment.
-/

namespace LoxLexer

namespace Utf8

@[simp] theorem size_nil : size [] = 0 := rfl

theorem size_cons (c : Char) (cs : List Char) : size (c :: cs) = c.utf8Size + size cs := by
  have hfoldl : ∀ (text : List Char) (n : Nat),
      text.foldl (fun n c => n + c.utf8Size) n = n + size text := by
    intro text
    induction text with
    | nil => exact fun n => rfl
    | cons d ds ih =>
        intro n
        rw [size, List.foldl_cons, List.foldl_cons, ih, ih (0 + d.utf8Size)]
        omega
  rw [size, List.foldl_cons, hfoldl, Nat.zero_add]

@[simp] theorem size_append (s t : List Char) : size (s ++ t) = size s + size t := by
  induction s with
  | nil => simp
  | cons c cs ih => rw [List.cons_append, size_cons, size_cons, ih, Nat.add_assoc]

theorem size_singleton (c : Char) : size [c] = c.utf8Size := size_cons c []

theorem size_eq_zero {text : List Char} : size text = 0 ↔ text = [] := by
  cases text with
  | nil => simp
  | cons c cs =>
      have hpos := c.utf8Size_pos
      rw [size_cons]
      simp
      omega

/-- Each character takes a byte at least. -/
theorem length_le_size (text : List Char) : text.length ≤ size text := by
  induction text with
  | nil => exact Nat.le_refl 0
  | cons c cs ih =>
      have hpos := c.utf8Size_pos
      rw [size_cons, List.length_cons]
      omega

/-- A text can be cut behind any text that it begins with. -/
theorem cut?_size_append (s t : List Char) : cut? (size s) (s ++ t) = some (s, t) := by
  induction s with
  | nil => simp [cut?]
  | cons c cs ih =>
      obtain ⟨n, hn⟩ := Nat.exists_eq_succ_of_ne_zero (Nat.ne_of_gt c.utf8Size_pos)
      rw [size_cons, hn, Nat.succ_add, List.cons_append, cut?, hn, if_pos (by omega)]
      have hrest : n + size cs + 1 - n.succ = size cs := by omega
      rw [hrest, ih]
      rfl

end Utf8

/-- What stands between two texts is the piece between their places. -/
theorem slice?_size_append (before text after : List Char) :
    slice? (Utf8.size before) (Utf8.size (before ++ text)) (before ++ text ++ after) =
      some text := by
  rw [slice?, Utf8.cut?_size_append (before ++ text) after]
  simp only [Option.bind_eq_bind, Option.bind_some, Utf8.cut?_size_append before text]
  rfl

/-! ### Iteration -/

section Iteration

variable {α ρ : Type} {round : α →. ρ ⊕ α} {state : α}

/-- An iteration ends with the result of a round that has one. -/
theorem fix_of_inl {result : ρ} (h : round state = Part.some (.inl result)) :
    round.fix state = Part.some result :=
  Part.eq_some_iff.mpr (PFun.fix_stop (h ▸ Part.mem_some _))

/-- An iteration goes on from the state that a round leads to. -/
theorem fix_of_inr {next : α} (h : round state = Part.some (.inr next)) :
    round.fix state = round.fix next :=
  PFun.fix_fwd_eq (h ▸ Part.mem_some _)

end Iteration

namespace Reader

variable {β : Type} [Lookahead β]

/-- The iterator of a reader has a text in front of it, with the right places. -/
def Sees (r : Reader β) (rest : List Char) : Prop :=
  Lookahead.pending r.ahead = offsets r.current rest

/-- `after` is `r` when it has passed over `text` and counted `lines` line ends
in it, with `rest` in front of it. -/
structure Passes (r : Reader β) (text rest : List Char) (lines : Nat) (after : Reader β) :
    Prop where
  source : after.source = r.source
  start : after.start = r.start
  startLine : after.startLine = r.startLine
  current : after.current = r.current + Utf8.size text
  line : after.line = r.line + lines
  sees : after.Sees rest

theorem Passes.refl {r : Reader β} {rest : List Char} (h : r.Sees rest) :
    r.Passes [] rest 0 r :=
  ⟨rfl, rfl, rfl, rfl, rfl, h⟩

/-- What is passed over one part after the other is passed over as a whole. -/
theorem Passes.trans {r middle after : Reader β} {text text' rest rest' : List Char}
    {lines lines' : Nat} (h : r.Passes text rest lines middle)
    (h' : middle.Passes text' rest' lines' after) :
    r.Passes (text ++ text') rest' (lines + lines') after where
  source := h'.source.trans h.source
  start := h'.start.trans h.start
  startLine := h'.startLine.trans h.startLine
  current := by rw [h'.current, h.current, Utf8.size_append, Nat.add_assoc]
  line := by rw [h'.line, h.line, Nat.add_assoc]
  sees := h'.sees

/-! ### Characters -/

/-- Looking ahead finds the character there, and passes over nothing. -/
theorem peek_eq {r : Reader β} {rest : List Char} (h : r.Sees rest) (n : Nat) :
    ∃ after, r.peek n = (rest[n]?, after) ∧ r.Passes [] rest 0 after := by
  have hchar : ∀ (offset : Nat) (text : List Char) (n : Nat),
      (offsets offset text)[n]?.map Prod.snd = text[n]? := by
    intro offset text
    induction text generalizing offset with
    | nil => simp [offsets]
    | cons c cs ih =>
        intro n
        cases n with
        | zero => rfl
        | succ n => exact ih _ n
  refine ⟨{ r with ahead := (Lookahead.peek n r.ahead).2 }, ?_, rfl, rfl, rfl, rfl, rfl, ?_⟩
  · rw [← hchar r.current rest n, ← h, ← Lookahead.peek_fst]
    rfl
  · exact (Lookahead.pending_peek n r.ahead).trans h

/-- At the end there is no character to take. -/
theorem advance_nil {r : Reader β} (h : r.Sees []) :
    ∃ after, r.advance = (none, after) ∧ r.Passes [] [] 0 after := by
  have hitem := Lookahead.next_fst r.ahead
  have hrest := Lookahead.pending_next r.ahead
  rw [h] at hitem hrest
  unfold advance
  split
  · next place c ahead hnext => rw [hnext] at hitem; cases hitem
  · next ahead hnext =>
      rw [hnext] at hrest
      exact ⟨_, rfl, rfl, rfl, rfl, rfl, rfl, hrest⟩

/-- Taking a character passes over it, and counts no line end yet. -/
theorem advance_cons {r : Reader β} {c : Char} {cs : List Char} (h : r.Sees (c :: cs)) :
    ∃ after, r.advance = (some c, after) ∧ r.Passes [c] cs 0 after := by
  have hitem := Lookahead.next_fst r.ahead
  have hrest := Lookahead.pending_next r.ahead
  rw [h] at hitem hrest
  unfold advance
  split
  · next place d ahead hnext =>
      rw [hnext] at hitem hrest
      cases hitem
      refine ⟨_, rfl, rfl, rfl, rfl, ?_, rfl, hrest⟩
      rw [Utf8.size_singleton]
  · next ahead hnext => rw [hnext] at hitem; cases hitem

/-- A line end is counted behind the character that it is. -/
theorem countLine_eq {r after : Reader β} {c : Char} {cs : List Char}
    (h : r.Passes [c] cs 0 after) : r.Passes [c] cs (newlines [c]) (after.countLine c) := by
  unfold countLine
  split
  · next hc =>
      subst hc
      exact ⟨h.source, h.start, h.startLine, h.current, by rw [h.line]; rfl, h.sees⟩
  · next hc =>
      rwa [newlines_cons_of_ne hc]

/-- The given character is taken where it comes next. -/
theorem nextIs_cons {r : Reader β} {c : Char} {cs : List Char} (h : r.Sees (c :: cs)) :
    ∃ after, r.nextIs c = (true, after) ∧ r.Passes [c] cs 0 after := by
  obtain ⟨looked, hlook, hpass⟩ := peek_eq h 0
  obtain ⟨after, hadvance, hpass'⟩ := advance_cons hpass.sees
  refine ⟨after, ?_, hpass.trans hpass'⟩
  simp [nextIs, hlook, hadvance]

/-- Nothing is taken where another character comes next. -/
theorem nextIs_of_ne {r : Reader β} {c : Char} {rest : List Char} (h : r.Sees rest)
    (hne : rest.head? ≠ some c) :
    ∃ after, r.nextIs c = (false, after) ∧ r.Passes [] rest 0 after := by
  obtain ⟨looked, hlook, hpass⟩ := peek_eq h 0
  refine ⟨looked, ?_, hpass⟩
  rw [List.head?_eq_getElem?] at hne
  simp only [nextIs, hlook, if_neg hne]

/-- The two given characters are taken where they come next. -/
theorem nextPairIs_cons {r : Reader β} {c d : Char} {cs : List Char} (h : r.Sees (c :: d :: cs)) :
    ∃ after, r.nextPairIs c d = (true, after) ∧ r.Passes [c, d] cs 0 after := by
  obtain ⟨looked, hlook, hpass⟩ := peek_eq h 0
  obtain ⟨looked', hlook', hpass'⟩ := peek_eq hpass.sees 1
  obtain ⟨middle, hadvance, hpass₁⟩ := advance_cons hpass'.sees
  obtain ⟨after, hadvance', hpass₂⟩ := advance_cons hpass₁.sees
  refine ⟨after, ?_, (hpass.trans hpass').trans (hpass₁.trans hpass₂)⟩
  simp [nextPairIs, hlook, hlook', hadvance, hadvance']

/-- Nothing is taken where the two characters do not come next. -/
theorem nextPairIs_of_not {r : Reader β} {c d : Char} {rest : List Char} (h : r.Sees rest)
    (hnot : ¬ [c, d] <+: rest) :
    ∃ after, r.nextPairIs c d = (false, after) ∧ r.Passes [] rest 0 after := by
  obtain ⟨looked, hlook, hpass⟩ := peek_eq h 0
  obtain ⟨looked', hlook', hpass'⟩ := peek_eq hpass.sees 1
  by_cases hc : rest[0]? = some c
  · have hd : rest[1]? ≠ some d := by
      intro hd
      match rest, hc, hd with
      | _ :: _ :: more, rfl, rfl => exact hnot ⟨more, rfl⟩
    refine ⟨looked', ?_, hpass.trans hpass'⟩
    simp only [nextPairIs, hlook, if_pos hc, hlook', if_neg hd]
  · refine ⟨looked, ?_, hpass⟩
    simp only [nextPairIs, hlook, if_neg hc]

/-! ### Loops -/

/-- A round of a loop up to a character takes the character in front unless the
loop stops there. -/
theorem untilRound_cases {r : Reader β} {rest : List Char} (h : r.Sees rest)
    (stop : Char → Bool) :
    (∃ after, r.untilRound stop = .inl after ∧ r.Passes [] rest 0 after ∧
        ∀ c ∈ rest.head?, stop c = true) ∨
      ∃ c cs after, rest = c :: cs ∧ stop c = false ∧ r.untilRound stop = .inr after ∧
        r.Passes [c] cs (newlines [c]) after := by
  obtain ⟨looked, hlook, hpass⟩ := peek_eq h 0
  cases rest with
  | nil => exact Or.inl ⟨looked, by simp [untilRound, hlook], hpass, by simp⟩
  | cons c cs =>
      by_cases hstop : stop c
      · exact Or.inl ⟨looked, by simp [untilRound, hlook, hstop], hpass, by simpa using hstop⟩
      · obtain ⟨taken, hadvance, hpass'⟩ := advance_cons hpass.sees
        refine Or.inr ⟨c, cs, taken.countLine c, rfl, by simpa using hstop, ?_, ?_⟩
        · simp [untilRound, hlook, hstop, hadvance]
        · simpa using hpass.trans (countLine_eq hpass')

/-- A loop up to a character passes over all that are before it. -/
theorem advanceUntil_eq {r : Reader β} {rest : List Char} (h : r.Sees rest)
    (stop : Char → Bool) :
    ∃ after, r.advanceUntil stop = Part.some after ∧
      r.Passes (rest.takeWhile (!stop ·)) (rest.dropWhile (!stop ·))
        (newlines (rest.takeWhile (!stop ·))) after := by
  induction rest generalizing r with
  | nil =>
      rcases untilRound_cases h stop with ⟨after, hround, hpass, -⟩ | ⟨c, cs, after, hnil, -⟩
      · exact ⟨after, fix_of_inl (congrArg Part.some hround), hpass⟩
      · cases hnil
  | cons c cs ih =>
      rcases untilRound_cases h stop with
        ⟨after, hround, hpass, hstop⟩ | ⟨d, ds, taken, hcons, hstop, hround, hpass⟩
      · have hc : stop c = true := hstop c rfl
        rw [List.takeWhile_cons_of_neg (by simp [hc]), List.dropWhile_cons_of_neg (by simp [hc])]
        exact ⟨after, fix_of_inl (congrArg Part.some hround), hpass⟩
      · obtain ⟨rfl, rfl⟩ := List.cons.inj hcons
        obtain ⟨after, hloop, hrest⟩ := ih hpass.sees
        rw [List.takeWhile_cons_of_pos (by simp [hstop]),
          List.dropWhile_cons_of_pos (by simp [hstop]), ← List.singleton_append, newlines_append]
        exact ⟨after, (fix_of_inr (congrArg Part.some hround)).trans hloop, hpass.trans hrest⟩

/-- A run goes up to the character to stop at, or up to the end. -/
theorem advanceUntil_run {r : Reader β} {stop : Char} {text rest : List Char}
    (h : r.Sees (text ++ rest)) (htext : stop ∉ text)
    (hrest : rest = [] ∨ ∃ more, rest = stop :: more) :
    ∃ after, r.advanceUntil (· == stop) = Part.some after ∧
      r.Passes text rest (newlines text) after := by
  obtain ⟨after, hloop, hpass⟩ := advanceUntil_eq h (· == stop)
  obtain ⟨htake, hdrop⟩ := run_append htext hrest
  change r.Passes ((text ++ rest).takeWhile (· != stop)) ((text ++ rest).dropWhile (· != stop))
    (newlines ((text ++ rest).takeWhile (· != stop))) after at hpass
  rw [htake, hdrop] at hpass
  exact ⟨after, hloop, hpass⟩

/-- An opening mark is taken as a whole, and one more comment is open. -/
theorem takeMark_opening {r : Reader β} {cs : List Char} (h : r.Sees ('/' :: '*' :: cs))
    (depth : Nat) :
    ∃ after, r.takeMark depth = (some (depth + 1), after) ∧ r.Passes ['/', '*'] cs 0 after := by
  obtain ⟨after, hpair, hpass⟩ := nextPairIs_cons h
  exact ⟨after, by rw [takeMark, hpair], hpass⟩

/-- A closing mark is taken as a whole, and one comment less is open. -/
theorem takeMark_closing {r : Reader β} {cs : List Char} (h : r.Sees ('*' :: '/' :: cs))
    (depth : Nat) :
    ∃ after, r.takeMark depth = (some (depth - 1), after) ∧ r.Passes ['*', '/'] cs 0 after := by
  obtain ⟨looked, hopen, hpass⟩ := nextPairIs_of_not (c := '/') (d := '*') h (by simp)
  obtain ⟨after, hclose, hpass'⟩ := nextPairIs_cons hpass.sees
  refine ⟨after, ?_, hpass.trans hpass'⟩
  rw [takeMark, hopen]
  simp only [hclose]

/-- What makes no mark is taken by itself, and as many comments are open as before. -/
theorem takeMark_other {r : Reader β} {c : Char} {cs : List Char} (h : r.Sees (c :: cs))
    (hopen : ¬ ['/', '*'] <+: c :: cs) (hclose : ¬ ['*', '/'] <+: c :: cs) (depth : Nat) :
    ∃ after, r.takeMark depth = (some depth, after) ∧
      r.Passes [c] cs (newlines [c]) after := by
  obtain ⟨looked, hlook, hpass⟩ := nextPairIs_of_not h hopen
  obtain ⟨looked', hlook', hpass'⟩ := nextPairIs_of_not hpass.sees hclose
  obtain ⟨taken, hadvance, hpass''⟩ := advance_cons hpass'.sees
  have hround := (hpass.trans hpass').trans (countLine_eq hpass'')
  refine ⟨taken.countLine c, ?_, by simpa using hround⟩
  rw [takeMark, hlook]
  simp only [hlook', hadvance]

theorem takeMark_nil {r : Reader β} (h : r.Sees []) (depth : Nat) :
    ∃ after, r.takeMark depth = (none, after) ∧ r.Passes [] [] 0 after := by
  obtain ⟨looked, hlook, hpass⟩ := nextPairIs_of_not (c := '/') (d := '*') h (by simp)
  obtain ⟨looked', hlook', hpass'⟩ := nextPairIs_of_not (c := '*') (d := '/') hpass.sees (by simp)
  obtain ⟨after, hadvance, hpass''⟩ := advance_nil hpass'.sees
  refine ⟨after, ?_, (hpass.trans hpass').trans hpass''⟩
  rw [takeMark, hlook]
  simp only [hlook', hadvance]

/-- With `depth` comments open and `cs` in front, the loop over a block comment
passes over what `afterBlock` passes over, or else over everything. -/
def SkipsBlock (r : Reader β) (depth : Nat) (cs : List Char) : Prop :=
  ∃ verdict text rest after, r.skipBlock depth = Part.some (verdict, after) ∧
    cs = text ++ rest ∧ r.Passes text rest (newlines text) after ∧
    (afterBlock depth cs = some rest ∧ verdict = .ok () ∨
      afterBlock depth cs = none ∧ rest = [] ∧
        verdict = .error (after.errorOf .unterminatedBlockComment))

/-- A round takes some characters and leaves the loop to what follows them. -/
theorem SkipsBlock.of_takeMark {r taken : Reader β} {depth depth' : Nat}
    {front tail : List Char} (hmark : r.takeMark (depth + 1) = (some depth', taken))
    (hpass : r.Passes front tail (newlines front) taken)
    (hblock : afterBlock (depth + 1) (front ++ tail) = afterBlock depth' tail)
    (h : taken.SkipsBlock depth' tail) : r.SkipsBlock (depth + 1) (front ++ tail) := by
  obtain ⟨verdict, text, rest, after, hskip, rfl, hpass', hverdict⟩ := h
  have hround : commentRound (depth + 1, r) = .inr (depth', taken) := by
    simp [commentRound, hmark]
  refine ⟨verdict, front ++ text, rest, after, ?_, ?_, ?_, ?_⟩
  · exact (fix_of_inr (congrArg Part.some hround)).trans hskip
  · rw [List.append_assoc]
  · rw [newlines_append]
    exact hpass.trans hpass'
  · rwa [hblock]

/-- The loop over a block comment passes over what the comment is, whatever is in front. -/
theorem skipsBlock {r : Reader β} {cs : List Char} (h : r.Sees cs) (depth : Nat) :
    r.SkipsBlock depth cs := by
  -- `afterBlock` takes in each of its steps what the loop takes in one round.
  fun_induction afterBlock depth cs generalizing r with
  | case1 cs =>
      have hround : commentRound (0, r) = .inl (.ok (), r) := rfl
      refine ⟨_, [], cs, r, fix_of_inl (congrArg Part.some hround), rfl, .refl h,
        Or.inl ⟨?_, rfl⟩⟩
      rw [afterBlock]
  | case2 depth cs ih =>
      obtain ⟨taken, hmark, hpass⟩ := takeMark_opening h (depth + 1)
      exact .of_takeMark hmark hpass (afterBlock.eq_2 depth cs) (ih hpass.sees)
  | case3 depth cs ih =>
      obtain ⟨taken, hmark, hpass⟩ := takeMark_closing h (depth + 1)
      exact .of_takeMark hmark hpass (afterBlock.eq_3 depth cs) (ih hpass.sees)
  | case4 depth c cs hopen hclose ih =>
      have hopen' : ¬ ['/', '*'] <+: c :: cs := by
        intro hfront
        obtain ⟨tail, heq⟩ := hfront
        cases heq
        exact hopen tail rfl rfl
      have hclose' : ¬ ['*', '/'] <+: c :: cs := by
        intro hfront
        obtain ⟨tail, heq⟩ := hfront
        cases heq
        exact hclose tail rfl rfl
      obtain ⟨taken, hmark, hpass⟩ := takeMark_other h hopen' hclose' (depth + 1)
      exact .of_takeMark hmark hpass (afterBlock.eq_4 _ _ _ hopen hclose) (ih hpass.sees)
  | case5 depth =>
      obtain ⟨after, hmark, hpass⟩ := takeMark_nil h (depth + 1)
      have hround : commentRound (depth + 1, r) =
          .inl (.error (after.errorOf .unterminatedBlockComment), after) := by
        simp [commentRound, hmark]
      refine ⟨_, [], [], after, fix_of_inl (congrArg Part.some hround), rfl, hpass,
        Or.inr ⟨?_, rfl, rfl⟩⟩
      rw [afterBlock]

end Reader

end LoxLexer
