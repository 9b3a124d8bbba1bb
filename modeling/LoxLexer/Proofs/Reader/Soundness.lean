import LoxLexer.Proofs.Reader.Loops
import LoxLexer.Proofs.Reader.Refinement

/-!
# What holds at the head of every loop

A reader knows where it is twice over, by its places and by what its iterator
has in front of it, and nothing but the code that moves it keeps the two
together.  They are together at the head of every loop: the source is what was
before the present token, what has been taken of it and what is in front, the
places lie between these, and the lines are counted up to there.  Each step
keeps this (`Head.Stands.step`), and so does any number of them.

* `Head.Reaches`: the heads that a reader of a source comes to.
* `Head.Sound`: what holds there, said of the places and the source.
* `Head.reaches_sound`: the statement.
-/

namespace LoxLexer

namespace Reader

variable {β : Type} [Lookahead β]

/-! ### Moving on -/

/-- `after` is further on in what `r` has in front, with the line ends on the way
counted. -/
def Moves (r : Reader β) (rest : List Char) (after : Reader β) : Prop :=
  ∃ text rest', rest = text ++ rest' ∧ r.Passes text rest' (newlines text) after

theorem Moves.of_looked {r after : Reader β} {rest : List Char} (h : r.Passes [] rest 0 after) :
    r.Moves rest after :=
  ⟨[], rest, rfl, h⟩

/-- Either the given character comes next and is taken, or the answer is no. -/
theorem nextIs_cases {r : Reader β} {rest : List Char} (h : r.Sees rest) (c : Char) :
    ((r.nextIs c).1 = true ∧ ∃ cs, rest = c :: cs ∧ r.Passes [c] cs 0 (r.nextIs c).2) ∨
      (r.nextIs c).1 = false := by
  by_cases hc : rest.head? = some c
  · obtain ⟨cs, rfl⟩ := List.head?_eq_some_iff.mp hc
    obtain ⟨after, hnext, hpass⟩ := nextIs_cons h
    rw [hnext]
    exact Or.inl ⟨rfl, cs, rfl, hpass⟩
  · obtain ⟨after, hnext, -⟩ := nextIs_of_ne h hc
    rw [hnext]
    exact Or.inr rfl

/-- Whether the point of a numeral is taken or not, the reader is further on in its text. -/
theorem takePoint_moves {r : Reader β} {rest : List Char} (h : r.Sees rest) :
    r.Moves rest r.takePoint.2 := by
  obtain ⟨looked, hlook, hpass⟩ := peek_eq h 0
  obtain ⟨looked', hlook', hpass'⟩ := peek_eq hpass.sees 1
  by_cases hpoint : rest[0]? = some '.'
  · by_cases hdigit : rest[1]?.any Char.isDigit = true
    · obtain ⟨cs, rfl⟩ : ∃ cs, rest = '.' :: cs := by
        rw [← List.head?_eq_getElem?] at hpoint
        exact List.head?_eq_some_iff.mp hpoint
      obtain ⟨taken, hadvance, hpass''⟩ := advance_cons hpass'.sees
      refine ⟨['.'], cs, rfl, ?_⟩
      simp only [takePoint, hlook, if_pos hpoint, hlook', if_pos hdigit, hadvance]
      exact (hpass.trans hpass').trans hpass''
    · simp only [takePoint, hlook, if_pos hpoint, hlook', if_neg hdigit]
      exact .of_looked (hpass.trans hpass')
  · simp only [takePoint, hlook, if_neg hpoint]
    exact .of_looked hpass

/-- A round over a block comment takes a mark or a character, and at the end nothing. -/
theorem takeMark_cases {r : Reader β} {rest : List Char} (h : r.Sees rest) (depth : Nat) :
    (∃ after, r.takeMark depth = (none, after) ∧ r.Passes [] rest 0 after) ∨
      ∃ text rest' depth' after, rest = text ++ rest' ∧ r.takeMark depth = (some depth', after) ∧
        r.Passes text rest' (newlines text) after ∧
        (depth' = depth + 1 ∧ text.length = 2 ∨ depth' = depth ∨ depth' = depth - 1) := by
  by_cases hopen : ['/', '*'] <+: rest
  · obtain ⟨cs, rfl⟩ := hopen
    obtain ⟨after, hmark, hpass⟩ := takeMark_opening h depth
    exact Or.inr ⟨['/', '*'], cs, _, after, rfl, hmark, hpass, Or.inl ⟨rfl, rfl⟩⟩
  by_cases hclose : ['*', '/'] <+: rest
  · obtain ⟨cs, rfl⟩ := hclose
    obtain ⟨after, hmark, hpass⟩ := takeMark_closing h depth
    exact Or.inr ⟨['*', '/'], cs, _, after, rfl, hmark, hpass, Or.inr (Or.inr rfl)⟩
  cases rest with
  | nil => exact Or.inl (takeMark_nil h depth)
  | cons c cs =>
      obtain ⟨after, hmark, hpass⟩ := takeMark_other h hopen hclose depth
      exact Or.inr ⟨[c], cs, _, after, rfl, hmark, hpass, Or.inr (Or.inl rfl)⟩

/-- A string ends at the quote that its loop stopped at, or with the source. -/
theorem Within.closeString {r : Reader β} {before contents rest : List Char}
    (h : r.Within before ('"' :: contents) rest) (hstop : ∀ c ∈ rest.head?, (c == '"') = true) :
    ∃ verdict after, r.closeString = Part.some (verdict, after) ∧ r.Moves rest after := by
  cases rest with
  | nil =>
      obtain ⟨after, hadvance, hpass⟩ := advance_nil h.sees
      refine ⟨.error (after.errorOf .unterminatedString), after, ?_, .of_looked hpass⟩
      rw [Reader.closeString, hadvance]
      rfl
  | cons c cs =>
      obtain rfl := beq_iff_eq.mp (hstop c rfl)
      obtain ⟨after, hadvance, hpass⟩ := advance_cons h.sees
      have hlexeme := (h.passes hpass rfl).lexeme_eq
      refine ⟨.ok (.string, some (.string contents)), after, ?_, ['"'], cs, rfl, hpass⟩
      rw [Reader.closeString, hadvance]
      simp only [hlexeme, slice?_quoted contents, Part.coe_some, Part.bind_eq_bind, Part.bind_some,
        Part.pure_eq_some]

/-- The next token begins where the present one ends. -/
theorem Within.begin {r : Reader β} {before text rest : List Char}
    (h : r.Within before text rest) :
    Within { r with start := r.current, startLine := r.line } (before ++ text) [] rest where
  source := by rw [List.append_nil]; exact h.source
  start := h.current
  current := by rw [List.append_nil]; exact h.current
  sees := h.sees

/-- A numeral that has been taken comes to something, be it a number or an error. -/
theorem Within.closeNumeral {r : Reader β} {before text rest : List Char}
    (h : r.Within before text rest) : ∃ verdict, r.closeNumeral = Part.some (verdict, r) := by
  rw [Reader.closeNumeral, h.lexeme_eq, Part.bind_eq_bind, Part.bind_some]
  cases parseNumeral? text <;> exact ⟨_, rfl⟩

/-- A word that has been taken comes to something. -/
theorem Within.closeWord {r : Reader β} {before text rest : List Char}
    (h : r.Within before text rest) : ∃ verdict, r.closeWord = Part.some (verdict, r) := by
  rw [Reader.closeWord, h.lexeme_eq, Part.bind_eq_bind, Part.bind_some]
  exact ⟨_, rfl⟩

/-- A token that has been taken has a lexeme, and so there is an item for it. -/
theorem Within.item {r : Reader β} {before text rest : List Char}
    (h : r.Within before text rest) (verdict : Verdict) :
    ∃ item, r.item verdict = Part.some item := by
  cases verdict with
  | ok value =>
      rw [Reader.item, h.lexeme_eq, Part.bind_eq_bind, Part.bind_some]
      exact ⟨_, rfl⟩
  | error e => exact ⟨_, rfl⟩

namespace Head

/-! ### The invariant -/

/-- What a loop relies on in the text that has been taken of the present token: a
string has its first quote, and each open comment took two characters to open. -/
def Took : Loop → List Char → Prop
  | .run .string, text => ∃ contents, text = '"' :: contents
  | .block depth, text => 2 * depth ≤ text.length
  | _, _ => True

/-- A head stands in a source behind `before` and `text`, where `text` has been
taken since the present token began, and has `rest` in front. -/
structure Stands (source : List Char) (h : Head β) (before text rest : List Char) : Prop where
  split : source = before ++ text ++ rest
  within : h.reader.Within before text rest
  startLine : h.reader.startLine = 1 + newlines before
  line : h.reader.line = 1 + newlines (before ++ text)
  took : Took h.loop text

/-- The head at which reading goes on. Behind an item that is the one over the next items. -/
def next : Outcome β → Head β
  | .inl (_, r) => ⟨.items, r⟩
  | .inr h => h

/-- A step does not break down, and leads to a head that stands in the source. -/
def Leads (source : List Char) (result : Part (Outcome β)) : Prop :=
  ∃ outcome, result = Part.some outcome ∧
    ∃ before text rest, (next outcome).Stands source before text rest

section Stands

variable {source before text rest : List Char} {loop : Loop} {r : Reader β}

/-- A head moves on in its source. -/
theorem Stands.passes {after : Reader β} {more rest' : List Char} {loop' : Loop}
    (h : (Head.mk loop r).Stands source before text (more ++ rest'))
    (hpass : r.Passes more rest' (newlines more) after) (htook : Took loop' (text ++ more)) :
    (Head.mk loop' after).Stands source before (text ++ more) rest' where
  split := by
    rw [h.split]
    simp
  within := h.within.passes hpass rfl
  startLine := hpass.startLine.trans h.startLine
  line := by rw [hpass.line, h.line, ← List.append_assoc, newlines_append _ more, Nat.add_assoc]
  took := htook

/-- A head still stands in the source when its reader is further on, in whatever loop that is. -/
theorem Stands.moves {after : Reader β} (h : (Head.mk loop r).Stands source before text rest)
    (hmove : r.Moves rest after) (loop' : Loop) (htook : ∀ more, Took loop' (text ++ more)) :
    ∃ text rest, (Head.mk loop' after).Stands source before text rest := by
  obtain ⟨more, rest', rfl, hpass⟩ := hmove
  exact ⟨text ++ more, rest', h.passes hpass (htook more)⟩

/-- A token that has been read can be settled. -/
theorem Stands.settle (h : (Head.mk loop r).Stands source before text rest)
    (verdict : Option Verdict) : Leads source (Head.settle (verdict, r)) := by
  have hitems : (Head.mk .items r).Stands source before text rest :=
    ⟨h.split, h.within, h.startLine, h.line, trivial⟩
  cases verdict with
  | none => exact ⟨_, rfl, before, text, rest, hitems⟩
  | some verdict =>
      obtain ⟨item, hitem⟩ := h.within.item verdict
      refine ⟨.inl (some item, r), ?_, before, text, rest, hitems⟩
      rw [Head.settle, hitem, Part.bind_eq_bind, Part.bind_some]
      rfl

/-- Behind its last digit a numeral leads to a head that stands in the source. -/
theorem Stands.closeNumeral (h : (Head.mk loop r).Stands source before text rest) :
    Leads source (r.closeNumeral.bind fun (verdict, r) => Head.settle (some verdict, r)) := by
  obtain ⟨verdict, hclose⟩ := h.within.closeNumeral
  rw [hclose, Part.bind_some]
  exact h.settle (some verdict)

/-- Where a run stops, what is made of it leads to a head that stands in the source. -/
theorem Stands.leave {run : Run} (h : (Head.mk (.run run) r).Stands source before text rest)
    (hstop : ∀ c ∈ rest.head?, run.stops c = true) : Leads source (Head.leave run r) := by
  cases run with
  | lineComment => exact h.settle none
  | string =>
      obtain ⟨contents, rfl⟩ := h.took
      obtain ⟨verdict, after, hclose, hmove⟩ := h.within.closeString hstop
      obtain ⟨text, rest, hafter⟩ := h.moves hmove .items fun _ => trivial
      rw [Head.leave, hclose, Part.bind_some]
      exact hafter.settle (some verdict)
  | whole =>
      obtain ⟨text, rest, hafter⟩ :=
        h.moves (takePoint_moves h.within.sees) (.run .places) fun _ => trivial
      rw [Head.leave]
      split
      · exact ⟨_, rfl, before, text, rest, hafter⟩
      · exact hafter.closeNumeral
  | places => exact h.closeNumeral
  | word =>
      obtain ⟨verdict, hclose⟩ := h.within.closeWord
      rw [Head.leave, hclose, Part.bind_some]
      exact h.settle (some verdict)

/-- A round of a run leads to a head that stands in the source. -/
theorem Stands.step_run {run : Run} (h : (Head.mk (.run run) r).Stands source before text rest) :
    Leads source (Head.step ⟨.run run, r⟩) := by
  rcases untilRound_cases h.within.sees run.stops with
    ⟨after, hround, hpass, hstop⟩ | ⟨c, cs, after, rfl, -, hround, hpass⟩
  · have hafter : (Head.mk (.run run) after).Stands source before (text ++ []) rest := by
      refine Stands.passes h hpass ?_
      rw [List.append_nil]
      exact h.took
    simp only [Head.step, hround]
    exact hafter.leave hstop
  · have hafter : (Head.mk (.run run) after).Stands source before (text ++ [c]) cs := by
      refine Stands.passes h hpass ?_
      cases run with
      | string =>
          obtain ⟨contents, rfl⟩ := h.took
          exact ⟨contents ++ [c], rfl⟩
      | _ => trivial
    simp only [Head.step, hround]
    exact ⟨_, rfl, before, _, cs, hafter⟩

/-- A round over a block comment leads to a head that stands in the source. -/
theorem Stands.step_block {depth : Nat}
    (h : (Head.mk (.block depth) r).Stands source before text rest) :
    Leads source (Head.step ⟨.block depth, r⟩) := by
  have htook : 2 * depth ≤ text.length := h.took
  by_cases hdepth : depth = 0
  · simp only [Head.step, commentRound, if_pos hdepth]
    exact h.settle none
  rcases takeMark_cases h.within.sees depth with
    ⟨after, hmark, hpass⟩ | ⟨more, rest', depth', after, rfl, hmark, hpass, hdepth'⟩
  · obtain ⟨text, rest, hafter⟩ :=
      h.moves (.of_looked hpass) .items fun _ => trivial
    simp only [Head.step, commentRound, if_neg hdepth, hmark]
    exact hafter.settle _
  · have hafter : (Head.mk (.block depth') after).Stands source before (text ++ more) rest' := by
      refine h.passes hpass ?_
      change 2 * depth' ≤ (text ++ more).length
      rw [List.length_append]
      omega
    simp only [Head.step, commentRound, if_neg hdepth, hmark]
    exact ⟨_, rfl, before, _, rest', hafter⟩

/-- A character that leads into a loop is no line end, and the loop begins with
the right text. -/
theorem enter?_moves {c : Char} {cs : List Char} {taken : Reader β} {head : Head β}
    (h : taken.Sees cs) (hhead : enter? c taken = some head) :
    newlines [c] = 0 ∧ ∃ more rest', cs = more ++ rest' ∧
      taken.Passes more rest' (newlines more) head.reader ∧ Took head.loop (c :: more) := by
  have hstay : ∀ {loop : Loop}, Took loop [c] →
      ∃ more rest', cs = more ++ rest' ∧
        taken.Passes more rest' (newlines more) (Head.mk loop taken).reader ∧
          Took (Head.mk loop taken).loop (c :: more) :=
    fun htook => ⟨[], cs, rfl, .refl h, htook⟩
  unfold enter? at hhead
  split at hhead
  · next hc =>
      subst hc
      cases hhead
      exact ⟨rfl, hstay trivial⟩
  split at hhead
  · next hc =>
      subst hc
      cases hhead
      exact ⟨rfl, hstay ⟨[], rfl⟩⟩
  split at hhead
  · next hdigit =>
      cases hhead
      exact ⟨newlines_cons_of_ne (ne_newline_of_isSpace (class_of_isDigit hdigit).1) [],
        hstay trivial⟩
  split at hhead
  · next hword =>
      cases hhead
      exact ⟨newlines_cons_of_ne (ne_newline_of_isSpace (class_of_isWordStart hword).1) [],
        hstay trivial⟩
  split at hhead
  · next hslash =>
      obtain ⟨rfl, hstar⟩ := hslash
      cases hhead
      rcases nextIs_cases h '*' with ⟨-, rest', rfl, hpass⟩ | hother
      · exact ⟨rfl, ['*'], rest', rfl, hpass, Nat.le_refl 2⟩
      · rw [hother] at hstar
        cases hstar
  · cases hhead

theorem Stands.isAtEnd (h : (Head.mk loop r).Stands source before text rest) :
    r.isAtEnd = true ↔ rest = [] := by
  have hplace : r.At ⟨rest, r.line⟩ := h.within.at_rest rfl
  exact hplace.isAtEnd

/-- A round over the items leads to a head that stands in the source. -/
theorem Stands.step_items (h : (Head.mk .items r).Stands source before text rest) :
    Leads source (Head.step ⟨.items, r⟩) := by
  rw [Head.step]
  split
  · exact ⟨_, rfl, before, text, rest, h⟩
  · next hend =>
      obtain ⟨c, cs, rfl⟩ := List.exists_cons_of_ne_nil (mt h.isAtEnd.mpr hend)
      have hbegin := Within.begin h.within
      obtain ⟨taken, hadvance, hpass⟩ := advance_cons hbegin.sees
      have htaken : taken.Within (before ++ text) [c] cs := hbegin.passes hpass rfl
      have hstartLine : taken.startLine = 1 + newlines (before ++ text) :=
        hpass.startLine.trans h.line
      have hline : taken.line = 1 + newlines (before ++ text) := hpass.line.trans h.line
      have hsplit : source = before ++ text ++ [c] ++ cs := by
        rw [h.split, List.append_assoc _ [c] cs]
        rfl
      simp only [hadvance]
      cases hhead : enter? c taken with
      | some head =>
          obtain ⟨hnewline, more, rest', rfl, hpass', htook⟩ := enter?_moves htaken.sees hhead
          have hstands : (Head.mk .items taken).Stands source (before ++ text) [c]
              (more ++ rest') := by
            refine ⟨hsplit, htaken, hstartLine, ?_, trivial⟩
            rw [newlines_append _ [c], hnewline]
            exact hline
          exact ⟨.inr head, rfl, before ++ text, _, rest', hstands.passes hpass' htook⟩
      | none =>
          obtain ⟨after, hdispatch, hafter, hstart, hcounted⟩ := dispatch_eq htaken
          have hstands : (Head.mk .items after).Stands source (before ++ text)
              (Tile.first c cs).1.text (Tile.first c cs).2 := by
            refine ⟨?_, hafter, hstart.trans hstartLine, ?_, trivial⟩
            · rw [List.append_assoc, Tile.text_first_append, h.split]
            · rw [hcounted, hline, newlines_append _ (Tile.first c cs).1.text, Nat.add_assoc]
          simp only [hdispatch, Part.bind_some]
          exact hstands.settle _

/-- **One step** does not break down and keeps the invariant. -/
theorem Stands.step {h : Head β} (hstands : h.Stands source before text rest) :
    Leads source h.step := by
  obtain ⟨loop, r⟩ := h
  cases loop with
  | items => exact hstands.step_items
  | run run => exact hstands.step_run
  | block depth => exact hstands.step_block

end Stands

/-! ### All heads -/

/-- The heads that a reader of a source comes to when it is asked for one item after
the other. -/
inductive Reaches (source : List Char) : Head β → Prop
  | new : Reaches source ⟨.items, Reader.new source⟩
  | step {h : Head β} {outcome : Outcome β} (hreach : Reaches source h)
      (hstep : outcome ∈ h.step) : Reaches source (next outcome)

/-- The first head of a reader stands at the start of the source. -/
theorem stands_new (source : List Char) :
    (Head.mk .items (Reader.new source) : Head β).Stands source [] [] source where
  split := rfl
  within := ⟨rfl, rfl, rfl, Lookahead.pending_ofItems _⟩
  startLine := rfl
  line := rfl
  took := trivial

/-- **Any number of steps** keep the invariant. -/
theorem Reaches.stands {source : List Char} {h : Head β} (hreach : Reaches source h) :
    ∃ before text rest, h.Stands source before text rest := by
  induction hreach with
  | new => exact ⟨[], [], source, stands_new source⟩
  | step _ hstep ih =>
      obtain ⟨before, text, rest, hstands⟩ := ih
      obtain ⟨outcome, heq, hnext⟩ := hstands.step
      rw [heq] at hstep
      exact Part.mem_some_iff.mp hstep ▸ hnext

/-- What a reader comes to from a head on, it comes to by way of heads. -/
theorem Reaches.of_mem_result {source : List Char} {h : Head β} {item : Option Item}
    {r : Reader β} (hreach : Reaches source h) (hresult : (item, r) ∈ h.result) :
    Reaches source ⟨.items, r⟩ := by
  revert hreach
  refine PFun.fixInduction' hresult (fun last hlast hreach => ?_) fun h₀ h₁ _ hgo ih hreach => ?_
  · exact hreach.step hlast
  · exact ih (hreach.step hgo)

/-- A reader of `source` is sound at the head of a loop: its places are in order,
in bounds and between characters, its iterator has in front what is behind them,
and its counters are bounded by the length of the source. -/
structure Sound (source : List Char) (h : Head β) : Prop where
  source_eq : h.reader.source = source
  start_le : h.reader.start ≤ h.reader.current
  current_le : h.reader.current ≤ Utf8.size source
  start_between : ∃ front rest, source = front ++ rest ∧ h.reader.start = Utf8.size front
  current_between : ∃ front rest, source = front ++ rest ∧ h.reader.current = Utf8.size front ∧
    Lookahead.pending h.reader.ahead = offsets h.reader.current rest
  isAtEnd_iff : h.reader.isAtEnd = true ↔ h.reader.advance.1 = none
  lexeme : ∃ text, h.reader.lexeme = Part.some text
  startLine_le : h.reader.startLine ≤ h.reader.line
  line_le : h.reader.line ≤ source.length + 1
  depth_le : ∀ depth, h.loop = .block depth → depth ≤ source.length + 1

/-- A head that stands in the source is sound. -/
theorem Stands.sound {source before text rest : List Char} {h : Head β}
    (hstands : h.Stands source before text rest) : h.Sound source where
  source_eq := hstands.within.source.trans hstands.split.symm
  start_le := by
    rw [hstands.within.start, hstands.within.current, Utf8.size_append]
    exact Nat.le_add_right _ _
  current_le := by
    rw [hstands.within.current, hstands.split, Utf8.size_append _ rest]
    exact Nat.le_add_right _ _
  start_between := ⟨before, text ++ rest, by rw [hstands.split, List.append_assoc],
    hstands.within.start⟩
  current_between := ⟨before ++ text, rest, hstands.split, hstands.within.current,
    hstands.within.sees⟩
  isAtEnd_iff := by
    rw [hstands.isAtEnd]
    cases rest with
    | nil =>
        obtain ⟨after, hadvance, -⟩ := advance_nil hstands.within.sees
        simp [hadvance]
    | cons c cs =>
        obtain ⟨after, hadvance, -⟩ := advance_cons hstands.within.sees
        simp [hadvance]
  lexeme := ⟨text, hstands.within.lexeme_eq⟩
  startLine_le := by
    rw [hstands.startLine, hstands.line, newlines_append]
    omega
  line_le := by
    have hcount : newlines (before ++ text) ≤ (before ++ text).length := List.count_le_length
    have hlength := congrArg List.length hstands.split
    rw [List.length_append] at hlength
    rw [hstands.line]
    omega
  depth_le := by
    intro depth hloop
    have htook := hstands.took
    rw [hloop] at htook
    have hdepth : 2 * depth ≤ text.length := htook
    have hlength := congrArg List.length hstands.split
    simp only [List.length_append] at hlength
    omega

/-- A mark opens a comment, closes one or does neither. -/
theorem depth_of_takeMark {depth depth' : Nat} {r after : Reader β}
    (h : r.takeMark depth = (some depth', after)) :
    depth' = depth + 1 ∨ depth' = depth ∨ depth' = depth - 1 := by
  unfold takeMark at h
  split at h
  · cases h
    exact Or.inl rfl
  split at h
  · cases h
    exact Or.inr (Or.inr rfl)
  split at h <;> cases h
  exact Or.inr (Or.inl rfl)

omit [Lookahead β] in
/-- Settling a token does not lead into a block comment. -/
theorem not_mem_settle {verdict : Option Verdict} {depth : Nat} {r after : Reader β} :
    .inr ⟨.block depth, after⟩ ∉ settle (verdict, r) := by
  intro hmem
  cases verdict with
  | none => cases Part.mem_some_iff.mp hmem
  | some verdict =>
      obtain ⟨item, -, hdone⟩ := Part.mem_bind_iff.mp hmem
      cases Part.mem_some_iff.mp hdone

/-- Before a round over a block comment that does not end it a comment is open, and
where the number of open ones falls it falls by one. -/
theorem depth_of_mem_step {depth depth' : Nat} {r r' : Reader β}
    (h : .inr ⟨.block depth', r'⟩ ∈ Head.step ⟨.block depth, r⟩) :
    1 ≤ depth ∧ (depth' = depth + 1 ∨ depth' = depth ∨ depth' + 1 = depth) := by
  rw [Head.step] at h
  by_cases hdepth : depth = 0
  · rw [commentRound, if_pos hdepth] at h
    exact absurd h not_mem_settle
  · rw [commentRound, if_neg hdepth] at h
    generalize hmark : r.takeMark depth = mark at h
    obtain ⟨_ | found, after⟩ := mark
    · exact absurd h not_mem_settle
    · cases Part.mem_some_iff.mp h
      have hfound := depth_of_takeMark hmark
      omega

/-- At a head over the items, the steps come to what `next` comes to. -/
theorem Stands.result_eq {source before text rest : List Char} {r : Reader β}
    (h : (Head.mk .items r).Stands source before text rest) :
    Head.result ⟨.items, r⟩ = r.next := by
  have hplace : r.At ⟨rest, r.line⟩ := h.within.at_rest rfl
  obtain ⟨after, hnext, -⟩ := hplace.next
  rw [hnext]
  exact Part.eq_some_iff.mpr (mem_result_of_mem_next (hnext ▸ Part.mem_some _))

/-- Whatever has been asked for, the next head over the items is reached. -/
theorem Reaches.skip {source : List Char} (k : Nat) {r : Reader β}
    (hreach : Reaches source ⟨.items, r⟩) :
    ∃ after, r.skip k = Part.some after ∧ Reaches source ⟨.items, after⟩ := by
  induction k generalizing r with
  | zero => exact ⟨r, rfl, hreach⟩
  | succ k ih =>
      obtain ⟨before, text, rest, hstands⟩ := hreach.stands
      have hplace : r.At ⟨rest, r.line⟩ := hstands.within.at_rest rfl
      obtain ⟨middle, hnext, -⟩ := hplace.next
      have hresult := mem_result_of_mem_next (hnext ▸ Part.mem_some _)
      obtain ⟨after, hskip, hafter⟩ := ih (hreach.of_mem_result hresult)
      refine ⟨after, ?_, hafter⟩
      rw [Reader.skip, hnext, Part.bind_eq_bind, Part.bind_some]
      exact hskip

/-- **A reader never loses its place.**  However often a reader of a source is asked
for the next item, it is sound, and so it is at the head of every loop that it
comes to on the way.  There a step does not break down: every text is cut in
bounds and between characters.  A comment is open before the number of open
comments falls, so that it falls by one, and no counter exceeds the length of the
source by more than one, be it taken in characters or in bytes.  The heads are
those of `next`, laid side by side. -/
theorem reaches_sound (source : List Char) :
    source.length ≤ Utf8.size source ∧
    (∀ k, ∃ r : Reader β, (Reader.new source).skip k = Part.some r ∧
      Reaches source ⟨.items, r⟩) ∧
    ∀ h : Head β, Reaches source h →
      h.Sound source ∧
      (∃ outcome, h.step = Part.some outcome) ∧
      (∀ depth depth' r', h.loop = .block depth → .inr ⟨.block depth', r'⟩ ∈ h.step →
        1 ≤ depth ∧ (depth' = depth + 1 ∨ depth' = depth ∨ depth' + 1 = depth)) ∧
      (h.loop = .items → h.result = h.reader.next) := by
  refine ⟨Utf8.length_le_size source, fun k => Reaches.new.skip k, ?_⟩
  rintro ⟨loop, r⟩ hreach
  obtain ⟨before, text, rest, hstands⟩ := hreach.stands
  obtain ⟨outcome, hstep, -⟩ := hstands.step
  refine ⟨hstands.sound, ⟨outcome, hstep⟩, ?_, ?_⟩
  · rintro depth depth' r' rfl hmem
    exact depth_of_mem_step hmem
  · rintro rfl
    exact hstands.result_eq

/-- Inside two comments, with characters of two and of three bytes before. -/
theorem reaches_sound_nested :
    ∃ r : Reader Queue, Reaches ['é', '/', '*', '€', '/', '*'] ⟨.block 2, r⟩ ∧
      (r.start, r.current) = (2, 9) ∧ Sound ['é', '/', '*', '€', '/', '*'] ⟨.block 2, r⟩ ∧
      ∃ outcome, Head.step ⟨.block 2, r⟩ = Part.some outcome := by
  have hnew : Reaches ['é', '/', '*', '€', '/', '*'] (⟨.items, Reader.new _⟩ : Head Queue) := .new
  -- The first character is an error, and its item is handed out.
  have herror := hnew.step (Part.mem_bind_iff.mpr ⟨_, Part.mem_some _,
    Part.mem_bind_iff.mpr ⟨_, Part.mem_some _, Part.mem_some _⟩⟩)
  have hopened := herror.step (Part.mem_some _)
  have hinside := hopened.step (Part.mem_some _)
  have hnested := hinside.step (Part.mem_some _)
  obtain ⟨hsound, hstep, -⟩ := (reaches_sound _).2.2 _ hnested
  exact ⟨_, hnested, rfl, hsound, hstep⟩

end Head

end Reader

end LoxLexer
