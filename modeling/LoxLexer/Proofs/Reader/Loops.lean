import LoxLexer.Proofs.Lexeme
import LoxLexer.Proofs.Reader.Basic

/-!
# The loops of a reader

`Reader.next` is a loop, and its rounds have loops in them: up to the end of a
line comment, of a string, of the digits of a numeral or of a word, and over
the marks of a block comment.  What holds in the middle of such a loop cannot
be seen from what `next` comes to.  Here the loops are laid side by side.  A
head is a loop and the reader at its start or between two of its rounds, and a
step leads from one head to the next: to another round, into a loop, or out of
one.

* `Reader.Head.step`: one step.  The rounds are those of the loops, and what
  follows a loop is done when it has ended.
* `Reader.Head.mem_result_of_mem_next`: step by step, a reader comes to the same
  as by `next`.
-/

namespace LoxLexer

namespace Reader

variable {β : Type} [Lookahead β]

/-! ### Between the loops -/

/-- A string, of which all up to the closing quote has been taken. -/
def closeString (r : Reader β) : Part (Verdict × Reader β) :=
  match r.advance with
  | (none, r) => return (.error (r.errorOf .unterminatedString), r)
  | (some _, r) => do
    let lexeme ← r.lexeme
    let contents ← (slice? 1 (Utf8.size lexeme - 1) lexeme : Part (List Char))
    return (.ok (.string, some (.string contents)), r)

/-- A string is a run up to the quote, and what is made of it. -/
theorem quoted_eq (r : Reader β) :
    r.quoted = (r.advanceUntil (· == '"')).bind closeString := rfl

/-- Takes the point of a numeral if there are digits behind it. -/
def takePoint (r : Reader β) : Bool × Reader β :=
  let (first, r) := r.peek 0
  if first = some '.' then
    let (second, r) := r.peek 1
    if second.any Char.isDigit then (true, r.advance.2) else (false, r)
  else (false, r)

/-- A fraction is a run of digits behind a point that is taken. -/
theorem fraction_eq (r : Reader β) :
    r.fraction = if r.takePoint.1 then r.takePoint.2.advanceUntil (!·.isDigit)
      else Part.some r.takePoint.2 := by
  simp only [fraction, takePoint]
  split
  · split <;> rfl
  · rfl

/-- A numeral that has been taken. -/
def closeNumeral (r : Reader β) : Part (Verdict × Reader β) := do
  let lexeme ← r.lexeme
  match parseNumeral? lexeme with
  | some number => return (.ok (.number, some (.number number)), r)
  | none => return (.error (r.errorOf (.invalidNumber lexeme)), r)

/-- A numeral is a run of digits, a fraction if there is one, and what is made of them. -/
theorem numeral_eq (r : Reader β) :
    r.numeral = (r.advanceUntil (!·.isDigit)).bind fun r => r.fraction.bind closeNumeral := rfl

/-- A word that has been taken. -/
def closeWord (r : Reader β) : Part (Verdict × Reader β) := do
  let lexeme ← r.lexeme
  return (.ok (.ofWord lexeme, none), r)

/-- A word is a run of its parts, and what is made of it. -/
theorem word_eq (r : Reader β) :
    r.word = (r.advanceUntil (!isWordPart ·)).bind closeWord := rfl

/-! ### Heads -/

/-- The runs of characters that a reader takes in a loop. -/
inductive Run where
  | lineComment | string | whole | places | word
deriving DecidableEq

/-- The characters that a run stops at. -/
def Run.stops : Run → Char → Bool
  | lineComment => (· == '\n')
  | string => (· == '"')
  | whole | places => (!·.isDigit)
  | word => (!isWordPart ·)

/-- The loops of a reader: over the items, over a run of characters, and over a
block comment with `depth` comments open. -/
inductive Loop where
  | items
  | run (run : Run)
  | block (depth : Nat)
deriving DecidableEq

/-- A loop and the reader that is about to begin a round of it. -/
structure Head (β : Type) where
  loop : Loop
  reader : Reader β

/-- What a step leads to: the end of `next`, or another head. -/
abbrev Outcome (β : Type) := (Option Item × Reader β) ⊕ Head β

namespace Head

/-- A token has been read. Either it leaves a trace, or the next one is begun. -/
def settle : Option Verdict × Reader β → Part (Outcome β)
  | (none, r) => return .inr ⟨.items, r⟩
  | (some verdict, r) => do return .inl (some (← r.item verdict), r)

/-- A run has ended. -/
def leave : Run → Reader β → Part (Outcome β)
  | .lineComment, r => settle (none, r)
  | .string, r => r.closeString.bind fun (verdict, r) => settle (some verdict, r)
  | .whole, r =>
    if r.takePoint.1 then return .inr ⟨.run .places, r.takePoint.2⟩
    else r.takePoint.2.closeNumeral.bind fun (verdict, r) => settle (some verdict, r)
  | .places, r => r.closeNumeral.bind fun (verdict, r) => settle (some verdict, r)
  | .word, r => r.closeWord.bind fun (verdict, r) => settle (some verdict, r)

/-- A comment that closes leaves no trace, and one that does not is an error. -/
def ofBlock? : Except LexicalError Unit → Option Verdict
  | .ok () => none
  | .error e => some (.error e)

/-- The loop that the character `c`, which has been taken, leads into. -/
def enter? (c : Char) (r : Reader β) : Option (Head β) :=
  if c = '#' then some ⟨.run .lineComment, r⟩
  else if c = '"' then some ⟨.run .string, r⟩
  else if c.isDigit then some ⟨.run .whole, r⟩
  else if isWordStart c then some ⟨.run .word, r⟩
  else if c = '/' ∧ (r.nextIs '*').1 then some ⟨.block 1, (r.nextIs '*').2⟩
  else none

/-- One step. A character that leads into no loop begins a token that is read at
once. -/
def step : Head β → Part (Outcome β)
  | ⟨.items, r⟩ =>
    if r.isAtEnd then return .inl (none, r)
    else
      match { r with start := r.current, startLine := r.line }.advance with
      | (none, r) => settle (none, r)
      | (some c, r) =>
        match enter? c r with
        | some head => return .inr head
        | none => (r.dispatch c).bind settle
  | ⟨.run run, r⟩ =>
    match r.untilRound run.stops with
    | .inl r => leave run r
    | .inr r => return .inr ⟨.run run, r⟩
  | ⟨.block depth, r⟩ =>
    match commentRound (depth, r) with
    | .inl (verdict, r) => settle (ofBlock? verdict, r)
    | .inr (depth, r) => return .inr ⟨.block depth, r⟩

/-- What a reader comes to from a head on. -/
def result (h : Head β) : Part (Option Item × Reader β) := PFun.fix step h

/-- What a reader comes to if a step has this outcome. -/
def resume : Outcome β → Part (Option Item × Reader β) := Sum.elim Part.some result

/-! ### Step by step -/

variable {x : Option Item × Reader β}

/-- A reader comes to what its next step leads to. -/
theorem mem_result {h : Head β} : x ∈ h.result ↔ x ∈ h.step.bind resume := by
  rw [Part.mem_bind_iff]
  refine PFun.mem_fix_iff.trans ?_
  constructor
  · rintro (hdone | ⟨next, hgo, hrest⟩)
    · exact ⟨_, hdone, Part.mem_some x⟩
    · exact ⟨_, hgo, hrest⟩
  · rintro ⟨done | next, hstep, hrest⟩
    · exact Or.inl (Part.mem_some_iff.mp hrest ▸ hstep)
    · exact Or.inr ⟨next, hstep, hrest⟩

/-- A loop takes as many steps as rounds, and then goes on as it does when it has ended. -/
theorem mem_result_of_mem_fix {α ρ : Type} {round : α →. ρ ⊕ α} {a : α} {done : ρ}
    (head : α → Head β)
    (hround : ∀ {a next}, .inr next ∈ round a → (head a).step = Part.some (.inr (head next)))
    (hend : ∀ {a}, .inl done ∈ round a → x ∈ (head a).result) (h : done ∈ round.fix a) :
    x ∈ (head a).result := by
  refine PFun.fixInduction' h (fun last hlast => hend hlast) fun a next _ hgo ih => ?_
  rw [mem_result, hround hgo, Part.bind_some]
  exact ih

/-- A run is taken round by round. -/
theorem mem_result_run {run : Run} {r after : Reader β} (h : after ∈ r.advanceUntil run.stops)
    (hx : x ∈ (leave run after).bind resume) : x ∈ result ⟨.run run, r⟩ := by
  refine mem_result_of_mem_fix (fun r => ⟨.run run, r⟩) ?_ ?_ h
  · intro r next hround
    simp only [step, ← Part.mem_some_iff.mp hround, Part.pure_eq_some]
  · intro r hround
    simp only [mem_result, step, ← Part.mem_some_iff.mp hround]
    exact hx

/-- A block comment is passed over mark by mark. -/
theorem mem_result_block {depth : Nat} {r after : Reader β} {verdict : Except LexicalError Unit}
    (h : (verdict, after) ∈ r.skipBlock depth)
    (hx : x ∈ (settle (ofBlock? verdict, after)).bind resume) :
    x ∈ result ⟨.block depth, r⟩ := by
  refine mem_result_of_mem_fix (fun state => ⟨.block state.1, state.2⟩) ?_ ?_ h
  · rintro ⟨depth, r⟩ ⟨depth', next⟩ hround
    simp only [step, ← Part.mem_some_iff.mp hround, Part.pure_eq_some]
  · rintro ⟨depth, r⟩ hround
    simp only [mem_result, step, ← Part.mem_some_iff.mp hround]
    exact hx

/-- What a reader comes to behind a verdict, it comes to behind reading that verdict. -/
theorem mem_bind_settle {verdict : Verdict} {r : Reader β} {close : Part (Verdict × Reader β)}
    (h : (verdict, r) ∈ close) (hx : x ∈ (settle (some verdict, r)).bind resume) :
    x ∈ (close.bind fun (verdict, r) => settle (some verdict, r)).bind resume := by
  rw [Part.bind_assoc]
  exact Part.mem_bind_iff.mpr ⟨_, h, hx⟩

/-- Where a run takes what is left of a token, the token is settled behind it. -/
theorem mem_result_close {run : Run} {close : Reader β → Part (Verdict × Reader β)}
    {verdict : Verdict} {r after : Reader β}
    (hleave : ∀ r, leave run r = (close r).bind fun (verdict, r) => settle (some verdict, r))
    (h : (verdict, after) ∈ (r.advanceUntil run.stops).bind close)
    (hx : x ∈ (settle (some verdict, after)).bind resume) : x ∈ result ⟨.run run, r⟩ := by
  obtain ⟨taken, hloop, hclose⟩ := Part.mem_bind_iff.mp h
  refine mem_result_run hloop ?_
  rw [hleave]
  exact mem_bind_settle hclose hx

/-- The loop over the places of a fraction is entered from that over the digits before it. -/
theorem mem_result_whole {verdict : Verdict} {r after : Reader β}
    (h : (verdict, after) ∈ r.numeral)
    (hx : x ∈ (settle (some verdict, after)).bind resume) : x ∈ result ⟨.run .whole, r⟩ := by
  rw [numeral_eq] at h
  obtain ⟨taken, hloop, hrest⟩ := Part.mem_bind_iff.mp h
  obtain ⟨last, hfraction, hclose⟩ := Part.mem_bind_iff.mp hrest
  refine mem_result_run hloop ?_
  rw [fraction_eq] at hfraction
  rw [leave]
  split at hfraction
  · next hpoint =>
      rw [if_pos hpoint, Part.pure_eq_some, Part.bind_some]
      exact mem_result_close (fun _ => rfl) (Part.mem_bind_iff.mpr ⟨last, hfraction, hclose⟩) hx
  · next hpoint =>
      rw [if_neg hpoint, ← Part.mem_some_iff.mp hfraction]
      exact mem_bind_settle hclose hx

/-- A slash with a star behind it leads into a block comment. -/
theorem mem_result_slash {verdict : Option Verdict} {r after : Reader β}
    (h : (verdict, after) ∈ r.slash) (hstar : (r.nextIs '*').1)
    (hx : x ∈ (settle (verdict, after)).bind resume) :
    x ∈ result ⟨.block 1, (r.nextIs '*').2⟩ := by
  generalize hnext : r.nextIs '*' = next at hstar
  obtain ⟨found, taken⟩ := next
  obtain rfl : found = true := hstar
  simp only [slash, hnext, Part.bind_eq_bind] at h
  obtain ⟨⟨skipped, last⟩, hskip, hrest⟩ := Part.mem_bind_iff.mp h
  refine mem_result_block hskip ?_
  cases skipped <;> cases Part.mem_some_iff.mp hrest <;> exact hx

theorem dispatch_of_isDigit {c : Char} (h : c.isDigit) (r : Reader β) :
    r.dispatch c = r.numeral.bind fun (verdict, r) => Part.some (some verdict, r) := by
  fun_cases dispatch c r with
  | case23 => exact if_pos h
  | _ => cases h

theorem dispatch_of_isWordStart {c : Char} (h : isWordStart c) (r : Reader β) :
    r.dispatch c = r.word.bind fun (verdict, r) => Part.some (some verdict, r) := by
  fun_cases dispatch c r with
  | case23 =>
      rw [ordinary, if_neg (by simp [(class_of_isWordStart h).2.2.2.2]), if_pos h]
      rfl
  | _ => cases h

omit [Lookahead β] in
/-- Strings, numerals and words leave a trace. -/
theorem exists_of_mem_bind_some {read : Part (Verdict × Reader β)} {verdict : Option Verdict}
    {after : Reader β}
    (h : (verdict, after) ∈ read.bind fun (verdict, r) => Part.some (some verdict, r)) :
    ∃ v, verdict = some v ∧ (v, after) ∈ read := by
  obtain ⟨⟨v, last⟩, hread, hend⟩ := Part.mem_bind_iff.mp h
  cases Part.mem_some_iff.mp hend
  exact ⟨v, rfl, hread⟩

/-- What begins with a character is read by way of the loop that the character leads into. -/
theorem mem_result_of_mem_dispatch {c : Char} {verdict : Option Verdict} {r after : Reader β}
    {head : Head β} (h : (verdict, after) ∈ r.dispatch c) (hhead : enter? c r = some head)
    (hx : x ∈ (settle (verdict, after)).bind resume) : x ∈ head.result := by
  unfold enter? at hhead
  split at hhead
  · next hc =>
      subst hc
      cases hhead
      obtain ⟨last, hloop, hend⟩ := Part.mem_bind_iff.mp h
      cases Part.mem_some_iff.mp hend
      exact mem_result_run hloop hx
  split at hhead
  · next hc =>
      subst hc
      cases hhead
      obtain ⟨v, rfl, hstring⟩ := exists_of_mem_bind_some h
      rw [quoted_eq] at hstring
      exact mem_result_close (fun _ => rfl) hstring hx
  split at hhead
  · next hdigit =>
      cases hhead
      rw [dispatch_of_isDigit hdigit] at h
      obtain ⟨v, rfl, hnumeral⟩ := exists_of_mem_bind_some h
      exact mem_result_whole hnumeral hx
  split at hhead
  · next hword =>
      cases hhead
      rw [dispatch_of_isWordStart hword] at h
      obtain ⟨v, rfl, hread⟩ := exists_of_mem_bind_some h
      rw [word_eq] at hread
      exact mem_result_close (fun _ => rfl) hread hx
  split at hhead
  · next hslash =>
      obtain ⟨rfl, hstar⟩ := hslash
      cases hhead
      exact mem_result_slash h hstar hx
  · cases hhead

/-- A round of `next` leads to what settling its token leads to. -/
theorem mem_settle_of_mem_itemRound {r : Reader β}
    {outcome : (Option Item × Reader β) ⊕ Reader β} (hend : ¬ r.isAtEnd = true)
    (h : outcome ∈ r.itemRound) :
    ∃ verdict after, (verdict, after) ∈
        { r with start := r.current, startLine := r.line }.scanToken ∧
      outcome.map id (Head.mk .items) ∈ settle (verdict, after) := by
  rw [itemRound, if_neg hend] at h
  obtain ⟨⟨verdict, after⟩, hscan, hrest⟩ := Part.mem_bind_iff.mp h
  refine ⟨verdict, after, hscan, ?_⟩
  cases verdict with
  | none =>
      cases Part.mem_some_iff.mp hrest
      exact Part.mem_some _
  | some verdict =>
      obtain ⟨item, hitem, hdone⟩ := Part.mem_bind_iff.mp hrest
      cases Part.mem_some_iff.mp hdone
      exact Part.mem_bind_iff.mpr ⟨item, hitem, Part.mem_some _⟩

/-- A round of `next` is made of the steps from one head over the items to the next one. -/
theorem mem_result_of_mem_itemRound {r : Reader β}
    {outcome : (Option Item × Reader β) ⊕ Reader β} (h : outcome ∈ r.itemRound)
    (hx : x ∈ resume (outcome.map id (Head.mk .items))) : x ∈ result ⟨.items, r⟩ := by
  rw [mem_result, step]
  by_cases hend : r.isAtEnd = true
  · rw [itemRound, if_pos hend] at h
    cases Part.mem_some_iff.mp h
    rw [if_pos hend]
    exact Part.mem_bind_iff.mpr ⟨_, Part.mem_some _, hx⟩
  · obtain ⟨verdict, after, hscan, hsettle⟩ := mem_settle_of_mem_itemRound hend h
    have hrest : x ∈ (settle (verdict, after)).bind resume :=
      Part.mem_bind_iff.mpr ⟨_, hsettle, hx⟩
    rw [if_neg hend]
    rw [scanToken] at hscan
    generalize advance { r with start := r.current, startLine := r.line } = taken at hscan ⊢
    obtain ⟨_ | c, taken⟩ := taken
    · cases Part.mem_some_iff.mp hscan
      exact hrest
    · dsimp only
      cases hhead : enter? c taken with
      | none =>
          rw [Part.bind_assoc]
          exact Part.mem_bind_iff.mpr ⟨_, hscan, hrest⟩
      | some head =>
          have hrun := mem_result_of_mem_dispatch hscan hhead hrest
          exact Part.mem_bind_iff.mpr ⟨_, Part.mem_some _, hrun⟩

/-- **Loops laid side by side.**  Step by step, a reader comes to what it comes to
by `next`. -/
theorem mem_result_of_mem_next {r : Reader β} (h : x ∈ r.next) : x ∈ result ⟨.items, r⟩ := by
  refine PFun.fixInduction' h (fun last hlast => ?_) fun r next _ hgo ih => ?_
  · exact mem_result_of_mem_itemRound hlast (Part.mem_some x)
  · exact mem_result_of_mem_itemRound hgo ih

end Head

end Reader

end LoxLexer
