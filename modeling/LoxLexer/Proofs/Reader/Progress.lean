import LoxLexer.Proofs.Lines
import LoxLexer.Proofs.Sinks
import LoxLexer.Proofs.Reader.Soundness

/-!
# Reading comes to an end

No loop of a reader ends by what it tests alone.  The loop over the items tests a
number of bytes, and takes its characters from somewhere else; the loop over a
block comment waits for a counter to come down, and counts it up itself.  What
ends them all is that each round takes a character, of which there are only so
many, and that where there is none left the tests say so.

* `fix_ends`: an iteration ends if its rounds use something up.
* `Reader.untilRound_cases_unread`, `Reader.commentRound_cases_unread`: what the
  rounds of the inner loops take, with `Reader.advanceUntil_ends` and
  `Reader.skipBlock_ends` for the loops.
* `Reader.At.scanToken_advances`, `Reader.At.next_advances`: what it takes to read
  on, and to come to the next item.
* `Cursor.length_items_le`: hence there are no more items than characters.
* `Reader.reading_ends`: the statement.
-/

namespace LoxLexer

/-- An iteration ends if each round does, keeps what the next one relies on, and
uses something up unless it is the last. -/
theorem fix_ends {α ρ : Type} {round : α →. ρ ⊕ α} (amount : α → Nat) (before : α → Prop)
    (behind : ρ → Prop)
    (hround : ∀ a, before a →
      (∃ result, round a = Part.some (.inl result) ∧ behind result) ∨
        ∃ next, round a = Part.some (.inr next) ∧ before next ∧ amount next < amount a)
    {a : α} (ha : before a) : ∃ result, round.fix a = Part.some result ∧ behind result := by
  induction hamount : amount a using Nat.strongRecOn generalizing a with
  | ind n ih =>
      rcases hround a ha with ⟨result, hlast, hresult⟩ | ⟨next, hgo, hnext, hless⟩
      · exact ⟨result, fix_of_inl hlast, hresult⟩
      · obtain ⟨result, hrest, hresult⟩ := ih (amount next) (hamount ▸ hless) hnext rfl
        exact ⟨result, (fix_of_inr hgo).trans hrest, hresult⟩

/-- The error is about a string or a comment that is open where the source ends. -/
def LexicalError.IsOpen (e : LexicalError) : Prop :=
  e.fault = .unterminatedString ∨ e.fault = .unterminatedBlockComment

namespace Reader

variable {β : Type} [Lookahead β]

/-! ### Characters -/

/-- The characters that have not been taken. -/
def unread (r : Reader β) : List Char := (Lookahead.pending r.ahead).map Prod.snd

/-- From `r` to `after` at least one character has been taken, and none but those
that were left. -/
def Advances (r after : Reader β) : Prop := ∃ taken, taken ≠ [] ∧ r.unread = taken ++ after.unread

/-- A reader that advances has less left. -/
theorem Advances.length_lt {r after : Reader β} (h : r.Advances after) :
    after.unread.length < r.unread.length := by
  obtain ⟨taken, hne, heq⟩ := h
  have hpos := List.length_pos_iff.mpr hne
  rw [heq, List.length_append]
  omega

/-- A reader that advances has the end left of what it had. -/
theorem Advances.suffix {r after : Reader β} (h : r.Advances after) :
    after.unread <:+ r.unread := by
  obtain ⟨taken, -, heq⟩ := h
  exact ⟨taken, heq.symm⟩

/-- Looking ahead beforehand makes no difference. -/
theorem Advances.of_unread_eq {r looked after : Reader β} (h : looked.Advances after)
    (hunread : looked.unread = r.unread) : r.Advances after := by
  rwa [Advances, ← hunread]

/-- Characters are taken off the front. -/
theorem Advances.of_drop {r after : Reader β} {n : Nat} (hunread : r.unread ≠ [])
    (hdrop : after.unread = r.unread.drop (n + 1)) : r.Advances after := by
  refine ⟨r.unread.take (n + 1), ?_, ?_⟩
  · simpa [List.take_eq_nil_iff] using hunread
  · rw [hdrop, List.take_append_drop]

theorem unread_of_sees {r : Reader β} {rest : List Char} (h : r.Sees rest) : r.unread = rest := by
  have hchars : ∀ (offset : Nat) (text : List Char), (offsets offset text).map Prod.snd = text := by
    intro offset text
    induction text generalizing offset with
    | nil => rfl
    | cons c cs ih => exact congrArg (c :: ·) (ih _)
  rw [unread, h, hchars]

theorem unread_peek (n : Nat) (r : Reader β) : (r.peek n).2.unread = r.unread :=
  congrArg (List.map Prod.snd) (Lookahead.pending_peek n r.ahead)

/-- Looking ahead finds the character behind as many that have not been taken. -/
theorem peek_fst (n : Nat) (r : Reader β) : (r.peek n).1 = r.unread[n]? := by
  rw [unread, List.getElem?_map, ← Lookahead.peek_fst]
  rfl

/-- The character that is taken is the first one left. -/
theorem advance_fst (r : Reader β) : r.advance.1 = r.unread.head? := by
  have hitem := Lookahead.next_fst r.ahead
  rw [unread, List.head?_map, ← hitem, advance]
  split <;> next hnext => rw [hnext]; rfl

theorem unread_advance (r : Reader β) : r.advance.2.unread = r.unread.drop 1 := by
  have hrest := Lookahead.pending_next r.ahead
  rw [unread, unread, List.drop_one, ← List.map_tail, ← hrest, advance]
  split <;> next hnext => rw [hnext]

theorem unread_countLine (c : Char) (r : Reader β) : (r.countLine c).unread = r.unread := by
  unfold countLine
  split <;> rfl

/-- A pair of characters is taken if it is there, and else nothing is. -/
theorem nextPairIs_cases_unread (c d : Char) (r : Reader β) :
    (∃ after, r.nextPairIs c d = (true, after) ∧ r.Advances after) ∨
      ∃ after, r.nextPairIs c d = (false, after) ∧ after.unread = r.unread := by
  simp only [nextPairIs]
  split
  · next hc =>
      have hne : r.unread ≠ [] := by
        intro hnil
        rw [peek_fst, hnil] at hc
        cases hc
      split
      · refine Or.inl ⟨_, rfl, .of_drop (n := 1) hne ?_⟩
        rw [unread_advance, unread_advance, unread_peek, unread_peek, List.drop_drop]
      · exact Or.inr ⟨_, rfl, by rw [unread_peek, unread_peek]⟩
  · exact Or.inr ⟨_, rfl, unread_peek 0 r⟩

/-! ### The inner loops -/

/-- A round up to a character takes the one in front, unless it is the last round. -/
theorem untilRound_cases_unread (stop : Char → Bool) (r : Reader β) :
    (∃ after, r.untilRound stop = .inl after ∧ after.unread = r.unread) ∨
      ∃ after, r.untilRound stop = .inr after ∧ r.Advances after := by
  have hitem := r.peek_fst 0
  have hunread := r.unread_peek 0
  unfold untilRound
  split
  · next looked hlook =>
      rw [hlook] at hunread
      exact Or.inl ⟨looked, rfl, hunread⟩
  · next c looked hlook =>
      rw [hlook] at hitem hunread
      split
      · exact Or.inl ⟨looked, rfl, hunread⟩
      · refine Or.inr ⟨_, rfl, .of_drop (n := 0) ?_ ?_⟩
        · intro hnil
          rw [hnil] at hitem
          cases hitem
        · rw [unread_countLine, unread_advance, hunread]

/-- A mark is made of characters, and at the end there is none. -/
theorem takeMark_cases_unread (depth : Nat) (r : Reader β) :
    (∃ after, r.takeMark depth = (none, after) ∧ after.unread = []) ∨
      ∃ depth' after, r.takeMark depth = (some depth', after) ∧ r.Advances after := by
  unfold takeMark
  rcases nextPairIs_cases_unread '/' '*' r with ⟨after, hopen, htake⟩ | ⟨looked, hopen, hunread⟩
  · rw [hopen]
    exact Or.inr ⟨_, after, rfl, htake⟩
  rw [hopen]
  dsimp only
  rcases nextPairIs_cases_unread '*' '/' looked with
    ⟨after, hclose, htake⟩ | ⟨looked', hclose, hunread'⟩
  · rw [hclose]
    exact Or.inr ⟨_, after, rfl, htake.of_unread_eq hunread⟩
  rw [hclose]
  dsimp only
  have hitem := looked'.advance_fst
  have htaken := looked'.unread_advance
  rw [hunread', hunread] at hitem htaken
  split
  · next c taken hadvance =>
      rw [hadvance] at hitem htaken
      refine Or.inr ⟨depth, _, rfl, .of_drop (n := 0) ?_ ?_⟩
      · intro hnil
        rw [hnil] at hitem
        cases hitem
      · rw [unread_countLine, htaken]
  · next taken hadvance =>
      rw [hadvance] at hitem htaken
      refine Or.inl ⟨taken, rfl, ?_⟩
      rw [htaken, List.head?_eq_none_iff.mp hitem.symm]
      rfl

/-- A round over a block comment takes a mark, unless it is the last round. The last one
has closed the comment, or nothing is left. -/
theorem commentRound_cases_unread (depth : Nat) (r : Reader β) :
    (∃ verdict after, commentRound (depth, r) = .inl (verdict, after) ∧
        after.unread <:+ r.unread ∧ (verdict = .ok () ∨ after.unread = [])) ∨
      ∃ depth' after, commentRound (depth, r) = .inr (depth', after) ∧ r.Advances after := by
  by_cases hdepth : depth = 0
  · exact Or.inl ⟨.ok (), r, by rw [commentRound, if_pos hdepth], List.suffix_refl _, Or.inl rfl⟩
  rcases r.takeMark_cases_unread depth with ⟨after, hmark, hend⟩ | ⟨depth', after, hmark, htake⟩
  · refine Or.inl ⟨_, after, by rw [commentRound, if_neg hdepth, hmark], ?_, Or.inr hend⟩
    rw [hend]
    exact List.nil_suffix
  · exact Or.inr ⟨depth', after, by rw [commentRound, if_neg hdepth, hmark], htake⟩

/-- A loop up to a character ends, whatever it stops at. -/
theorem advanceUntil_ends (stop : Char → Bool) (r : Reader β) :
    ∃ after, r.advanceUntil stop = Part.some after ∧ after.unread <:+ r.unread := by
  refine fix_ends (fun state : Reader β => state.unread.length)
    (fun state => state.unread <:+ r.unread) (fun after : Reader β => after.unread <:+ r.unread)
    ?_ (List.suffix_refl _)
  intro state hstate
  rcases state.untilRound_cases_unread stop with ⟨after, hround, hunread⟩ | ⟨after, hround, htake⟩
  · exact Or.inl ⟨after, congrArg Part.some hround, hunread ▸ hstate⟩
  · exact Or.inr ⟨after, congrArg Part.some hround, htake.suffix.trans hstate, htake.length_lt⟩

/-- The loop over a block comment ends, however many comments are open. Either they have
all been closed, or nothing is left. -/
theorem skipBlock_ends (depth : Nat) (r : Reader β) :
    ∃ verdict after, r.skipBlock depth = Part.some (verdict, after) ∧
      after.unread <:+ r.unread ∧ (verdict = .ok () ∨ after.unread = []) := by
  have hend : ∃ result, r.skipBlock depth = Part.some result ∧
      result.2.unread <:+ r.unread ∧ (result.1 = .ok () ∨ result.2.unread = []) := by
    refine fix_ends (fun state : Nat × Reader β => state.2.unread.length)
      (fun state => state.2.unread <:+ r.unread)
      (fun result : Except LexicalError Unit × Reader β =>
        result.2.unread <:+ r.unread ∧ (result.1 = .ok () ∨ result.2.unread = []))
      ?_ (List.suffix_refl _)
    rintro ⟨depth, state⟩ hstate
    rcases state.commentRound_cases_unread depth with
      ⟨verdict, after, hround, hunread, hverdict⟩ | ⟨depth', after, hround, htake⟩
    · exact Or.inl ⟨_, congrArg Part.some hround, hunread.trans hstate, hverdict⟩
    · exact Or.inr ⟨_, congrArg Part.some hround, htake.suffix.trans hstate, htake.length_lt⟩
  obtain ⟨⟨verdict, after⟩, hloop, hafter⟩ := hend
  exact ⟨verdict, after, hloop, hafter⟩

/-! ### The loop over the items -/

/-- A reader has the same left as the cursor where it stands. -/
theorem At.unread_eq {r : Reader β} {s : Cursor} (h : r.At s) : r.unread = s.rest :=
  unread_of_sees h.sees

/-- Where a cursor goes on with less, so does a reader at the same place. -/
theorem At.advances {r after : Reader β} {s s' : Cursor} (h : r.At s) (hafter : after.At s')
    (taken : List Char) (htaken : taken ≠ []) (hrest : s.rest = taken ++ s'.rest) :
    r.Advances after := by
  refine ⟨taken, htaken, ?_⟩
  rw [h.unread_eq, hafter.unread_eq, hrest]

/-- Reading on takes a tile. -/
theorem At.scanToken_advances {r : Reader β} {s : Cursor} (h : r.At s)
    (hend : r.isAtEnd = false) :
    ∃ verdict after, { r with start := r.current, startLine := r.line }.scanToken =
      Part.some (verdict, after) ∧ r.Advances after := by
  obtain ⟨rest, line⟩ := s
  cases rest with
  | nil =>
      rw [h.isAtEnd.mpr rfl] at hend
      cases hend
  | cons c cs =>
      obtain ⟨before, after, hscan, hwithin, -, -, hline⟩ := h.scanToken
      exact ⟨_, after, hscan, h.advances (hwithin.at_rest hline) _ (Tile.text_first_ne_nil c cs)
        (Tile.text_first_append c cs).symm⟩

/-- Coming to the next item takes characters, unless there is none left. -/
theorem At.next_advances {r : Reader β} {s : Cursor} (h : r.At s) :
    ∃ item after, r.next = Part.some (item, after) ∧
      (item = none → after.unread = []) ∧ (item ≠ none → r.Advances after) := by
  obtain ⟨after, hnext, hafter, -⟩ := h.next
  refine ⟨_, after, hnext, ?_⟩
  rcases hs : s.next with ⟨_ | item, place⟩
  · rw [hs] at hafter
    refine ⟨fun _ => ?_, fun hsome => absurd rfl hsome⟩
    rw [hafter.unread_eq, Cursor.eq_atEnd_of_next_none hs, Cursor.atEnd_eq]
  · rw [hs] at hafter
    obtain ⟨blank, c, cs, hrest, -, rfl⟩ := Cursor.next_some_cases hs
    refine ⟨fun hnone => absurd hnone (Option.some_ne_none item), fun _ => ?_⟩
    refine h.advances hafter (blank ++ (Tile.first c cs).1.text) ?_ ?_
    · simp [Tile.text_first_ne_nil c cs]
    · rw [hrest, List.append_assoc, Tile.text_first_append]

/-- Between two tokens a reader stands where a cursor does that has the end of the source left. -/
theorem Head.Reaches.at {source : List Char} {r : Reader β}
    (h : Head.Reaches source ⟨.items, r⟩) :
    ∃ before, source = before ++ r.unread ∧ r.current = Utf8.size before ∧
      r.At ⟨r.unread, r.line⟩ := by
  obtain ⟨before, text, rest, hstands⟩ := h.stands
  have hplace : r.At ⟨rest, r.line⟩ := hstands.within.at_rest rfl
  have hunread : r.unread = rest := hplace.unread_eq
  rw [hunread]
  exact ⟨before ++ text, hstands.split, hstands.within.current, hplace⟩

end Reader

/-! ### All items -/

namespace Cursor

/-- There are at most as many items left as characters. -/
theorem length_items_le (s : Cursor) : s.items.length ≤ s.rest.length := by
  induction hitems : s.items generalizing s with
  | nil => exact Nat.zero_le _
  | cons item items ih =>
      rcases hnext : s.next with ⟨_ | first, after⟩
      · rw [items_of_next_none hnext] at hitems
        cases hitems
      · rw [items_of_next_some hnext] at hitems
        have hrest := ih after (List.cons.inj hitems).2
        have hless := length_rest_next_lt hnext
        rw [List.length_cons]
        omega

end Cursor

/-- An error about something open has nothing behind it. -/
theorem Item.OnItsLine.rest_eq_nil {source rest : List Char} {e : LexicalError}
    (h : Item.OnItsLine source rest (.error e)) (hopen : e.IsOpen) : rest = [] := by
  obtain ⟨fault, line⟩ := e
  rcases hopen with rfl | rfl
  · exact h.1
  · exact h.1

/-- What is left open is the last item of its source. -/
theorem eq_nil_of_isOpen {source : List Char} {front later : List Item} {e : LexicalError}
    (hitems : (Cursor.start source).items = front ++ .error e :: later) (hopen : e.IsOpen) :
    later = [] := by
  have hitem : ((Cursor.start source).skip front.length).next.1 = some (.error e) := by
    rw [← Cursor.getElem?_items, hitems, List.getElem?_append_right (Nat.le_refl _), Nat.sub_self]
    rfl
  have hline := ((Cursor.inPlace_start source).skip front.length).next.2 _ hitem
  have hlater : later = ((Cursor.start source).skip (front.length + 1)).items := by
    rw [Cursor.items_skip, hitems]
    simp
  rw [Cursor.skip_succ] at hlater
  have hnone := ((Cursor.start source).skip front.length).next.2.length_items_le
  rw [hline.rest_eq_nil hopen, ← hlater] at hnone
  exact List.eq_nil_of_length_eq_zero (Nat.le_zero.mp hnone)

/-- **Reading comes to an end.**  Between two tokens a reader of a source has an end of
the source left, and its place, in bytes, is the end of the source just if there is no
character left.  Unless that is so, reading on takes at least one of the characters
that are left.  In the loops on the way, up to a character and over a block comment,
each round but the last takes one, from whatever state and however many comments are
open, and so they end.  Hence there is an answer whenever the next item is asked for,
and each item takes characters.  A source has at most as many items as characters;
they are what a reader hands out one after the other, and behind them it hands out
nothing, however often it is asked.  Something that is left open is the last item,
and the only one of the kind.  A scan returns and reports these items. -/
theorem Reader.reading_ends {β : Type} [Lookahead β] (source : List Char) :
    (∀ r : Reader β, Head.Reaches source ⟨.items, r⟩ →
      (∃ before, source = before ++ r.unread ∧ r.current = Utf8.size before) ∧
      (r.isAtEnd = true ↔ r.unread = []) ∧
      (r.isAtEnd = false → ∃ verdict after,
        { r with start := r.current, startLine := r.line }.scanToken =
          Part.some (verdict, after) ∧ r.Advances after) ∧
      ∃ item after, r.next = Part.some (item, after) ∧
        (item = none → after.unread = []) ∧ (item ≠ none → r.Advances after)) ∧
    (∀ (r : Reader β) (stop : Char → Bool),
      (∀ after, r.untilRound stop = .inr after → r.Advances after) ∧
      ∃ after, r.advanceUntil stop = Part.some after ∧ after.unread <:+ r.unread) ∧
    (∀ (r : Reader β) (depth : Nat),
      (∀ depth' after, commentRound (depth, r) = .inr (depth', after) → r.Advances after) ∧
      ∃ verdict after, r.skipBlock depth = Part.some (verdict, after) ∧
        after.unread <:+ r.unread ∧ (verdict = .ok () ∨ after.unread = [])) ∧
    ∃ items, (new source : Reader β).items = Part.some items ∧
      items.length ≤ source.length ∧
      (∀ k, ∃ r after, (new source : Reader β).skip k = Part.some r ∧
        r.next = Part.some (items[k]?, after)) ∧
      (∀ front e later, items = front ++ .error e :: later → e.IsOpen →
        later = [] ∧ ∀ e', .error e' ∈ front → ¬ e'.IsOpen) ∧
      ∀ (σ : Type) (sink : Sink σ) (state : σ), ∃ result,
        (new source : Reader β).scanInto sink state = Part.some result ∧
        result.tokens = items.filterMap Item.token? ++ [.endOfFile (1 + newlines source)] ∧
        result.sink = sink.takeAll state (items.filterMap Item.error?) ∧
        (items.filterMap Item.token?).length + (items.filterMap Item.error?).length ≤
          source.length := by
  have hstart : (new source : Reader β).At (Cursor.start source) := at_new source
  have hbound : (Cursor.start source).items.length ≤ source.length :=
    (Cursor.start source).length_items_le
  refine ⟨?_, ?_, ?_, _, hstart.items, hbound, ?_, ?_, ?_⟩
  · intro r hreach
    obtain ⟨before, hsplit, hcurrent, hplace⟩ := hreach.at
    exact ⟨⟨before, hsplit, hcurrent⟩, hplace.isAtEnd, hplace.scanToken_advances,
      hplace.next_advances⟩
  · intro r stop
    refine ⟨fun after hround => ?_, r.advanceUntil_ends stop⟩
    rcases r.untilRound_cases_unread stop with ⟨last, hlast, -⟩ | ⟨next, hgo, htake⟩
    · cases hlast.symm.trans hround
    · cases hgo.symm.trans hround
      exact htake
  · intro r depth
    refine ⟨fun depth' after hround => ?_, r.skipBlock_ends depth⟩
    rcases r.commentRound_cases_unread depth with ⟨verdict, last, hlast, -⟩ | ⟨next, _, hgo, htake⟩
    · cases hlast.symm.trans hround
    · cases hgo.symm.trans hround
      exact htake
  · intro k
    obtain ⟨r, hskip, hplace, -⟩ := hstart.skip k
    obtain ⟨after, hnext, -⟩ := hplace.next
    refine ⟨r, after, hskip, ?_⟩
    rw [hnext, Cursor.getElem?_items]
  · intro front e later hitems hopen
    refine ⟨eq_nil_of_isOpen hitems hopen, fun e' he' hopen' => ?_⟩
    obtain ⟨front', behind, rfl⟩ := List.append_of_mem he'
    rw [List.append_assoc, List.cons_append] at hitems
    have hnil := eq_nil_of_isOpen hitems hopen'
    simp at hnil
  · intro σ sink state
    refine ⟨_, scanInto_new source sink state, (Cursor.start source).tokens_scanInto sink state,
      sink.sink_scanInto_items state source, ?_⟩
    rwa [← length_filterMap_items]

/-- A comment inside another one, both left open, with a stray character before them. -/
theorem Reader.reading_ends_nested :
    let source := ['@', '/', '*', '/', '*', '€']
    let stray : Item := .error ⟨.unexpectedCharacter '@', 1⟩
    let e : LexicalError := ⟨.unterminatedBlockComment, 1⟩
    (∃ r : Reader Queue, Head.Reaches source ⟨.items, r⟩ ∧ r.isAtEnd = false ∧
      r.unread = ['/', '*', '/', '*', '€'] ∧
      ∃ verdict after, { r with start := r.current, startLine := r.line }.scanToken =
        Part.some (verdict, after) ∧ r.Advances after) ∧
    (new source : Reader Queue).items = Part.some [stray, .error e] ∧ e.IsOpen ∧
    ∀ e', .error e' ∈ [stray] → ¬ e'.IsOpen := by
  intro source stray e
  obtain ⟨hread, -, -, items, hitems, -, -, hopen, -⟩ := reading_ends (β := Queue) source
  have hfound : items = [stray] ++ .error e :: [] := by
    have hdrained := (at_new source : (new source : Reader Queue).At _).items
    rw [Part.some_injective (hitems.symm.trans hdrained)]
    decide +kernel
  have hnew : Head.Reaches source (⟨.items, new source⟩ : Head Queue) := .new
  -- The first character is an error, and its item is handed out.
  have hreach := hnew.step (Part.mem_bind_iff.mpr ⟨_, Part.mem_some _,
    Part.mem_bind_iff.mpr ⟨_, Part.mem_some _, Part.mem_some _⟩⟩)
  refine ⟨⟨_, hreach, rfl, rfl, (hread _ hreach).2.2.1 rfl⟩, ?_, Or.inr rfl, ?_⟩
  · rw [hitems, hfound]
    rfl
  · exact (hopen [stray] e [] hfound (Or.inr rfl)).2

end LoxLexer
