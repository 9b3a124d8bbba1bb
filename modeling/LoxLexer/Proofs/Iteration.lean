import LoxLexer.Cursor.Iteration
import LoxLexer.Proofs.Lines
import LoxLexer.Proofs.RoundTrip

/-!
# Iterating as taking items off a list

A cursor reads as little of its source as a request needs, and keeps nothing of
what it has handed out.  Seen from outside it is nevertheless a list, the items
of the source, and every request takes some items off the front of what is left
of it.

* `Request.onItems`: what a request does to a list of items.
* `Cursor.answer_eq`: one request to a cursor does that to the items that are
  left, and leads to the place behind a number of items.
* `Cursor.answerAll_eq`: so does any sequence of requests.
* `answerAll_items`: the statement for a source, with what a scan makes of the
  items that are left after the requests.
-/

namespace LoxLexer

/-- The answer to a request if these items are left, and those left after it. -/
def Request.onItems (items : List Item) : Request → Answer × List Item
  | .next => (.item items.head?, items.tail)
  | .nth n => (.item items[n]?, items.drop (n + 1))
  | .take n => (.items (items.take n), items.drop n)
  | .rest => (.items items, [])
  | .count => (.count items.length, [])

/-- The answers to requests one after the other, and the items left after them. -/
def Request.allOnItems (items : List Item) : List Request → List Answer × List Item
  | [] => ([], items)
  | r :: rs =>
    let (a, left) := r.onItems items
    let (as, last) := allOnItems left rs
    (a :: as, last)

/-- The items in an answer. -/
def Answer.handedOut : Answer → List Item
  | .item found => found.toList
  | .items several => several
  | .count _ => []

/-- A request that hands out every item that it takes off. -/
def Request.keepsAll : Request → Bool
  | .next => true
  | .take _ => true
  | .rest => true
  | .nth _ => false
  | .count => false

/-- The answer to a request that finds nothing left. -/
def Request.emptyAnswer : Request → Answer
  | .next => .item none
  | .nth _ => .item none
  | .take _ => .items []
  | .rest => .items []
  | .count => .count 0

/-! ### Requests to a list -/

/-- What a request hands out is in its order in front of what is left. -/
theorem Request.onItems_sublist (r : Request) (items : List Item) :
    ((r.onItems items).1.handedOut ++ (r.onItems items).2).Sublist items := by
  cases r with
  | next => cases items <;> simp [onItems, Answer.handedOut]
  | nth n =>
      have hdrop : (items[n]?.toList ++ items.drop (n + 1)) = items.drop n := by
        rw [← List.head?_drop, ← List.tail_drop]
        cases items.drop n <;> rfl
      rw [onItems, Answer.handedOut, hdrop]
      exact List.drop_sublist n items
  | take n => simp [onItems, Answer.handedOut]
  | rest => simp [onItems, Answer.handedOut]
  | count => simp [onItems, Answer.handedOut]

/-- A request that hands out what it takes off loses none of the items. -/
theorem Request.onItems_eq_of_keepsAll {r : Request} (h : r.keepsAll) (items : List Item) :
    (r.onItems items).1.handedOut ++ (r.onItems items).2 = items := by
  cases r with
  | next => cases items <;> simp [onItems, Answer.handedOut]
  | take n => simp [onItems, Answer.handedOut]
  | rest => simp [onItems, Answer.handedOut]
  | nth n => cases h
  | count => cases h

/-- Where nothing is left, nothing is handed out, and nothing is left afterwards. -/
theorem Request.onItems_nil (r : Request) : r.onItems [] = (r.emptyAnswer, []) := by
  cases r <;> simp [onItems, emptyAnswer]

/-- Where nothing is left, every request finds that out by itself. -/
theorem Request.allOnItems_nil (rs : List Request) :
    allOnItems [] rs = (rs.map emptyAnswer, []) := by
  induction rs with
  | nil => rfl
  | cons r rs ih => simp only [allOnItems, onItems_nil, ih, List.map_cons]

/-- What requests hand out, and what they leave, are items of the list in their order. -/
theorem Request.allOnItems_sublist (rs : List Request) (items : List Item) :
    ((allOnItems items rs).1.flatMap Answer.handedOut ++ (allOnItems items rs).2).Sublist
      items := by
  induction rs generalizing items with
  | nil => exact List.Sublist.refl _
  | cons r rs ih =>
      rw [allOnItems, List.flatMap_cons, List.append_assoc]
      exact ((ih _).append_left _).trans (r.onItems_sublist items)

/-- Requests that hand out what they take off lose none of the items. -/
theorem Request.allOnItems_eq_of_keepsAll {rs : List Request} (h : ∀ r ∈ rs, r.keepsAll)
    (items : List Item) :
    (allOnItems items rs).1.flatMap Answer.handedOut ++ (allOnItems items rs).2 = items := by
  induction rs generalizing items with
  | nil => rfl
  | cons r rs ih =>
      obtain ⟨hhere, hlater⟩ := List.forall_mem_cons.mp h
      rw [allOnItems, List.flatMap_cons, List.append_assoc, ih hlater]
      exact onItems_eq_of_keepsAll hhere items

/-! ### Requests to a cursor -/

namespace Cursor

theorem skip_add (k l : Nat) (s : Cursor) : (s.skip k).skip l = s.skip (k + l) := by
  induction k generalizing s with
  | zero => rw [skip, Nat.zero_add]
  | succ k ih => rw [skip, ih, Nat.succ_add, skip]

/-- There is nothing behind the end of the source. -/
theorem skip_atEnd (k : Nat) (s : Cursor) : s.atEnd.skip k = s.atEnd := by
  induction k with
  | zero => rfl
  | succ k ih => rw [skip, next_atEnd, ih]

/-- The item behind the next few is the one at that place in the list. -/
theorem nth_eq (n : Nat) (s : Cursor) : s.nth n = (s.items[n]?, s.skip (n + 1)) := by
  induction n generalizing s with
  | zero => rw [nth, ← List.head?_eq_getElem?, ← next_fst]; rfl
  | succ n ih =>
      rcases h : s.next with ⟨_ | item, after⟩
      · rw [nth, h, items_of_next_none h, skip, h, eq_atEnd_of_next_none h, skip_atEnd]
        rfl
      · rw [nth, h, items_of_next_some h, skip, h]
        exact ih after

/-- The items that are taken are the front of the list, and no item behind them is read. -/
theorem take_eq (n : Nat) (s : Cursor) : s.take n = (s.items.take n, s.skip n) := by
  induction n generalizing s with
  | zero => rfl
  | succ n ih =>
      rcases h : s.next with ⟨_ | item, after⟩
      · rw [take, h, items_of_next_none h, skip, h, eq_atEnd_of_next_none h, skip_atEnd]
        rfl
      · rw [take, h, items_of_next_some h, skip, h]
        simp only [ih, List.take_succ_cons]

/-- The end of the source is behind all items and one more request. -/
theorem atEnd_eq_skip (s : Cursor) : s.atEnd = s.skip (s.items.length + 1) := by
  induction hitems : s.items generalizing s with
  | nil =>
      rcases h : s.next with ⟨_ | item, after⟩
      · rw [List.length_nil, skip, h, eq_atEnd_of_next_none h]
        rfl
      · rw [items_of_next_some h] at hitems
        cases hitems
  | cons first others ih =>
      rcases h : s.next with ⟨_ | item, after⟩
      · rw [items_of_next_none h] at hitems
        cases hitems
      · rw [items_of_next_some h] at hitems
        obtain ⟨rfl, hafter⟩ := List.cons.inj hitems
        rw [List.length_cons, skip, h, ← ih after hafter, atEnd, atEnd, fold_of_next_some _ _ h]

/-- A fold over a cursor is one over the list of its items, and ends at the end. -/
theorem fold_eq_items {α : Type} (f : α → Item → α) (a : α) (s : Cursor) :
    s.fold f a = (s.items.foldl f a, s.atEnd) := by
  rw [fold_eq, items_eq, atEnd_eq]

/-- **One request.**  A cursor answers as a list of the items that are left
does, and goes on to the place behind those that the request takes off. -/
theorem answer_eq (s : Cursor) (r : Request) :
    ∃ k, s.answer r = ((r.onItems s.items).1, s.skip k) ∧
      (r.onItems s.items).2 = s.items.drop k := by
  have hend : s.items.drop (s.items.length + 1) = [] := List.drop_eq_nil_of_le (Nat.le_succ _)
  cases r with
  | next => exact ⟨1, by rw [Request.onItems, ← next_fst]; rfl, List.drop_one.symm⟩
  | nth n => exact ⟨n + 1, by rw [answer, nth_eq]; rfl, rfl⟩
  | take n => exact ⟨n, by rw [answer, take_eq]; rfl, rfl⟩
  | rest => exact ⟨_, by rw [answer, atEnd_eq_skip]; rfl, hend.symm⟩
  | count =>
      refine ⟨_, ?_, hend.symm⟩
      rw [answer, fold_eq_items, atEnd_eq_skip]
      simp [Request.onItems]

/-- **Any number of requests.**  The answers are those of the list, and the
cursor is at the place behind the items that have been taken off. -/
theorem answerAll_eq (s : Cursor) (rs : List Request) :
    ∃ k, s.answerAll rs = ((Request.allOnItems s.items rs).1, s.skip k) ∧
      (Request.allOnItems s.items rs).2 = s.items.drop k := by
  induction rs generalizing s with
  | nil => exact ⟨0, rfl, rfl⟩
  | cons r rs ih =>
      obtain ⟨k, hanswer, hleft⟩ := s.answer_eq r
      obtain ⟨l, hanswers, hleft'⟩ := ih (s.skip k)
      rw [items_skip, ← hleft] at hanswers hleft'
      refine ⟨k + l, ?_, ?_⟩
      · rw [answerAll, hanswer, Request.allOnItems]
        simp only [hanswers, skip_add]
      · rw [hleft, List.drop_drop] at hleft'
        rw [← hleft', ← hleft]
        rfl

/-- A cursor answers requests as the list of its items does. -/
theorem answers_answerAll (s : Cursor) (rs : List Request) :
    (s.answerAll rs).1 = (Request.allOnItems s.items rs).1 := by
  obtain ⟨k, hanswered, -⟩ := s.answerAll_eq rs
  rw [hanswered]

/-- What a cursor has left after requests is what the list has left. -/
theorem items_answerAll (s : Cursor) (rs : List Request) :
    (s.answerAll rs).2.items = (Request.allOnItems s.items rs).2 := by
  obtain ⟨k, hanswered, hleft⟩ := s.answerAll_eq rs
  rw [hanswered, items_skip, hleft]

/-- Requests keep the line right. -/
theorem InPlace.answerAll {source : List Char} {s : Cursor} (h : s.InPlace source)
    (rs : List Request) : (s.answerAll rs).2.InPlace source := by
  obtain ⟨k, hanswered, -⟩ := s.answerAll_eq rs
  rw [hanswered]
  exact h.skip k

/-- Requests to a cursor behind all items find nothing. -/
theorem answerAll_of_items_nil {s : Cursor} (h : s.items = []) (rs : List Request) :
    (s.answerAll rs).1 = rs.map Request.emptyAnswer := by
  rw [answers_answerAll, h, Request.allOnItems_nil]

end Cursor

/-- **Iterating.**  The items of a source are what a cursor hands out when it is
asked for one item after the other, and the end mark is not among them.
Requests to a cursor at the start of the source are answered as the list of
these items answers them: what is handed out and what is left afterwards are in
their order in the list, and are all of it unless a request passes over items.
When nothing is left, every further request finds nothing.  A scan after the
requests returns the tokens and reports the errors that are left, with the end
mark on the last line of the whole source; without requests before it, it is a
scan of the source. -/
theorem answerAll_items (source : List Char) (requests : List Request) :
    let items := (Cursor.start source).items
    let answered := (Cursor.start source).answerAll requests
    let left := (Request.allOnItems items requests).2
    let finished := answered.2.scanInto Diagnostics.sink {}
    (∀ k, items[k]? = ((Cursor.start source).skip k).next.1) ∧
      (∀ t, .token t ∈ items → t.kind ≠ .endOfFile) ∧
      answered.1 = (Request.allOnItems items requests).1 ∧
      (answered.1.flatMap Answer.handedOut ++ left).Sublist items ∧
      ((∀ r ∈ requests, r.keepsAll) → answered.1.flatMap Answer.handedOut ++ left = items) ∧
      (∃ k, left = items.drop k) ∧
      (left = [] → ∀ more, (answered.2.answerAll more).1 = more.map Request.emptyAnswer) ∧
      finished.tokens = left.filterMap Item.token? ++ [.endOfFile (1 + newlines source)] ∧
      finished.sink.toList = left.filterMap Item.error? ∧
      (requests = [] → finished = scan source) := by
  intro items answered left finished
  have hanswers : answered.1 = (Request.allOnItems items requests).1 :=
    Cursor.answers_answerAll _ requests
  have hitems : answered.2.items = left := Cursor.items_answerAll _ requests
  have hplace := (Cursor.inPlace_start source).answerAll requests
  refine ⟨fun k => Cursor.getElem?_items k _, ?_, hanswers, ?_, ?_, ?_, ?_, ?_, ?_, ?_⟩
  · intro t ht
    simp only [items, Cursor.items_eq] at ht
    exact (lexeme_of_mem_itemsOf ht).kind_ne_endOfFile
  · rw [hanswers]
    exact Request.allOnItems_sublist requests items
  · intro hkeeps
    rw [hanswers]
    exact Request.allOnItems_eq_of_keepsAll hkeeps items
  · obtain ⟨k, -, hleft⟩ := (Cursor.start source).answerAll_eq requests
    exact ⟨k, hleft⟩
  · intro hempty more
    exact Cursor.answerAll_of_items_nil (hitems.trans hempty) more
  · rw [Cursor.tokens_scanInto, hitems, hplace.line_add_newlines]
  · rw [Cursor.errors_scanInto, hitems]
    rfl
  · intro hnone
    simp only [finished, answered, hnone]
    rfl

end LoxLexer
