import LoxLexer.Text.Utf8

/-!
# Looking ahead

A reader takes the characters of its source from an iterator that lets it look
at some of them before it takes them.  How the iterator does that is not
settled here.  `Lookahead` says what a reader relies on: whatever it may have
stored, there is a list of pending items, taking an item takes the first of
them, and looking takes none.

`Queue` is one such iterator.  It stores the items that it has looked at, and
how often it has looked in vain.

* `Queue.instLookahead`: the queue does what a reader relies on.
-/

namespace LoxLexer

/-- The characters of a text, each with the number of bytes before it, if there
are `offset` bytes before the text. -/
def offsets (offset : Nat) : List Char → List (Nat × Char)
  | [] => []
  | c :: cs => (offset, c) :: offsets (offset + c.utf8Size) cs

/-- Iterators with lookahead over characters and their places. -/
class Lookahead (β : Type) where
  /-- The items that have not been taken, whether they have been looked at or not. -/
  pending : β → List (Nat × Char)
  ofItems : List (Nat × Char) → β
  next : β → Option (Nat × Char) × β
  peek : Nat → β → Option (Nat × Char) × β
  pending_ofItems (items : List (Nat × Char)) : pending (ofItems items) = items
  next_fst (ahead : β) : (next ahead).1 = (pending ahead).head?
  pending_next (ahead : β) : pending (next ahead).2 = (pending ahead).tail
  peek_fst (n : Nat) (ahead : β) : (peek n ahead).1 = (pending ahead)[n]?
  pending_peek (n : Nat) (ahead : β) : pending (peek n ahead).2 = pending ahead

/-- An iterator with a store. `ready` holds the items that were looked at and
not taken, `ended` says how many ends are stored behind them. -/
structure Queue where
  ready : List (Nat × Char)
  ended : Nat
  rest : List (Nat × Char)
  rest_of_ended : 0 < ended → rest = []

namespace Queue

/-- A queue that has stored nothing. -/
def ofItems (items : List (Nat × Char)) : Queue := ⟨[], 0, items, by simp⟩

/-- The items that have not been taken. -/
def pending (q : Queue) : List (Nat × Char) := q.ready ++ q.rest

/-- Takes an item, from the store if there is anything in it. -/
def next : Queue → Option (Nat × Char) × Queue
  | ⟨item :: ready, ended, rest, h⟩ => (some item, ⟨ready, ended, rest, h⟩)
  | ⟨[], ended + 1, rest, h⟩ => (none, ⟨[], ended, rest, fun _ => h (Nat.succ_pos ended)⟩)
  | ⟨[], 0, item :: rest, _⟩ => (some item, ofItems rest)
  | ⟨[], 0, [], _⟩ => (none, ofItems [])

/-- Stores one item more, or the end if there is none. -/
def pull : Queue → Queue
  | ⟨ready, _, item :: rest, _⟩ => ⟨ready ++ [item], 0, rest, by simp⟩
  | ⟨ready, ended, [], _⟩ => ⟨ready, ended + 1, [], fun _ => rfl⟩

/-- Stores `n` items more. -/
def fill : Nat → Queue → Queue
  | 0, q => q
  | n + 1, q => fill n q.pull

/-- Looks at the item behind the next `n`, with as many in store as that takes. -/
def peek (n : Nat) (q : Queue) : Option (Nat × Char) × Queue :=
  let filled := q.fill (n + 1 - (q.ready.length + q.ended))
  (filled.ready[n]?, filled)

theorem pending_ofItems (items : List (Nat × Char)) : (ofItems items).pending = items := rfl

/-- Taking an item takes the first one that is pending, wherever it is stored. -/
theorem next_eq (q : Queue) :
    q.next.1 = q.pending.head? ∧ q.next.2.pending = q.pending.tail := by
  fun_cases next q with
  | case1 item ready ended rest h => exact ⟨rfl, rfl⟩
  | case2 ended rest h =>
      obtain rfl := h (Nat.succ_pos ended)
      exact ⟨rfl, rfl⟩
  | case3 item rest h => exact ⟨rfl, rfl⟩
  | case4 h => exact ⟨rfl, rfl⟩

theorem pending_pull (q : Queue) : q.pull.pending = q.pending := by
  fun_cases pull q with
  | case1 ready ended item rest h => simp [pending]
  | case2 ready ended h => rfl

/-- What is stored grows by one. -/
theorem stored_pull (q : Queue) :
    q.pull.ready.length + q.pull.ended = q.ready.length + q.ended + 1 := by
  fun_cases pull q with
  | case1 ready ended item rest h =>
      have hended : ended = 0 := Nat.eq_zero_of_not_pos fun hpos => by cases h hpos
      simp [hended]
  | case2 ready ended h => exact (Nat.add_assoc ready.length ended 1).symm

/-- To store items takes none. -/
theorem pending_fill (n : Nat) (q : Queue) : (q.fill n).pending = q.pending := by
  induction n generalizing q with
  | zero => rfl
  | succ n ih => rw [fill, ih, pending_pull]

/-- As many items or ends are stored as is asked for. -/
theorem stored_fill (n : Nat) (q : Queue) :
    (q.fill n).ready.length + (q.fill n).ended = q.ready.length + q.ended + n := by
  induction n generalizing q with
  | zero => rfl
  | succ n ih =>
      rw [fill, ih, stored_pull]
      omega

/-- What is far enough in front to be stored, or else the end is. -/
theorem ready_getElem? {n : Nat} {q : Queue} (h : n < q.ready.length + q.ended) :
    q.ready[n]? = q.pending[n]? := by
  by_cases hready : n < q.ready.length
  · exact (List.getElem?_append_left hready).symm
  · have hended : 0 < q.ended := by omega
    rw [pending, q.rest_of_ended hended, List.append_nil]

/-- Looking ahead finds the item that will be taken after that many others. -/
theorem peek_fst (n : Nat) (q : Queue) : (q.peek n).1 = q.pending[n]? := by
  have hstored := stored_fill (n + 1 - (q.ready.length + q.ended)) q
  rw [← pending_fill (n + 1 - (q.ready.length + q.ended)) q]
  exact ready_getElem? (by omega)

instance instLookahead : Lookahead Queue where
  pending := pending
  ofItems := ofItems
  next := next
  peek := peek
  pending_ofItems := pending_ofItems
  next_fst q := q.next_eq.1
  pending_next q := q.next_eq.2
  peek_fst := peek_fst
  pending_peek _ q := pending_fill _ q

end Queue

end LoxLexer
