import LoxLexer.Cursor.Basic

/-!
# Iterating over the items of a source

Items need not be read all at once.  A request asks a cursor for one item, for
the item behind some others, for a few items, for all that are left or for
their number; the answer comes with the cursor after it, so that any sequence
of requests can follow.  A request reads no more items than it answers for.
-/

namespace LoxLexer

/-- A question to a cursor about the items that are left. -/
inductive Request where
  | next
  | nth (n : Nat)
  | take (n : Nat)
  | rest
  | count
deriving DecidableEq, Repr

/-- The answer to a request: perhaps an item, some items, or how many there were. -/
inductive Answer where
  | item (item : Option Item)
  | items (items : List Item)
  | count (n : Nat)
deriving DecidableEq, Repr

namespace Cursor

/-- The item behind the next `n`, if there are as many. -/
def nth : Nat → Cursor → Option Item × Cursor
  | 0, s => s.next
  | n + 1, s =>
    match s.next with
    | (none, last) => (none, last)
    | (some _, after) => nth n after

/-- Up to `n` items. No item after them is read. -/
def take : Nat → Cursor → List Item × Cursor
  | 0, s => ([], s)
  | n + 1, s =>
    match s.next with
    | (none, last) => ([], last)
    | (some item, after) =>
      let (items, place) := take n after
      (item :: items, place)

/-- Answers one request. -/
def answer (s : Cursor) : Request → Answer × Cursor
  | .next =>
    let (item, after) := s.next
    (.item item, after)
  | .nth n =>
    let (item, after) := s.nth n
    (.item item, after)
  | .take n =>
    let (items, after) := s.take n
    (.items items, after)
  | .rest => (.items s.items, s.atEnd)
  | .count =>
    let (n, last) := s.fold (fun n _ => n + 1) 0
    (.count n, last)

/-- Answers requests one after the other. -/
def answerAll (s : Cursor) : List Request → List Answer × Cursor
  | [] => ([], s)
  | r :: rs =>
    let (a, after) := s.answer r
    let (as, last) := after.answerAll rs
    (a :: as, last)

end Cursor

end LoxLexer
