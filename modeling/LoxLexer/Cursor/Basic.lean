import LoxLexer.Tile

/-!
# Cursors

A cursor is all there is to know in the middle of a scan: the characters that
are left and the line that the first of them is on.  `Cursor.next` reads tiles
until one is a token or a fault, and `Cursor.fold` goes through all items that
are left.

* `Cursor.length_rest_next_lt`: each item uses up characters, so a scan ends.
-/

namespace LoxLexer

/-- The number of line ends in a text. -/
def newlines (cs : List Char) : Nat := cs.count '\n'

/-- What a scan hands out: a token, or an error in its place. -/
inductive Item where
  | token (token : Token)
  | error (error : LexicalError)
deriving DecidableEq, Repr

/-- The item that a tile stands for if it begins on `line`. A token is on the
line of its first character, an error on the line where its text ends. -/
def Tile.item? (line : Nat) (t : Tile) : Option Item :=
  match t.reading with
  | .blank => none
  | .token kind literal => some (.token ⟨kind, t.text, literal, line⟩)
  | .fault fault => some (.error ⟨fault, line + newlines t.text⟩)

/-- A place in a source: the characters that are left, and their line. -/
structure Cursor where
  rest : List Char
  line : Nat
deriving DecidableEq, Repr

namespace Cursor

/-- The cursor at the start of a source. -/
def start (source : List Char) : Cursor := ⟨source, 1⟩

/-- The next item, if there is one, and the place after it. At the end of the
source the place is the end, with the last line. -/
def next (s : Cursor) : Option Item × Cursor :=
  match s with
  | ⟨[], line⟩ => (none, ⟨[], line⟩)
  | ⟨c :: cs, line⟩ =>
    let split := Tile.first c cs
    let after : Cursor := ⟨split.2, line + newlines split.1.text⟩
    match split.1.item? line with
    | some item => (some item, after)
    | none => after.next
termination_by s.rest.length
decreasing_by exact Tile.length_rest_lt c cs

/-- To look for an item never puts a cursor back. -/
theorem length_rest_next_le (s : Cursor) : s.next.2.rest.length ≤ s.rest.length := by
  fun_induction next s with
  | case1 line => exact Nat.le_refl _
  | case2 c cs line => exact Nat.le_of_lt (Tile.length_rest_lt c cs)
  | case3 c cs line split after hitem ih =>
    exact Nat.le_trans ih (Nat.le_of_lt (Tile.length_rest_lt c cs))

/-- Handing out an item uses up characters. -/
theorem length_rest_next_lt {s after : Cursor} {item : Item}
    (h : s.next = (some item, after)) : after.rest.length < s.rest.length := by
  fun_cases next s with
  | case1 line => simp [next] at h
  | case2 c cs line split place item' hitem =>
    rw [next] at h
    simp only [split, hitem] at h
    cases h
    exact Tile.length_rest_lt c cs
  | case3 c cs line split place hitem =>
    rw [next] at h
    simp only [split, hitem] at h
    have hle := length_rest_next_le place
    simp only [place, split, h] at hle
    exact Nat.lt_of_le_of_lt hle (Tile.length_rest_lt c cs)

/-- Goes through all items that are left, in their order, and ends at the end
of the source. -/
def fold {α : Type} (f : α → Item → α) (a : α) (s : Cursor) : α × Cursor :=
  match _ : s.next with
  | (none, last) => (a, last)
  | (some item, after) => after.fold f (f a item)
termination_by s.rest.length
decreasing_by exact length_rest_next_lt ‹_›

/-- All items that are left, in their order. -/
def items (s : Cursor) : List Item := (s.fold (fun acc item => item :: acc) []).1.reverse

/-- The place at the end of the source. -/
def atEnd (s : Cursor) : Cursor := (s.fold (fun _ _ => ()) ()).2

end Cursor

end LoxLexer
