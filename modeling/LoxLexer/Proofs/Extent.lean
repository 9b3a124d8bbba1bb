import Mathlib.Data.List.Nodup
import LoxLexer.Proofs.Rows

/-!
# Where items end

Items do not say where in their source they stand, but a cursor does: what is
left behind an item tells how many characters there are up to its end.
`itemEnds` puts the two side by side.  Laws about places in a source are about
this list.

* `itemEnds_eq`: over the tiles of the source, the ends are running sums of
  lengths.
* `eq_of_mem_itemEnds`: no two items end at the same place.
* `tokens_scan_itemEnds`, `errors_scan_itemEnds`: a scan returns the tokens of
  the list and reports its errors.
-/

namespace LoxLexer

/-- The items that are left, each with the number of characters up to its end,
in a source of `total` characters. -/
def Cursor.itemEnds (total : Nat) (s : Cursor) : List (Item × Nat) :=
  s.items.mapIdx fun k item => (item, total - (s.skip (k + 1)).rest.length)

/-- The items of a source, each with the number of characters up to its end. -/
def itemEnds (source : List Char) : List (Item × Nat) :=
  (Cursor.start source).itemEnds source.length

/-- The items that a row of tiles stands for if it begins on `line` and there
are `n` characters before it, each with the number of characters up to its end. -/
def itemEndsOf (n line : Nat) : List Tile → List (Item × Nat)
  | [] => []
  | t :: ts =>
    (t.item? line).toList.map (·, n + t.text.length) ++
      itemEndsOf (n + t.text.length) (line + newlines t.text) ts

namespace Cursor

variable (total : Nat)

theorem itemEnds_of_next_none {s last : Cursor} (h : s.next = (none, last)) :
    s.itemEnds total = [] := by
  rw [itemEnds, items_of_next_none h]
  rfl

/-- The next item ends where the cursor stands behind it. -/
theorem itemEnds_of_next_some {s after : Cursor} {item : Item} (h : s.next = (some item, after)) :
    s.itemEnds total = (item, total - after.rest.length) :: after.itemEnds total := by
  rw [itemEnds, items_of_next_some h, List.mapIdx_cons, itemEnds]
  simp only [skip, h]

/-- Items and their ends depend on a cursor through its next item only. -/
theorem itemEnds_congr {s t : Cursor} (h : s.next = t.next) :
    s.itemEnds total = t.itemEnds total := by
  rcases ht : t.next with ⟨_ | item, after⟩
  · rw [itemEnds_of_next_none total (h.trans ht), itemEnds_of_next_none total ht]
  · rw [itemEnds_of_next_some total (h.trans ht), itemEnds_of_next_some total ht]

/-- The items of a cursor end where their tiles do. -/
theorem itemEnds_eq {source : List Char} {n : Nat} (h : total = n + source.length) (line : Nat) :
    itemEnds total ⟨source, line⟩ = itemEndsOf n line (tilesOf source) := by
  fun_induction tilesOf source generalizing n line with
  | case1 => exact itemEnds_of_next_none total (by rw [next])
  | case2 c cs ih =>
      have hsplit := congrArg List.length (Tile.text_first_append c cs)
      rw [List.length_append] at hsplit
      have htail : total = n + (Tile.first c cs).1.text.length + (Tile.first c cs).2.length := by
        omega
      have hend : total - (Tile.first c cs).2.length = n + (Tile.first c cs).1.text.length := by
        omega
      rw [itemEndsOf, ← ih htail]
      cases hitem : (Tile.first c cs).1.item? line with
      | none => rw [itemEnds_congr total (next_of_blank hitem)]; rfl
      | some item => rw [itemEnds_of_next_some total (next_of_item hitem), hend]; rfl

end Cursor

/-- The items with ends are found tile by tile, from the start of the source. -/
theorem itemEnds_eq (source : List Char) : itemEnds source = itemEndsOf 0 1 (tilesOf source) :=
  Cursor.itemEnds_eq source.length (Nat.zero_add _).symm 1

theorem map_fst_itemEndsOf (n line : Nat) (ts : List Tile) :
    (itemEndsOf n line ts).map Prod.fst = itemsOf line ts := by
  induction ts generalizing n line with
  | nil => rfl
  | cons t ts ih =>
      rw [itemEndsOf, List.map_append, ih, itemsOf]
      cases t.item? line <;> rfl

/-- The tokens of a scan are among the items with ends, but for the one at the end. -/
theorem tokens_scan_itemEnds (source : List Char) :
    (scan source).tokens = (itemEnds source).filterMap (·.1.token?) ++
      [.endOfFile (1 + newlines source)] := by
  rw [tokens_scan, itemEnds_eq, ← map_fst_itemEndsOf 0, List.filterMap_map]
  rfl

/-- The errors of a scan are among the items with ends. -/
theorem errors_scan_itemEnds (source : List Char) :
    (scan source).sink.toList = (itemEnds source).filterMap (·.1.error?) := by
  rw [errors_scan, itemEnds_eq, ← map_fst_itemEndsOf 0, List.filterMap_map]
  rfl

/-- What a row of tiles stands for ends behind its beginning. -/
theorem lt_of_mem_itemEndsOf {n line : Nat} {ts : List Tile} {entry : Item × Nat} (hfits : Fits ts)
    (h : entry ∈ itemEndsOf n line ts) : n < entry.2 := by
  induction hfits generalizing n line with
  | nil => cases h
  | @cons t ts halone _ _ ih =>
      rcases List.mem_append.mp h with hhere | hlater
      · obtain ⟨item, -, rfl⟩ := List.mem_map.mp hhere
        exact Nat.lt_add_of_pos_right halone.length_pos
      · exact Nat.lt_of_le_of_lt (Nat.le_add_right n _) (ih hlater)

/-- The ends of items go up. -/
theorem pairwise_itemEndsOf {n line : Nat} {ts : List Tile} (hfits : Fits ts) :
    (itemEndsOf n line ts).Pairwise fun a b => a.2 < b.2 := by
  induction hfits generalizing n line with
  | nil => exact .nil
  | @cons t ts _ _ hrest ih =>
      rw [itemEndsOf, List.pairwise_append]
      refine ⟨?_, ih, ?_⟩
      · cases t.item? line with
        | none => exact .nil
        | some item => exact List.pairwise_singleton _ _
      · intro a ha b hb
        obtain ⟨item, -, rfl⟩ := List.mem_map.mp ha
        exact lt_of_mem_itemEndsOf hrest hb

/-- No two items of a source end at the same place. -/
theorem eq_of_mem_itemEnds {source : List Char} {a b : Item × Nat} (ha : a ∈ itemEnds source)
    (hb : b ∈ itemEnds source) (heq : a.2 = b.2) : a = b := by
  have hup : (itemEnds source).Pairwise fun a b => a.2 < b.2 := by
    rw [itemEnds_eq]
    exact pairwise_itemEndsOf (fits_tilesOf source)
  have hdistinct : ((itemEnds source).map Prod.snd).Nodup :=
    List.pairwise_map.mpr (hup.imp Nat.ne_of_lt)
  exact List.inj_on_of_nodup_map hdistinct ha hb heq

end LoxLexer
