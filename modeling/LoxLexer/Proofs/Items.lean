import LoxLexer.Cursor.Iteration
import LoxLexer.Sink.Diagnostics

/-!
# The items of a source as a list

A cursor reads tiles one after the other and hands out those that are tokens
or faults.  This file takes the two apart: `tilesOf` cuts a text into its
tiles without any thought of lines, and `itemsOf` gives lines to a row of
tiles.  Everything that a cursor hands out is a function of the two.

* `Cursor.fold_eq`: going through all items is folding over the list of them
  and ends on the last line.
* `Cursor.items_skip`: asking `k` times for the next item takes `k` items off
  the front of that list.
* `Cursor.tokens_scanInto`, `Cursor.errors_scanInto`: a scan deals the list out
  into tokens and errors, whatever the sink does with them.
* `Cursor.items_add`: the line on which a text begins moves its items and does
  nothing else to them.
-/

namespace LoxLexer

/-- The tiles of a text, from its front to its end. -/
def tilesOf : List Char → List Tile
  | [] => []
  | c :: cs => (Tile.first c cs).1 :: tilesOf (Tile.first c cs).2
termination_by source => source.length
decreasing_by exact Tile.length_rest_lt c cs

/-- The items that a row of tiles stands for if it begins on `line`. -/
def itemsOf (line : Nat) : List Tile → List Item
  | [] => []
  | t :: ts => (t.item? line).toList ++ itemsOf (line + newlines t.text) ts

/-- The token that an item is, unless it is an error. -/
def Item.token? : Item → Option Token
  | .token t => some t
  | .error _ => none

/-- The error that an item is, unless it is a token. -/
def Item.error? : Item → Option LexicalError
  | .token _ => none
  | .error e => some e

@[simp] theorem newlines_nil : newlines [] = 0 := rfl

@[simp] theorem newlines_append (s t : List Char) :
    newlines (s ++ t) = newlines s + newlines t :=
  List.count_append

/-- No other character ends a line. -/
theorem newlines_cons_of_ne {c : Char} (h : c ≠ '\n') (text : List Char) :
    newlines (c :: text) = newlines text := by
  simp [newlines, h]

/-- The tiles of a text are all of it, in order. -/
theorem flatMap_text_tilesOf (source : List Char) :
    (tilesOf source).flatMap Tile.text = source := by
  fun_induction tilesOf source with
  | case1 => rfl
  | case2 c cs ih =>
      rw [List.flatMap_cons, ih]
      exact Tile.text_first_append c cs

theorem text_ne_nil_of_mem_tilesOf {source : List Char} {t : Tile}
    (h : t ∈ tilesOf source) : t.text ≠ [] := by
  fun_induction tilesOf source with
  | case1 => cases h
  | case2 c cs ih =>
      rcases List.mem_cons.mp h with rfl | h
      · exact Tile.text_first_ne_nil c cs
      · exact ih h

namespace Cursor

/-- A first tile that stands for an item is handed out. -/
theorem next_of_item {c : Char} {cs : List Char} {line : Nat} {item : Item}
    (h : (Tile.first c cs).1.item? line = some item) :
    next ⟨c :: cs, line⟩ =
      (some item, ⟨(Tile.first c cs).2, line + newlines (Tile.first c cs).1.text⟩) := by
  rw [next]
  simp only [h]

/-- A blank first tile is passed over. -/
theorem next_of_blank {c : Char} {cs : List Char} {line : Nat}
    (h : (Tile.first c cs).1.item? line = none) :
    next ⟨c :: cs, line⟩ =
      next ⟨(Tile.first c cs).2, line + newlines (Tile.first c cs).1.text⟩ := by
  rw [next]
  simp only [h]

section Fold

variable {α : Type} (f : α → Item → α) (a : α)

theorem fold_of_next_none {s last : Cursor} (h : s.next = (none, last)) :
    s.fold f a = (a, last) := by
  rw [fold]
  split
  · next last' h' => rw [h] at h'; cases h'; rfl
  · next item after h' => rw [h] at h'; cases h'

/-- A fold takes the next item, and goes on behind it. -/
theorem fold_of_next_some {s after : Cursor} {item : Item} (h : s.next = (some item, after)) :
    s.fold f a = after.fold f (f a item) := by
  rw [fold]
  split
  · next last' h' => rw [h] at h'; cases h'
  · next item' after' h' => rw [h] at h'; cases h'; rfl

/-- Folding depends on a cursor through its next item only. -/
theorem fold_congr {s t : Cursor} (h : s.next = t.next) : s.fold f a = t.fold f a := by
  rcases ht : t.next with ⟨_ | item, after⟩
  · rw [fold_of_next_none f a (h.trans ht), fold_of_next_none f a ht]
  · rw [fold_of_next_some f a (h.trans ht), fold_of_next_some f a ht]

/-- Going through all items is folding over the list of them. It ends behind
the last character, on the last line. -/
theorem fold_eq (source : List Char) (line : Nat) :
    fold f a ⟨source, line⟩ =
      ((itemsOf line (tilesOf source)).foldl f a, ⟨[], line + newlines source⟩) := by
  fun_induction tilesOf source generalizing line a with
  | case1 => exact fold_of_next_none f a (by rw [next]; rfl)
  | case2 c cs ih =>
      have hline : line + newlines (c :: cs) =
          line + newlines (Tile.first c cs).1.text + newlines (Tile.first c cs).2 := by
        rw [← Tile.text_first_append c cs, newlines_append, Nat.add_assoc]
      rw [itemsOf, hline]
      cases hitem : (Tile.first c cs).1.item? line with
      | none =>
          rw [fold_congr f a (next_of_blank hitem), ih]
          rfl
      | some item =>
          rw [fold_of_next_some f a (next_of_item hitem), ih]
          rfl

end Fold

/-- The items of a cursor are those of the tiles of what is left. -/
theorem items_eq (s : Cursor) : s.items = itemsOf s.line (tilesOf s.rest) := by
  rw [items, fold_eq]
  simp

/-- At the end nothing is left, and all line ends have been passed. -/
theorem atEnd_eq (s : Cursor) : s.atEnd = ⟨[], s.line + newlines s.rest⟩ := by
  rw [atEnd, fold_eq]

theorem items_of_next_none {s last : Cursor} (h : s.next = (none, last)) : s.items = [] := by
  rw [items, fold_of_next_none _ _ h]
  rfl

/-- The next item is the first of the items, and the others are those behind it. -/
theorem items_of_next_some {s after : Cursor} {item : Item} (h : s.next = (some item, after)) :
    s.items = item :: after.items := by
  rw [items, fold_of_next_some _ _ h, after.items_eq, fold_eq]
  simp

/-- The place after asking `k` times for the next item. -/
def skip : Nat → Cursor → Cursor
  | 0, s => s
  | k + 1, s => skip k s.next.2

/-- If no item is left, the next place is the end of the source. -/
theorem eq_atEnd_of_next_none {s last : Cursor} (h : s.next = (none, last)) :
    last = s.atEnd := by
  rw [atEnd, fold_of_next_none _ _ h]

/-- At the end there is no next item, and the cursor stays where it is. -/
theorem next_atEnd (s : Cursor) : s.atEnd.next = (none, s.atEnd) := by
  rw [atEnd_eq, next]

/-- Asking for the next item takes it off the list of those that are left. -/
theorem items_next (s : Cursor) : s.next.2.items = s.items.tail := by
  rcases h : s.next with ⟨_ | item, after⟩
  · rw [items_of_next_none h, eq_atEnd_of_next_none h, items_of_next_none s.next_atEnd]
    rfl
  · rw [items_of_next_some h]
    rfl

/-- The next item is the first of those that are left. -/
theorem next_fst (s : Cursor) : s.next.1 = s.items.head? := by
  rcases h : s.next with ⟨_ | item, after⟩
  · rw [items_of_next_none h]
    rfl
  · rw [items_of_next_some h]
    rfl

/-- To skip items is to drop them from the front of all of them. -/
theorem items_skip (k : Nat) (s : Cursor) : (s.skip k).items = s.items.drop k := by
  induction k generalizing s with
  | zero => rfl
  | succ k ih => rw [skip, ih, items_next, List.drop_tail]

/-- The `k`-th item that is left is the next one at the place behind `k` items. -/
theorem getElem?_items (k : Nat) (s : Cursor) : s.items[k]? = (s.skip k).next.1 := by
  rw [next_fst, items_skip, List.head?_drop]

/-- What it takes to hand out an item: the tiles up to one that is no blank. -/
theorem next_some_cases {s after : Cursor} {item : Item} (h : s.next = (some item, after)) :
    ∃ blank c cs, s.rest = blank ++ c :: cs ∧
      (Tile.first c cs).1.item? (s.line + newlines blank) = some item ∧
      after = ⟨(Tile.first c cs).2,
        s.line + newlines blank + newlines (Tile.first c cs).1.text⟩ := by
  fun_induction next s with
  | case1 line => cases h
  | case2 c cs line split place item' hitem =>
      obtain ⟨hsome, hafter⟩ := Prod.mk.inj h
      exact ⟨[], c, cs, rfl, hitem.trans hsome, hafter.symm⟩
  | case3 c cs line split place hitem ih =>
      obtain ⟨blank, d, ds, hrest, hitem', hafter⟩ := ih h
      refine ⟨split.1.text ++ blank, d, ds, ?_, ?_, ?_⟩
      · rw [List.append_assoc, ← hrest]
        exact (Tile.text_first_append c cs).symm
      · rwa [newlines_append, ← Nat.add_assoc]
      · rwa [newlines_append, ← Nat.add_assoc]

end Cursor

namespace Progress

variable {σ : Type} (sink : Sink σ) (items : List Item) (p : Progress σ)

/-- Observing items keeps their tokens, in order. -/
theorem tokens_foldl_observe :
    (items.foldl (observe sink) p).tokens.toList =
      p.tokens.toList ++ items.filterMap Item.token? := by
  induction items generalizing p with
  | nil => simp
  | cons item items ih =>
      rw [List.foldl_cons, ih]
      cases item <;> simp [observe, Item.token?, List.filterMap_cons]

/-- Observing items hands their errors to the sink, in order. -/
theorem sink_foldl_observe :
    (items.foldl (observe sink) p).sink =
      (items.filterMap Item.error?).foldl (fun state e => (sink.report state e).1) p.sink := by
  induction items generalizing p with
  | nil => rfl
  | cons item items ih =>
      rw [List.foldl_cons, ih]
      cases item <;> rfl

/-- Observing items counts their errors. -/
theorem errors_foldl_observe :
    (items.foldl (observe sink) p).errors =
      p.errors + (items.filterMap Item.error?).length := by
  induction items generalizing p with
  | nil => rfl
  | cons item items ih =>
      rw [List.foldl_cons, ih]
      cases item <;> simp [observe, Item.error?, List.filterMap_cons]
      omega

end Progress

namespace Cursor

variable {σ : Type} (s : Cursor) (sink : Sink σ) (state : σ)

/-- A scan observes the items one after the other, and then finishes on the last line. -/
theorem scanInto_eq :
    s.scanInto sink state =
      (s.items.foldl (Progress.observe sink) (.start state)).finish
        (s.line + newlines s.rest) := by
  rw [scanInto, fold_eq, items_eq]

/-- A scan keeps the tokens of a source and puts the end mark behind them. -/
theorem tokens_scanInto :
    (s.scanInto sink state).tokens =
      s.items.filterMap Item.token? ++ [.endOfFile (s.line + newlines s.rest)] := by
  rw [scanInto_eq]
  simp [Progress.finish, Progress.tokens_foldl_observe, Progress.start]

/-- A scan hands the errors of a source to the sink, in order. -/
theorem sink_scanInto :
    (s.scanInto sink state).sink =
      (s.items.filterMap Item.error?).foldl (fun state e => (sink.report state e).1) state := by
  rw [scanInto_eq]
  exact Progress.sink_foldl_observe sink s.items (.start state)

/-- The last event of a scan says how many tokens and errors there were and
on which line the source ends. -/
theorem getLast?_events_scanInto :
    (s.scanInto sink state).events.getLast? =
      some (.finished (s.scanInto sink state).tokens.length
        (s.items.filterMap Item.error?).length (s.line + newlines s.rest)) := by
  rw [scanInto_eq]
  simp [Progress.finish, Progress.errors_foldl_observe, Progress.start]

end Cursor

/-- Diagnostics keep what they are handed behind what they have. -/
theorem Diagnostics.toList_foldl_report (d : Diagnostics) (es : List LexicalError) :
    (es.foldl (fun d e => (sink.report d e).1) d).toList = d.toList ++ es := by
  induction es generalizing d with
  | nil => simp
  | cons e es ih =>
      rw [List.foldl_cons, ih]
      simp [toList, sink, Sink.quiet, report]

/-- A scan into diagnostics adds the errors of the source to them. -/
theorem Cursor.errors_scanInto (s : Cursor) (d : Diagnostics) :
    (s.scanInto Diagnostics.sink d).sink.toList = d.toList ++ s.items.filterMap Item.error? := by
  rw [sink_scanInto]
  exact d.toList_foldl_report _

/-- The tokens of a scan are those of the tiles of the source, and the one at the end. -/
theorem tokens_scan (source : List Char) :
    (scan source).tokens = (itemsOf 1 (tilesOf source)).filterMap Item.token? ++
      [.endOfFile (1 + newlines source)] := by
  rw [scan, scanInto, Cursor.tokens_scanInto, Cursor.items_eq, Cursor.start]

/-- The errors of a scan are those of the tiles of the source. -/
theorem errors_scan (source : List Char) :
    (scan source).sink.toList = (itemsOf 1 (tilesOf source)).filterMap Item.error? := by
  rw [scan, scanInto, Cursor.errors_scanInto, Cursor.items_eq, Cursor.start]
  rfl

theorem mem_filterMap_token? {items : List Item} {t : Token} :
    t ∈ items.filterMap Item.token? ↔ .token t ∈ items := by
  rw [List.mem_filterMap]
  constructor
  · rintro ⟨item, hitem, htoken⟩
    cases item <;> cases htoken
    exact hitem
  · exact fun h => ⟨_, h, rfl⟩

theorem mem_filterMap_error? {items : List Item} {e : LexicalError} :
    e ∈ items.filterMap Item.error? ↔ .error e ∈ items := by
  rw [List.mem_filterMap]
  constructor
  · rintro ⟨item, hitem, herror⟩
    cases item <;> cases herror
    exact hitem
  · exact fun h => ⟨_, h, rfl⟩

/-- Each item is a token or an error. -/
theorem length_filterMap_items (items : List Item) :
    items.length =
      (items.filterMap Item.token?).length + (items.filterMap Item.error?).length := by
  induction items with
  | nil => rfl
  | cons item items ih =>
      have hcons := congrArg Nat.succ ih
      cases item with
      | token t => exact hcons.trans (Nat.succ_add ..).symm
      | error e => exact hcons

/-- The tokens of a scan are those among the items, and the one at the end. -/
theorem mem_tokens_scan {source : List Char} {t : Token} :
    t ∈ (scan source).tokens ↔
      .token t ∈ itemsOf 1 (tilesOf source) ∨ t = .endOfFile (1 + newlines source) := by
  rw [tokens_scan, List.mem_append, mem_filterMap_token?, List.mem_singleton]

/-- The errors of a scan are the items of the source that are errors. -/
theorem mem_errors_scan {source : List Char} {e : LexicalError} :
    e ∈ (scan source).sink.toList ↔ .error e ∈ itemsOf 1 (tilesOf source) := by
  rw [errors_scan, mem_filterMap_error?]

/-- The items of two rows, one behind the other. -/
theorem itemsOf_append (line : Nat) (ts us : List Tile) :
    itemsOf line (ts ++ us) =
      itemsOf line ts ++ itemsOf (line + newlines (ts.flatMap Tile.text)) us := by
  induction ts generalizing line with
  | nil => rfl
  | cons t ts ih =>
      rw [List.cons_append, itemsOf, itemsOf, ih, List.flatMap_cons, newlines_append,
        List.append_assoc, Nat.add_assoc]

/-! ### Moving down -/

/-- The token, `n` lines further down. -/
def Token.shift (n : Nat) (t : Token) : Token := { t with line := t.line + n }

/-- The error, `n` lines further down. -/
def LexicalError.shift (n : Nat) (e : LexicalError) : LexicalError := { e with line := e.line + n }

/-- The item, `n` lines further down. -/
def Item.shift (n : Nat) : Item → Item
  | .token t => .token (t.shift n)
  | .error e => .error (e.shift n)

section Shift

variable (n : Nat)

/-- A tile further down stands for the same item, further down. -/
theorem Tile.item?_add (line : Nat) (t : Tile) :
    t.item? (line + n) = (t.item? line).map (Item.shift n) := by
  obtain ⟨text, reading⟩ := t
  cases reading with
  | blank => rfl
  | token kind literal => rfl
  | fault fault => simp [item?, Item.shift, LexicalError.shift, Nat.add_right_comm]

/-- Tiles further down stand for the same items, further down. -/
theorem itemsOf_add (line : Nat) (tiles : List Tile) :
    itemsOf (line + n) tiles = (itemsOf line tiles).map (Item.shift n) := by
  induction tiles generalizing line with
  | nil => rfl
  | cons t ts ih =>
      rw [itemsOf, itemsOf, Tile.item?_add, Nat.add_right_comm, ih, List.map_append]
      cases t.item? line <;> rfl

/-- The tokens of items that are further down are further down themselves. -/
theorem filterMap_token?_shift (items : List Item) :
    (items.map (Item.shift n)).filterMap Item.token? =
      (items.filterMap Item.token?).map (Token.shift n) := by
  rw [List.filterMap_map, List.map_filterMap]
  congr 1
  funext item
  cases item <;> rfl

theorem filterMap_error?_shift (items : List Item) :
    (items.map (Item.shift n)).filterMap Item.error? =
      (items.filterMap Item.error?).map (LexicalError.shift n) := by
  rw [List.filterMap_map, List.map_filterMap]
  congr 1
  funext item
  cases item <;> rfl

namespace Cursor

variable (rest : List Char) (line : Nat)

/-- A cursor further down has the same items, further down. -/
theorem items_add : items ⟨rest, line + n⟩ = (items ⟨rest, line⟩).map (Item.shift n) := by
  rw [items_eq, items_eq]
  exact itemsOf_add n line (tilesOf rest)

/-- What a scan returns moves down with the line on which the text begins. -/
theorem tokens_scanInto_add {σ : Type} (sink : Sink σ) (state : σ) :
    (scanInto ⟨rest, line + n⟩ sink state).tokens =
      (scanInto ⟨rest, line⟩ sink state).tokens.map (Token.shift n) := by
  rw [tokens_scanInto, tokens_scanInto, items_add, filterMap_token?_shift, List.map_append]
  simp [Token.shift, Token.endOfFile, Nat.add_right_comm]

/-- What a scan reports moves down with it. -/
theorem errors_scanInto_add :
    (scanInto ⟨rest, line + n⟩ Diagnostics.sink {}).sink.toList =
      (scanInto ⟨rest, line⟩ Diagnostics.sink {}).sink.toList.map (LexicalError.shift n) := by
  rw [errors_scanInto, errors_scanInto, items_add, filterMap_error?_shift]
  rfl

end Cursor

end Shift

end LoxLexer
