import LoxLexer.Proofs.Items

/-!
# Sinks are only told

A scan tells its sink of every error, and a sink tells the scan nothing.  What
is scanned, and what the sink is told in which order, is settled by the source
alone, and what a sink has been told before is settled by the past alone.  So a
sink that serves many scans, and is told single errors in between, has in the
end been told one list of errors: those of the scans, each as if it were the
only one, and the single ones, put one behind the other.

* `Sink.state_perform`, `Sink.after_eq`: the state of a sink after one command
  and after any number of them.
* `Sink.Collects.view_after`: what a sink that collects errors then holds.
* `scanInto_any_sink`: the statement for all sinks, for callbacks and for
  diagnostics.
-/

namespace LoxLexer

namespace Sink

/-- What can be asked of any sink: to take in the errors of a scan or a single
error. -/
inductive Command where
  | scan (source : List Char)
  | report (error : LexicalError)
deriving DecidableEq, Repr

/-- The errors that a command hands to a sink: those that a scan of the source
collects by itself, or the one given. -/
def Command.errors : Command → List LexicalError
  | scan source => (LoxLexer.scan source).sink.toList
  | report e => [e]

section Commands

variable {σ : Type} (sink : Sink σ) (state : σ)

/-- Takes in errors one after the other. -/
def takeAll (errors : List LexicalError) : σ :=
  errors.foldl (fun state e => (sink.report state e).1) state

/-- Carries out a command: the tokens, if it was a scan, the state of the sink
after it and the events. -/
def perform : Command → Option (List Token) × σ × List Event
  | .scan source =>
    let result := scanInto source sink state
    (some result.tokens, result.sink, result.events)
  | .report e => (none, sink.report state e)

/-- The state of a sink after some commands. -/
def after (commands : List Command) : σ :=
  commands.foldl (fun state c => (sink.perform state c).2.1) state

theorem takeAll_append (es fs : List LexicalError) :
    sink.takeAll state (es ++ fs) = sink.takeAll (sink.takeAll state es) fs :=
  List.foldl_append

theorem after_append (cs ds : List Command) :
    sink.after state (cs ++ ds) = sink.after (sink.after state cs) ds :=
  List.foldl_append

/-- A scan hands the sink the errors among its items, in their order. -/
theorem sink_scanInto_items (source : List Char) :
    (scanInto source sink state).sink =
      sink.takeAll state ((Cursor.start source).items.filterMap Item.error?) :=
  (Cursor.start source).sink_scanInto sink state

/-- The errors of a scan are the same for every sink. -/
theorem Command.errors_scan (source : List Char) :
    (Command.scan source).errors = (Cursor.start source).items.filterMap Item.error? :=
  (Cursor.start source).errors_scanInto {}

/-- **One command.**  A sink takes in the errors that the command hands to it. -/
theorem state_perform (c : Command) :
    (sink.perform state c).2.1 = sink.takeAll state c.errors := by
  cases c with
  | scan source =>
      rw [Command.errors_scan]
      exact sink.sink_scanInto_items state source
  | report e => rfl

/-- **Any number of commands.**  A sink takes in what the commands hand to it,
put one behind the other. -/
theorem after_eq (commands : List Command) :
    sink.after state commands = sink.takeAll state (commands.flatMap Command.errors) := by
  induction commands generalizing state with
  | nil => rfl
  | cons c cs ih =>
      rw [after, List.foldl_cons, state_perform, List.flatMap_cons, takeAll_append]
      exact ih _

end Commands

/-- The view of a sink shows what it has taken in, the last error at the end. -/
def Collects {σ : Type} (sink : Sink σ) (view : σ → List LexicalError) : Prop :=
  ∀ state e, view (sink.report state e).1 = view state ++ [e]

section Collects

variable {σ : Type} {sink : Sink σ} {view : σ → List LexicalError}

/-- What a sink takes in shows in its view, behind what it has taken in before. -/
theorem Collects.view_takeAll (h : sink.Collects view) (state : σ) (es : List LexicalError) :
    view (sink.takeAll state es) = view state ++ es := by
  induction es generalizing state with
  | nil => exact (List.append_nil _).symm
  | cons e es ih =>
      have hhere := h state e
      rw [takeAll, List.foldl_cons]
      refine (ih _).trans ?_
      rw [hhere, List.append_assoc, List.singleton_append]

/-- A sink that collects errors holds what it held before and behind it what
the commands have handed to it. -/
theorem Collects.view_after (h : sink.Collects view) (state : σ) (commands : List Command) :
    view (sink.after state commands) = view state ++ commands.flatMap Command.errors := by
  rw [after_eq, h.view_takeAll]

/-- Further commands leave what is held as it is and put their errors behind it. -/
theorem Collects.view_after_append (h : sink.Collects view) (state : σ)
    (earlier later : List Command) :
    view (sink.after state (earlier ++ later)) =
      view (sink.after state earlier) ++ later.flatMap Command.errors := by
  rw [after_append, h.view_after]

end Collects

/-- A callback that puts each error into an array collects them. -/
theorem collects_push : (quiet Array.push : Sink (Array LexicalError)).Collects Array.toList :=
  fun _ _ => Array.toList_push

end Sink

namespace Diagnostics

/-- Diagnostics show what they have taken in as a list. -/
theorem collects : sink.Collects toList := fun _ _ => Array.toList_push

/-- Whether there are errors can be asked in three ways. -/
theorem hadError_iff (d : Diagnostics) :
    d.hadError = !d.isEmpty ∧ (d.hadError = true ↔ 0 < d.size) ∧ d.size = d.toList.length := by
  obtain ⟨errors⟩ := d
  refine ⟨rfl, ?_, Array.length_toList.symm⟩
  simp [hadError, size, Array.size_pos_iff]

end Diagnostics

/-- **Sinks are only told.**  Whatever a sink is and whatever it has been told
before, a scan returns the same tokens, those among the items of the source and
the end mark, and hands the sink the same errors, those among the items, in
their order.  So a callback has after any commands been called with the errors
of each in turn.  What collects errors, be it a callback or diagnostics, holds
what it held in the beginning and the errors of each command in turn; further
commands change nothing of that, but add to it; and all the ways of asking
diagnostics whether there are errors agree. -/
theorem scanInto_any_sink :
    (∀ (source : List Char) (σ : Type) (sink : Sink σ) (state : σ),
      let items := (Cursor.start source).items
      (scanInto source sink state).tokens =
          items.filterMap Item.token? ++ [.endOfFile (1 + newlines source)] ∧
        (scanInto source sink state).sink =
          sink.takeAll state (items.filterMap Item.error?) ∧
        (Sink.Command.scan source).errors = items.filterMap Item.error?) ∧
    (∀ (σ : Type) (take : σ → LexicalError → σ) (state : σ) (commands : List Sink.Command),
      (Sink.quiet take).after state commands =
        (commands.flatMap Sink.Command.errors).foldl take state) ∧
    (∀ (seen : Array LexicalError) (earlier later : List Sink.Command),
      let middle := (Sink.quiet Array.push).after seen earlier
      let last := (Sink.quiet Array.push).after seen (earlier ++ later)
      middle.toList = seen.toList ++ earlier.flatMap Sink.Command.errors ∧
        last.toList = middle.toList ++ later.flatMap Sink.Command.errors) ∧
    ∀ (d : Diagnostics) (earlier later : List Sink.Command),
      let middle := Diagnostics.sink.after d earlier
      let last := Diagnostics.sink.after d (earlier ++ later)
      middle.toList = d.toList ++ earlier.flatMap Sink.Command.errors ∧
        last.toList = middle.toList ++ later.flatMap Sink.Command.errors ∧
        last.errors.toList = last.toList ∧ last.size = last.toList.length ∧
        last.hadError = !last.isEmpty ∧ (last.hadError = true ↔ 0 < last.size) := by
  refine ⟨?_, ?_, ?_, ?_⟩
  · intro source σ sink state
    exact ⟨(Cursor.start source).tokens_scanInto sink state,
      sink.sink_scanInto_items state source, Sink.Command.errors_scan source⟩
  · intro σ take state commands
    exact (Sink.quiet take).after_eq state commands
  · intro seen earlier later
    exact ⟨Sink.collects_push.view_after seen earlier,
      Sink.collects_push.view_after_append seen earlier later⟩
  · intro d earlier later middle last
    obtain ⟨hempty, hsize, hlength⟩ := last.hadError_iff
    exact ⟨Diagnostics.collects.view_after d earlier,
      Diagnostics.collects.view_after_append d earlier later, rfl, hlength, hempty, hsize⟩

end LoxLexer
