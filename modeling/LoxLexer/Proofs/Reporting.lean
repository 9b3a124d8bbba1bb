import LoxLexer.Proofs.Trail

/-!
# Reporters whose writer fails

A reporter has a writer that may be broken for a while and may have room for a
limited number of bytes.  It can be asked for scans and for single reports, and
its writer can break down and work again, in any order.  All that matters of
what it has been asked is the row of reports that it has attempted, each with
the word whether the writer was broken then.  The bytes offered to the writer
are the lines of the attempts for which it was not, and what is written is the
front of them, up to the limit.  An attempt fails if the writer is broken, or
if it takes what is offered beyond the limit; a line that fits exactly does not
fail, and one that is cut is never mended later.

* `Writer.write_of_kept`: one write, seen from the bytes offered so far.
* `Writer.writePieces_eq`: cutting what is written into pieces changes nothing.
* `Reporter.Stands.report`, `Reporter.Stands.takeAll`, `Reporter.Stands.after`:
  how a reporter stands after one report, after those of a scan, and after any
  commands.
* `Reporter.perform_any_schedule`: the statement for all schedules.
-/

namespace LoxLexer

/-- A text that is not empty has bytes. -/
theorem Utf8.encode_ne_nil {text : List Char} (h : text ≠ []) : encode text ≠ [] := by
  obtain ⟨c, cs, rfl⟩ := List.exists_cons_of_ne_nil h
  rw [encode, List.flatMap_cons]
  exact List.append_ne_nil_of_left_ne_nil String.utf8EncodeChar_ne_nil _

namespace Writer

/-- The bytes that a limit allows, from the front. -/
def kept (limit : Option Nat) (bytes : List UInt8) : List UInt8 :=
  match limit with
  | some n => bytes.take n
  | none => bytes

/-- The bytes are more than a limit allows. -/
def exceeds (limit : Option Nat) (bytes : List UInt8) : Bool :=
  limit.any (fun n => n < bytes.length)

section Write

variable {w : Writer}

/-- A writer that is broken takes nothing. -/
theorem write_of_broken (h : w.isBroken = true) (bytes : List UInt8) :
    w.write bytes = (some .broken, w) :=
  if_pos h

/-- A writer that works takes what fits, and fails if that is not all. -/
theorem write_of_working (h : w.isBroken = false) (bytes : List UInt8) :
    w.write bytes =
      (if (w.fitting bytes).length < bytes.length then some .full else none,
        { w with written := w.written ++ w.fitting bytes }) := by
  by_cases hfull : (w.fitting bytes).length < bytes.length <;> simp [write, h, hfull]

/-- A writer that holds what is allowed of some bytes holds after a write what is
allowed of them with the new ones behind them. The write fails if these are not
allowed as a whole. -/
theorem write_of_kept {before bytes : List UInt8} (h : w.isBroken = false)
    (hwritten : w.written.toList = kept w.limit before) (hbytes : bytes ≠ []) :
    (w.write bytes).1 = (if exceeds w.limit (before ++ bytes) then some .full else none) ∧
      (w.write bytes).2.written.toList = kept w.limit (before ++ bytes) := by
  rw [write_of_working h]
  obtain ⟨written, limit, isBroken⟩ := w
  have hpos : 0 < bytes.length := List.length_pos_iff.mpr hbytes
  cases limit with
  | none => simpa [fitting, exceeds, kept] using hwritten
  | some n =>
      have hlist : written.toList = before.take n := hwritten
      have hsize : written.size = min n before.length := by
        rw [← Array.length_toList, hlist, List.length_take]
      have hroom : n - written.size = n - before.length := by omega
      constructor
      · simp only [fitting, exceeds, Option.any_some, List.length_take, List.length_append,
          decide_eq_true_eq]
        congr 1
        rw [eq_iff_iff]
        omega
      · simp only [fitting, kept, Array.toList_appendList, hlist, List.take_append, hroom]

theorem size_append (written : Array UInt8) (bytes : List UInt8) :
    (written ++ bytes).size = written.size + bytes.length := by
  rw [← Array.length_toList, Array.toList_appendList, List.length_append, Array.length_toList]

/-- What fits of two pieces is what fits of the first, and of the second behind it. -/
theorem fitting_append (w : Writer) (front rest : List UInt8) :
    w.fitting (front ++ rest) =
      w.fitting front ++ { w with written := w.written ++ w.fitting front }.fitting rest := by
  obtain ⟨written, limit, isBroken⟩ := w
  cases limit with
  | none => rfl
  | some n =>
      have hleft : n - written.size - front.length =
          n - (written.size + min (n - written.size) front.length) := by
        omega
      simp [fitting, size_append, List.take_append, hleft]

/-- What fits is cut off at the end. -/
theorem isPrefix_fitting (w : Writer) (bytes : List UInt8) : w.fitting bytes <+: bytes := by
  rw [fitting]
  split
  · exact List.take_prefix _ _
  · exact List.prefix_refl _

theorem length_fitting_le (w : Writer) (bytes : List UInt8) :
    (w.fitting bytes).length ≤ bytes.length :=
  (isPrefix_fitting w bytes).length_le

/-- Behind a piece that does not fit there is no room. -/
theorem fitting_of_cut {front : List UInt8} (h : (w.fitting front).length < front.length)
    (rest : List UInt8) :
    { w with written := w.written ++ w.fitting front }.fitting rest = [] := by
  obtain ⟨written, limit, isBroken⟩ := w
  cases limit with
  | none => exact absurd h (Nat.lt_irrefl _)
  | some n =>
      have hroom : n - (written.size + min (n - written.size) front.length) = 0 := by
        simp only [fitting, List.length_take] at h
        omega
      simp [fitting, size_append, hroom]

/-- What has been written without failing has fitted as a whole. -/
theorem fitting_of_write_none {after : Writer} {bytes : List UInt8}
    (h : w.write bytes = (none, after)) :
    w.isBroken = false ∧ w.fitting bytes = bytes ∧
      after = { w with written := w.written ++ bytes } := by
  have hbroken : w.isBroken = false := by
    refine Bool.eq_false_iff.mpr fun hbroken => ?_
    rw [write_of_broken hbroken] at h
    cases h
  rw [write_of_working hbroken] at h
  obtain ⟨hfits, hafter⟩ := Prod.mk.inj h
  have hwhole : (w.fitting bytes).length = bytes.length := by
    refine Nat.le_antisymm (length_fitting_le w bytes) (Nat.le_of_not_lt fun hcut => ?_)
    rw [if_pos hcut] at hfits
    cases hfits
  have hfitting : w.fitting bytes = bytes := (isPrefix_fitting w bytes).eq_of_length hwhole
  rw [hfitting] at hafter
  exact ⟨hbroken, hfitting, hafter.symm⟩

/-- A write goes on where one that has succeeded has stopped. -/
theorem write_append_of_none {after : Writer} {front : List UInt8}
    (h : w.write front = (none, after)) (rest : List UInt8) :
    w.write (front ++ rest) = after.write rest := by
  obtain ⟨hbroken, hfitting, rfl⟩ := fitting_of_write_none h
  have hafter : { w with written := w.written ++ front }.isBroken = false := hbroken
  have hwritten (bytes : List UInt8) :
      w.written ++ (front ++ bytes) = w.written ++ front ++ bytes :=
    Array.toList_inj.mp (by simp)
  rw [write_of_working hbroken, write_of_working hafter, fitting_append, hfitting, hwritten]
  simp

/-- Nothing behind a write that has failed is written. -/
theorem write_append_of_some {after : Writer} {failure : WriteFailure} {front : List UInt8}
    (h : w.write front = (some failure, after)) (rest : List UInt8) :
    w.write (front ++ rest) = (some failure, after) := by
  cases hbroken : w.isBroken with
  | true => rwa [write_of_broken hbroken] at h ⊢
  | false =>
      rw [write_of_working hbroken] at h
      have hcut : (w.fitting front).length < front.length := by
        by_contra hwhole
        rw [if_neg hwhole] at h
        cases h
      have hboth : (w.fitting front).length < (front ++ rest).length :=
        Nat.lt_of_lt_of_le hcut (List.length_append ▸ Nat.le_add_right ..)
      rw [write_of_working hbroken, fitting_append, fitting_of_cut hcut, List.append_nil,
        if_pos hboth, ← h, if_pos hcut]

/-- To write nothing, in however many pieces, does not fail. -/
theorem writePieces_of_flatten_nil {pieces : List (List UInt8)} (h : pieces.flatten = []) :
    w.writePieces pieces = (none, w) := by
  induction pieces with
  | nil => rfl
  | cons piece pieces ih =>
      obtain ⟨rfl, hpieces⟩ := List.append_eq_nil_iff.mp h
      exact ih hpieces

/-- It makes no difference in which pieces something is written. -/
theorem writePieces_eq (w : Writer) {pieces : List (List UInt8)} (h : pieces.flatten ≠ []) :
    w.writePieces pieces = w.write pieces.flatten := by
  induction pieces generalizing w with
  | nil => exact absurd rfl h
  | cons piece pieces ih =>
      cases piece with
      | nil => exact ih w h
      | cons b bs =>
          rw [writePieces, List.flatten_cons]
          rcases hpiece : w.write (b :: bs) with ⟨_ | failure, after⟩
          · by_cases hrest : pieces.flatten = []
            · rw [hrest, List.append_nil, hpiece]
              exact writePieces_of_flatten_nil hrest
            · rw [write_append_of_none hpiece]
              exact ih after hrest
          · exact (write_append_of_some hpiece pieces.flatten).symm

end Write

end Writer

namespace Reporter

/-! ### What has been attempted -/

/-- The attempt to report an error, and whether the writer was broken then. -/
structure Attempt where
  error : LexicalError
  isBroken : Bool
deriving DecidableEq, Repr

/-- The errors that a command has a reporter report. -/
def Command.errors : Command → List LexicalError
  | .scan source => (LoxLexer.scan source).sink.toList
  | .report e => [e]
  | .breakWriter | .mendWriter => []

/-- Whether the writer is broken after a command, given whether it was before. -/
def Command.leaves (isBroken : Bool) : Command → Bool
  | .scan _ | .report _ => isBroken
  | .breakWriter => true
  | .mendWriter => false

/-- The attempts that a command makes. -/
def Command.attempts (isBroken : Bool) (c : Command) : List Attempt :=
  c.errors.map (Attempt.mk · isBroken)

/-- The attempts that some commands make. -/
def attempts (isBroken : Bool) : List Command → List Attempt
  | [] => []
  | c :: cs => c.attempts isBroken ++ attempts (c.leaves isBroken) cs

/-- What is offered to the writer: the line of each error that is reported while
the writer is not broken. -/
def offered (made : List Attempt) : List UInt8 :=
  (made.filter (!·.isBroken)).flatMap (fun a => Utf8.encode (lineOf a.error))

/-- Why an attempt fails, given those made before it, if it does. -/
def failureOf (limit : Option Nat) (made : List Attempt) (a : Attempt) : Option WriteFailure :=
  if a.isBroken then some .broken
  else if Writer.exceeds limit (offered (made ++ [a])) then some .full
  else none

/-- Why each of some attempts fails. -/
def failures (limit : Option Nat) (made : List Attempt) :
    List Attempt → List (Option WriteFailure)
  | [] => []
  | a :: as => failureOf limit made a :: failures limit (made ++ [a]) as

/-- What an attempt raises: a warning if it has failed. -/
def raisedBy (failure : Option WriteFailure) : List Event :=
  (failure.map Event.writeFailed).toList

/-- The events of a command, given what its reports raise. -/
def Command.events (raised : List (List Event)) : Command → List Event
  | .scan source =>
    let items := (Cursor.start source).items
    let tokens := items.filterMap Item.token?
    trail items raised ++
      [.finished (tokens.length + 1) (items.filterMap Item.error?).length (1 + newlines source)]
  | .report _ => raised.flatten
  | .breakWriter | .mendWriter => []

/-- The reporter after some commands. -/
def after (r : Reporter) (commands : List Command) : Reporter :=
  commands.foldl (fun r c => (r.perform c).2.1) r

/-- Commands are carried out one after the other, in however many parts they come. -/
theorem after_append (r : Reporter) (cs ds : List Command) :
    r.after (cs ++ ds) = (r.after cs).after ds :=
  List.foldl_append

/-! ### How a reporter stands -/

/-- How a reporter stands after some attempts. -/
structure Stands (limit : Option Nat) (made : List Attempt) (isBroken : Bool) (r : Reporter) :
    Prop where
  limit_eq : r.writer.limit = limit
  isBroken_eq : r.writer.isBroken = isBroken
  written_eq : r.writer.written.toList = Writer.kept limit (offered made)
  hadError_eq : r.hadError = !made.isEmpty

/-- A report writes one line, and warns if that has failed. -/
theorem report_eq (r : Reporter) (e : LexicalError) :
    r.report e =
      (⟨(r.writer.write (Utf8.encode (lineOf e))).2, true⟩,
        raisedBy (r.writer.write (Utf8.encode (lineOf e))).1) :=
  rfl

theorem encode_lineOf_ne_nil (e : LexicalError) : Utf8.encode (lineOf e) ≠ [] :=
  Utf8.encode_ne_nil (List.append_ne_nil_of_right_ne_nil _ (List.cons_ne_nil _ _))

theorem offered_append (made more : List Attempt) :
    offered (made ++ more) = offered made ++ offered more := by
  rw [offered, List.filter_append, List.flatMap_append, offered, offered]

theorem offered_broken (e : LexicalError) : offered [⟨e, true⟩] = [] := rfl

theorem offered_working (e : LexicalError) : offered [⟨e, false⟩] = Utf8.encode (lineOf e) :=
  List.append_nil _

theorem not_isEmpty_append (made more : List Attempt) :
    (!(made ++ more).isEmpty) = (!made.isEmpty || !more.isEmpty) := by
  cases made <;> rfl

section Stands

variable {limit : Option Nat} {made : List Attempt} {isBroken : Bool} {r : Reporter}

/-- **One report.**  The line goes to the writer if it works, and the report raises
what the attempt does. -/
theorem Stands.report (h : r.Stands limit made isBroken) (e : LexicalError) :
    (r.report e).1.Stands limit (made ++ [⟨e, isBroken⟩]) isBroken ∧
      (r.report e).2 = raisedBy (failureOf limit made ⟨e, isBroken⟩) := by
  rw [report_eq]
  cases isBroken with
  | true =>
      rw [Writer.write_of_broken h.isBroken_eq]
      refine ⟨⟨h.limit_eq, h.isBroken_eq, ?_, ?_⟩, rfl⟩
      · rw [offered_append, offered_broken, List.append_nil]
        exact h.written_eq
      · rw [not_isEmpty_append]
        exact (Bool.or_true _).symm
  | false =>
      have hwritten := h.written_eq
      rw [← h.limit_eq] at hwritten
      obtain ⟨hfailure, hafter⟩ := Writer.write_of_kept h.isBroken_eq hwritten
        (encode_lineOf_ne_nil e)
      have hwriter := Writer.write_of_working h.isBroken_eq (Utf8.encode (lineOf e))
      have hoffered : offered made ++ Utf8.encode (lineOf e) = offered (made ++ [⟨e, false⟩]) := by
        rw [offered_append, offered_working]
      rw [h.limit_eq, hoffered] at hfailure hafter
      refine ⟨⟨?_, ?_, hafter, ?_⟩, congrArg raisedBy hfailure⟩
      · rw [hwriter]
        exact h.limit_eq
      · rw [hwriter]
        exact h.isBroken_eq
      · rw [not_isEmpty_append]
        exact (Bool.or_true _).symm

/-- **The reports of a scan.**  They are made one after the other while the writer
is as it is. -/
theorem Stands.takeAll (h : r.Stands limit made isBroken) (es : List LexicalError) :
    (sink.takeAll r es).Stands limit (made ++ es.map (Attempt.mk · isBroken)) isBroken ∧
      sink.raised r es =
        (failures limit made (es.map (Attempt.mk · isBroken))).map raisedBy := by
  induction es generalizing r made with
  | nil =>
      rw [List.map_nil, List.append_nil]
      exact ⟨h, rfl⟩
  | cons e es ih =>
      obtain ⟨hnext, hraised⟩ := h.report e
      obtain ⟨hlast, hrest⟩ := ih hnext
      refine ⟨?_, ?_⟩
      · rw [List.map_cons, List.append_cons]
        exact hlast
      · rw [List.map_cons, failures, List.map_cons, ← hraised, ← hrest]
        rfl

/-- Whether the writer is broken can change without anything else. -/
theorem Stands.setBroken (h : r.Stands limit made isBroken) (broken : Bool) :
    ({ r with writer := { r.writer with isBroken := broken } } : Reporter).Stands limit made
      broken :=
  ⟨h.limit_eq, rfl, h.written_eq, h.hadError_eq⟩

/-- **One command.**  What it hands to the reporter is attempted, and its events are
those that its attempts raise, each in its place. -/
theorem Stands.perform (h : r.Stands limit made isBroken) (c : Command) :
    (r.perform c).2.1.Stands limit (made ++ c.attempts isBroken) (c.leaves isBroken) ∧
      (r.perform c).2.2 =
        c.events ((failures limit made (c.attempts isBroken)).map raisedBy) := by
  cases c with
  | scan source =>
      have herrors : (Command.scan source).errors =
          (Cursor.start source).items.filterMap Item.error? :=
        Sink.Command.errors_scan source
      obtain ⟨hlast, hraised⟩ := h.takeAll (Command.scan source).errors
      rw [Command.attempts, ← hraised, herrors]
      rw [herrors] at hlast
      refine ⟨?_, ?_⟩
      · have hsink : (r.perform (.scan source)).2.1 =
            sink.takeAll r ((Cursor.start source).items.filterMap Item.error?) :=
          sink.sink_scanInto_items r source
        rw [hsink]
        exact hlast
      · have hevents := (Cursor.start source).events_scanInto sink r
        rw [Cursor.tokens_scanInto, List.length_append] at hevents
        exact hevents
  | report e =>
      obtain ⟨hlast, hraised⟩ := h.report e
      refine ⟨hlast, hraised.trans (List.append_nil _).symm⟩
  | breakWriter => exact ⟨(List.append_nil made).symm ▸ h.setBroken true, rfl⟩
  | mendWriter => exact ⟨(List.append_nil made).symm ▸ h.setBroken false, rfl⟩

/-- **Any number of commands.** -/
theorem Stands.after (h : r.Stands limit made isBroken) (commands : List Command) :
    (r.after commands).Stands limit (made ++ attempts isBroken commands)
      (commands.foldl Command.leaves isBroken) := by
  induction commands generalizing r made isBroken with
  | nil =>
      rw [attempts, List.append_nil]
      exact h
  | cons c cs ih =>
      rw [attempts, ← List.append_assoc]
      exact ih (h.perform c).1

end Stands

/-- A reporter that has attempted nothing. -/
theorem stands_new (limit : Option Nat) (isBroken : Bool) :
    ({ writer := { limit := limit, isBroken := isBroken } } : Reporter).Stands limit [] isBroken
    where
  limit_eq := rfl
  isBroken_eq := rfl
  written_eq := by cases limit <;> simp [Writer.kept, offered]
  hadError_eq := rfl

/-- Later commands make their attempts with the writer as the earlier ones leave it. -/
theorem attempts_append (isBroken : Bool) (cs ds : List Command) :
    attempts isBroken (cs ++ ds) =
      attempts isBroken cs ++ attempts (cs.foldl Command.leaves isBroken) ds := by
  induction cs generalizing isBroken with
  | nil => rfl
  | cons c cs ih =>
      rw [List.cons_append, attempts, attempts, ih, List.append_assoc, List.foldl_cons]

/-- **Reports under any schedule of failures.**  Let a reporter begin with a writer
that has written nothing, whatever its limit, and carry out any commands.  Then the
next command makes its attempts behind those made so far, and what is written in the
end is the front, up to the limit, of the lines of all that were made while the
writer was not broken.  The events of a scan are the trail of its items with what
the reports raise, and those of a single report are what that raises: one warning,
which says why, if it was made while the writer was broken or takes what is offered
beyond the limit, and else nothing.  There were errors exactly if there were
attempts, and that is never forgotten.  It makes no difference in which pieces a
line is written. -/
theorem perform_any_schedule :
    (∀ (limit : Option Nat) (isBroken : Bool) (earlier : List Command) (c : Command),
      let start : Reporter := { writer := { limit := limit, isBroken := isBroken } }
      let before := start.after earlier
      let made := attempts isBroken earlier
      let fresh := c.attempts (earlier.foldl Command.leaves isBroken)
      let result := before.perform c
      result.2.1 = start.after (earlier ++ [c]) ∧
        made ++ fresh = attempts isBroken (earlier ++ [c]) ∧
        result.2.1.writer.written.toList = Writer.kept limit (offered (made ++ fresh)) ∧
        result.2.2 = c.events ((failures limit made fresh).map raisedBy) ∧
        result.2.1.hadError = !(made ++ fresh).isEmpty ∧
        result.2.1.hadError = (before.hadError || !fresh.isEmpty)) ∧
    (∀ failure, (Event.writeFailed failure).record =
      { level := .warn, target := Event.reportTarget, fields := []
        message := "failed to write diagnostic: ".toList ++
          match failure with
          | .broken => "broken".toList
          | .full => "full".toList }) ∧
    ∀ (w : Writer) (e : LexicalError) (pieces : List (List UInt8)),
      pieces.flatten = Utf8.encode (lineOf e) → w.writePieces pieces = w.writeText (lineOf e) := by
  refine ⟨?_, ?_, ?_⟩
  · intro limit isBroken earlier c start before made fresh result
    have hbefore : before.Stands limit made (earlier.foldl Command.leaves isBroken) :=
      (stands_new limit isBroken).after earlier
    obtain ⟨hlast, hevents⟩ := hbefore.perform c
    have hmade : made ++ fresh = attempts isBroken (earlier ++ [c]) := by
      rw [attempts_append, attempts, attempts, List.append_nil]
    refine ⟨?_, hmade, hlast.written_eq, hevents, hlast.hadError_eq, ?_⟩
    · exact (start.after_append earlier [c]).symm
    · rw [hlast.hadError_eq, hbefore.hadError_eq, not_isEmpty_append]
  · intro failure
    cases failure <;> rfl
  · intro w e pieces hpieces
    have hne : pieces.flatten ≠ [] := hpieces ▸ encode_lineOf_ne_nil e
    rw [w.writePieces_eq hne, hpieces, Writer.writeText]

/-- What is reported while the writer is broken is lost, and the limit may cut a line
inside a character; the pieces are those in which a line number is written. -/
theorem perform_any_schedule_cut :
    let start : Reporter := { writer := { limit := some 77 } }
    let earlier : List Command :=
      [.report ⟨.unterminatedString, 1⟩, .breakWriter, .scan "@".toList, .mendWriter]
    let result := (start.after earlier).perform (.scan "x€".toList)
    let e : LexicalError := ⟨.unterminatedBlockComment, 7⟩
    let pieces := ["[line ".toList, "7".toList, [], "] Error: ".toList,
      "Unterminated block comment.".toList, ['\n']].map Utf8.encode
    result.2.1.writer.written.toList =
        Utf8.encode "[line 1] Error: Unterminated string.\n".toList ++
          Utf8.encode "[line 1] Error: Unexpected character '".toList ++ [0xe2, 0x82] ∧
      result.2.2 = [.token .identifier 1, .error ⟨.unexpectedCharacter '€', 1⟩,
        .writeFailed .full, .finished 2 1 1] ∧
      pieces.flatten = Utf8.encode (lineOf e) ∧
      result.2.1.writer.writePieces pieces = result.2.1.writer.writeText (lineOf e) := by
  intro start earlier result e pieces
  obtain ⟨-, -, hwritten, hevents, -⟩ :=
    perform_any_schedule.1 (some 77) false earlier (.scan "x€".toList)
  have hpieces : pieces.flatten = Utf8.encode (lineOf e) := by decide +kernel
  exact ⟨hwritten.trans (by decide +kernel), hevents.trans (by decide +kernel), hpieces,
    perform_any_schedule.2.2 result.2.1.writer e pieces hpieces⟩

end Reporter

end LoxLexer
