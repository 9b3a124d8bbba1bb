import Mathlib.Algebra.GroupWithZero.Nat
import LoxLexer.Proofs.Logging

/-!
# How often more output is asked for

Arguments are taken in one after the other, and each changes the options that those
before it have left behind.  What they come to can nevertheless be read off the list
as a whole: the scripts that it names, whether it switches colours off, and how often
it asks for more output, by a word or by letters, in whatever order.

The count is kept in a byte and stays at the highest number that fits.  Since it does
not start again from nothing, no number of times is mistaken for a smaller one, and
from three times on everything is shown.

* `Options.Allows`, `Options.after`: what a list must be like to be accepted, and what
  it comes to, both said without going through it.
* `Options.takeAll_eq_ok_iff`: going through the list comes to that.
* `run_verbosity`: the statement for runs.
-/

namespace LoxLexer

namespace Session

/-! ### Lists of arguments -/

/-- The arguments that may be flags: those in front of two dashes by themselves. -/
def flagged (arguments : List (List Char)) : List (List Char) :=
  arguments.takeWhile (· ≠ ['-', '-'])

/-- The arguments behind the two dashes. -/
def unflagged (arguments : List (List Char)) : List (List Char) :=
  (arguments.dropWhile (· ≠ ['-', '-'])).tail

/-- The argument is a name even where it might be a flag: it has no dash in front, or
nothing behind the dash. -/
def isName : List Char → Bool
  | '-' :: _ :: _ => false
  | _ => true

/-- The names among the arguments. -/
def names (arguments : List (List Char)) : List (List Char) :=
  (flagged arguments).filter isName ++ unflagged arguments

/-- How often an argument asks for more output: a word once, and letters behind a dash
as often as the right one is among them. -/
def asks : List Char → Nat
  | '-' :: '-' :: word => if word = "verbose".toList then 1 else 0
  | '-' :: letters => letters.count 'v'
  | _ => 0

/-- How often the arguments ask for more output. -/
def requests (arguments : List (List Char)) : Nat := ((flagged arguments).map asks).sum

/-- The flag that switches colours off. -/
def noColor : List Char := "--no-color".toList

/-- A flag that settles nothing by itself. -/
def IsFlag (argument : List Char) : Prop :=
  argument = "--verbose".toList ∨ argument = noColor ∨
    ∃ n, argument = '-' :: List.replicate (n + 1) 'v'

section Lists

variable {a : List Char} (rest : List (List Char))

theorem flagged_cons (h : a ≠ ['-', '-']) : flagged (a :: rest) = a :: flagged rest :=
  List.takeWhile_cons_of_pos (by simpa using h)

theorem unflagged_cons (h : a ≠ ['-', '-']) : unflagged (a :: rest) = unflagged rest := by
  rw [unflagged, List.dropWhile_cons_of_pos (by simpa using h)]
  rfl

theorem flagged_dashes : flagged (['-', '-'] :: rest) = [] := rfl

theorem names_dashes : names (['-', '-'] :: rest) = rest := rfl

theorem names_singleton (h : a ≠ ['-', '-']) : names [a] = if isName a then [a] else [] := by
  rw [names, flagged_cons [] h, unflagged_cons [] h]
  cases hname : isName a <;> simp [flagged, unflagged, hname]

theorem names_cons (h : a ≠ ['-', '-']) : names (a :: rest) = names [a] ++ names rest := by
  rw [names_singleton h, names, names, flagged_cons rest h, unflagged_cons rest h]
  cases hname : isName a <;> simp [hname]

theorem requests_cons (h : a ≠ ['-', '-']) : requests (a :: rest) = asks a + requests rest := by
  rw [requests, flagged_cons rest h, List.map_cons, List.sum_cons]
  rfl

end Lists

namespace Options

variable {o o' : Options} {a : List Char} {arguments rest : List (List Char)}

/-! ### What a list comes to -/

/-- Arguments that can be taken in: flags that settle nothing by themselves, with that
against colours once at most, and no more than one script, which has a name. -/
structure Allows (o : Options) (arguments : List (List Char)) : Prop where
  flags : ∀ a ∈ flagged arguments, isName a = true ∨ IsFlag a
  once : (flagged arguments).count noColor ≤ o.color.toNat
  single : o.script.toList.length + (names arguments).length ≤ 1
  named : [] ∉ names arguments

/-- The options that arguments lead to. -/
def after (o : Options) (arguments : List (List Char)) : Options where
  script := o.script.or (names arguments).head?
  verbosity := min (o.verbosity + requests arguments) 255
  color := o.color && !(flagged arguments).contains noColor

/-- Options are led to one argument at a time. -/
theorem after_cons (h : a ≠ ['-', '-']) : o.after (a :: rest) = (o.after [a]).after rest := by
  simp only [after, mk.injEq]
  refine ⟨?_, ?_, ?_⟩
  · rw [names_cons rest h, List.head?_append, Option.or_assoc]
  · have hone : requests [a] = asks a := requests_cons [] h
    rw [requests_cons rest h, hone]
    omega
  · rw [flagged_cons rest h, flagged_cons [] h, List.contains_cons, List.contains_cons,
      Bool.not_or, Bool.not_or, ← Bool.and_assoc, ← Bool.and_assoc]
    simp [flagged]

/-- Whether the flag against colours may be there once more depends on whether it was
there before. -/
theorem once_cons (color : Bool) (flags : List (List Char)) :
    (a :: flags).count noColor ≤ color.toNat ↔
      [a].count noColor ≤ color.toNat ∧
        flags.count noColor ≤ (color && !([a].contains noColor)).toNat := by
  by_cases ha : a = noColor
  · subst ha
    cases color <;> simp
  · have hother : noColor ≠ a := fun heq => ha heq.symm
    simp [ha, hother]

/-- So it is with a script. -/
theorem single_cons (script : Option (List Char)) (names : List (List Char)) :
    script.toList.length + ((if isName a then [a] else []) ++ names).length ≤ 1 ↔
      script.toList.length + (if isName a then [a] else []).length ≤ 1 ∧
        (script.or (if isName a then [a] else []).head?).toList.length + names.length ≤ 1 := by
  rw [List.length_append]
  cases script <;> cases isName a <;>
    simp only [Option.toList, Option.or, List.length_cons, List.length_nil, List.head?,
      if_true, if_false, Bool.false_eq_true] <;> omega

/-- Arguments can be taken in one at a time. -/
theorem allows_cons (h : a ≠ ['-', '-']) :
    o.Allows (a :: rest) ↔ o.Allows [a] ∧ (o.after [a]).Allows rest := by
  have hflags : flagged (a :: rest) = a :: flagged rest := flagged_cons rest h
  have hflag : flagged [a] = [a] := flagged_cons [] h
  have honce := once_cons (a := a) o.color (flagged rest)
  have hsingle := single_cons (a := a) o.script (names rest)
  rw [← names_singleton h, ← names_cons rest h] at hsingle
  constructor
  · intro hall
    have hall' := hall.flags
    have honce' := hall.once
    have hnamed := hall.named
    rw [hflags, List.forall_mem_cons] at hall'
    rw [hflags, honce] at honce'
    rw [names_cons rest h, List.mem_append, not_or] at hnamed
    obtain ⟨hsingle₁, hsingle₂⟩ := hsingle.mp hall.single
    refine ⟨⟨?_, ?_, hsingle₁, hnamed.1⟩, hall'.2, ?_, hsingle₂, hnamed.2⟩
    · rw [hflag]
      simpa using hall'.1
    · rw [hflag]
      exact honce'.1
    · rw [after, hflag]
      exact honce'.2
  · rintro ⟨hone, hothers⟩
    have hflags₁ := hone.flags
    have honce₁ := hone.once
    have honce₂ := hothers.once
    rw [hflag] at hflags₁ honce₁
    rw [after, hflag] at honce₂
    refine ⟨?_, ?_, hsingle.mpr ⟨hone.single, hothers.single⟩, ?_⟩
    · rw [hflags, List.forall_mem_cons]
      exact ⟨hflags₁ a (List.mem_singleton_self a), hothers.flags⟩
    · rw [hflags]
      exact honce.mpr ⟨honce₁, honce₂⟩
    · rw [names_cons rest h, List.mem_append, not_or]
      exact ⟨hone.named, hothers.named⟩

/-! ### One argument -/

/-- A single argument can be taken in if it is a name or a flag for which there is room. -/
theorem allows_singleton (h : a ≠ ['-', '-']) :
    o.Allows [a] ↔ (isName a = true ∨ IsFlag a) ∧ (a = noColor → o.color = true) ∧
      (isName a = true → o.script = none ∧ a ≠ []) := by
  have hflag : flagged [a] = [a] := flagged_cons [] h
  have honce : [a].count noColor ≤ o.color.toNat ↔ (a = noColor → o.color = true) := by
    by_cases ha : a = noColor
    · subst ha
      cases o.color <;> simp
    · simp [ha]
  have hname : (o.script.toList.length + (names [a]).length ≤ 1 ∧ [] ∉ names [a]) ↔
      (isName a = true → o.script = none ∧ a ≠ []) := by
    rw [names_singleton h]
    cases isName a <;> cases o.script <;> simp [eq_comm]
  rw [← honce, ← hname]
  constructor
  · rintro ⟨hflags, hcolor, hsingle, hnamed⟩
    rw [hflag] at hflags hcolor
    exact ⟨hflags a (List.mem_singleton_self a), hcolor, hsingle, hnamed⟩
  · rintro ⟨hflags, hcolor, hsingle, hnamed⟩
    refine ⟨?_, ?_, hsingle, hnamed⟩ <;> rw [hflag]
    · simpa using hflags
    · exact hcolor

/-- Where a single argument leads to: it may be the script, ask for more or switch colours off. -/
theorem after_singleton (h : a ≠ ['-', '-']) :
    o.after [a] = ⟨o.script.or (if isName a then some a else none),
      min (o.verbosity + asks a) 255, o.color && a != noColor⟩ := by
  have hasks : requests [a] = asks a := requests_cons [] h
  have hflag : flagged [a] = [a] := flagged_cons [] h
  have hname : (names [a]).head? = if isName a then some a else none := by
    rw [names_singleton h]
    split <;> rfl
  have hcolor : [a].contains noColor = (a == noColor) := by
    rw [List.contains_cons, List.contains_nil, Bool.or_false, BEq.comm]
  rw [after, hasks, hname, hflag, hcolor]
  rfl

theorem asks_of_isName (h : isName a = true) : asks a = 0 := by
  unfold asks
  split
  · cases h
  · next letters _ =>
      cases letters with
      | nil => rfl
      | cons => cases h
  · rfl

/-- Letters behind a dash ask as often as the right one is among them. -/
theorem asks_letters {c : Char} {cs : List Char} (h : c ≠ '-') :
    asks ('-' :: c :: cs) = (c :: cs).count 'v' := by
  unfold asks
  split
  · next heq =>
    injection heq with _ heq
    exact absurd (List.cons.inj heq).1 h
  · next heq => rw [(List.cons.inj heq).2]
  · next hother => exact absurd rfl (hother _)

/-- An argument that is not the two dashes is a name, a word or letters. -/
theorem argument_cases (h : a ≠ ['-', '-']) :
    isName a = true ∨ (∃ word, a = '-' :: '-' :: word ∧ word ≠ []) ∨
      ∃ c cs, a = '-' :: c :: cs ∧ c ≠ '-' := by
  cases hname : isName a with
  | true => exact .inl rfl
  | false =>
    unfold isName at hname
    split at hname
    · next c cs =>
      by_cases hc : c = '-'
      · subst hc
        exact .inr (.inl ⟨cs, rfl, fun hcs => h (by rw [hcs])⟩)
      · exact .inr (.inr ⟨c, cs, rfl, hc⟩)
    · cases hname

theorem noColor_eq : noColor = '-' :: '-' :: "no-color".toList := rfl

/-- Two words are flags that settle nothing by themselves. -/
theorem isFlag_word {word : List Char} :
    IsFlag ('-' :: '-' :: word) ↔ word = "verbose".toList ∨ word = "no-color".toList := by
  have hverbose : "--verbose".toList = '-' :: '-' :: "verbose".toList := rfl
  have hletters : ∀ n, '-' :: '-' :: word ≠ '-' :: List.replicate (n + 1) 'v' := fun n heq => by
    injection heq with _ heq
    exact absurd (List.cons.inj heq).1 (by decide)
  rw [IsFlag, noColor_eq, hverbose, List.cons_inj_right, List.cons_inj_right, List.cons_inj_right,
    List.cons_inj_right]
  constructor
  · rintro (h | h | ⟨n, h⟩)
    · exact .inl h
    · exact .inr h
    · exact absurd h (hletters n)
  · rintro (h | h)
    · exact .inl h
    · exact .inr (.inl h)

/-- Letters behind a dash are such a flag if they all ask for more output. -/
theorem isFlag_letters {c : Char} {cs : List Char} (h : c ≠ '-') :
    IsFlag ('-' :: c :: cs) ↔ c :: cs = List.replicate (c :: cs).length 'v' := by
  have hword : ∀ word, '-' :: c :: cs ≠ '-' :: '-' :: word := fun word heq => by
    injection heq with _ heq
    exact h (List.cons.inj heq).1
  constructor
  · rintro (heq | heq | ⟨n, heq⟩)
    · exact absurd heq (hword _)
    · exact absurd heq (hword _)
    · rw [(List.cons.inj heq).2, List.length_replicate]
  · intro heq
    exact .inr (.inr ⟨cs.length, congrArg ('-' :: ·) heq⟩)

/-- A script is named once, and not by an empty name. -/
theorem nameScript_eq_ok_iff :
    o.nameScript a = .ok o' ↔
      (o.script = none ∧ a ≠ []) ∧ { o with script := some a } = o' := by
  have hgood : ¬(a = [] ∨ o.script.isSome) ↔ o.script = none ∧ a ≠ [] := by simp [and_comm]
  rw [nameScript, ← hgood]
  split
  · next hbad => simp [hbad]
  · next hname => simp [hname]

/-- To take in a name is to have room for it. -/
theorem takeName_eq_ok_iff (h : isName a = true) (hverbosity : o.verbosity ≤ 255) :
    o.nameScript a = .ok o' ↔ o.Allows [a] ∧ o.after [a] = o' := by
  have hdashes : a ≠ ['-', '-'] := by
    rintro rfl
    cases h
  have hcolor : a ≠ noColor := by
    rintro rfl
    cases h
  have hallows : o.Allows [a] ↔ o.script = none ∧ a ≠ [] := by
    rw [allows_singleton hdashes]
    simp [h, hcolor]
  rw [nameScript_eq_ok_iff, hallows]
  refine and_congr_right fun ⟨hscript, _⟩ => ?_
  have hmin : min o.verbosity 255 = o.verbosity := Nat.min_eq_left hverbosity
  have hbne : (a != noColor) = true := by simpa using hcolor
  rw [after_singleton hdashes, asks_of_isName h, if_pos h, hbne, hscript, Nat.add_zero, hmin,
    Bool.and_true, Option.none_or]

/-- To take in a word is to have room for it as a flag. -/
theorem takeWord_eq_ok_iff {word : List Char} (h : word ≠ []) (hverbosity : o.verbosity ≤ 255) :
    o.takeWord word = .ok o' ↔
      o.Allows ['-' :: '-' :: word] ∧ o.after ['-' :: '-' :: word] = o' := by
  have hdashes : '-' :: '-' :: word ≠ ['-', '-'] := by simpa using h
  have hname : isName ('-' :: '-' :: word) = false := rfl
  have hcolor : '-' :: '-' :: word = noColor ↔ word = "no-color".toList := by
    rw [noColor_eq, List.cons_inj_right, List.cons_inj_right]
  have hallows : o.Allows ['-' :: '-' :: word] ↔
      (word = "verbose".toList ∨ word = "no-color".toList) ∧
        (word = "no-color".toList → o.color = true) := by
    rw [allows_singleton hdashes, isFlag_word, hname, hcolor]
    simp only [Bool.false_eq_true, false_or, false_implies, and_true]
  have hafter : o.after ['-' :: '-' :: word] =
      ⟨o.script, min (o.verbosity + if word = "verbose".toList then 1 else 0) 255,
        o.color && !decide (word = "no-color".toList)⟩ := by
    have hdifferent : ('-' :: '-' :: word != noColor) = !decide (word = "no-color".toList) := by
      rw [bne, beq_eq_decide, decide_eq_decide.mpr hcolor]
    rw [after_singleton hdashes, hname, hdifferent, asks]
    simp only [Bool.false_eq_true, if_false, Option.or_none]
  have hmin : min o.verbosity 255 = o.verbosity := Nat.min_eq_left hverbosity
  rw [hallows, hafter, takeWord]
  by_cases hverbose : word = "verbose".toList
  · simp [hverbose, askMore]
  by_cases hcolors : word = "no-color".toList
  · cases o.color <;> simp [hcolors, hmin]
  · rw [if_neg hverbose, if_neg hcolors]
    constructor
    · split
      · exact nofun
      split <;> exact nofun
    · rintro ⟨⟨hflag, -⟩, -⟩
      exact absurd hflag (not_or.mpr ⟨hverbose, hcolors⟩)

/-- What comes first fails, or what follows goes on from its result. -/
theorem bind_eq_ok_iff {ε α β : Type} (x : Except ε α) (f : α → Except ε β) (b : β) :
    x >>= f = .ok b ↔ ∃ a, x = .ok a ∧ f a = .ok b := by
  cases x <;> simp [bind, Except.bind]

/-- The only letter that is taken in without settling the run asks for more output. -/
theorem takeLetter_eq_ok_iff (c : Char) :
    o.takeLetter c = .ok o' ↔ c = 'v' ∧ o.askMore = o' := by
  by_cases hc : c = 'v'
  · subst hc
    simp [takeLetter]
  · unfold takeLetter
    split <;> simp [hc] at *

/-- Letters are taken in if all of them ask for more, and the count stays within a byte. -/
theorem takeLetters_eq_ok_iff (letters : List Char) (hverbosity : o.verbosity ≤ 255) :
    letters.foldlM takeLetter o = .ok o' ↔
      letters = List.replicate letters.length 'v' ∧
        { o with verbosity := min (o.verbosity + letters.length) 255 } = o' := by
  induction letters generalizing o with
  | nil =>
    have hmin : min o.verbosity 255 = o.verbosity := Nat.min_eq_left hverbosity
    simp [hmin, pure, Except.pure]
  | cons c cs ih =>
    have hask : (o.askMore).verbosity ≤ 255 := Nat.min_le_right _ _
    have hcount : min ((o.askMore).verbosity + cs.length) 255 =
        min (o.verbosity + (c :: cs).length) 255 := by
      simp only [askMore, List.length_cons]
      omega
    rw [List.foldlM_cons, bind_eq_ok_iff]
    simp only [takeLetter_eq_ok_iff, and_assoc, exists_and_left, exists_eq_left', ih hask, hcount]
    rw [List.length_cons, List.replicate_succ, List.cons.injEq, and_assoc]
    rfl

/-- To take in letters behind a dash is to have room for them as a flag. -/
theorem takeBundle_eq_ok_iff {c : Char} {cs : List Char} (h : c ≠ '-')
    (hverbosity : o.verbosity ≤ 255) :
    (c :: cs).foldlM takeLetter o = .ok o' ↔
      o.Allows ['-' :: c :: cs] ∧ o.after ['-' :: c :: cs] = o' := by
  have hdashes : '-' :: c :: cs ≠ ['-', '-'] := by simp [h]
  have hname : isName ('-' :: c :: cs) = false := rfl
  have hcolor : '-' :: c :: cs ≠ noColor := by simp [noColor_eq, h]
  have hallows : o.Allows ['-' :: c :: cs] ↔ c :: cs = List.replicate (c :: cs).length 'v' := by
    rw [allows_singleton hdashes, isFlag_letters h, hname]
    simp only [Bool.false_eq_true, false_or, false_implies, and_true, hcolor]
  rw [takeLetters_eq_ok_iff _ hverbosity, hallows]
  refine and_congr_right fun hletters => ?_
  have hasks : asks ('-' :: c :: cs) = (c :: cs).length := by
    have hcount : (c :: cs).count 'v' = (c :: cs).length := by
      rw [hletters, List.count_replicate_self, List.length_replicate]
    rw [← hcount]
    exact asks_letters h
  have hbne : ('-' :: c :: cs != noColor) = true := by simpa using hcolor
  rw [after_singleton hdashes, hname, hasks, hbne]
  simp

/-! ### All of them -/

/-- The first argument is taken in, and then the others. -/
theorem takeAll_cons_cases (rest : List (List Char)) (h : a ≠ ['-', '-']) :
    ∃ x : Except Stop Options, o.takeAll (a :: rest) = x >>= (·.takeAll rest) ∧
      (o.verbosity ≤ 255 → ∀ o₁, x = .ok o₁ ↔ o.Allows [a] ∧ o.after [a] = o₁) := by
  obtain hname | ⟨word, rfl, hword⟩ | ⟨c, cs, rfl, hc⟩ := argument_cases h
  · refine ⟨o.nameScript a, ?_, fun hverbosity _ => takeName_eq_ok_iff hname hverbosity⟩
    rw [takeAll]
    · exact h
    · rintro word rfl
      cases hname
    · rintro c cs rfl
      cases hname
  · refine ⟨o.takeWord word, ?_, fun hverbosity _ => takeWord_eq_ok_iff hword hverbosity⟩
    cases word with
    | nil => exact absurd rfl hword
    | cons => rfl
  · refine ⟨(c :: cs).foldlM takeLetter o, ?_,
      fun hverbosity _ => takeBundle_eq_ok_iff hc hverbosity⟩
    rw [takeAll]
    · exact fun hdash _ => hc hdash
    · exact hc

/-- The first argument changes the options as it would by itself. -/
theorem takeAll_cons_eq_ok_iff (h : a ≠ ['-', '-']) (hverbosity : o.verbosity ≤ 255) :
    o.takeAll (a :: rest) = .ok o' ↔ o.Allows [a] ∧ (o.after [a]).takeAll rest = .ok o' := by
  obtain ⟨x, htake, hx⟩ := takeAll_cons_cases rest h
  rw [htake, bind_eq_ok_iff]
  simp only [hx hverbosity, and_assoc, exists_and_left, exists_eq_left']

/-- Names behind two dashes can be taken in if there is one at most, together with the script
so far, and none is empty. -/
theorem allows_dashes (names : List (List Char)) :
    o.Allows (['-', '-'] :: names) ↔ o.script.toList.length + names.length ≤ 1 ∧ [] ∉ names := by
  constructor
  · intro h
    exact ⟨h.single, h.named⟩
  · rintro ⟨hsingle, hnamed⟩
    exact ⟨nofun, Nat.zero_le _, hsingle, hnamed⟩

/-- Of the names behind two dashes the first one is the script, unless there is one already. -/
theorem after_dashes (names : List (List Char)) (hverbosity : o.verbosity ≤ 255) :
    o.after (['-', '-'] :: names) = { o with script := o.script.or names.head? } := by
  have hmin : min o.verbosity 255 = o.verbosity := Nat.min_eq_left hverbosity
  rw [after, names_dashes, requests, flagged_dashes, List.map_nil, List.sum_nil, Nat.add_zero,
    hmin, List.contains_nil, Bool.not_false, Bool.and_true]

/-- To take in names is to have room for them behind two dashes. -/
theorem takeNames_eq_ok_iff (names : List (List Char)) (hverbosity : o.verbosity ≤ 255) :
    names.foldlM nameScript o = .ok o' ↔
      o.Allows (['-', '-'] :: names) ∧ o.after (['-', '-'] :: names) = o' := by
  rw [allows_dashes, after_dashes names hverbosity]
  obtain ⟨script, verbosity, color⟩ := o
  cases names with
  | nil => cases script <;> simp [pure, Except.pure]
  | cons name rest =>
    rw [List.foldlM_cons, bind_eq_ok_iff]
    simp only [nameScript_eq_ok_iff]
    cases rest with
    | nil => cases script <;> simp [pure, Except.pure, eq_comm]
    | cons other rest =>
      -- The second name finds the script named already.
      constructor
      · rintro ⟨o₁, ⟨-, rfl⟩, hothers⟩
        rw [List.foldlM_cons, bind_eq_ok_iff] at hothers
        obtain ⟨_, hother, -⟩ := hothers
        cases (nameScript_eq_ok_iff.mp hother).1.1
      · rintro ⟨⟨hsingle, -⟩, -⟩
        simp at hsingle
        omega

/-- Going through the arguments comes to what can be read off them as a whole. -/
theorem takeAll_eq_ok_iff (hverbosity : o.verbosity ≤ 255) :
    o.takeAll arguments = .ok o' ↔ o.Allows arguments ∧ o.after arguments = o' := by
  induction arguments generalizing o with
  | nil =>
    have hsingle : o.script.toList.length ≤ 1 := by cases o.script <;> simp
    have hallows : o.Allows [] := ⟨nofun, Nat.zero_le _, hsingle, nofun⟩
    have hafter : o.after [] = o := by
      have hmin : min o.verbosity 255 = o.verbosity := Nat.min_eq_left hverbosity
      obtain ⟨script, verbosity, color⟩ := o
      simp [after, names, flagged, unflagged, requests, hmin]
    rw [hafter]
    simp [takeAll, hallows]
  | cons a rest ih =>
    by_cases h : a = ['-', '-']
    · subst h
      exact takeNames_eq_ok_iff rest hverbosity
    · have hafter : (o.after [a]).verbosity ≤ 255 := Nat.min_le_right _ _
      have hallows : o.Allows (a :: rest) ↔ o.Allows [a] ∧ (o.after [a]).Allows rest :=
        allows_cons h
      have hthen : o.after (a :: rest) = (o.after [a]).after rest := after_cons h
      rw [takeAll_cons_eq_ok_iff h hverbosity, ih hafter, hallows, hthen, and_assoc]

/-- What the arguments ask for can be read off them as a whole. -/
theorem eq_of_parse (h : parse arguments = .ok o) :
    o = ⟨(names arguments).head?, min (requests arguments) 255,
      !(flagged arguments).contains noColor⟩ := by
  obtain ⟨-, hafter⟩ := (takeAll_eq_ok_iff (Nat.zero_le _)).mp h
  rw [← hafter, after]
  simp

end Options

/-! ### Runs -/

/-- Past the third time, asking for more output changes nothing. -/
theorem ofVerbosity?_min (n : Nat) (rules : Option (List Char)) :
    Log.Filter.ofVerbosity? (min n 3) rules = Log.Filter.ofVerbosity? n rules := by
  match n with
  | 0 | 1 | 2 => rfl
  | n + 3 =>
    rw [Nat.min_eq_right (by omega)]
    rfl

variable {arguments arguments' : List (List Char)} {o o' : Options}

/-- What counts is how often more output was asked for, whatever fits in a byte. -/
theorem ofVerbosity?_of_parse (h : Options.parse arguments = .ok o)
    (rules : Option (List Char)) :
    Log.Filter.ofVerbosity? o.verbosity rules =
      Log.Filter.ofVerbosity? (min (requests arguments) 3) rules := by
  have hcount : min (min (requests arguments) 255) 3 = min (requests arguments) 3 := by omega
  rw [Options.eq_of_parse h, ← ofVerbosity?_min (min (requests arguments) 255), hcount]

/-- Runs with the same script, the same filter and the same colours are the same. -/
theorem run_congr {world : Surroundings} {rules : Option (List Char)}
    (h : Options.parse arguments = .ok o) (h' : Options.parse arguments' = .ok o')
    (hscript : o'.script = o.script) (hcolor : o'.color = o.color)
    (hfilter : Log.Filter.ofVerbosity? o'.verbosity rules =
      Log.Filter.ofVerbosity? o.verbosity world.logRules) :
    run { world with logRules := rules } arguments' = run world arguments := by
  have htranscript : transcript { world with logRules := rules } o' = transcript world o :=
    transcript_congr hscript rfl rfl rfl
  cases hgiven : Log.Filter.ofVerbosity? o.verbosity world.logRules with
  | none =>
    rw [run_of_breaksDown h (ofVerbosity?_eq_none_iff.mp hgiven)]
    exact run_of_breaksDown h' (ofVerbosity?_eq_none_iff.mp (hfilter.trans hgiven))
  | some filter =>
    have hbegins : Begins world arguments o ⟨filter, o.color, world.stamp⟩ :=
      ⟨h, hgiven, rfl, rfl⟩
    have hbegins' : Begins { world with logRules := rules } arguments' o'
        ⟨filter, o.color, world.stamp⟩ := ⟨h', hfilter.trans hgiven, hcolor.symm, rfl⟩
    rw [hbegins'.run_eq, hbegins.run_eq, htranscript]

/-- **How often, and not how.**  Let two lists of arguments be accepted that name the same
script, or none, and that both switch colours off or both leave them on.  If both ask
for more output equally often, by words, letters and bundles of letters that stand
anywhere in front of two dashes by themselves, or if both ask for it three times at
least, then their runs are the same.  From three times on, everything is shown, and a
written filter is not looked at; there is no number of times for which this ends. -/
theorem run_verbosity (haccepted : Options.parse arguments = .ok o)
    (haccepted' : Options.parse arguments' = .ok o') (hnames : names arguments' = names arguments)
    (hcolor : noColor ∈ flagged arguments' ↔ noColor ∈ flagged arguments)
    (hcount : min (requests arguments') 3 = min (requests arguments) 3) (world : Surroundings) :
    run world arguments' = run world arguments ∧
      (3 ≤ requests arguments → ∀ rules : Option (List Char),
        run { world with logRules := rules } arguments = run world arguments ∧
          ∃ console, Begins { world with logRules := rules } arguments o console ∧
            ∀ r, console.filter.shows r = true) := by
  have hfilter := ofVerbosity?_of_parse haccepted
  have hfilter' := ofVerbosity?_of_parse haccepted'
  constructor
  · refine run_congr haccepted haccepted' ?_ ?_ ?_
    · rw [Options.eq_of_parse haccepted, Options.eq_of_parse haccepted', hnames]
    · rw [Options.eq_of_parse haccepted, Options.eq_of_parse haccepted', Bool.eq_iff_iff]
      simp [hcolor]
    · rw [hfilter, hfilter', hcount]
  · intro hoften rules
    have hall : ∀ rules, Log.Filter.ofVerbosity? o.verbosity rules = some [.upTo .trace] := by
      intro rules
      rw [hfilter, Nat.min_eq_right hoften]
      rfl
    refine ⟨run_congr haccepted haccepted rfl rfl ((hall rules).trans (hall _).symm), ?_⟩
    refine ⟨⟨[.upTo .trace], o.color, world.stamp⟩, ⟨haccepted, hall rules, rfl, rfl⟩, ?_⟩
    intro r
    rw [shows_upTo]
    cases r.level <;> rfl

/-- An empty script, named in the middle of three requests and behind as many as no longer
fit in a byte, with a written filter against all of the log. -/
theorem run_verbosity_bundles :
    let world : Surroundings :=
      { directory := ⟨[(['a'], [])], []⟩, input := [], logRules := some "off".toList
        outputFull := false, stamp := ['s'] }
    let few := ["--verbose".toList, ['a'], noColor, "-vv".toList]
    let many :=
      ["-v".toList, '-' :: List.replicate 254 'v', noColor, "--verbose".toList, "--".toList, ['a']]
    Options.parse few = .ok ⟨some ['a'], 3, false⟩ ∧
      Options.parse many = .ok ⟨some ['a'], 255, false⟩ ∧ requests many = 256 ∧
      run world many = run world few ∧
      run { world with logRules := none } few = run world few ∧
      run world few =
        .finished 0 "EOF  nil\n".toList ("s DEBUG scanning file path=a bytes=0\n".toList ++
          "s DEBUG scan finished tokens=1 errors=0 lines=1\n".toList) := by
  intro world few many
  have hfew : Options.parse few = .ok ⟨some ['a'], 3, false⟩ := by rfl
  have hmany : Options.parse many = .ok ⟨some ['a'], 255, false⟩ := by decide +kernel
  have hrequests : requests many = 256 := by decide +kernel
  obtain ⟨hsame, hoften⟩ := run_verbosity hfew hmany (by decide +kernel) (by decide +kernel)
    (by rw [hrequests]; rfl) world
  obtain ⟨hrules, -⟩ := hoften (by decide) none
  exact ⟨hfew, hmany, hrequests, hsame, hrules, by decide +kernel⟩

end Session

end LoxLexer
