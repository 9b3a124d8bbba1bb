import LoxLexer.Log.Record

/-!
# Which log records are shown

A filter is a list of rules.  A rule says up to which level the records of a
part of the program are shown; it may be confined to records that carry a
certain value.  A part of the program is named by a target, which stands for
all targets that begin with it.  Of the rules that apply to a record the most
specific one decides, and a record to which none applies is not shown.
-/

namespace LoxLexer

namespace Log

/-- Records of the targets that begin with `target`, or of all if there is none,
and that carry the value `field`, if there is one, are shown up to a rank. -/
structure Rule where
  target : Option (List Char)
  field : Option (List Char)
  ceiling : Nat
deriving DecidableEq, Repr

/-- A list of rules. -/
abbrev Filter := List Rule

namespace Rule

/-- The rule that shows everything up to a level. -/
def upTo (level : Level) : Rule := ⟨none, none, level.rank⟩

/-- The rule speaks of the record. -/
def AppliesTo (r : Rule) (record : Record) : Prop :=
  (∀ target ∈ r.target, target <+: record.target.toList) ∧
    (∀ field ∈ r.field, record.Names field)

instance (r : Rule) (record : Record) : Decidable (r.AppliesTo record) := by
  unfold AppliesTo
  infer_instance

/-- How much of a target the rule names. -/
def reach (r : Rule) : Nat := (r.target.map List.length).getD 0

/-- Whether a later rule `s` goes before `r` where both apply: the longer
target first, then the rule that names a value, then the later name, then the
later rule. -/
def yieldsTo (r s : Rule) : Bool :=
  if r.reach = s.reach then
    match r.field, s.field with
    | none, _ => true
    | some _, none => false
    | some a, some b => !decide (b < a)
  else decide (r.reach < s.reach)

end Rule

namespace Filter

/-- The most specific rule that applies to a record. -/
def governing? (f : Filter) (record : Record) : Option Rule :=
  (f.filter (fun r => r.AppliesTo record)).foldl
    (fun best r => if best.all (fun b => b.yieldsTo r) then some r else best) none

/-- The record is shown. -/
def shows (f : Filter) (record : Record) : Bool :=
  match f.governing? record with
  | some r => decide (record.level.rank ≤ r.ceiling)
  | none => false

end Filter

end Log

end LoxLexer
