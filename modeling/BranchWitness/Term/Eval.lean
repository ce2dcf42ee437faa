import BranchWitness.Term

/-!
# The meaning of a term under a partial assignment

An assignment gives values to some of the variables.  The meaning of a term under it is a value,
or *unknown* when it depends on a variable without a value, or *undefined* when an operation in
it has no result: a division by zero, an overflow, operands of the wrong sort.

A connective is decided by one deciding operand (`false` for a conjunction, `true` for a
disjunction) whatever the others are; short of that an unknown operand leaves it unknown, and
only then does an undefined one make it undefined.  So a meaning other than *unknown* is final:
giving values to further variables does not change it.
-/

namespace BranchWitness

/-- Values for some of the variables, by number. -/
abbrev Assignment := Nat → Option Value

namespace Assignment

/-- The assignment that gives no variable a value. -/
def empty : Assignment := fun _ => none

/-- The assignment with the variable numbered `id` set to `value`. -/
def set (assignment : Assignment) (id : Nat) (value : Value) : Assignment :=
  fun other => if other = id then some value else assignment other

end Assignment

/-- What a term means under a partial assignment. -/
inductive Meaning where
  | known (v : Value)
  | unknown
  | undefined
  deriving DecidableEq

namespace Meaning

/-- The meaning of an operation on values: a failure is undefined. -/
def ofResult : Except ValueError Value → Meaning
  | .ok v => known v
  | .error _ => undefined

/-- Logical negation. -/
def not : Meaning → Meaning
  | known (.bool b) => known (.bool (!b))
  | known _ => undefined
  | unknown => unknown
  | undefined => undefined

/-- An operation on one value. -/
def lift (operation : Value → Meaning) : Meaning → Meaning
  | known v => operation v
  | unknown => unknown
  | undefined => undefined

/-- An operation on two values; undefined as soon as one operand is. -/
def lift₂ (operation : Value → Value → Meaning) : Meaning → Meaning → Meaning
  | known a, known b => operation a b
  | undefined, _ => undefined
  | _, undefined => undefined
  | _, _ => unknown

/-- One operand of a connective beside the meaning of the rest, where `deciding` is the truth
value that settles the connective by itself. -/
def join (deciding : Bool) (operand rest : Meaning) : Meaning :=
  if operand = known (.bool deciding) then operand
  else if rest = known (.bool deciding) then rest
  else
    match operand, rest with
    | unknown, _ => unknown
    | _, unknown => unknown
    | known (.bool _), rest => rest
    | _, _ => undefined

end Meaning

namespace Term

mutual

/-- The meaning of a term under a partial assignment. -/
def eval (assignment : Assignment) : Term → Meaning
  | var x =>
      match assignment x.id with
      | some v => .known v
      | none => .unknown
  | const v => .known v
  | not t => (eval assignment t).not
  | and ts => evalAll assignment false ts
  | or ts => evalAll assignment true ts
  | neg t => (eval assignment t).lift fun v => .ofResult v.negate
  | cmp op l r =>
      (eval assignment l).lift₂ (fun a b => .ofResult ((op.apply a b).map .bool))
        (eval assignment r)
  | arith op l r =>
      (eval assignment l).lift₂ (fun a b => .ofResult (op.apply a b)) (eval assignment r)

/-- The meaning of a connective over the operands: a conjunction when `deciding` is `false`, a
disjunction when it is `true`. -/
def evalAll (assignment : Assignment) (deciding : Bool) : List Term → Meaning
  | [] => .known (.bool (!deciding))
  | t :: ts => (eval assignment t).join deciding (evalAll assignment deciding ts)

end

/-- The term is true under the assignment. -/
def Holds (assignment : Assignment) (t : Term) : Prop :=
  t.eval assignment = .known (.bool true)

instance (assignment : Assignment) (t : Term) : Decidable (t.Holds assignment) :=
  inferInstanceAs (Decidable (_ = _))

end Term

end BranchWitness
