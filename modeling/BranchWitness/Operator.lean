import BranchWitness.Error
import BranchWitness.Term

/-!
# Operators by tag

A program names its operators and types by tags, several tags for one operator.  This module
holds the two tables, and for each operator the two things that can be done with it:

* `Operator.build` makes a term of operand terms.  It is strict about sorts and says why it
  refuses.
* `Operator.fold?` works on constant operands, with the coercions of the value operators.  The
  connectives have no such form.
-/

namespace BranchWitness

/-- The operators a program can name. -/
inductive Operator where
  | and
  | or
  | not
  | negate
  | cmp (op : CmpOp)
  | arith (op : ArithOp)
  deriving DecidableEq

namespace Operator

/-- The operator of each tag. -/
def tags : List (String × Operator) := [
  ("And", and), ("and", and), ("&&", and),
  ("Or", or), ("or", or), ("||", or),
  ("Not", not), ("not", not), ("!", not),
  ("Gt", cmp .gt), (">", cmp .gt),
  ("Lt", cmp .lt), ("<", cmp .lt),
  ("LtE", cmp .le), ("<=", cmp .le),
  ("GtE", cmp .ge), (">=", cmp .ge),
  ("Eq", cmp .eq), ("==", cmp .eq),
  ("NotEq", cmp .ne), ("!=", cmp .ne),
  ("Add", arith .add), ("+", arith .add),
  ("Sub", arith .sub), ("-", arith .sub),
  ("Mult", arith .mul), ("*", arith .mul),
  ("Div", arith .div), ("/", arith .div), ("FloorDiv", arith .div), ("//", arith .div),
  ("Mod", arith .mod), ("%", arith .mod),
  ("USub", negate)]

/-- The operator with the given tag. -/
def ofTag (tag : String) : Except Error Operator :=
  match tags.lookup tag with
  | some operator => .ok operator
  | none => .error (.unknownOperator tag)

/-- The name under which an operator appears in messages. -/
def name : Operator → String
  | and => "And"
  | or => "Or"
  | not => "Not"
  | negate => "USub"
  | cmp op => op.name
  | arith op => op.name

end Operator

/-- Why an operator refuses its operands. -/
inductive Refusal where
  | noOperands
  | operandCount (expected actual : Nat)
  | operandSort (operand : Term) (expected : ValueSort)
  | incomparable (left right : ValueSort)
  | unorderedBools
  | unsupportedSorts (left right : ValueSort)
  | chainLength (operators comparators : Nat)
  | selfReference (name : String)

/-- The wording of a refusal. -/
def Refusal.message : Refusal → String
  | noOperands => "expects at least one operand"
  | operandCount expected actual => expectsOperands expected actual
  | operandSort operand expected =>
      "operand '" ++ operand.render ++ "' has sort " ++ operand.sort.label ++ ", expected "
        ++ expected.label
  | incomparable left right => "cannot compare " ++ left.label ++ " with " ++ right.label
  | unorderedBools => "Bool operands are not ordered"
  | unsupportedSorts left right =>
      "unsupported operand sorts " ++ left.label ++ " and " ++ right.label
  | chainLength operators comparators =>
      s!"{operators} operator(s) for {comparators} comparator(s)"
  | selfReference name =>
      "'" ++ name ++ "' refers to itself but has no value on this path"

/-- The failure to construct a term with the named operator. -/
def Refusal.error (refusal : Refusal) (operator : String) : Error :=
  .construction operator refusal.message

namespace Operator

/-- A connective over truth values, at least one. -/
def buildConnective (make : List Term → Term) (operands : List Term) : Except Refusal Term :=
  if operands.isEmpty then .error .noOperands
  else
    match operands.find? fun t => t.sort ≠ .bool with
    | some operand => .error (.operandSort operand .bool)
    | none => .ok (make operands)

/-- An operator on one operand of a given sort. -/
def buildUnary (make : Term → Term) (sort : ValueSort) : List Term → Except Refusal Term
  | [operand] =>
      if operand.sort = sort then .ok (make operand) else .error (.operandSort operand sort)
  | operands => .error (.operandCount 1 operands.length)

/-- A comparison of two operands of one sort; truth values have no order. -/
def buildComparison (op : CmpOp) : List Term → Except Refusal Term
  | [left, right] =>
      if left.sort ≠ right.sort then .error (.incomparable left.sort right.sort)
      else if op.isOrdering ∧ left.sort = .bool then .error .unorderedBools
      else .ok (.cmp op left right)
  | operands => .error (.operandCount 2 operands.length)

/-- Arithmetic on two numbers, or the sum of two texts. -/
def buildArithmetic (op : ArithOp) : List Term → Except Refusal Term
  | [left, right] =>
      if (left.sort = .int ∧ right.sort = .int)
          ∨ (op = .add ∧ left.sort = .str ∧ right.sort = .str) then
        .ok (.arith op left right)
      else .error (.unsupportedSorts left.sort right.sort)
  | operands => .error (.operandCount 2 operands.length)

/-- The term an operator makes of its operands, or why it makes none. -/
def construct : Operator → List Term → Except Refusal Term
  | and, operands => buildConnective .and operands
  | or, operands => buildConnective .or operands
  | not, operands => buildUnary .not .bool operands
  | negate, operands => buildUnary .neg .int operands
  | cmp op, operands => buildComparison op operands
  | arith op, operands => buildArithmetic op operands

/-- The term an operator makes of its operands. -/
def build (operator : Operator) (operands : List Term) : Except Error Term :=
  match operator.construct operands with
  | .ok t => .ok t
  | .error refusal => .error (refusal.error operator.name)

/-- The value of an operator on constants, for the operators that fold constants. -/
def fold? : Operator → Option (List Value → Except ValueError Value)
  | and | or | not => none
  | negate => some fun
      | [v] => v.negate
      | operands => .error (.operandCount 1 operands.length)
  | cmp op => some fun
      | [left, right] => (op.apply left right).map .bool
      | operands => .error (.operandCount 2 operands.length)
  | arith op => some fun
      | [left, right] => op.apply left right
      | operands => .error (.operandCount 2 operands.length)

/-- The folding operator with the given tag. -/
def folding (tag : String) : Except Error (List Value → Except ValueError Value) :=
  match (tags.lookup tag).bind fold? with
  | some operation => .ok operation
  | none => .error (.unknownOperator tag)

end Operator

/-! ## Types -/

/-- The sort of each type tag. -/
def ValueSort.tags : List (String × ValueSort) := [
  ("bool", .bool), ("boolean", .bool), ("Bool", .bool),
  ("int", .int), ("integer", .int), ("Int", .int),
  ("str", .str), ("string", .str), ("String", .str)]

/-- The sort with the given type tag. -/
def ValueSort.ofTag (tag : String) : Except Error ValueSort :=
  match ValueSort.tags.lookup tag with
  | some sort => .ok sort
  | none => .error (.unknownType tag)

end BranchWitness
