import BranchWitness.NameMap
import BranchWitness.Operator
import BranchWitness.Program

/-!
# From expressions to terms

Resolving an expression looks up its names and operators and builds the term it stands for.

* An operator that refuses its operands is still applied when all of them are constants and it
  folds constants.
* A logical operator that refuses operands of other sorts is tried once more with their
  *truthiness*: a number stands for being different from `0`, a text for not being empty.
* The operands of a connective that are themselves connectives with the very same tag are
  spliced into it.
* A chain of comparisons is the conjunction of the comparisons of neighbours.
-/

namespace BranchWitness

/-- The variables that names stand for. -/
abbrev Bindings := NameMap Var

/-- The truth value a term stands for. -/
def Term.truthy (t : Term) : Term :=
  match t.sort with
  | .bool => t
  | .int => .cmp .ne t (.const (.int 0))
  | .str => .cmp .ne t (.const (.str ""))

/-- The constant that a term is. -/
def Term.constant? : Term → Option Value
  | .const v => some v
  | _ => none

namespace Operator

/-- The value of an operator on operands that are all constants. -/
def foldConstants? (operator : Operator) (operands : List Term) : Option Value :=
  match operator.fold?, operands.mapM Term.constant? with
  | some operation, some values => (operation values).toOption
  | _, _ => none

/-- The term of an operator on operands; where it refuses them, their value if they are
constants. -/
def apply (operator : Operator) (operands : List Term) : Except Error Term :=
  match operator.build operands with
  | .ok t => .ok t
  | .error error =>
      match operator.foldConstants? operands with
      | some v => .ok (.const v)
      | none => .error error

/-- The term of an operator on operands, or on their truthiness when it refuses them and one of
them is no truth value. -/
def applyLogical (operator : Operator) (operands : List Term) : Except Error Term :=
  match operator.apply operands with
  | .ok t => .ok t
  | .error error =>
      if operands.any fun t => t.sort ≠ .bool then
        match operator.build (operands.map Term.truthy) with
        | .ok t => .ok t
        | .error _ => .error error
      else .error error

end Operator

namespace Expr

mutual

/-- The term that an expression stands for. -/
def resolve (bindings : Bindings) : Expr → Except Error Term
  | identifier name =>
      match bindings.find? name with
      | some x => .ok (.var x)
      | none => .error (.unboundVariable name)
  | literal value => .ok (.const value)
  | unary op operand => do
      let operator ← Operator.ofTag op
      let t ← resolve bindings operand
      operator.applyLogical [t]
  | connective op operands => do
      let operator ← Operator.ofTag op
      let ts ← resolveSpliced bindings op operands
      operator.applyLogical ts
  | comparison left ops comparators =>
      if ops.isEmpty ∨ ops.length ≠ comparators.length then
        .error ((Refusal.chainLength ops.length comparators.length).error "Compare")
      else do
        let first ← resolve bindings left
        match ← resolveChain bindings first ops comparators with
        | [t] => return t
        | ts => return .and ts
  | arithmetic op left right => do
      let operator ← Operator.ofTag op
      let l ← resolve bindings left
      let r ← resolve bindings right
      operator.apply [l, r]

/-- The operands of a connective with the given tag, those of nested connectives with the same
tag in their place. -/
def resolveSpliced (bindings : Bindings) (tag : String) : List Expr → Except Error (List Term)
  | [] => .ok []
  | connective op operands :: rest => do
      let first ←
        if op = tag then resolveSpliced bindings tag operands
        else (resolve bindings (connective op operands)).map fun t => [t]
      let others ← resolveSpliced bindings tag rest
      return first ++ others
  | e :: rest => do
      let t ← resolve bindings e
      let others ← resolveSpliced bindings tag rest
      return t :: others
termination_by structural operands => operands

/-- The comparisons of a chain, each between one comparator and the next. -/
def resolveChain (bindings : Bindings) (left : Term) :
    List String → List Expr → Except Error (List Term)
  | op :: ops, e :: rest => do
      let operator ← Operator.ofTag op
      let right ← resolve bindings e
      let t ← operator.apply [left, right]
      let others ← resolveChain bindings right ops rest
      return t :: others
  | _, _ => .ok []

end

/-- The constraint that a test stands for: the truthiness of its term. -/
def constraint (bindings : Bindings) (test : Expr) : Except Error Term :=
  (test.resolve bindings).map Term.truthy

end Expr

end BranchWitness
