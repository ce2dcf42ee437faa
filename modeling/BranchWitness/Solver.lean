import BranchWitness.Model
import BranchWitness.Solver.Search

/-!
# The bounded solver

`Solver.check` asks whether some values of the variables make all assertions true.  Conjunctions
at the top are split, conjuncts without variables are settled at once, and the rest is searched.
A search that went through all its values without a solution shows that there is none only if it
stayed exhaustive; otherwise the answer is that the solver does not know.
-/

namespace BranchWitness.Solver

/-- The limits of one check. -/
structure Limits where
  /-- The number of values that may be tried. -/
  nodes : Nat
  /-- The width of the window around zero in which every integer is tried. -/
  width : Nat

mutual

/-- The conjuncts of an assertion: what stands below the conjunctions at its top. -/
def conjuncts : Term → List Term
  | .and ts => conjunctsAll ts
  | t => [t]

/-- The conjuncts of several assertions. -/
def conjunctsAll : List Term → List Term
  | [] => []
  | t :: ts => conjuncts t ++ conjunctsAll ts

end

/-- Settle the conjuncts without variables, in order: a false one and an undefined one each give
an answer, and what remains are the conjuncts with variables. -/
def settleGround : List Term → Except Answer (List Term)
  | [] => .ok []
  | t :: rest =>
      if t.isGround then
        match t.eval .empty with
        | .known v => if v = .bool true then settleGround rest else .error .unsat
        | _ => .error (.unknown ("'" ++ t.render ++ "' is undefined"))
      else
        match settleGround rest with
        | .ok remaining => .ok (t :: remaining)
        | .error answer => .error answer

/-- The variables of the conjuncts in the order of their numbers. -/
def variablesOf (symbolic : List Term) : List Var :=
  insertAllAscending Var.before (Term.occurrencesAll symbolic) []

/-- The model that lists the values of the variables by name. -/
def modelOf (vars : List Var) (assignment : Assignment) : Model :=
  vars.foldl
    (fun model x =>
      match assignment x.id with
      | some v => model.insert x.name v
      | none => model)
    .empty

/-- Search for values that make the conjuncts with variables true. -/
def solve (limits : Limits) (symbolic : List Term) : Answer :=
  let vars := variablesOf symbolic
  let slots := vars.map (Slot.of symbolic)
  match search (Seeds.of limits.width symbolic) slots .empty ⟨limits.nodes, true⟩ with
  | (.found assignment, _) => .sat (modelOf vars assignment)
  | (.outOfBudget, _) => .timeout
  | (.exhausted, progress) =>
      if progress.exhaustive then .unsat
      else .unknown "search space exhausted without a completeness guarantee"

/-- Whether some values of the variables make all assertions true, within the limits. -/
def check (limits : Limits) (assertions : List Term) : Answer :=
  let parts := conjunctsAll assertions
  match parts.find? fun t => t.sort ≠ .bool with
  | some t => .unknown ("non-boolean assertion '" ++ t.render ++ "'")
  | none =>
      match settleGround parts with
      | .error answer => answer
      | .ok symbolic => solve limits symbolic

end BranchWitness.Solver
