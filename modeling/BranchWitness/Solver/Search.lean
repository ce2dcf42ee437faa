import BranchWitness.Solver.Candidates

/-!
# Searching for an assignment

The search is depth first: it gives the variables values in their order and, after each value,
looks again at the conjuncts that mention the variable.  A value under which one of them is
false or undefined is given up; an unknown conjunct waits for the variables still to come.

Two things are carried through the whole search.  The *budget* is the number of values that may
still be tried; when it is used up the search stops without a result.  The search stays
*exhaustive* as long as no value was given up that might have belonged to a solution: it ceases
to be when a conjunct was undefined or a domain was not complete.
-/

namespace BranchWitness.Solver

/-- What an assignment says about the conjuncts that mention a variable. -/
inductive Standing where
  | possible
  | refuted
  | undefined
  deriving DecidableEq

/-- Look at the conjuncts in order, up to the first that is neither true nor unknown. -/
def standing (assignment : Assignment) : List Term → Standing
  | [] => .possible
  | t :: rest =>
      match t.eval assignment with
      | .unknown => standing assignment rest
      | .undefined => .undefined
      | .known v => if v = .bool true then standing assignment rest else .refuted

/-- What is carried from one part of the search to the next. -/
structure Progress where
  /-- The number of values that may still be tried. -/
  budget : Nat
  /-- Whether every value given up so far belongs to no solution. -/
  exhaustive : Bool

/-- How a search ends. -/
inductive Ending where
  | found (assignment : Assignment)
  | exhausted
  | outOfBudget

/-- Try the values one after another until an attempt ends with more than exhaustion. -/
def tryValues (attempt : Value → Progress → Ending × Progress) :
    List Value → Progress → Ending × Progress
  | [], progress => (.exhausted, progress)
  | v :: rest, progress =>
      match progress.budget with
      | 0 => (.outOfBudget, progress)
      | budget + 1 =>
          match attempt v { progress with budget } with
          | (.exhausted, later) => tryValues attempt rest later
          | ended => ended

/-- Give values to the variables of the slots, in their order. -/
def search (seeds : Seeds) : List Slot → Assignment → Progress → Ending × Progress
  | [], assignment, progress => (.found assignment, progress)
  | slot :: rest, assignment, progress =>
      let choices := domain seeds slot assignment
      tryValues
        (fun v progress =>
          let extended := assignment.set slot.target.id v
          match standing extended slot.conjuncts with
          | .possible => search seeds rest extended progress
          | .refuted => (.exhausted, progress)
          | .undefined => (.exhausted, { progress with exhaustive := false }))
        choices.values
        { progress with exhaustive := progress.exhaustive && choices.complete }

end BranchWitness.Solver
