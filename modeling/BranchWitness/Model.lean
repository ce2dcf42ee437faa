import BranchWitness.NameMap
import BranchWitness.Term

/-!
# Models and answers

A solver is asked whether some values of the variables make a list of assertions true.  It
answers with such values, a *model*, or says that there are none, or that it does not know, or
that it ran out of its budget.  The last two are kept apart, and neither says anything about the
assertions.
-/

namespace BranchWitness

/-- Values of variables by name. -/
abbrev Model := NameMap Value

/-- How a model is shown. -/
def Model.render (model : Model) : String :=
  "[" ++ String.intercalate ", " (model.entries.map fun entry => entry.1 ++ " = " ++ entry.2.render)
    ++ "]"

/-- What a solver says about a list of assertions. -/
inductive Answer where
  | sat (model : Model)
  | unsat
  | unknown (reason : String)
  | timeout

namespace Answer

/-- Whether the answer is a model. -/
def isSat : Answer → Bool
  | sat _ => true
  | _ => false

/-- Whether the answer says that there is no model. -/
def isUnsat : Answer → Bool
  | unsat => true
  | _ => false

end Answer

end BranchWitness
