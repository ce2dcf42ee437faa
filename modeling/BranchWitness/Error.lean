/-!
# What can go wrong with a program

The failures of the library, as causes, and their wording.  A failure of one statement or one
parameter is reported and the analysis goes on; a failure to read the program or to find a
solver ends it, and is called fatal.
-/

namespace BranchWitness

/-- The failures of reading and analysing a program. -/
inductive Error where
  | parseFailure (detail : String)
  | unboundVariable (name : String)
  | unknownOperator (tag : String)
  | unknownType (tag : String)
  | construction (operator detail : String)
  | typeConflict (name existing declared : String)
  | capacityExceeded (limit : Nat)
  | solverUnavailable (detail : String)
  deriving DecidableEq

namespace Error

/-- The wording of a failure. -/
def message : Error → String
  | parseFailure detail => "Parse failure: " ++ detail
  | unboundVariable name => "Unbound variable '" ++ name ++ "'"
  | unknownOperator tag => "Unknown operator '" ++ tag ++ "'"
  | unknownType tag => "Unknown type '" ++ tag ++ "'"
  | construction operator detail => "Cannot construct '" ++ operator ++ "': " ++ detail
  | typeConflict name existing declared =>
      "Variable '" ++ name ++ "' already declared as " ++ existing
        ++ ", cannot redeclare as " ++ declared
  | capacityExceeded limit => s!"Path constraint capacity of {limit} exceeded"
  | solverUnavailable detail => "Solver unavailable: " ++ detail

/-- Whether the failure ends an analysis. -/
def isFatal : Error → Bool
  | parseFailure _ | solverUnavailable _ => true
  | _ => false

end Error

end BranchWitness
