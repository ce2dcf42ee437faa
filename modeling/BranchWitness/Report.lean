import BranchWitness.Model
import BranchWitness.Program
import BranchWitness.Resolve
import BranchWitness.Store

/-!
# What an analysis reports

* A *test case* is an input that reaches a branch, read off a model.
* A *violation* is a branch that no input reaches.
* A *diagnostic* is a statement or a check that came to nothing, with the reason.

A report holds these in the order in which they arose, the variables of the function, a count of
what was done and, on request, the stores around each conditional.
-/

namespace BranchWitness

/-- The value of one parameter. -/
structure Input where
  /-- The name of the parameter. -/
  name : String
  /-- Its value. -/
  value : Value
  deriving DecidableEq

/-- How an input is shown. -/
def Input.render (input : Input) : String :=
  input.name ++ " = " ++ input.value.render

/-- An input that reaches a branch. -/
structure TestCase where
  /-- The line of the branch. -/
  line : Line
  /-- The values of the parameters that matter. -/
  inputs : List Input
  /-- The values of all variables that matter. -/
  model : Model
  /-- The constraints of the path, as shown. -/
  path : List String

namespace TestCase

/-- The test case of a model.  A parameter without a value in the model may have any, and is left
out. -/
def ofModel (line : Line) (model : Model) (params : List Var) (store : Store) : TestCase :=
  { line
    inputs := params.filterMap fun param =>
      (model.find? param.name).map fun value => ⟨param.name, value⟩
    model
    path := store.rendered }

/-- The value of a parameter. -/
def input? (test : TestCase) (name : String) : Option Value :=
  (test.inputs.find? fun input => input.name == name).map Input.value

/-- How a test case is shown. -/
def render (test : TestCase) : String :=
  s!"line {test.line.toNat}: " ++ String.intercalate ", " (test.inputs.map Input.render)

end TestCase

/-- A branch that no input reaches. -/
structure Violation where
  /-- The line of the branch. -/
  line : Line
  /-- The constraints of the path, as shown. -/
  condition : String
  /-- The constraints of the path. -/
  snapshot : Store

namespace Violation

/-- The violation of a path's constraints. -/
def ofStore (line : Line) (store : Store) : Violation :=
  ⟨line, store.render, store⟩

/-- How a violation is shown. -/
def render (violation : Violation) : String :=
  "Unsatisfied (" ++ violation.condition ++ s!") - line {violation.line.toNat}"

end Violation

/-- The kinds of diagnostics. -/
inductive DiagnosticKind where
  | unboundVariable
  | unknownOperator
  | unknownType
  | solverConstruction
  | typeConflict
  | capacityExceeded
  | solverTimeout
  | solverUnknown
  deriving DecidableEq

namespace DiagnosticKind

/-- The name of a kind in a written report. -/
def tag : DiagnosticKind → String
  | unboundVariable => "unbound_variable"
  | unknownOperator => "unknown_operator"
  | unknownType => "unknown_type"
  | solverConstruction => "solver_construction"
  | typeConflict => "type_conflict"
  | capacityExceeded => "capacity_exceeded"
  | solverTimeout => "solver_timeout"
  | solverUnknown => "solver_unknown"

/-- The kind of a failure; a fatal one has none. -/
def ofError? : Error → Option DiagnosticKind
  | .unboundVariable _ => some unboundVariable
  | .unknownOperator _ => some unknownOperator
  | .unknownType _ => some unknownType
  | .construction _ _ => some solverConstruction
  | .typeConflict _ _ _ => some typeConflict
  | .capacityExceeded _ => some capacityExceeded
  | .parseFailure _ | .solverUnavailable _ => none

end DiagnosticKind

/-- A statement or a check that came to nothing. -/
structure Diagnostic where
  /-- The line of the statement; `0` for a parameter. -/
  line : Line
  /-- The kind of the reason. -/
  kind : DiagnosticKind
  /-- The reason. -/
  message : String
  deriving DecidableEq

namespace Diagnostic

/-- The diagnostic of a failure; a fatal one has none. -/
def ofError? (line : Line) (error : Error) : Option Diagnostic :=
  (DiagnosticKind.ofError? error).map fun kind => ⟨line, kind, error.message⟩

/-- How a diagnostic is shown. -/
def render (diagnostic : Diagnostic) : String :=
  s!"line {diagnostic.line.toNat}: " ++ diagnostic.message

end Diagnostic

/-- A count of what an analysis did. -/
structure Stats where
  /-- The checks made. -/
  solverChecks : Nat := 0
  /-- The checks answered with a model. -/
  sat : Nat := 0
  /-- The checks answered with the absence of one. -/
  unsat : Nat := 0
  /-- The checks that ran out of their budget. -/
  timeouts : Nat := 0
  /-- The checks without a definite answer. -/
  unknown : Nat := 0
  /-- The conditionals whose test was resolved. -/
  conditionals : Nat := 0
  /-- The loops whose test was resolved. -/
  loops : Nat := 0
  /-- The checks made for loops. -/
  loopChecks : Nat := 0
  /-- The statements of loop bodies left out because their line had been reached already. -/
  skippedStatements : Nat := 0
  deriving DecidableEq

/-- The stores around one conditional. -/
structure Snapshot where
  /-- The line of the conditional. -/
  line : Line
  /-- Its test. -/
  test : Term
  /-- The store before the test is taken. -/
  beforeTrue : Store
  /-- The store with which the other branch starts, if there is one. -/
  beforeFalse : Option Store
  deriving DecidableEq

/-- All that is reported about a function. -/
structure Report where
  /-- The name of the function. -/
  function : String
  /-- The test cases. -/
  testCases : List TestCase
  /-- The violations. -/
  violations : List Violation
  /-- The diagnostics. -/
  diagnostics : List Diagnostic
  /-- The variables by name. -/
  bindings : Bindings
  /-- The counts. -/
  stats : Stats
  /-- The stores around the conditionals, if they were asked for. -/
  trace : List Snapshot

/-- The report in one line. -/
def Report.summary (report : Report) : String :=
  report.function ++ s!": {report.testCases.length} test case(s), "
    ++ s!"{report.violations.length} violation(s), {report.diagnostics.length} diagnostic(s)"

end BranchWitness
