import BranchWitness.Program.Json
import BranchWitness.Report

/-!
# Reports as JSON documents

How terms, stores and reports are written.  The order of the fields is part of the format.
-/

namespace BranchWitness

/-- The document of a variable. -/
def Var.toJson (x : Var) : Json :=
  .record [("id", .nat x.id), ("name", .text x.name), ("sort", .text x.sort.tag)]

namespace Term

mutual

/-- The document of a term: an object with one field, named for the operator. -/
def toJson : Term → Json
  | var x => .record [("Var", x.toJson)]
  | const v => .record [("Const", v.toJson)]
  | not t => .record [("Not", toJson t)]
  | and ts => .record [("And", .array (toJsonAll ts))]
  | or ts => .record [("Or", .array (toJsonAll ts))]
  | neg t => .record [("Neg", toJson t)]
  | cmp op l r => .record [("Cmp", .array [.text op.name, toJson l, toJson r])]
  | arith op l r => .record [("Arith", .array [.text op.name, toJson l, toJson r])]

/-- The documents of several terms. -/
def toJsonAll : List Term → List Json
  | [] => []
  | t :: ts => toJson t :: toJsonAll ts

end

end Term

/-- The document of a binding. -/
def Binding.toJson (binding : Binding) : Json :=
  .record [("var", binding.target.toJson), ("value", binding.value.toJson)]

/-- The document of a store; its capacity is not written. -/
def Store.toJson (store : Store) : Json :=
  .record [
    ("named", .array (store.named.map fun entry =>
      .array [.text entry.1, entry.2.toJson])),
    ("branch", .array (Term.toJsonAll store.branch))]

/-- The document of a model: an object with a field for each variable. -/
def Model.toJson (model : Model) : Json :=
  .record (model.entries.map fun entry => (entry.1, entry.2.toJson))

/-- The document of an input. -/
def Input.toJson (input : Input) : Json :=
  .record [("name", .text input.name), ("value", input.value.toJson)]

/-- The document of a test case. -/
def TestCase.toJson (test : TestCase) : Json :=
  .record [
    ("line", .nat test.line.toNat),
    ("inputs", .array (test.inputs.map Input.toJson)),
    ("model", Model.toJson test.model),
    ("path", .array (test.path.map .text))]

/-- The document of a violation. -/
def Violation.toJson (violation : Violation) : Json :=
  .record [("line", .nat violation.line.toNat), ("condition", .text violation.condition)]

/-- The document of a diagnostic. -/
def Diagnostic.toJson (diagnostic : Diagnostic) : Json :=
  .record [
    ("line", .nat diagnostic.line.toNat),
    ("kind", .text diagnostic.kind.tag),
    ("message", .text diagnostic.message)]

/-- The document of the counts. -/
def Stats.toJson (stats : Stats) : Json :=
  .record [
    ("solver_checks", .nat stats.solverChecks),
    ("sat", .nat stats.sat),
    ("unsat", .nat stats.unsat),
    ("timeouts", .nat stats.timeouts),
    ("unknown", .nat stats.unknown),
    ("conditionals", .nat stats.conditionals),
    ("loops", .nat stats.loops),
    ("loop_checks", .nat stats.loopChecks),
    ("skipped_statements", .nat stats.skippedStatements)]

/-- The document of the stores around a conditional. -/
def Snapshot.toJson (snapshot : Snapshot) : Json :=
  .record [
    ("line", .nat snapshot.line.toNat),
    ("test", snapshot.test.toJson),
    ("before_true", snapshot.beforeTrue.toJson),
    ("before_false", .ofOption Store.toJson snapshot.beforeFalse)]

/-- The document of a report.  The stores around conditionals are left out if there are none. -/
def Report.toJson (report : Report) : Json :=
  .record ([
    ("function", .text report.function),
    ("test_cases", .array (report.testCases.map TestCase.toJson)),
    ("violations", .array (report.violations.map Violation.toJson)),
    ("diagnostics", .array (report.diagnostics.map Diagnostic.toJson)),
    ("bindings", .record (report.bindings.entries.map fun entry => (entry.1, entry.2.toJson))),
    ("stats", report.stats.toJson)]
    ++ if report.trace.isEmpty then []
      else [("branch_trace", .array (report.trace.map Snapshot.toJson))])

end BranchWitness
