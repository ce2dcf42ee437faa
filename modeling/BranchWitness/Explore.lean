import BranchWitness.Report

/-!
# Exploring the branches of a function

The exploration walks over the statements in their order and keeps the constraints of the current
path.  At each conditional and each loop it asks a solver whether the path can be taken, and files
the answer.

* A conditional takes its test, explores its body and asks; if there is an `else`, it goes back,
  takes the negation, asks and explores.  Afterwards the store is what it was before.
* A loop is unrolled once: it takes its test, asks and explores its body.  While it does, a
  statement whose line was already reached in this loop is left out.
* A statement that fails is reported and the exploration goes on behind it.

What the solver answers is recorded and never looked at again, so it does not influence where the
exploration goes.
-/

namespace BranchWitness

/-- A solver, asked for the answer to a list of assertions.  It may remember the questions asked
before. -/
abbrev Backend := (earlier : List (List Term)) → (assertions : List Term) → Answer

/-- The state of an exploration. -/
structure Exploration where
  /-- The variables bound so far. -/
  bindings : Bindings := .empty
  /-- The variables of the parameters. -/
  params : List Var := []
  /-- The number of the next new variable. -/
  nextId : Nat := 0
  /-- The constraints of the current path. -/
  store : Store
  /-- For each loop being unrolled, the innermost first, the lines reached in it. -/
  frames : List (List Line) := []
  /-- The test cases found. -/
  testCases : List TestCase := []
  /-- The violations found. -/
  violations : List Violation := []
  /-- The diagnostics found. -/
  diagnostics : List Diagnostic := []
  /-- The counts so far. -/
  stats : Stats := {}
  /-- The stores around the conditionals entered, if they are traced. -/
  trace : List Snapshot := []
  /-- The assertions given to the solver, one list for each check. -/
  asked : List (List Term) := []

namespace Exploration

/-- The state before the first statement. -/
def start (capacity : Option Nat) : Exploration :=
  { store := { capacity } }

/-- The report of what was found. -/
def report (state : Exploration) (function : String) : Report :=
  { function
    testCases := state.testCases
    violations := state.violations
    diagnostics := state.diagnostics
    bindings := state.bindings
    stats := state.stats
    trace := state.trace }

/-- File the failure of a statement.  No statement fails fatally. -/
def fail (state : Exploration) (line : Line) (error : Error) : Exploration :=
  match Diagnostic.ofError? line error with
  | some diagnostic => { state with diagnostics := state.diagnostics ++ [diagnostic] }
  | none => state

/-- File the failure of a statement that may have failed. -/
def settle (line : Line) : Exploration × Option Error → Exploration
  | (state, some error) => state.fail line error
  | (state, none) => state

/-! ## Variables -/

/-- The variable of a name, at the sort of a type.  A name keeps its variable; it cannot be given
another sort. -/
def bind (state : Exploration) (name type : String) : Except Error (Var × Exploration) :=
  match ValueSort.ofTag type with
  | .error error => .error error
  | .ok sort =>
      match state.bindings.find? name with
      | some existing =>
          if existing.sort = sort then .ok (existing, state)
          else .error (.typeConflict name existing.sort.label sort.label)
      | none =>
          let new : Var := ⟨state.nextId, name, sort⟩
          .ok (new, { state with
            bindings := state.bindings.insert name new
            nextId := state.nextId + 1 })

/-- Bind one parameter; a failure is reported at line `0`. -/
def bindParam (state : Exploration) (param : Param) : Exploration :=
  match state.bind param.name param.type with
  | .error error => state.fail 0 error
  | .ok (x, bound) =>
      if bound.params.any fun other => other.id == x.id then bound
      else { bound with params := bound.params ++ [x] }

/-- Bind the parameters in their order. -/
def bindParams (state : Exploration) (params : List Param) : Exploration :=
  params.foldl bindParam state

/-! ## Assignments -/

/-- Declare a variable, with a first value if there is one.  The value is resolved before the name
is bound. -/
def declare (state : Exploration) (target annotation : String) (value : Option Expr) :
    Exploration × Option Error :=
  match value.mapM (Expr.resolve state.bindings) with
  | .error error => (state, some error)
  | .ok initial =>
      match state.bind target annotation with
      | .error error => (state, some error)
      | .ok (x, bound) =>
          match initial with
          | none => (bound, none)
          | some t =>
              match bound.store.assign x t with
              | .error error => (bound, some error)
              | .ok store => ({ bound with store }, none)

/-- Give the value of a term to the variables one after another, up to the first failure. -/
def assignEach (value : Term) : List Var → Store → Store × Option Error
  | [], store => (store, none)
  | x :: rest, store =>
      match store.assign x value with
      | .error error => (store, some error)
      | .ok store => assignEach value rest store

/-- The variable that a name stands for. -/
def lookup (state : Exploration) (name : String) : Except Error Var :=
  match state.bindings.find? name with
  | some x => .ok x
  | none => .error (.unboundVariable name)

/-- Give a value to variables that were declared before. -/
def reassign (state : Exploration) (targets : List String) (value : Expr) :
    Exploration × Option Error :=
  match targets.mapM state.lookup with
  | .error error => (state, some error)
  | .ok handles =>
      match value.resolve state.bindings with
      | .error error => (state, some error)
      | .ok t =>
          let (store, error?) := assignEach t handles state.store
          ({ state with store }, error?)

/-! ## Checks -/

/-- Ask the solver whether the current path can be taken, and file the answer. -/
def check (solver : Backend) (line : Line) (state : Exploration) : Exploration :=
  let assertions := state.store.assertions
  let asked := { state with
    asked := state.asked ++ [assertions]
    stats := { state.stats with solverChecks := state.stats.solverChecks + 1 } }
  match solver state.asked assertions with
  | .sat model =>
      { asked with
        stats := { asked.stats with sat := asked.stats.sat + 1 }
        testCases := asked.testCases ++ [.ofModel line model asked.params asked.store] }
  | .unsat =>
      { asked with
        stats := { asked.stats with unsat := asked.stats.unsat + 1 }
        violations := asked.violations ++ [.ofStore line asked.store] }
  | .timeout =>
      { asked with
        stats := { asked.stats with timeouts := asked.stats.timeouts + 1 }
        diagnostics := asked.diagnostics ++
          [⟨line, .solverTimeout, "Solver timed out on (" ++ asked.store.render ++ ")"⟩] }
  | .unknown reason =>
      { asked with
        stats := { asked.stats with unknown := asked.stats.unknown + 1 }
        diagnostics := asked.diagnostics ++
          [⟨line, .solverUnknown,
            "Solver returned unknown on (" ++ asked.store.render ++ "): " ++ reason⟩] }

/-! ## Branches -/

/-- Count a conditional and, if conditionals are traced, note the store before it. -/
def enterConditional (tracing : Bool) (line : Line) (test : Term) (state : Exploration) :
    Exploration :=
  let counted := { state with
    stats := { state.stats with conditionals := state.stats.conditionals + 1 } }
  if tracing then
    { counted with trace := counted.trace ++ [⟨line, test, state.store, none⟩] }
  else counted

/-- Note the store with which the other branch starts, in the snapshot at the given position. -/
def noteElse (tracing : Bool) (position : Nat) (state : Exploration) : Exploration :=
  if tracing then
    { state with
      trace := state.trace.modify position fun snapshot =>
        { snapshot with beforeFalse := some state.store } }
  else state

/-- The branch taken when the test of a conditional is false: take the negation, ask and
explore. -/
def elseBranch (solver : Backend) (tracing : Bool) (line : Line) (test : Term) (position : Nat)
    (orelse : Exploration → Exploration) (state : Exploration) : Exploration :=
  match state.store.push (.not test) with
  | .error error => state.fail line error
  | .ok (_, store) =>
      orelse (({ state with store }.noteElse tracing position).check solver line)

/-- A conditional, given how to explore its branches; there need not be an `else`. -/
def conditional (solver : Backend) (tracing : Bool) (line : Line) (test : Expr)
    (body : Exploration → Exploration) (orelse : Option (Exploration → Exploration))
    (state : Exploration) : Exploration × Option Error :=
  match test.constraint state.bindings with
  | .error error => (state, some error)
  | .ok test =>
      let entered := state.enterConditional tracing line test
      match entered.store.push test with
      | .error error => (entered, some error)
      | .ok (_, store) =>
          let back := { (body { entered with store }).check solver line with store := state.store }
          match orelse with
          | none => (back, none)
          | some orelse =>
              let explored :=
                back.elseBranch solver tracing line test state.trace.length orelse
              ({ explored with store := state.store }, none)

/-- A loop, given how to explore its body. -/
def unroll (solver : Backend) (line : Line) (test : Expr) (body : Exploration → Exploration)
    (state : Exploration) : Exploration × Option Error :=
  match test.constraint state.bindings with
  | .error error => (state, some error)
  | .ok test =>
      let counted := { state with stats := { state.stats with loops := state.stats.loops + 1 } }
      match counted.store.push test with
      | .error error => (counted, some error)
      | .ok (_, store) =>
          let taken := { counted with
            store
            stats := { counted.stats with loopChecks := counted.stats.loopChecks + 1 } }
          let asked := taken.check solver line
          let explored := body { asked with frames := [] :: asked.frames }
          ({ explored with frames := explored.frames.tail, store := state.store }, none)

/-- Note that a line is reached in the innermost loop; nothing if it was reached before. -/
def reach (line : Line) (state : Exploration) : Option Exploration :=
  match state.frames with
  | [] => some state
  | frame :: outer =>
      if line ∈ frame then none else some { state with frames := (line :: frame) :: outer }

/-- Leave out a statement. -/
def skip (state : Exploration) : Exploration :=
  { state with
    stats := { state.stats with skippedStatements := state.stats.skippedStatements + 1 } }

/-- Execute a statement unless its line was already reached in the innermost loop. -/
def step (line : Line) (run : Exploration → Exploration × Option Error) (state : Exploration) :
    Exploration :=
  match state.reach line with
  | none => state.skip
  | some reached => settle line (run reached)

mutual

/-- Execute one statement. -/
def execute (solver : Backend) (tracing : Bool) : Stmt → Exploration → Exploration
  | .declaration line target annotation value =>
      step line fun state => state.declare target annotation value
  | .reassignment line targets value =>
      step line fun state => state.reassign targets value
  | .conditional line test body [] =>
      step line (conditional solver tracing line test (explore solver tracing body) none)
  | .conditional line test body (first :: rest) =>
      step line (conditional solver tracing line test (explore solver tracing body)
        (some (explore solver tracing (first :: rest))))
  | .loop line test body => step line (unroll solver line test (explore solver tracing body))
  | .other line _ => step line fun state => (state, none)

/-- Execute statements in their order. -/
def explore (solver : Backend) (tracing : Bool) : List Stmt → Exploration → Exploration
  | [] => fun state => state
  | stmt :: rest => fun state => explore solver tracing rest (execute solver tracing stmt state)

end

end Exploration

end BranchWitness
