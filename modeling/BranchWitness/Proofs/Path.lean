import BranchWitness.Proofs.Capture
import BranchWitness.Proofs.Expression
import BranchWitness.Settings

/-!
# Paths and the checks made on them

A path is what an ordinary run goes through on the way to a check: assignments, and tests that have
to come out one way (`PathStep`).  A start *drives* the path if every test on it comes out as the
path has it at the moment it is reached (`Memory.Drives`).

Which path a check is made on is not part of the state of an exploration.  `Recorded` adds it: the
recorded exploration does what the exploration does (`Recorded.state_executeAll`) and also keeps

* the path, which a statement extends when it gives a value and did not fail, and which is taken
  back where the exploration takes back its store, at the end of a branch or a loop; and
* for every check the path it was made on and the state in which it was made.

It keeps one more thing.  `Trail.clean` says whether every assignment on the path was one that the
store can follow: each target had a value on the path or was not mentioned by its constraints, what
was captured for several targets was the same for all, and no assignment to several targets failed
after some of them.
-/

namespace BranchWitness

/-! ## Steps one after another -/

section Steps

variable {State Step : Type}

/-- Every step can be passed in the state that the steps before it lead to. -/
def PassesEach (run : State → Step → State) (passes : State → Step → Prop) (state : State) :
    List Step → Prop
  | [] => True
  | step :: rest => passes state step ∧ PassesEach run passes (run state step) rest

theorem passesEach_append_singleton {run : State → Step → State} {passes : State → Step → Prop}
    {state : State} {steps : List Step} {step : Step} :
    PassesEach run passes state (steps ++ [step]) ↔
      PassesEach run passes state steps ∧ passes (steps.foldl run state) step := by
  induction steps generalizing state with
  | nil =>
      show passes state step ∧ True ↔ True ∧ passes state step
      exact and_comm
  | cons head rest ih =>
      show passes state head ∧ PassesEach run passes (run state head) (rest ++ [step]) ↔
        (passes state head ∧ PassesEach run passes (run state head) rest) ∧
          passes (rest.foldl run (run state head)) step
      rw [ih, and_assoc]

end Steps

/-! ## Paths -/

/-- Give a value, or none, to the variables with the given names. -/
def Memory.write (memory : Memory) (targets : List String) (value : Option Value) : Memory :=
  fun name => if name ∈ targets then value else memory name

/-- One thing that a path goes through. -/
inductive PathStep where
  | assign (targets : List String) (value : Expr)
  | test (condition : Expr) (outcome : Bool)

namespace PathStep

/-- The memory after a step.  The value of an assignment is read once. -/
def run (memory : Memory) : PathStep → Memory
  | assign targets value => memory.write targets (value.value memory)
  | test _ _ => memory

/-- The step is one that the path can go through: a test comes out as it has to. -/
def Passes (memory : Memory) : PathStep → Prop
  | assign _ _ => True
  | test condition outcome => condition.truth memory = some outcome

/-- The names that a step gives values to. -/
def targets : PathStep → List String
  | assign targets _ => targets
  | test _ _ => []

end PathStep

/-- What a run goes through, in order. -/
abbrev Path := List PathStep

/-- The memory at the end of a path. -/
def Path.run (path : Path) (memory : Memory) : Memory :=
  path.foldl PathStep.run memory

/-- The names that a path gives values to. -/
def Path.assigned (path : Path) : List String :=
  path.flatMap PathStep.targets

/-- Every test on the path comes out as the path has it when the run reaches it. -/
def Memory.Drives (memory : Memory) (path : Path) : Prop :=
  PassesEach PathStep.run PathStep.Passes memory path

theorem Path.run_append (first second : Path) (memory : Memory) :
    Path.run (first ++ second) memory = second.run (first.run memory) :=
  List.foldl_append

theorem Path.assigned_append (first second : Path) :
    Path.assigned (first ++ second) = first.assigned ++ second.assigned :=
  List.flatMap_append

theorem Memory.drives_append_singleton {memory : Memory} {path : Path} {step : PathStep} :
    memory.Drives (path ++ [step]) ↔ memory.Drives path ∧ step.Passes (path.run memory) :=
  passesEach_append_singleton

/-- A path leaves the names alone that it does not give values to. -/
theorem Path.run_of_not_mem_assigned {path : Path} {memory : Memory} {name : String}
    (h : name ∉ path.assigned) : path.run memory name = memory name := by
  induction path generalizing memory with
  | nil => rfl
  | cons head rest ih =>
      have hsplit : name ∉ head.targets ∧ name ∉ Path.assigned rest := by
        simpa [Path.assigned, not_or] using h
      show Path.run rest (head.run memory) name = memory name
      rw [ih hsplit.2]
      cases head with
      | assign targets value => exact if_neg hsplit.1
      | test condition outcome => rfl

/-! ## Trails -/

/-- The path up to a point of an exploration, and whether the store could follow it. -/
structure Trail where
  /-- The path. -/
  path : Path := []
  /-- Whether every assignment on the path was one that the store can follow. -/
  clean : Bool := true

/-- Whether the store can follow an assignment: what is captured is the same for all targets, and
each of them can be assigned.  The value is resolved before the statement and the targets after
it, as a declaration binds its name in between. -/
def Exploration.canFollow (before after : Exploration) (targets : List String) (value : Expr) :
    Bool :=
  match targets.mapM after.lookup, value.resolve before.bindings with
  | .ok handles, .ok t => before.store.admitsEach t (before.store.current t) handles
  | _, _ => false

namespace Trail

/-- The trail behind a statement that gives a value.  One that failed is no part of the path; it
must not have changed the store. -/
def write (trail : Trail) (before : Exploration) (targets : List String) (value : Expr) :
    Exploration × Option Error → Trail
  | (after, none) =>
      { path := trail.path ++ [.assign targets value]
        clean := trail.clean && before.canFollow after targets value }
  | (after, some _) => { trail with clean := trail.clean && decide (after.store = before.store) }

/-- The trail behind a test. -/
def take (trail : Trail) (condition : Expr) (outcome : Bool) : Trail :=
  { trail with path := trail.path ++ [.test condition outcome] }

end Trail

/-! ## Checks -/

/-- A check, with the path it is made on and the state in which it is made. -/
structure Checkpoint where
  /-- The line of the branch. -/
  line : Line
  /-- The path. -/
  trail : Trail
  /-- The state. -/
  state : Exploration

namespace Checkpoint

/-- What the solver answers. -/
def answer (solver : Backend) (check : Checkpoint) : Answer :=
  solver check.state.asked check.state.store.assertions

/-- The violation that is filed, if there is one. -/
def violation? (solver : Backend) (check : Checkpoint) : Option Violation :=
  match check.answer solver with
  | .unsat => some (.ofStore check.line check.state.store)
  | _ => none

/-- The test case that is filed, if there is one. -/
def testCase? (solver : Backend) (check : Checkpoint) : Option TestCase :=
  match check.answer solver with
  | .sat model => some (.ofModel check.line model check.state.params check.state.store)
  | _ => none

end Checkpoint

/-! ## Recorded explorations -/

namespace Exploration

/-- Count a loop. -/
def countLoop (state : Exploration) : Exploration :=
  { state with stats := { state.stats with loops := state.stats.loops + 1 } }

/-- Count a check made for a loop. -/
def countLoopCheck (state : Exploration) : Exploration :=
  { state with stats := { state.stats with loopChecks := state.stats.loopChecks + 1 } }

/-- Start to note the lines reached in a loop. -/
def enterLoop (state : Exploration) : Exploration :=
  { state with frames := [] :: state.frames }

/-- Forget the lines reached in the innermost loop. -/
def leaveLoop (state : Exploration) : Exploration :=
  { state with frames := state.frames.tail }

end Exploration

/-- An exploration with the path it is on and the checks it has made. -/
structure Recorded where
  /-- The state of the exploration. -/
  state : Exploration
  /-- The path it is on. -/
  trail : Trail := {}
  /-- The checks made so far. -/
  checks : List Checkpoint := []

namespace Recorded

/-- Change the state and nothing else. -/
def update (recorded : Recorded) (change : Exploration → Exploration) : Recorded :=
  { recorded with state := change recorded.state }

/-- Make a check and record it. -/
def check (solver : Backend) (line : Line) (recorded : Recorded) : Recorded :=
  { recorded with
    state := recorded.state.check solver line
    checks := recorded.checks ++ [⟨line, recorded.trail, recorded.state⟩] }

/-- Go on with a store to which a test was added. -/
def take (recorded : Recorded) (store : Store) (condition : Expr) (outcome : Bool) : Recorded :=
  { recorded with
    state := { recorded.state with store }
    trail := recorded.trail.take condition outcome }

/-- Go back to the path of an earlier point. -/
def backTo (recorded earlier : Recorded) : Recorded :=
  { recorded with
    state := { recorded.state with store := earlier.state.store }
    trail := earlier.trail }

/-- Execute a statement that gives a value. -/
def write (recorded : Recorded) (line : Line) (targets : List String) (value : Expr)
    (run : Exploration → Exploration × Option Error) : Recorded :=
  { recorded with
    state := Exploration.settle line (run recorded.state)
    trail := recorded.trail.write recorded.state targets value (run recorded.state) }

/-- The branch taken when the test of a conditional is false. -/
def elseBranch (solver : Backend) (tracing : Bool) (line : Line) (condition : Expr) (test : Term)
    (position : Nat) (orelse : Recorded → Recorded) (recorded : Recorded) : Recorded :=
  match recorded.state.store.push (.not test) with
  | .error error => recorded.update fun state => state.fail line error
  | .ok (_, store) =>
      orelse (((recorded.take store condition false).update
        fun state => state.noteElse tracing position).check solver line)

/-- A conditional, given how to explore its branches. -/
def conditional (solver : Backend) (tracing : Bool) (line : Line) (condition : Expr)
    (body : Recorded → Recorded) (orelse : Option (Recorded → Recorded)) (recorded : Recorded) :
    Recorded :=
  match condition.constraint recorded.state.bindings with
  | .error error => recorded.update fun state => state.fail line error
  | .ok test =>
      let entered := recorded.update fun state => state.enterConditional tracing line test
      match entered.state.store.push test with
      | .error error => entered.update fun state => state.fail line error
      | .ok (_, store) =>
          let back := ((body (entered.take store condition true)).check solver line).backTo recorded
          match orelse with
          | none => back
          | some orelse =>
              (back.elseBranch solver tracing line condition test recorded.state.trace.length
                orelse).backTo recorded

/-- A loop, given how to explore its body. -/
def unroll (solver : Backend) (line : Line) (condition : Expr) (body : Recorded → Recorded)
    (recorded : Recorded) : Recorded :=
  match condition.constraint recorded.state.bindings with
  | .error error => recorded.update fun state => state.fail line error
  | .ok test =>
      let counted := recorded.update Exploration.countLoop
      match counted.state.store.push test with
      | .error error => counted.update fun state => state.fail line error
      | .ok (_, store) =>
          let taken := (counted.take store condition true).update Exploration.countLoopCheck
          let explored := body ((taken.check solver line).update Exploration.enterLoop)
          (explored.update Exploration.leaveLoop).backTo recorded

/-- Execute a statement unless its line was already reached in the innermost loop. -/
def step (line : Line) (run : Recorded → Recorded) (recorded : Recorded) : Recorded :=
  match recorded.state.reach line with
  | none => recorded.update Exploration.skip
  | some reached => run { recorded with state := reached }

mutual

/-- Execute one statement. -/
def execute (solver : Backend) (tracing : Bool) : Stmt → Recorded → Recorded
  | .declaration line target annotation (some value) =>
      step line fun recorded => recorded.write line [target] value fun state =>
        state.declare target annotation (some value)
  | .declaration line target annotation none =>
      step line fun recorded => recorded.update fun state =>
        Exploration.settle line (state.declare target annotation none)
  | .reassignment line targets value =>
      step line fun recorded => recorded.write line targets value fun state =>
        state.reassign targets value
  | .conditional line test body [] =>
      step line (conditional solver tracing line test (executeAll solver tracing body) none)
  | .conditional line test body (first :: rest) =>
      step line (conditional solver tracing line test (executeAll solver tracing body)
        (some (executeAll solver tracing (first :: rest))))
  | .loop line test body => step line (unroll solver line test (executeAll solver tracing body))
  | .other line _ => step line fun recorded => recorded

/-- Execute statements in their order. -/
def executeAll (solver : Backend) (tracing : Bool) : List Stmt → Recorded → Recorded
  | [] => fun recorded => recorded
  | stmt :: rest => fun recorded =>
      executeAll solver tracing rest (execute solver tracing stmt recorded)

end

/-! ## Recording does not change the exploration -/

variable {solver : Backend} {tracing : Bool}

theorem state_step {line : Line} {run : Recorded → Recorded}
    {run' : Exploration → Exploration × Option Error}
    (h : ∀ recorded, (run recorded).state = Exploration.settle line (run' recorded.state))
    (recorded : Recorded) :
    (step line run recorded).state = Exploration.step line run' recorded.state := by
  unfold step Exploration.step
  cases hreach : recorded.state.reach line with
  | none => rfl
  | some reached => exact h { recorded with state := reached }

theorem state_elseBranch {line : Line} {condition : Expr} {test : Term} {position : Nat}
    {orelse : Recorded → Recorded} {orelse' : Exploration → Exploration}
    (h : ∀ recorded, (orelse recorded).state = orelse' recorded.state) (recorded : Recorded) :
    (elseBranch solver tracing line condition test position orelse recorded).state =
      Exploration.elseBranch solver tracing line test position orelse' recorded.state := by
  unfold elseBranch Exploration.elseBranch
  cases recorded.state.store.push (.not test) with
  | error error => rfl
  | ok pushed => exact h _

theorem state_conditional_none {line : Line} {condition : Expr} {body : Recorded → Recorded}
    {body' : Exploration → Exploration}
    (hbody : ∀ recorded, (body recorded).state = body' recorded.state) (recorded : Recorded) :
    (conditional solver tracing line condition body none recorded).state =
      Exploration.settle line
        (Exploration.conditional solver tracing line condition body' none recorded.state) := by
  unfold conditional Exploration.conditional
  cases condition.constraint recorded.state.bindings with
  | error error => rfl
  | ok test =>
      dsimp only [update]
      cases (recorded.state.enterConditional tracing line test).store.push test with
      | error error => rfl
      | ok pushed =>
          simp only [backTo, check, hbody]
          rfl

theorem state_conditional_some {line : Line} {condition : Expr} {body orelse : Recorded → Recorded}
    {body' orelse' : Exploration → Exploration}
    (hbody : ∀ recorded, (body recorded).state = body' recorded.state)
    (horelse : ∀ recorded, (orelse recorded).state = orelse' recorded.state)
    (recorded : Recorded) :
    (conditional solver tracing line condition body (some orelse) recorded).state =
      Exploration.settle line
        (Exploration.conditional solver tracing line condition body' (some orelse')
          recorded.state) := by
  unfold conditional Exploration.conditional
  cases condition.constraint recorded.state.bindings with
  | error error => rfl
  | ok test =>
      dsimp only [update]
      cases (recorded.state.enterConditional tracing line test).store.push test with
      | error error => rfl
      | ok pushed =>
          simp only [backTo, state_elseBranch horelse, check, hbody]
          rfl

theorem state_unroll {line : Line} {condition : Expr} {body : Recorded → Recorded}
    {body' : Exploration → Exploration}
    (hbody : ∀ recorded, (body recorded).state = body' recorded.state) (recorded : Recorded) :
    (unroll solver line condition body recorded).state =
      Exploration.settle line
        (Exploration.unroll solver line condition body' recorded.state) := by
  unfold unroll Exploration.unroll
  cases condition.constraint recorded.state.bindings with
  | error error => rfl
  | ok test =>
      dsimp only [update, Exploration.countLoop]
      cases recorded.state.store.push test with
      | error error => rfl
      | ok pushed =>
          simp only [backTo, check, hbody]
          rfl

mutual

/-- A recorded statement does what the statement does. -/
theorem state_execute (solver : Backend) (tracing : Bool) :
    ∀ (stmt : Stmt) (recorded : Recorded),
      (execute solver tracing stmt recorded).state =
        Exploration.execute solver tracing stmt recorded.state
  | .declaration _ _ _ (some _), recorded => state_step (fun _ => rfl) recorded
  | .declaration _ _ _ none, recorded => state_step (fun _ => rfl) recorded
  | .reassignment _ _ _, recorded => state_step (fun _ => rfl) recorded
  | .conditional _ _ body [], recorded =>
      state_step (state_conditional_none (state_executeAll solver tracing body)) recorded
  | .conditional _ _ body (first :: rest), recorded =>
      state_step (state_conditional_some (state_executeAll solver tracing body)
        (state_executeAll solver tracing (first :: rest))) recorded
  | .loop _ _ body, recorded =>
      state_step (state_unroll (state_executeAll solver tracing body)) recorded
  | .other _ _, recorded => state_step (fun _ => rfl) recorded

/-- A recorded exploration does what the exploration does. -/
theorem state_executeAll (solver : Backend) (tracing : Bool) :
    ∀ (stmts : List Stmt) (recorded : Recorded),
      (executeAll solver tracing stmts recorded).state =
        Exploration.explore solver tracing stmts recorded.state
  | [], _ => rfl
  | stmt :: rest, recorded => by
      show (executeAll solver tracing rest (execute solver tracing stmt recorded)).state =
        Exploration.explore solver tracing rest
          (Exploration.execute solver tracing stmt recorded.state)
      rw [state_executeAll solver tracing rest, state_execute solver tracing stmt]

end

end Recorded

/-! ## Functions -/

mutual

/-- Whether every tag in the statement that names an operator names one of the kind of its node. -/
def Stmt.wellKinded : Stmt → Bool
  | .declaration _ _ _ value => value.all Expr.wellKinded
  | .reassignment _ _ value => value.wellKinded
  | .conditional _ test body orelse =>
      test.wellKinded && Stmt.wellKindedAll body && Stmt.wellKindedAll orelse
  | .loop _ test body => test.wellKinded && Stmt.wellKindedAll body
  | .other _ _ => true

/-- Whether the tags in several statements name operators of the kinds of their nodes. -/
def Stmt.wellKindedAll : List Stmt → Bool
  | [] => true
  | stmt :: rest => stmt.wellKinded && Stmt.wellKindedAll rest

end

/-- Whether the tags in a function name operators of the kinds of their nodes. -/
def Function.wellKinded (function : Function) : Bool :=
  Stmt.wellKindedAll function.body

namespace Settings

/-- The exploration of a function with the bounded solver, recorded. -/
def record (settings : Settings) (function : Function) : Recorded :=
  Recorded.executeAll settings.boundedBackend settings.traceBranches function.body
    { state := (Exploration.start (settings.maxPathConstraints.map UInt64.toNat)).bindParams
        function.params }

/-- The checks made in the exploration of a function. -/
def checks (settings : Settings) (function : Function) : List Checkpoint :=
  (settings.record function).checks

theorem state_record (settings : Settings) (function : Function) :
    (settings.record function).state = settings.explore settings.boundedBackend function :=
  Recorded.state_executeAll _ _ _ _

end Settings

end BranchWitness
