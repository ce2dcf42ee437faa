import BranchWitness.Proofs.Independence
import BranchWitness.Proofs.Recording

/-!
# What executing a statement does

A statement is left out or executed (`Exploration.execute_eq_step`), and what an execution comes to
is told here once, for conditionals and loops by the ways they can go
(`Exploration.perform_conditional`, `Exploration.perform_loop`):

* the test does not resolve, and the state is as before;
* there is no room for the test, and the state is as before but for the counts and the trace;
* the test is taken, and the branches are explored (`Exploration.trueBranch`,
  `Exploration.falseBranch`, `Exploration.loopBranch`).

In the last case there is room for the negated test too, because the store is the one in which there
was room for the test; so the other branch is never refused.

From these equations follows what every exploration is made of (`Exploration.Leads`): a few moves,
each of which touches a few parts of the state, and ways back to the store of an earlier state.
What the moves and the ways back keep, every exploration keeps.
-/

namespace BranchWitness

/-! ## Room for a test -/

namespace Store

/-- Whether one more test can be taken. -/
def hasRoom (store : Store) : Bool :=
  match store.capacity with
  | some limit => decide (store.branch.length < limit)
  | none => true

/-- The store with a test at the end. -/
def take (store : Store) (test : Term) : Store :=
  { store with branch := store.branch ++ [test] }

/-- The failure to take a test. -/
def refusal (store : Store) : Error :=
  .capacityExceeded (store.capacity.getD 0)

variable {store : Store}

theorem push_of_hasRoom (h : store.hasRoom = true) (test : Term) :
    store.push test = .ok (store.branch.length, store.take test) := by
  obtain ⟨named, branch, capacity⟩ := store
  cases capacity with
  | none => rfl
  | some limit =>
      have hroom : ¬ limit ≤ branch.length := by
        have hlt : branch.length < limit := of_decide_eq_true h
        omega
      exact if_neg hroom

theorem push_of_not_hasRoom (h : store.hasRoom = false) (test : Term) :
    store.push test = .error store.refusal := by
  obtain ⟨named, branch, capacity⟩ := store
  cases capacity with
  | none => cases h
  | some limit =>
      have hfull : limit ≤ branch.length := by
        have hnot : ¬ branch.length < limit := of_decide_eq_false h
        omega
      exact if_pos hfull

theorem hasRoom_of_capacity_none (h : store.capacity = none) : store.hasRoom = true := by
  rw [hasRoom, h]

end Store

namespace Exploration

/-! ## Reaching a statement -/

/-- Note a line in the innermost frame, if there is one. -/
def noteLine (line : Line) : List (List Line) → List (List Line)
  | [] => []
  | frame :: outer => (line :: frame) :: outer

/-- A statement is reached unless its line is in the innermost frame. -/
theorem eq_of_reach {line : Line} {state reached : Exploration}
    (h : state.reach line = some reached) :
    reached = { state with frames := noteLine line state.frames } := by
  unfold reach at h
  split at h
  · rename_i hframes
    cases h
    rw [hframes, noteLine, ← hframes]
  · rename_i frame outer hframes
    split at h
    · cases h
    · cases h
      rw [hframes, noteLine]

theorem mem_of_reach_eq_none {line : Line} {state : Exploration} (h : state.reach line = none) :
    ∃ frame outer, state.frames = frame :: outer ∧ line ∈ frame := by
  unfold reach at h
  split at h
  · cases h
  · rename_i frame outer hframes
    split at h
    · rename_i hline
      exact ⟨frame, outer, hframes, hline⟩
    · cases h

theorem step_of_reach_eq_none {line : Line} {state : Exploration} (h : state.reach line = none)
    (run : Exploration → Exploration × Option Error) : step line run state = state.skip := by
  rw [step, h]

theorem step_of_reach_eq_some {line : Line} {state reached : Exploration}
    (h : state.reach line = some reached) (run : Exploration → Exploration × Option Error) :
    step line run state = settle line (run reached) := by
  rw [step, h]

/-! ## Binding a name -/

/-- A name that is bound had its variable before, or gets a new one. -/
theorem eq_of_bind {state bound : Exploration} {name type : String} {x : Var}
    (h : state.bind name type = .ok (x, bound)) :
    bound = state ∨ state.bindings.find? name = none ∧ ∃ sort, bound = { state with
      bindings := state.bindings.insert name ⟨state.nextId, name, sort⟩
      nextId := state.nextId + 1 } := by
  unfold bind at h
  split at h
  · cases h
  · rename_i sort hsort
    split at h
    · split at h
      · cases h
        exact .inl rfl
      · cases h
    · rename_i hnone
      cases h
      exact .inr ⟨hnone, sort, rfl⟩

/-! ## Branches -/

/-- Go on with a test on the path. -/
def take (state : Exploration) (test : Term) : Exploration :=
  { state with store := state.store.take test }

/-- Go back to the path of an earlier state. -/
def backTo (state earlier : Exploration) : Exploration :=
  { state with store := earlier.store }

/-- The state in which the body of a conditional is explored. -/
def enterTrue (tracing : Bool) (line : Line) (test : Term) (state : Exploration) : Exploration :=
  (state.enterConditional tracing line test).take test

/-- The branch in which the test of a conditional is true, and back. -/
def trueBranch (solver : Backend) (tracing : Bool) (line : Line) (test : Term)
    (body : Exploration → Exploration) (state : Exploration) : Exploration :=
  ((body (state.enterTrue tracing line test)).check solver line).backTo state

/-- The state in which the other branch of a conditional is explored, from the one behind the
first. -/
def enterFalse (solver : Backend) (tracing : Bool) (line : Line) (test : Term) (position : Nat)
    (state : Exploration) : Exploration :=
  ((state.take (.not test)).noteElse tracing position).check solver line

/-- Both branches of a conditional, and back. -/
def falseBranch (solver : Backend) (tracing : Bool) (line : Line) (test : Term)
    (body orelse : Exploration → Exploration) (state : Exploration) : Exploration :=
  (orelse ((state.trueBranch solver tracing line test body).enterFalse solver tracing line test
    state.trace.length)).backTo state

/-- The branches of a conditional that there are, and back. -/
def branches (solver : Backend) (tracing : Bool) (line : Line) (test : Term)
    (body : Exploration → Exploration) (orelse : Option (Exploration → Exploration))
    (state : Exploration) : Exploration :=
  match orelse with
  | none => state.trueBranch solver tracing line test body
  | some orelse => state.falseBranch solver tracing line test body orelse

/-- The state in which the body of a loop is explored. -/
def enterBody (solver : Backend) (line : Line) (test : Term) (state : Exploration) : Exploration :=
  ((state.countLoop.take test).countLoopCheck.check solver line).enterLoop

/-- The body of a loop, and back. -/
def loopBranch (solver : Backend) (line : Line) (test : Term) (body : Exploration → Exploration)
    (state : Exploration) : Exploration :=
  (body (state.enterBody solver line test)).leaveLoop.backTo state

variable {solver : Backend} {tracing : Bool} {line : Line} {condition : Expr} {test : Term}
  {body : Exploration → Exploration} {orelse : Option (Exploration → Exploration)}
  {state : Exploration} {error : Error}

theorem store_enterConditional (state : Exploration) :
    (state.enterConditional tracing line test).store = state.store := by
  cases tracing <;> rfl

theorem conditional_of_error (h : condition.constraint state.bindings = .error error) :
    state.conditional solver tracing line condition body orelse = (state, some error) := by
  simp only [conditional, h]

theorem conditional_of_full (h : condition.constraint state.bindings = .ok test)
    (hfull : state.store.hasRoom = false) :
    state.conditional solver tracing line condition body orelse =
      (state.enterConditional tracing line test, some state.store.refusal) := by
  simp only [conditional, h, store_enterConditional, Store.push_of_not_hasRoom hfull]

theorem conditional_of_room (h : condition.constraint state.bindings = .ok test)
    (hroom : state.store.hasRoom = true) :
    state.conditional solver tracing line condition body orelse =
      (state.branches solver tracing line test body orelse, none) := by
  have hbody : { state.enterConditional tracing line test with
      store := state.store.take test } = state.enterTrue tracing line test := by
    rw [enterTrue, take, store_enterConditional]
  simp only [conditional, h, store_enterConditional, Store.push_of_hasRoom hroom, hbody]
  cases orelse with
  | none => rfl
  | some orelse =>
      -- the store is the one in which there was room for the test
      simp only [elseBranch, Store.push_of_hasRoom hroom]
      rfl

/-- The three ways a conditional can go. -/
theorem conditional_cases (solver : Backend) (tracing : Bool) (line : Line) (condition : Expr)
    (body : Exploration → Exploration) (orelse : Option (Exploration → Exploration))
    (state : Exploration) :
    (∃ error, condition.constraint state.bindings = .error error ∧
      state.conditional solver tracing line condition body orelse = (state, some error)) ∨
    (∃ test, condition.constraint state.bindings = .ok test ∧ state.store.hasRoom = false ∧
      state.conditional solver tracing line condition body orelse =
        (state.enterConditional tracing line test, some state.store.refusal)) ∨
    ∃ test, condition.constraint state.bindings = .ok test ∧ state.store.hasRoom = true ∧
      state.conditional solver tracing line condition body orelse =
        (state.branches solver tracing line test body orelse, none) := by
  cases htest : condition.constraint state.bindings with
  | error error => exact .inl ⟨error, rfl, conditional_of_error htest⟩
  | ok test =>
      cases hroom : state.store.hasRoom with
      | false => exact .inr (.inl ⟨test, rfl, rfl, conditional_of_full htest hroom⟩)
      | true => exact .inr (.inr ⟨test, rfl, rfl, conditional_of_room htest hroom⟩)

theorem unroll_of_error (h : condition.constraint state.bindings = .error error) :
    state.unroll solver line condition body = (state, some error) := by
  simp only [unroll, h]

theorem unroll_of_full (h : condition.constraint state.bindings = .ok test)
    (hfull : state.store.hasRoom = false) :
    state.unroll solver line condition body = (state.countLoop, some state.store.refusal) := by
  simp only [unroll, h, Store.push_of_not_hasRoom hfull]
  rfl

theorem unroll_of_room (h : condition.constraint state.bindings = .ok test)
    (hroom : state.store.hasRoom = true) :
    state.unroll solver line condition body =
      (state.loopBranch solver line test body, none) := by
  simp only [unroll, h, Store.push_of_hasRoom hroom]
  rfl

/-- The three ways a loop can go. -/
theorem unroll_cases (solver : Backend) (line : Line) (condition : Expr)
    (body : Exploration → Exploration) (state : Exploration) :
    (∃ error, condition.constraint state.bindings = .error error ∧
      state.unroll solver line condition body = (state, some error)) ∨
    (∃ test, condition.constraint state.bindings = .ok test ∧ state.store.hasRoom = false ∧
      state.unroll solver line condition body = (state.countLoop, some state.store.refusal)) ∨
    ∃ test, condition.constraint state.bindings = .ok test ∧ state.store.hasRoom = true ∧
      state.unroll solver line condition body =
        (state.loopBranch solver line test body, none) := by
  cases htest : condition.constraint state.bindings with
  | error error => exact .inl ⟨error, rfl, unroll_of_error htest⟩
  | ok test =>
      cases hroom : state.store.hasRoom with
      | false => exact .inr (.inl ⟨test, rfl, rfl, unroll_of_full htest hroom⟩)
      | true => exact .inr (.inr ⟨test, rfl, rfl, unroll_of_room htest hroom⟩)

/-! ## Statements -/

/-- How to explore the other branch of a conditional, if there is one. -/
def elseRun (run : List Stmt → Exploration → Exploration) :
    List Stmt → Option (Exploration → Exploration)
  | [] => none
  | first :: rest => some (run (first :: rest))

/-- What executing a statement does once it is reached. -/
def perform (solver : Backend) (tracing : Bool) : Stmt → Exploration → Exploration × Option Error
  | .declaration _ target annotation value, state => state.declare target annotation value
  | .reassignment _ targets value, state => state.reassign targets value
  | .conditional line test body orelse, state =>
      state.conditional solver tracing line test (explore solver tracing body)
        (elseRun (explore solver tracing) orelse)
  | .loop line test body, state => state.unroll solver line test (explore solver tracing body)
  | .other _ _, state => (state, none)

theorem perform_conditional (solver : Backend) (tracing : Bool) (line : Line) (condition : Expr)
    (body orelse : List Stmt) (state : Exploration) :
    (∃ error, condition.constraint state.bindings = .error error ∧
      perform solver tracing (.conditional line condition body orelse) state =
        (state, some error)) ∨
    (∃ test, condition.constraint state.bindings = .ok test ∧ state.store.hasRoom = false ∧
      perform solver tracing (.conditional line condition body orelse) state =
        (state.enterConditional tracing line test, some state.store.refusal)) ∨
    ∃ test, condition.constraint state.bindings = .ok test ∧ state.store.hasRoom = true ∧
      perform solver tracing (.conditional line condition body orelse) state =
        (state.branches solver tracing line test (explore solver tracing body)
          (elseRun (explore solver tracing) orelse), none) :=
  conditional_cases solver tracing line condition _ _ state

theorem perform_loop (solver : Backend) (tracing : Bool) (line : Line) (condition : Expr)
    (body : List Stmt) (state : Exploration) :
    (∃ error, condition.constraint state.bindings = .error error ∧
      perform solver tracing (.loop line condition body) state = (state, some error)) ∨
    (∃ test, condition.constraint state.bindings = .ok test ∧ state.store.hasRoom = false ∧
      perform solver tracing (.loop line condition body) state =
        (state.countLoop, some state.store.refusal)) ∨
    ∃ test, condition.constraint state.bindings = .ok test ∧ state.store.hasRoom = true ∧
      perform solver tracing (.loop line condition body) state =
        (state.loopBranch solver line test (explore solver tracing body), none) :=
  unroll_cases solver line condition _ state

theorem execute_eq_step (solver : Backend) (tracing : Bool) (stmt : Stmt) :
    execute solver tracing stmt = step stmt.line (perform solver tracing stmt) := by
  cases stmt with
  | declaration line target annotation value => rw [execute]; rfl
  | reassignment line targets value => rw [execute]; rfl
  | conditional line test body orelse => cases orelse <;> (rw [execute]; rfl)
  | loop line test body => rw [execute]; rfl
  | other line label => rw [execute]; rfl

theorem explore_cons (solver : Backend) (tracing : Bool) (stmt : Stmt) (rest : List Stmt)
    (state : Exploration) : explore solver tracing (stmt :: rest) state =
      explore solver tracing rest (execute solver tracing stmt state) := by
  rw [explore]

theorem explore_nil (solver : Backend) (tracing : Bool) (state : Exploration) :
    explore solver tracing [] state = state := by
  rw [explore]

/-! ## What explorations are made of -/

/-- What the findings rest on: the state without the parameters, the frames, the counts of
statements and the diagnostics of failures. -/
def findings (state : Exploration) : Exploration :=
  { state with
    params := []
    frames := []
    diagnostics := state.diagnostics.filter fun diagnostic => diagnostic.kind.isAnswer
    stats := { state.stats with
      conditionals := 0, loops := 0, loopChecks := 0, skippedStatements := 0 } }

theorem findings_fail (state : Exploration) (line : Line) (error : Error) :
    (state.fail line error).findings = state.findings := by
  unfold fail
  cases hdiagnostic : Diagnostic.ofError? line error with
  | none => rfl
  | some diagnostic =>
      have hfailure := Diagnostic.isAnswer_of_ofError? hdiagnostic
      simp [findings, hfailure]

/-- The second state comes out of the first by what explorations do.  A test and a value may have
been resolved in an earlier state than the one in which they are taken. -/
inductive Leads (solver : Backend) (tracing : Bool) : Exploration → Exploration → Prop
  | same {first second : Exploration} (h : second.findings = first.findings) :
      Leads solver tracing first second
  | trans {first second third : Exploration} (h : Leads solver tracing first second)
      (h' : Leads solver tracing second third) : Leads solver tracing first third
  | bind {state bound : Exploration} {name type : String} {x : Var}
      (h : state.bind name type = .ok (x, bound)) : Leads solver tracing state bound
  | enter {state : Exploration} {condition : Expr} {test : Term} (line : Line)
      (h : condition.constraint state.bindings = .ok test) :
      Leads solver tracing state (state.enterConditional tracing line test)
  | take {first second : Exploration} {condition : Expr} {test t : Term}
      (h : Leads solver tracing first second)
      (htest : condition.constraint first.bindings = .ok test) (ht : t = test ∨ t = .not test) :
      Leads solver tracing first (second.take t)
  | assign {first second : Exploration} {value : Expr} {t : Term} {x : Var} {store : Store}
      (h : Leads solver tracing first second) (ht : value.resolve first.bindings = .ok t)
      (hx : second.bindings.Contains x) (hassign : second.store.assign x t = .ok store) :
      Leads solver tracing first { second with store }
  | note (state : Exploration) (position : Nat) :
      Leads solver tracing state (state.noteElse tracing position)
  | check (state : Exploration) (line : Line) :
      Leads solver tracing state (state.check solver line)
  | back {first second : Exploration} (h : Leads solver tracing first second) :
      Leads solver tracing first (second.backTo first)

namespace Leads

theorem refl (state : Exploration) : Leads solver tracing state state :=
  .same rfl

theorem settle {first : Exploration} {result : Exploration × Option Error}
    (h : Leads solver tracing first result.1) (line : Line) :
    Leads solver tracing first (Exploration.settle line result) := by
  obtain ⟨second, failure⟩ := result
  cases failure with
  | none => exact h
  | some error => exact h.trans (.same (findings_fail second line error))

theorem bindParam (state : Exploration) (param : Param) :
    Leads solver tracing state (state.bindParam param) := by
  unfold Exploration.bindParam
  split
  · exact .same (findings_fail state 0 _)
  · rename_i x bound hbind
    have hbound : Leads solver tracing state bound := .bind hbind
    split
    · exact hbound
    · exact hbound.trans (.same rfl)

theorem bindParams (state : Exploration) (params : List Param) :
    Leads solver tracing state (state.bindParams params) := by
  unfold Exploration.bindParams
  induction params generalizing state with
  | nil => exact .refl state
  | cons param rest ih => exact (bindParam state param).trans (ih _)

theorem declare (state : Exploration) (target annotation : String) (value : Option Expr) :
    Leads solver tracing state (state.declare target annotation value).1 := by
  cases value with
  | none =>
      unfold Exploration.declare
      rw [Option.mapM_none]
      cases hbind : state.bind target annotation with
      | error error => exact .refl state
      | ok result => exact .bind hbind
  | some value =>
      rw [declare_some]
      split
      · exact .refl state
      · exact .refl state
      · rename_i t x bound hresolve hbind
        have hbound : Leads solver tracing state bound := .bind hbind
        split
        · exact hbound
        · rename_i store hassign
          have hx : bound.bindings.Contains x := ⟨target, (keeps_of_bind hbind).2⟩
          exact hbound.assign hresolve hx hassign

theorem contains_of_mapM_lookup {targets : List String} {handles : List Var}
    (h : targets.mapM state.lookup = .ok handles) : ∀ x ∈ handles, state.bindings.Contains x := by
  induction targets generalizing handles with
  | nil =>
      cases h
      simp
  | cons target rest ih =>
      rw [List.mapM_cons] at h
      obtain ⟨x, hx, h⟩ := Expr.exists_of_bind_eq_ok h
      obtain ⟨others, hothers, h⟩ := Expr.exists_of_bind_eq_ok h
      cases h
      have hcontains : state.bindings.Contains x := by
        unfold lookup at hx
        split at hx
        · cases hx
          exact ⟨target, by assumption⟩
        · cases hx
      exact List.forall_mem_cons.mpr ⟨hcontains, ih hothers⟩

theorem assignEach {value : Expr} {t : Term} (h : value.resolve state.bindings = .ok t)
    {handles : List Var} (hhandles : ∀ x ∈ handles, state.bindings.Contains x) {store : Store}
    (hleads : Leads solver tracing state { state with store }) :
    Leads solver tracing state
      { state with store := (Exploration.assignEach t handles store).1 } := by
  induction handles generalizing store with
  | nil => exact hleads
  | cons x rest ih =>
      obtain ⟨hx, hrest⟩ := List.forall_mem_cons.mp hhandles
      rw [Exploration.assignEach]
      split
      · exact hleads
      · rename_i next hassign
        have hnext := hleads.assign h hx hassign
        exact ih hrest hnext

theorem reassign (state : Exploration) (targets : List String) (value : Expr) :
    Leads solver tracing state (state.reassign targets value).1 := by
  unfold Exploration.reassign
  cases hhandles : targets.mapM state.lookup with
  | error error => exact .refl state
  | ok handles =>
      cases hresolve : value.resolve state.bindings with
      | error error => exact .refl state
      | ok t => exact assignEach hresolve (contains_of_mapM_lookup hhandles) (.refl state)

theorem trueBranch (hbody : ∀ state, Leads solver tracing state (body state)) (line : Line)
    (h : condition.constraint state.bindings = .ok test) :
    Leads solver tracing state (state.trueBranch solver tracing line test body) := by
  have hentered : Leads solver tracing state (state.enterTrue tracing line test) :=
    (Leads.enter line h).take h (.inl rfl)
  exact .back ((hentered.trans (hbody _)).trans (.check _ line))

theorem branches (hbody : ∀ state, Leads solver tracing state (body state))
    (horelse : ∀ other ∈ orelse, ∀ state, Leads solver tracing state (other state)) (line : Line)
    (h : condition.constraint state.bindings = .ok test) :
    Leads solver tracing state (state.branches solver tracing line test body orelse) := by
  have hfirst := trueBranch hbody line h
  cases orelse with
  | none => exact hfirst
  | some other =>
      -- the negated test goes back to the state in which the conditional was entered
      have htaken := hfirst.take h (.inr rfl)
      have hentered := (htaken.trans (.note _ state.trace.length)).trans (.check _ line)
      exact .back (hentered.trans (horelse other rfl _))

theorem conditional (hbody : ∀ state, Leads solver tracing state (body state))
    (horelse : ∀ other ∈ orelse, ∀ state, Leads solver tracing state (other state)) (line : Line)
    (condition : Expr) (state : Exploration) :
    Leads solver tracing state
      (state.conditional solver tracing line condition body orelse).1 := by
  obtain ⟨error, -, heq⟩ | ⟨test, htest, -, heq⟩ | ⟨test, htest, -, heq⟩ :=
    conditional_cases solver tracing line condition body orelse state
  · rw [heq]
    exact .refl state
  · rw [heq]
    exact .enter line htest
  · rw [heq]
    exact branches hbody horelse line htest

theorem unroll (hbody : ∀ state, Leads solver tracing state (body state)) (line : Line)
    (condition : Expr) (state : Exploration) :
    Leads solver tracing state (state.unroll solver line condition body).1 := by
  obtain ⟨error, -, heq⟩ | ⟨test, -, -, heq⟩ | ⟨test, htest, -, heq⟩ :=
    unroll_cases solver line condition body state
  · rw [heq]
    exact .refl state
  · rw [heq]
    exact .same rfl
  · rw [heq]
    have hcounted : Leads solver tracing state state.countLoop := .same rfl
    have htaken : Leads solver tracing state (state.countLoop.take test).countLoopCheck :=
      (hcounted.take htest (.inl rfl)).trans (.same rfl)
    have hentered : Leads solver tracing state (state.enterBody solver line test) :=
      (htaken.trans (.check _ line)).trans (.same rfl)
    exact .back ((hentered.trans (hbody _)).trans (.same rfl))

theorem step (line : Line) {run : Exploration → Exploration × Option Error}
    (hrun : ∀ state, Leads solver tracing state (run state).1) (state : Exploration) :
    Leads solver tracing state (Exploration.step line run state) := by
  cases hreach : state.reach line with
  | none =>
      rw [step_of_reach_eq_none hreach]
      exact .same rfl
  | some reached =>
      rw [step_of_reach_eq_some hreach]
      have hreached : Leads solver tracing state reached := by
        rw [eq_of_reach hreach]
        exact .same rfl
      exact (hreached.trans (hrun reached)).settle line

mutual

theorem execute (solver : Backend) (tracing : Bool) :
    ∀ (stmt : Stmt) (state : Exploration),
      Leads solver tracing state (Exploration.execute solver tracing stmt state)
  | .declaration line target annotation value => by
      rw [execute_eq_step]
      exact step line fun state => declare state target annotation value
  | .reassignment line targets value => by
      rw [execute_eq_step]
      exact step line fun state => reassign state targets value
  | .conditional line test body orelse => by
      rw [execute_eq_step]
      refine step line fun state => conditional (explore solver tracing body) ?_ line test state
      cases orelse with
      | nil => simp [elseRun]
      | cons first rest => simpa [elseRun] using explore solver tracing (first :: rest)
  | .loop line test body => by
      rw [execute_eq_step]
      exact step line fun state => unroll (explore solver tracing body) line test state
  | .other line _ => by
      rw [execute_eq_step]
      exact step line fun state => .refl state

/-- Every exploration is made of the moves. -/
theorem explore (solver : Backend) (tracing : Bool) :
    ∀ (stmts : List Stmt) (state : Exploration),
      Leads solver tracing state (Exploration.explore solver tracing stmts state)
  | [], state => by
      rw [explore_nil]
      exact .refl state
  | stmt :: rest, state => by
      rw [explore_cons]
      exact (execute solver tracing stmt state).trans (explore solver tracing rest _)

end

end Leads

end Exploration

end BranchWitness
