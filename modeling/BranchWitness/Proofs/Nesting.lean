import BranchWitness.Proofs.Accounting

/-!
# How deep an exploration is

Conditionals and loops nest, and while an exploration is inside a branch of a conditional or the
body of a loop, that branch is *open*.  This module says through which states an exploration goes
and how many branches are open in each of them (`Exploration.Visits`), and counts the same on the
statements alone (`Stmt.nested`).

* The store has one test for each open branch (`Exploration.Visits.length_branch`).  An assignment
  rewrites tests but neither adds nor removes one, and a branch that is left takes its tests along.
* A statement is executed with as many open branches as there are around it in the program
  (`Exploration.visits_of_mem_events`).
-/

namespace BranchWitness

/-! ## Nesting of statements -/

namespace Stmt

mutual

/-- The greatest number of branches and loop bodies inside each other in a statement. -/
def depth : Stmt → Nat
  | .conditional _ _ body orelse => max (depthAll body) (depthAll orelse) + 1
  | .loop _ _ body => depthAll body + 1
  | .declaration _ _ _ _ => 0
  | .reassignment _ _ _ => 0
  | .other _ _ => 0

/-- The greatest number of branches and loop bodies inside each other in several statements. -/
def depthAll : List Stmt → Nat
  | [] => 0
  | stmt :: rest => max (depth stmt) (depthAll rest)

end

mutual

/-- The statements inside a statement, each with the number of branches and loop bodies around it,
where the statement itself has the given number around it. -/
def nestedParts (around : Nat) : Stmt → List (Stmt × Nat)
  | .conditional _ _ body orelse => nested (around + 1) body ++ nested (around + 1) orelse
  | .loop _ _ body => nested (around + 1) body
  | .declaration _ _ _ _ => []
  | .reassignment _ _ _ => []
  | .other _ _ => []

/-- The statements and those inside them, in the order of `Stmt.nodes`, each with the number of
branches and loop bodies around it. -/
def nested (around : Nat) : List Stmt → List (Stmt × Nat)
  | [] => []
  | stmt :: rest => (stmt, around) :: (nestedParts around stmt ++ nested around rest)

end

mutual

theorem map_fst_nestedParts (around : Nat) :
    ∀ stmt : Stmt, (nestedParts around stmt).map Prod.fst = parts stmt
  | .conditional _ _ body orelse => by
      rw [nestedParts, parts, List.map_append, map_fst_nested _ body, map_fst_nested _ orelse]
  | .loop _ _ body => by rw [nestedParts, parts, map_fst_nested _ body]
  | .declaration _ _ _ _ => by rw [nestedParts, parts, List.map_nil]
  | .reassignment _ _ _ => by rw [nestedParts, parts, List.map_nil]
  | .other _ _ => by rw [nestedParts, parts, List.map_nil]

theorem map_fst_nested (around : Nat) :
    ∀ stmts : List Stmt, (nested around stmts).map Prod.fst = nodes stmts
  | [] => by rw [nested, nodes, List.map_nil]
  | stmt :: rest => by
      rw [nested, nodes, List.map_cons, List.map_append, map_fst_nestedParts around stmt,
        map_fst_nested around rest]

end

theorem length_nestedParts (around : Nat) (stmt : Stmt) :
    (nestedParts around stmt).length = (parts stmt).length := by
  rw [← map_fst_nestedParts around stmt, List.length_map]

theorem length_nested (around : Nat) (stmts : List Stmt) :
    (nested around stmts).length = (nodes stmts).length := by
  rw [← map_fst_nested around stmts, List.length_map]

end Stmt

/-! ## Stores with as many tests -/

/-- The second store has as many tests as the first, and room for as many. -/
structure Store.Level (first second : Store) : Prop where
  tests : second.branch.length = first.branch.length
  capacity : second.capacity = first.capacity

namespace Store.Level

theorem refl (store : Store) : Level store store :=
  ⟨rfl, rfl⟩

theorem trans {first second third : Store} (h : Level first second) (h' : Level second third) :
    Level first third :=
  ⟨h'.tests.trans h.tests, h'.capacity.trans h.capacity⟩

/-- An assignment puts the previous value into the tests, which keeps their number. -/
theorem assign {store next : Store} {target : Var} {value : Term}
    (h : store.assign target value = .ok next) : Level store next := by
  refine ⟨?_, Exploration.capacity_assign h⟩
  obtain ⟨-, -, rfl⟩ := Store.assign_eq_ok h
  show (store.settled target).branch.length = store.branch.length
  unfold Store.settled
  split
  · exact List.length_map _
  · rfl

theorem assignEach (value : Term) (handles : List Var) (store : Store) :
    Level store (Exploration.assignEach value handles store).1 := by
  induction handles generalizing store with
  | nil => exact refl store
  | cons x rest ih =>
      rw [Exploration.assignEach]
      split
      · exact refl store
      · rename_i next hassign
        exact (assign hassign).trans (ih next)

end Store.Level

namespace Exploration

section Level

variable {solver : Backend} {tracing : Bool} {state : Exploration}

theorem level_bind {bound : Exploration} {name type : String} {x : Var}
    (h : state.bind name type = .ok (x, bound)) : state.store.Level bound.store := by
  obtain rfl | ⟨-, sort, rfl⟩ := eq_of_bind h <;> exact .refl _

theorem level_declare (state : Exploration) (target annotation : String) (value : Option Expr) :
    state.store.Level (state.declare target annotation value).1.store := by
  unfold declare
  split
  · exact .refl _
  · split
    · exact .refl _
    · rename_i x bound hbind
      split
      · exact level_bind hbind
      · split
        · exact level_bind hbind
        · rename_i store hassign
          exact (level_bind hbind).trans (.assign hassign)

theorem level_reassign (state : Exploration) (targets : List String) (value : Expr) :
    state.store.Level (state.reassign targets value).1.store := by
  unfold reassign
  split
  · exact .refl _
  · split
    · exact .refl _
    · exact .assignEach _ _ _

/-- Whatever becomes of a statement, the store has as many tests as before. -/
theorem level_perform (solver : Backend) (tracing : Bool) (stmt : Stmt) (state : Exploration) :
    state.store.Level (perform solver tracing stmt state).1.store := by
  cases stmt with
  | declaration _ target annotation value => exact level_declare state target annotation value
  | reassignment _ targets value => exact level_reassign state targets value
  | conditional line condition body orelse =>
      obtain ⟨error, -, heq⟩ | ⟨test, -, -, heq⟩ | ⟨test, -, -, heq⟩ :=
        perform_conditional solver tracing line condition body orelse state
      · rw [heq]
        exact .refl _
      · rw [heq, store_enterConditional]
        exact .refl _
      · rw [heq]
        cases orelse <;> exact .refl _
  | loop line condition body =>
      obtain ⟨error, -, heq⟩ | ⟨test, -, -, heq⟩ | ⟨test, -, -, heq⟩ :=
        perform_loop solver tracing line condition body state
      all_goals
        rw [heq]
        exact .refl _
  | other => exact .refl _

theorem level_execute (solver : Backend) (tracing : Bool) (stmt : Stmt) (state : Exploration) :
    state.store.Level (execute solver tracing stmt state).store := by
  rw [execute_eq_step]
  cases hreach : state.reach stmt.line with
  | none =>
      rw [step_of_reach_eq_none hreach]
      exact .refl _
  | some reached =>
      rw [step_of_reach_eq_some hreach, (keeps_settle stmt.line _ _).store]
      have hreached : reached.store = state.store := by rw [eq_of_reach hreach]
      rw [← hreached]
      exact level_perform solver tracing stmt reached

theorem level_explore (solver : Backend) (tracing : Bool) (stmts : List Stmt)
    (state : Exploration) : state.store.Level (explore solver tracing stmts state).store := by
  induction stmts generalizing state with
  | nil =>
      rw [explore_nil]
      exact .refl _
  | cons stmt rest ih =>
      rw [explore_cons]
      exact (level_execute solver tracing stmt state).trans (ih _)

end Level

/-! ## The states of an exploration -/

mutual

/-- Exploring the statements from the first state, the exploration comes through the second, with
the given number of branches open that were not open at the start. -/
inductive Visits (solver : Backend) (tracing : Bool) :
    List Stmt → Exploration → Nat → Exploration → Prop
  | start (stmts : List Stmt) (state : Exploration) : Visits solver tracing stmts state 0 state
  | rest {stmt : Stmt} {rest : List Stmt} {state later : Exploration} {opened : Nat}
      (h : Visits solver tracing rest (execute solver tracing stmt state) opened later) :
      Visits solver tracing (stmt :: rest) state opened later
  | inside {stmt : Stmt} {rest : List Stmt} {state reached later : Exploration} {opened : Nat}
      (hreach : state.reach stmt.line = some reached)
      (h : VisitsInside solver tracing stmt reached opened later) :
      Visits solver tracing (stmt :: rest) state opened later

/-- The same for one statement, from the state in which it is reached. -/
inductive VisitsInside (solver : Backend) (tracing : Bool) :
    Stmt → Exploration → Nat → Exploration → Prop
  | start (stmt : Stmt) (state : Exploration) : VisitsInside solver tracing stmt state 0 state
  | stop (stmt : Stmt) (state : Exploration) :
      VisitsInside solver tracing stmt state 0 (perform solver tracing stmt state).1
  /-- A declaration has bound its name. -/
  | bound {line : Line} {target annotation : String} {value : Option Expr}
      {state bound : Exploration} {x : Var} (h : state.bind target annotation = .ok (x, bound)) :
      VisitsInside solver tracing (.declaration line target annotation value) state 0 bound
  /-- A reassignment has come to some of its targets. -/
  | assigned {line : Line} {targets : List String} {value : Expr} {state : Exploration}
      {handles : List Var} {t : Term} (count : Nat)
      (hhandles : targets.mapM state.lookup = .ok handles)
      (hvalue : value.resolve state.bindings = .ok t) :
      VisitsInside solver tracing (.reassignment line targets value) state 0
        { state with store := (assignEach t (handles.take count) state.store).1 }
  /-- A conditional is entered, and its test is not taken yet. -/
  | entered {line : Line} {condition : Expr} {body orelse : List Stmt} {state : Exploration}
      {test : Term} (htest : condition.constraint state.bindings = .ok test) :
      VisitsInside solver tracing (.conditional line condition body orelse) state 0
        (state.enterConditional tracing line test)
  | body {line : Line} {condition : Expr} {body orelse : List Stmt} {state later : Exploration}
      {test : Term} {opened : Nat} (htest : condition.constraint state.bindings = .ok test)
      (hroom : state.store.hasRoom = true)
      (h : Visits solver tracing body (state.enterTrue tracing line test) opened later) :
      VisitsInside solver tracing (.conditional line condition body orelse) state (opened + 1) later
  /-- The body of a conditional is explored and checked, and still open. -/
  | checked {line : Line} {condition : Expr} {body orelse : List Stmt} {state : Exploration}
      {test : Term} (htest : condition.constraint state.bindings = .ok test)
      (hroom : state.store.hasRoom = true) :
      VisitsInside solver tracing (.conditional line condition body orelse) state 1
        ((explore solver tracing body (state.enterTrue tracing line test)).check solver line)
  /-- Between the branches of a conditional. -/
  | between {line : Line} {condition : Expr} {body orelse : List Stmt} {state : Exploration}
      {test : Term} (htest : condition.constraint state.bindings = .ok test)
      (hroom : state.store.hasRoom = true) :
      VisitsInside solver tracing (.conditional line condition body orelse) state 0
        (state.trueBranch solver tracing line test (explore solver tracing body))
  /-- The negated test is taken, and noted or not. -/
  | negated {line : Line} {condition : Expr} {body : List Stmt} {first : Stmt} {rest : List Stmt}
      {state : Exploration} {test : Term} (noted : Bool)
      (htest : condition.constraint state.bindings = .ok test)
      (hroom : state.store.hasRoom = true) :
      VisitsInside solver tracing (.conditional line condition body (first :: rest)) state 1
        (((state.trueBranch solver tracing line test (explore solver tracing body)).take
          (.not test)).noteElse (noted && tracing) state.trace.length)
  | orelse {line : Line} {condition : Expr} {body : List Stmt} {first : Stmt} {rest : List Stmt}
      {state later : Exploration} {test : Term} {opened : Nat}
      (htest : condition.constraint state.bindings = .ok test)
      (hroom : state.store.hasRoom = true)
      (h : Visits solver tracing (first :: rest)
        ((state.trueBranch solver tracing line test (explore solver tracing body)).enterFalse solver
          tracing line test state.trace.length) opened later) :
      VisitsInside solver tracing (.conditional line condition body (first :: rest)) state
        (opened + 1) later
  /-- A loop is counted, and its test is not taken yet. -/
  | counted {line : Line} {condition : Expr} {body : List Stmt} {state : Exploration} {test : Term}
      (htest : condition.constraint state.bindings = .ok test) :
      VisitsInside solver tracing (.loop line condition body) state 0 state.countLoop
  /-- The test of a loop is taken, and not checked yet. -/
  | taken {line : Line} {condition : Expr} {body : List Stmt} {state : Exploration} {test : Term}
      (htest : condition.constraint state.bindings = .ok test)
      (hroom : state.store.hasRoom = true) :
      VisitsInside solver tracing (.loop line condition body) state 1
        (state.countLoop.take test).countLoopCheck
  /-- The test of a loop is checked, and there is no frame for its body yet. -/
  | asked {line : Line} {condition : Expr} {body : List Stmt} {state : Exploration} {test : Term}
      (htest : condition.constraint state.bindings = .ok test)
      (hroom : state.store.hasRoom = true) :
      VisitsInside solver tracing (.loop line condition body) state 1
        ((state.countLoop.take test).countLoopCheck.check solver line)
  | loop {line : Line} {condition : Expr} {body : List Stmt} {state later : Exploration}
      {test : Term} {opened : Nat} (htest : condition.constraint state.bindings = .ok test)
      (hroom : state.store.hasRoom = true)
      (h : Visits solver tracing body (state.enterBody solver line test) opened later) :
      VisitsInside solver tracing (.loop line condition body) state (opened + 1) later
  /-- The frame of a loop is gone, and its body is still open. -/
  | left {line : Line} {condition : Expr} {body : List Stmt} {state : Exploration} {test : Term}
      (htest : condition.constraint state.bindings = .ok test)
      (hroom : state.store.hasRoom = true) :
      VisitsInside solver tracing (.loop line condition body) state 1
        (explore solver tracing body (state.enterBody solver line test)).leaveLoop

end

section Lengths

variable {solver : Backend} {tracing : Bool}

theorem length_branch_take (state : Exploration) (test : Term) :
    (state.take test).store.branch.length = state.store.branch.length + 1 :=
  List.length_append

theorem length_branch_enterTrue (state : Exploration) (line : Line) (test : Term) :
    (state.enterTrue tracing line test).store.branch.length = state.store.branch.length + 1 := by
  rw [enterTrue, length_branch_take, store_enterConditional]

theorem store_trueBranch (state : Exploration) (line : Line) (test : Term)
    (body : Exploration → Exploration) :
    (state.trueBranch solver tracing line test body).store = state.store := rfl

theorem store_noteElse (state : Exploration) (tracing : Bool) (position : Nat) :
    (state.noteElse tracing position).store = state.store := by
  cases tracing <;> rfl

theorem length_branch_enterFalse (state : Exploration) (line : Line) (test : Term)
    (position : Nat) :
    (state.enterFalse solver tracing line test position).store.branch.length =
      state.store.branch.length + 1 := by
  rw [enterFalse, store_check, store_noteElse, length_branch_take]

theorem store_enterBody (state : Exploration) (line : Line) (test : Term) :
    (state.enterBody solver line test).store = state.store.take test :=
  store_check solver line _

theorem length_branch_enterBody (state : Exploration) (line : Line) (test : Term) :
    (state.enterBody solver line test).store.branch.length = state.store.branch.length + 1 := by
  rw [store_enterBody]
  exact List.length_append

mutual

/-- In every state of an exploration there is one test more for each branch that is open. -/
theorem Visits.length_branch :
    ∀ {stmts : List Stmt} {state later : Exploration} {opened : Nat},
      Visits solver tracing stmts state opened later →
        later.store.branch.length = state.store.branch.length + opened
  | _, _, _, _, .start _ _ => rfl
  | _, _, _, _, @Visits.rest _ _ stmt _ state _ _ h => by
      rw [h.length_branch, (level_execute solver tracing stmt state).tests]
  | _, _, _, _, .inside hreach h => by
      rw [h.length_branch, eq_of_reach hreach]

theorem VisitsInside.length_branch :
    ∀ {stmt : Stmt} {state later : Exploration} {opened : Nat},
      VisitsInside solver tracing stmt state opened later →
        later.store.branch.length = state.store.branch.length + opened
  | _, _, _, _, .start _ _ => rfl
  | _, _, _, _, .stop stmt state => (level_perform solver tracing stmt state).tests
  | _, _, _, _, .bound h => (level_bind h).tests
  | _, _, _, _, .assigned _ _ _ => (Store.Level.assignEach _ _ _).tests
  | _, _, _, _, .entered _ => by rw [store_enterConditional, Nat.add_zero]
  | _, _, _, _, .body _ _ h => by
      rw [h.length_branch, length_branch_enterTrue]
      omega
  | _, _, _, _, @VisitsInside.checked _ _ line _ body _ state test _ _ => by
      have hbody := level_explore solver tracing body (state.enterTrue tracing line test)
      rw [store_check, hbody.tests, length_branch_enterTrue]
  | _, _, _, _, .between _ _ => rfl
  | _, _, _, _, .negated _ _ _ => by
      rw [store_noteElse, length_branch_take, store_trueBranch]
  | _, _, _, _, .orelse _ _ h => by
      rw [h.length_branch, length_branch_enterFalse, store_trueBranch]
      omega
  | _, _, _, _, .counted _ => rfl
  | _, _, _, _, @VisitsInside.taken _ _ _ _ _ state test _ _ =>
      length_branch_take state.countLoop test
  | _, _, _, _, @VisitsInside.asked _ _ _ _ _ state test _ _ => by
      rw [store_check]
      exact length_branch_take state.countLoop test
  | _, _, _, _, .loop _ _ h => by
      rw [h.length_branch, length_branch_enterBody]
      omega
  | _, _, _, _, @VisitsInside.left _ _ line _ body state test _ _ => by
      have hbody := level_explore solver tracing body (state.enterBody solver line test)
      show (explore solver tracing body (state.enterBody solver line test)).store.branch.length = _
      rw [hbody.tests, length_branch_enterBody]

end

end Lengths

/-! ## Executions at their depth -/

mutual

theorem visits_of_mem_eventsInside (solver : Backend) (tracing : Bool) :
    ∀ (stmt : Stmt) (loop? : Option Nat) (position around : Nat) (state : Exploration)
      {execution : Execution},
      execution ∈ (eventsInside solver tracing stmt loop? position state).filterMap
          (Event.execution? solver tracing) →
        ∃ opened, VisitsInside solver tracing stmt state opened execution.before ∧
          ((execution.stmt, around + opened), execution.position) ∈
            (stmt.nestedParts around).zipIdx (position + 1)
  | .conditional line condition body orelse, loop?, position, around, state, execution, h => by
      have horelse := visits_of_mem_events solver tracing orelse
      rw [eventsInside, conditionalEvents] at h
      split at h
      · cases h
      · rename_i test htest
        split at h
        · rename_i hroom
          rw [Stmt.nestedParts, List.zipIdx_append, Stmt.length_nested]
          rw [List.filterMap_append, List.mem_append] at h
          rcases h with hinBody | hbehind
          · obtain ⟨opened, hvisits, hplace⟩ :=
              visits_of_mem_events solver tracing body loop? (position + 1) (around + 1) _ hinBody
            refine ⟨opened + 1, .body htest hroom hvisits, List.mem_append_left _ ?_⟩
            rwa [Nat.add_comm opened, ← Nat.add_assoc]
          · -- behind the body there are questions, and another branch only with an `else`
            cases orelse with
            | nil => cases hbehind
            | cons first rest =>
                obtain ⟨opened, hvisits, hplace⟩ := horelse loop?
                  (position + 1 + (Stmt.nodes body).length) (around + 1) _ hbehind
                refine ⟨opened + 1, .orelse htest hroom hvisits, List.mem_append_right _ ?_⟩
                rwa [Nat.add_comm opened, ← Nat.add_assoc]
        · cases h
  | .loop line condition body, loop?, position, around, state, execution, h => by
      rw [eventsInside, loopEvents] at h
      split at h
      · cases h
      · rename_i test htest
        split at h
        · rename_i hroom
          rw [Stmt.nestedParts]
          obtain ⟨opened, hvisits, hplace⟩ := visits_of_mem_events solver tracing body
            (some position) (position + 1) (around + 1) _ h
          refine ⟨opened + 1, .loop htest hroom hvisits, ?_⟩
          rwa [Nat.add_comm opened, ← Nat.add_assoc]
        · cases h
  | .declaration _ _ _ _, _, _, _, _, _, h => by rw [eventsInside] at h; cases h
  | .reassignment _ _ _, _, _, _, _, _, h => by rw [eventsInside] at h; cases h
  | .other _ _, _, _, _, _, _, h => by rw [eventsInside] at h; cases h

/-- A statement is executed in a state of the exploration with as many branches open as there are
around it. -/
theorem visits_of_mem_events (solver : Backend) (tracing : Bool) :
    ∀ (stmts : List Stmt) (loop? : Option Nat) (position around : Nat) (state : Exploration)
      {execution : Execution},
      execution ∈ (events solver tracing stmts loop? position state).filterMap
          (Event.execution? solver tracing) →
        ∃ opened, Visits solver tracing stmts state opened execution.before ∧
          ((execution.stmt, around + opened), execution.position) ∈
            (Stmt.nested around stmts).zipIdx position
  | [], _, _, _, _, _, h => by
      rw [events_nil] at h
      cases h
  | stmt :: rest, loop?, position, around, state, execution, h => by
      rw [events_cons, List.filterMap_append, List.mem_append] at h
      rw [Stmt.nested, List.zipIdx_cons, List.zipIdx_append, Stmt.length_nestedParts]
      rcases h with hhere | hrest
      · cases hreach : state.reach stmt.line with
        | none =>
            rw [filterMap_comesTo_of_none hreach] at hhere
            cases hhere
        | some reached =>
            rw [filterMap_comesTo hreach, List.mem_cons] at hhere
            rcases hhere with rfl | hinside
            · exact ⟨0, .inside hreach (.start stmt reached), List.mem_cons_self⟩
            · obtain ⟨opened, hvisits, hplace⟩ :=
                visits_of_mem_eventsInside solver tracing stmt loop? position around reached hinside
              exact ⟨opened, .inside hreach hvisits,
                List.mem_cons_of_mem _ (List.mem_append_left _ hplace)⟩
      · obtain ⟨opened, hvisits, hplace⟩ :=
          visits_of_mem_events solver tracing rest loop? _ around _ hrest
        exact ⟨opened, .rest hvisits, List.mem_cons_of_mem _ (List.mem_append_right _ hplace)⟩

end

end Exploration

end BranchWitness
