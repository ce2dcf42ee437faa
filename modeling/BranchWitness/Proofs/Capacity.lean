import BranchWitness.Proofs.Nesting

/-!
# What the capacity of the store limits

The capacity of the store bounds the number of tests on a path.  Since the store has one test for
each open branch, it bounds how deep an exploration goes: a conditional or a loop is refused exactly
if there are already as many branches around it as there may be tests.  The negated test of an
`else` is never refused, because it takes the place of the test.

A capacity that is large enough for the statements is as good as none.  Forgetting the capacity in
all the stores of a state (`Exploration.unlimited`) commutes with everything that an exploration
does as long as there is room (`Exploration.Unlimited.explore`): an exploration and one without a
limit find the same.
-/

namespace BranchWitness

/-! ## Room in the store -/

namespace Store

variable {store next : Store} {count fewer : Nat}

theorem hasRoom_eq_false_iff :
    store.hasRoom = false ↔ ∃ limit, store.capacity = some limit ∧ limit ≤ store.branch.length := by
  unfold hasRoom
  cases store.capacity with
  | none => simp
  | some limit => simp

theorem hasRoom_iff :
    store.hasRoom = true ↔ ∀ limit, store.capacity = some limit → store.branch.length < limit := by
  unfold hasRoom
  cases store.capacity with
  | none => simp
  | some limit => simp

/-- The failure to take a test tells a limit that is used up. -/
theorem refused_iff {limit : Nat} :
    (store.hasRoom = false ∧ store.refusal = .capacityExceeded limit) ↔
      store.capacity = some limit ∧ limit ≤ store.branch.length := by
  rw [hasRoom_eq_false_iff]
  constructor
  · rintro ⟨⟨bound, hbound, hle⟩, hrefusal⟩
    rw [refusal, hbound, Option.getD_some, Error.capacityExceeded.injEq] at hrefusal
    exact ⟨hrefusal ▸ hbound, hrefusal ▸ hle⟩
  · rintro ⟨hlimit, hle⟩
    refine ⟨⟨limit, hlimit, hle⟩, ?_⟩
    rw [refusal, hlimit, Option.getD_some]

/-- There is room for that many more tests. -/
def Fits (store : Store) (count : Nat) : Prop :=
  ∀ limit, store.capacity = some limit → store.branch.length + count ≤ limit

theorem Fits.mono (h : store.Fits count) (hle : fewer ≤ count) : store.Fits fewer := by
  intro limit hlimit
  have hfits := h limit hlimit
  omega

theorem Fits.level (h : store.Fits count) (hlevel : store.Level next) : next.Fits count := by
  intro limit hlimit
  rw [hlevel.capacity] at hlimit
  rw [hlevel.tests]
  exact h limit hlimit

theorem Fits.hasRoom (h : store.Fits (count + 1)) : store.hasRoom = true := by
  by_contra hfull
  obtain ⟨limit, hlimit, hle⟩ := hasRoom_eq_false_iff.mp (Bool.eq_false_iff.mpr hfull)
  have hfits := h limit hlimit
  omega

theorem Fits.take (h : store.Fits (count + 1)) (test : Term) : (store.take test).Fits count := by
  intro limit hlimit
  have hfits := h limit hlimit
  have hlength : (store.take test).branch.length = store.branch.length + 1 := List.length_append
  omega

/-- The store without its capacity. -/
def unlimited (store : Store) : Store :=
  { store with capacity := none }

theorem hasRoom_unlimited (store : Store) : store.unlimited.hasRoom = true := rfl

theorem assign_unlimited (store : Store) (target : Var) (value : Term) :
    store.unlimited.assign target value = (store.assign target value).map unlimited := by
  have hbinding : store.unlimited.binding? target.name = store.binding? target.name := rfl
  have hcurrent : store.unlimited.current value = store.current value := rfl
  unfold assign
  rw [hbinding, hcurrent]
  cases (Operator.cmp .eq).build [.var target, value] with
  | error error => rfl
  | ok equation =>
      by_cases hmentions : (store.current value).mentions target.id = true
      · simp only [if_pos hmentions, Except.map]
      · simp only [if_neg hmentions, Except.map]
        cases store.binding? target.name <;> rfl

end Store

/-- The violation with its store without a capacity. -/
def Violation.unlimited (violation : Violation) : Violation :=
  { violation with snapshot := violation.snapshot.unlimited }

/-- The snapshot with its stores without a capacity. -/
def Snapshot.unlimited (snapshot : Snapshot) : Snapshot :=
  { snapshot with
    beforeTrue := snapshot.beforeTrue.unlimited
    beforeFalse := snapshot.beforeFalse.map Store.unlimited }

/-- The report with its stores without a capacity. -/
def Report.unlimited (report : Report) : Report :=
  { report with
    violations := report.violations.map Violation.unlimited
    trace := report.trace.map Snapshot.unlimited }

namespace Exploration

/-- The state with its stores without a capacity. -/
def unlimited (state : Exploration) : Exploration :=
  { state with
    store := state.store.unlimited
    violations := state.violations.map Violation.unlimited
    trace := state.trace.map Snapshot.unlimited }

/-! ## Forgetting the capacity before or after a move -/

section Moves

variable {solver : Backend} {tracing : Bool}

theorem unlimited_fail (state : Exploration) (line : Line) (error : Error) :
    (state.fail line error).unlimited = state.unlimited.fail line error := by
  unfold fail
  cases Diagnostic.ofError? line error <;> rfl

theorem unlimited_settle (line : Line) (result : Exploration × Option Error) :
    (settle line result).unlimited = settle line (result.1.unlimited, result.2) := by
  obtain ⟨state, failure⟩ := result
  cases failure with
  | none => rfl
  | some error => exact unlimited_fail state line error

theorem unlimited_check (solver : Backend) (line : Line) (state : Exploration) :
    (state.check solver line).unlimited = state.unlimited.check solver line := by
  have hassertions : state.unlimited.store.assertions = state.store.assertions := rfl
  have hasked : state.unlimited.asked = state.asked := rfl
  unfold check
  dsimp only
  rw [hassertions, hasked]
  cases solver state.asked state.store.assertions with
  | unsat => simp only [unlimited, List.map_append]; rfl
  | _ => rfl

theorem unlimited_enterConditional (state : Exploration) (tracing : Bool) (line : Line)
    (test : Term) : (state.enterConditional tracing line test).unlimited =
      state.unlimited.enterConditional tracing line test := by
  cases tracing with
  | false => rfl
  | true =>
      simp only [enterConditional, if_true, unlimited, List.map_append]
      rfl

theorem unlimited_take (state : Exploration) (test : Term) :
    (state.take test).unlimited = state.unlimited.take test := rfl

theorem unlimited_backTo (state earlier : Exploration) :
    (state.backTo earlier).unlimited = state.unlimited.backTo earlier.unlimited := rfl

theorem unlimited_noteElse (state : Exploration) (tracing : Bool) (position : Nat) :
    (state.noteElse tracing position).unlimited = state.unlimited.noteElse tracing position := by
  cases tracing with
  | false => rfl
  | true =>
      have hmodify : (state.trace.modify position fun snapshot =>
            { snapshot with beforeFalse := some state.store }).map Snapshot.unlimited =
          (state.trace.map Snapshot.unlimited).modify position fun snapshot =>
            { snapshot with beforeFalse := some state.store.unlimited } := by
        refine List.ext_getElem? fun index => ?_
        simp only [List.getElem?_map, List.getElem?_modify]
        cases state.trace[index]? with
        | none => rfl
        | some snapshot => by_cases hindex : position = index <;> simp [hindex, Snapshot.unlimited]
      simp only [noteElse, if_true, unlimited, hmodify]

theorem bind_unlimited (state : Exploration) (name type : String) :
    state.unlimited.bind name type =
      (state.bind name type).map fun result => (result.1, result.2.unlimited) := by
  have hbindings : state.unlimited.bindings = state.bindings := rfl
  unfold bind
  rw [hbindings]
  cases ValueSort.ofTag type with
  | error error => rfl
  | ok sort =>
      cases state.bindings.find? name with
      | none => rfl
      | some existing => by_cases hsort : existing.sort = sort <;> simp [hsort, Except.map]

theorem unlimited_bindParam (state : Exploration) (param : Param) :
    (state.bindParam param).unlimited = state.unlimited.bindParam param := by
  unfold bindParam
  rw [bind_unlimited]
  cases state.bind param.name param.type with
  | error error => exact unlimited_fail state 0 error
  | ok result =>
      simp only [Except.map]
      split
      · rename_i hany
        exact (if_pos hany).symm
      · rename_i hany
        exact (if_neg hany).symm

theorem unlimited_bindParams (params : List Param) (state : Exploration) :
    (state.bindParams params).unlimited = state.unlimited.bindParams params := by
  unfold bindParams
  induction params generalizing state with
  | nil => rfl
  | cons param rest ih => rw [List.foldl_cons, List.foldl_cons, ih, unlimited_bindParam]

theorem declare_unlimited (state : Exploration) (target annotation : String)
    (value : Option Expr) :
    state.unlimited.declare target annotation value =
      ((state.declare target annotation value).1.unlimited,
        (state.declare target annotation value).2) := by
  have hbindings : state.unlimited.bindings = state.bindings := rfl
  unfold declare
  rw [hbindings, bind_unlimited]
  cases value.mapM (Expr.resolve state.bindings) with
  | error error => rfl
  | ok initial =>
      cases state.bind target annotation with
      | error error => rfl
      | ok result =>
          obtain ⟨x, bound⟩ := result
          cases initial with
          | none => rfl
          | some t =>
              have hassign : bound.unlimited.store.assign x t =
                  (bound.store.assign x t).map Store.unlimited := bound.store.assign_unlimited x t
              simp only [Except.map, hassign]
              cases bound.store.assign x t <;> rfl

theorem assignEach_unlimited (value : Term) (handles : List Var) (store : Store) :
    assignEach value handles store.unlimited =
      ((assignEach value handles store).1.unlimited, (assignEach value handles store).2) := by
  induction handles generalizing store with
  | nil => rfl
  | cons x rest ih =>
      rw [assignEach, assignEach, Store.assign_unlimited]
      cases store.assign x value with
      | error error => rfl
      | ok next => exact ih next

theorem reassign_unlimited (state : Exploration) (targets : List String) (value : Expr) :
    state.unlimited.reassign targets value =
      ((state.reassign targets value).1.unlimited, (state.reassign targets value).2) := by
  have hlookup : state.unlimited.lookup = state.lookup := rfl
  have hbindings : state.unlimited.bindings = state.bindings := rfl
  have hstore : state.unlimited.store = state.store.unlimited := rfl
  unfold reassign
  rw [hlookup, hbindings, hstore]
  cases targets.mapM state.lookup with
  | error error => rfl
  | ok handles =>
      cases value.resolve state.bindings with
      | error error => rfl
      | ok t =>
          simp only [assignEach_unlimited]
          rfl

theorem reach_unlimited (state : Exploration) (line : Line) :
    state.unlimited.reach line = (state.reach line).map unlimited := by
  have hframes : state.unlimited.frames = state.frames := rfl
  unfold reach
  rw [hframes]
  cases state.frames with
  | nil => rfl
  | cons frame outer => by_cases hline : line ∈ frame <;> simp [hline, unlimited]

end Moves

/-! ## Explorations with enough room -/

/-- The run does the same without a capacity, from states with room for that many more tests. -/
def Unlimited (count : Nat) (run : Exploration → Exploration) : Prop :=
  ∀ state, state.store.Fits count → (run state).unlimited = run state.unlimited

namespace Unlimited

variable {solver : Backend} {tracing : Bool} {line : Line} {condition : Expr} {test : Term}
  {body other : Exploration → Exploration} {orelse : Option (Exploration → Exploration)}
  {count : Nat}

theorem trueBranch (h : Unlimited count body) (state : Exploration)
    (hfits : state.store.Fits (count + 1)) (line : Line) (test : Term) :
    (state.trueBranch solver tracing line test body).unlimited =
      state.unlimited.trueBranch solver tracing line test body := by
  have hentered : (state.enterTrue tracing line test).unlimited =
      state.unlimited.enterTrue tracing line test := by
    rw [enterTrue, unlimited_take, unlimited_enterConditional, enterTrue]
  have hroom : (state.enterTrue tracing line test).store.Fits count := by
    show ((state.enterConditional tracing line test).store.take test).Fits count
    rw [store_enterConditional]
    exact hfits.take test
  rw [Exploration.trueBranch, unlimited_backTo, unlimited_check, h _ hroom, hentered,
    Exploration.trueBranch]

theorem falseBranch (h : Unlimited count body) (h' : Unlimited count other) (state : Exploration)
    (hfits : state.store.Fits (count + 1)) (line : Line) (test : Term) :
    (state.falseBranch solver tracing line test body other).unlimited =
      state.unlimited.falseBranch solver tracing line test body other := by
  have hlength : state.unlimited.trace.length = state.trace.length := List.length_map _
  have hentered : ∀ behind : Exploration,
      (behind.enterFalse solver tracing line test state.trace.length).unlimited =
        behind.unlimited.enterFalse solver tracing line test state.trace.length := by
    intro behind
    rw [enterFalse, unlimited_check, unlimited_noteElse, unlimited_take, enterFalse]
  -- the negated test takes the place of the test
  have hroom : ((state.trueBranch solver tracing line test body).enterFalse solver tracing line test
      state.trace.length).store.Fits count := by
    rw [enterFalse, store_check, store_noteElse]
    exact hfits.take (.not test)
  rw [Exploration.falseBranch, unlimited_backTo, h' _ hroom, hentered,
    h.trueBranch state hfits, Exploration.falseBranch, hlength]

theorem branches (h : Unlimited count body) (h' : ∀ run ∈ orelse, Unlimited count run)
    (state : Exploration) (hfits : state.store.Fits (count + 1)) (line : Line) (test : Term) :
    (state.branches solver tracing line test body orelse).unlimited =
      state.unlimited.branches solver tracing line test body orelse := by
  cases orelse with
  | none => exact h.trueBranch state hfits line test
  | some other => exact h.falseBranch (h' other rfl) state hfits line test

theorem conditional (h : Unlimited count body) (h' : ∀ run ∈ orelse, Unlimited count run)
    (state : Exploration) (hfits : state.store.Fits (count + 1)) (line : Line) (condition : Expr) :
    state.unlimited.conditional solver tracing line condition body orelse =
      ((state.conditional solver tracing line condition body orelse).1.unlimited,
        (state.conditional solver tracing line condition body orelse).2) := by
  cases htest : condition.constraint state.bindings with
  | error error =>
      have htest' : condition.constraint state.unlimited.bindings = .error error := htest
      rw [conditional_of_error htest, conditional_of_error htest']
  | ok test =>
      have htest' : condition.constraint state.unlimited.bindings = .ok test := htest
      rw [conditional_of_room htest hfits.hasRoom,
        conditional_of_room htest' (Store.hasRoom_unlimited _), h.branches h' state hfits]

theorem loopBranch (h : Unlimited count body) (state : Exploration)
    (hfits : state.store.Fits (count + 1)) (line : Line) (test : Term) :
    (state.loopBranch solver line test body).unlimited =
      state.unlimited.loopBranch solver line test body := by
  have hentered : (state.enterBody solver line test).unlimited =
      state.unlimited.enterBody solver line test :=
    congrArg enterLoop (unlimited_check solver line _)
  have hroom : (state.enterBody solver line test).store.Fits count := by
    rw [store_enterBody]
    exact hfits.take test
  have hleft : ∀ explored : Exploration, explored.leaveLoop.unlimited =
      explored.unlimited.leaveLoop := fun _ => rfl
  rw [Exploration.loopBranch, unlimited_backTo, hleft, h _ hroom, hentered, Exploration.loopBranch]

theorem unroll (h : Unlimited count body) (state : Exploration)
    (hfits : state.store.Fits (count + 1)) (line : Line) (condition : Expr) :
    state.unlimited.unroll solver line condition body =
      ((state.unroll solver line condition body).1.unlimited,
        (state.unroll solver line condition body).2) := by
  cases htest : condition.constraint state.bindings with
  | error error =>
      have htest' : condition.constraint state.unlimited.bindings = .error error := htest
      rw [unroll_of_error htest, unroll_of_error htest']
  | ok test =>
      have htest' : condition.constraint state.unlimited.bindings = .ok test := htest
      rw [unroll_of_room htest hfits.hasRoom,
        unroll_of_room htest' (Store.hasRoom_unlimited _), h.loopBranch state hfits]

theorem step {run : Exploration → Exploration × Option Error}
    (h : ∀ state, state.store.Fits count →
      run state.unlimited = ((run state).1.unlimited, (run state).2)) (line : Line) :
    Unlimited count (Exploration.step line run) := by
  intro state hfits
  cases hreach : state.reach line with
  | none =>
      have hreach' : state.unlimited.reach line = none := by rw [reach_unlimited, hreach]; rfl
      rw [step_of_reach_eq_none hreach, step_of_reach_eq_none hreach']
      rfl
  | some reached =>
      have hreach' : state.unlimited.reach line = some reached.unlimited := by
        rw [reach_unlimited, hreach]; rfl
      have hroom : reached.store.Fits count := by rw [eq_of_reach hreach]; exact hfits
      rw [step_of_reach_eq_some hreach, step_of_reach_eq_some hreach', unlimited_settle,
        h reached hroom]

mutual

theorem execute (solver : Backend) (tracing : Bool) :
    ∀ stmt : Stmt, Unlimited stmt.depth (Exploration.execute solver tracing stmt)
  | .declaration line target annotation value => by
      rw [execute_eq_step]
      exact step (fun state _ => declare_unlimited state target annotation value) line
  | .reassignment line targets value => by
      rw [execute_eq_step]
      exact step (fun state _ => reassign_unlimited state targets value) line
  | .conditional line condition body orelse => by
      rw [execute_eq_step, Stmt.depth]
      refine step (fun state hfits => ?_) line
      -- each branch needs at most as much room as the deeper of the two
      refine conditional (fun state hroom => ?_) (fun run hrun state hroom => ?_) state hfits line
        condition
      · exact explore solver tracing body state (hroom.mono (Nat.le_max_left _ _))
      · cases orelse with
        | nil => cases hrun
        | cons first rest =>
            cases hrun
            exact explore solver tracing (first :: rest) state (hroom.mono (Nat.le_max_right _ _))
  | .loop line condition body => by
      rw [execute_eq_step, Stmt.depth]
      exact step (fun state hfits =>
        unroll (explore solver tracing body) state hfits line condition) line
  | .other line _ => by
      rw [execute_eq_step]
      exact step (fun _ _ => rfl) line

/-- Statements are explored the same with and without a capacity if there is room for as many tests
as they are deep. -/
theorem explore (solver : Backend) (tracing : Bool) :
    ∀ stmts : List Stmt, Unlimited (Stmt.depthAll stmts) (Exploration.explore solver tracing stmts)
  | [], state, _ => by rw [explore_nil, explore_nil]
  | stmt :: rest, state, hfits => by
      rw [Stmt.depthAll] at hfits
      have hlevel := level_execute solver tracing stmt state
      rw [explore_cons, explore_cons,
        explore solver tracing rest _ ((hfits.mono (Nat.le_max_right _ _)).level hlevel),
        execute solver tracing stmt state (hfits.mono (Nat.le_max_left _ _))]

end

end Unlimited

/-! ## Who is refused -/

section Refusal

variable {solver : Backend} {tracing : Bool} {stmt : Stmt} {state : Exploration}

/-- A test that resolves is taken if there is room for it. -/
theorem failure_perform (h : stmt.resolves state.bindings = true) :
    (perform solver tracing stmt state).2 =
      if state.store.hasRoom then none else some state.store.refusal := by
  cases stmt with
  | conditional line condition body orelse =>
      obtain ⟨error, htest, -⟩ | ⟨test, -, hfull, heq⟩ | ⟨test, -, hroom, heq⟩ :=
        perform_conditional solver tracing line condition body orelse state
      · rw [Stmt.resolves, htest] at h
        cases h
      · rw [heq, hfull]
        rfl
      · rw [heq, hroom]
        rfl
  | loop line condition body =>
      obtain ⟨error, htest, -⟩ | ⟨test, -, hfull, heq⟩ | ⟨test, -, hroom, heq⟩ :=
        perform_loop solver tracing line condition body state
      · rw [Stmt.resolves, htest] at h
        cases h
      · rw [heq, hfull]
        rfl
      · rw [heq, hroom]
        rfl
  | _ => cases h

theorem capacityExceeded_iff (h : stmt.resolves state.bindings = true) {limit : Nat} :
    (perform solver tracing stmt state).2 = some (.capacityExceeded limit) ↔
      state.store.capacity = some limit ∧ limit ≤ state.store.branch.length := by
  rw [failure_perform h, ← Store.refused_iff]
  cases state.store.hasRoom <;> simp

theorem hasRoom_of_performed (h : stmt.resolves state.bindings = true)
    (hdone : (perform solver tracing stmt state).2 = none) : state.store.hasRoom = true := by
  by_contra hfull
  rw [failure_perform h, if_neg hfull] at hdone
  cases hdone

theorem level_bindParam (state : Exploration) (param : Param) :
    state.store.Level (state.bindParam param).store := by
  unfold bindParam
  split
  · rw [(keeps_fail state 0 _).store]
    exact .refl _
  · rename_i x bound hbind
    have hlevel := level_bind hbind
    split <;> exact hlevel

theorem level_bindParams (params : List Param) (state : Exploration) :
    state.store.Level (state.bindParams params).store := by
  unfold bindParams
  induction params generalizing state with
  | nil => exact .refl _
  | cons param rest ih => exact (level_bindParam state param).trans (ih _)

end Refusal

end Exploration

/-! ## Capacity and depth of an analysis -/

/-- The analysis of a function comes through the state, with that many branches and loop bodies
open. -/
inductive Settings.Reaches (settings : Settings) (solver : Backend) (function : Function) :
    Nat → Exploration → Prop
  /-- Some of the parameters are bound. -/
  | binding (count : Nat) : Reaches settings solver function 0
      ((Exploration.start (settings.maxPathConstraints.map UInt64.toNat)).bindParams
        (function.params.take count))
  | exploring {opened : Nat} {state : Exploration}
      (h : Exploration.Visits solver settings.traceBranches function.body
        ((Exploration.start (settings.maxPathConstraints.map UInt64.toNat)).bindParams
          function.params) opened state) :
      Reaches settings solver function opened state

/-- The store has as many tests as there are open branches. -/
theorem Settings.Reaches.length_branch {settings : Settings} {solver : Backend}
    {function : Function} {opened : Nat} {state : Exploration}
    (h : settings.Reaches solver function opened state) : state.store.branch.length = opened := by
  cases h with
  | binding count => exact (Exploration.level_bindParams _ _).tests
  | exploring h =>
      rw [h.length_branch, (Exploration.level_bindParams _ _).tests]
      exact Nat.zero_add opened

/-- With room for as many tests as the body is deep, the report is that without a limit. -/
theorem Settings.unlimited_analyzeWith (settings : Settings) (solver : Backend)
    (function : Function) {limit : UInt64} (h : Stmt.depthAll function.body ≤ limit.toNat) :
    ({ settings with maxPathConstraints := some limit }.analyzeWith solver function).unlimited =
      { settings with maxPathConstraints := none }.analyzeWith solver function := by
  let start := (Exploration.start (some limit.toNat)).bindParams function.params
  have hfits : start.store.Fits (Stmt.depthAll function.body) := by
    refine Store.Fits.level (fun bound hbound => ?_) (Exploration.level_bindParams _ _)
    cases hbound
    show 0 + Stmt.depthAll function.body ≤ limit.toNat
    omega
  have hstart : start.unlimited = (Exploration.start none).bindParams function.params :=
    Exploration.unlimited_bindParams function.params _
  have hexplored := Exploration.Unlimited.explore solver settings.traceBranches function.body
    start hfits
  rw [hstart] at hexplored
  exact congrArg (fun state => state.report function.name) hexplored

/-- **The capacity is the depth.**  In every state of an analysis there are as many tests as open
branches.  A statement is executed with as many branches open as there are around it in the program,
and if its test resolves it is refused exactly if this is as many as there may be tests.  Where the
first branch of a conditional was taken, the negated test can be taken after it.  And a capacity of
at least the depth of the body is as good as none. -/
theorem Settings.capacity_is_depth (settings : Settings) (solver : Backend) (function : Function) :
    let limit := settings.maxPathConstraints.map UInt64.toNat
    let tracing := settings.traceBranches
    let log := Exploration.executions solver tracing function.body 0
      ((Exploration.start limit).bindParams function.params)
    (∀ opened state, settings.Reaches solver function opened state →
        state.store.branch.length = opened) ∧
      (∀ execution ∈ log, ∃ depth,
        settings.Reaches solver function depth execution.before ∧
          (Stmt.nested 0 function.body)[execution.position]? = some (execution.stmt, depth) ∧
          (execution.stmt.resolves execution.before.bindings = true →
            ∀ bound, execution.failure = some (.capacityExceeded bound) ↔
              limit = some bound ∧ bound ≤ depth)) ∧
      (∀ execution ∈ log, ∀ line condition body orelse test,
        execution.stmt = .conditional line condition body orelse →
        condition.constraint execution.before.bindings = .ok test →
        execution.failure = none →
          let back := execution.before.trueBranch solver tracing line test
            (Exploration.explore solver tracing body)
          back.store.push (.not test) =
            .ok (back.store.branch.length, back.store.take (.not test))) ∧
      ∀ large : UInt64, Stmt.depthAll function.body ≤ large.toNat →
        ({ settings with maxPathConstraints := some large }.analyzeWith solver function).unlimited =
          { settings with maxPathConstraints := none }.analyzeWith solver function := by
  intro limit tracing log
  have haccounts := (Exploration.Accounts.closed solver tracing).explore function.body 0
    ((Exploration.start limit).bindParams function.params)
  refine ⟨fun _ _ h => h.length_branch, ?_, ?_, ?_⟩
  · intro execution hexecution
    obtain ⟨depth, hvisits, hplace⟩ :=
      Exploration.visits_of_mem_events solver tracing function.body none 0 0 _ hexecution
    rw [Nat.zero_add, List.mem_zipIdx_iff_getElem?] at hplace
    have hreaches : settings.Reaches solver function depth execution.before := .exploring hvisits
    refine ⟨depth, hreaches, hplace, fun hresolves bound => ?_⟩
    have hcapacity : execution.before.store.capacity = limit := by
      rw [haccounts.within execution hexecution, (Exploration.level_bindParams _ _).capacity]
      rfl
    rw [Exploration.failure_of_mem_executions hexecution,
      Exploration.capacityExceeded_iff hresolves, hcapacity, hreaches.length_branch]
  · intro execution hexecution line condition body orelse test hstmt htest hdone back
    -- back from the first branch the store is the one that had room for the test
    have hresolves : execution.stmt.resolves execution.before.bindings = true := by
      rw [hstmt, Stmt.resolves, htest]
      rfl
    rw [Exploration.failure_of_mem_executions hexecution] at hdone
    exact Store.push_of_hasRoom (Exploration.hasRoom_of_performed hresolves hdone) _
  · exact fun large => settings.unlimited_analyzeWith solver function

/-- With room for one test, a loop in the other branch of a conditional is refused and the negated
test before it is not.  Room for two is as good as no limit. -/
theorem Settings.capacity_is_depth_nested :
    let function : Function := { name := "nested", body := [
      .conditional 1 (.literal (.bool true)) [] [.loop 2 (.literal (.bool true)) []]] }
    let solver : Backend := fun _ _ => .unsat
    let settings := { Preset.fast.settings with maxPathConstraints := some 1 }
    let test : Term := .const (.bool true)
    ∃ outer inner, Exploration.executions solver settings.traceBranches function.body 0
          ((Exploration.start (some 1)).bindParams function.params) = [outer, inner] ∧
      (∃ index store, (outer.before.trueBranch solver settings.traceBranches 1 test
        (Exploration.explore solver settings.traceBranches [])).store.push (.not test) =
          .ok (index, store)) ∧
      settings.Reaches solver function 1 inner.before ∧ inner.before.store.branch.length = 1 ∧
      inner.failure = some (.capacityExceeded 1) ∧
      Stmt.depthAll function.body = 2 ∧
      ({ settings with maxPathConstraints := some 2 }.analyzeWith solver function).unlimited =
        { settings with maxPathConstraints := none }.analyzeWith solver function := by
  intro function solver settings test
  obtain ⟨hlength, hrefused, hnegated, hlarge⟩ :=
    Settings.capacity_is_depth settings solver function
  refine ⟨_, _, rfl, ?_, ?_⟩
  · exact ⟨_, _, hnegated _ (List.mem_cons_self ..) 1 _ [] _ test rfl rfl rfl⟩
  · obtain ⟨depth, hreaches, hplace, hiff⟩ := hrefused _ (List.mem_cons_of_mem _ List.mem_cons_self)
    obtain rfl : 1 = depth := congrArg Prod.snd (Option.some.inj hplace)
    exact ⟨hreaches, hlength 1 _ hreaches, (hiff rfl 1).mpr ⟨rfl, Nat.le_refl 1⟩, rfl,
      hlarge 2 (by decide)⟩

end BranchWitness
