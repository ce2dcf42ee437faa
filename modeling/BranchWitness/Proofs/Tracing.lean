import BranchWitness.Proofs.Accounting

/-!
# What the trace of the conditionals says

With tracing on, an exploration notes the store in which it enters a conditional.  The store with
which the other branch starts is noted later, when the body has been explored: in the same snapshot,
found again by its position.  By then the body may have entered any number of conditionals and given
values to any variables.

Still the trace is determined by the executions alone (`Exploration.Traces`): it lists a snapshot
for each conditional that counts, in the order of entering them, and the two stores of a snapshot
differ by the negated test and by nothing else.  The argument is that everything inside a body
appends to the trace, so the position still points at the snapshot of the conditional, and that the
store is back to what it was.

Tracing leaves no mark elsewhere: explorations with and without it run in lockstep
(`Exploration.lockstep_untraced`).
-/

namespace BranchWitness

/-! ## The snapshot of an execution -/

/-- The snapshot that an execution leaves, if it is a conditional that counts.  The other branch
starts if there is one and there was room for the test. -/
def Execution.snapshot? (execution : Execution) : Option Snapshot :=
  match execution.stmt with
  | .conditional line condition _ orelse =>
      match condition.constraint execution.before.bindings with
      | .ok test => some
          { line
            test
            beforeTrue := execution.before.store
            beforeFalse :=
              if !orelse.isEmpty && execution.before.store.hasRoom then
                some (execution.before.store.take (.not test))
              else none }
      | .error _ => none
  | _ => none

/-- The snapshot is one of the execution: of its line and test, and of the store it started with.
The other branch is in it exactly if there is one and the test was taken. -/
structure Execution.Records (execution : Execution) (snapshot : Snapshot) : Prop where
  line : snapshot.line = execution.stmt.line
  test : ∃ condition body orelse,
    execution.stmt = .conditional snapshot.line condition body orelse ∧
      condition.constraint execution.before.bindings = .ok snapshot.test
  beforeTrue : snapshot.beforeTrue = execution.before.store
  beforeFalse : snapshot.beforeFalse.isSome ↔
    execution.stmt.hasElse = true ∧
      ∃ taken, execution.before.store.push snapshot.test = .ok taken

namespace Store

theorem exists_push_iff {store : Store} {test : Term} :
    (∃ taken, store.push test = .ok taken) ↔ store.hasRoom = true := by
  constructor
  · rintro ⟨taken, htaken⟩
    by_contra hfull
    rw [push_of_not_hasRoom (Bool.eq_false_iff.mpr hfull)] at htaken
    cases htaken
  · intro hroom
    exact ⟨_, push_of_hasRoom hroom test⟩

end Store

namespace Execution

variable {execution : Execution} {snapshot : Snapshot}

theorem isSome_snapshot? (execution : Execution) :
    execution.snapshot?.isSome = execution.countsConditional := by
  obtain ⟨position, stmt, before, failure⟩ := execution
  cases stmt with
  | conditional line condition body orelse =>
      cases htest : condition.constraint before.bindings with
      | error error =>
          rw [countsConditional_of_error position failure htest]
          simp [snapshot?, htest]
      | ok test =>
          rw [countsConditional_of_ok position failure htest]
          simp [snapshot?, htest]
  | _ => rfl

/-- What a snapshot is read off. -/
theorem exists_of_snapshot? (h : execution.snapshot? = some snapshot) :
    ∃ condition body orelse,
      execution.stmt = .conditional snapshot.line condition body orelse ∧
        condition.constraint execution.before.bindings = .ok snapshot.test ∧
        snapshot.beforeTrue = execution.before.store ∧
        snapshot.beforeFalse =
          if !orelse.isEmpty && execution.before.store.hasRoom then
            some (execution.before.store.take (.not snapshot.test))
          else none := by
  obtain ⟨position, stmt, before, failure⟩ := execution
  cases stmt with
  | conditional line condition body orelse =>
      simp only [snapshot?] at h
      split at h
      · rename_i test htest
        cases h
        exact ⟨condition, body, orelse, rfl, htest, rfl, rfl⟩
      · cases h
  | _ => cases h

theorem records_of_snapshot? (h : execution.snapshot? = some snapshot) :
    execution.Records snapshot := by
  obtain ⟨condition, body, orelse, hstmt, htest, htrue, hfalse⟩ := exists_of_snapshot? h
  refine ⟨by rw [hstmt, Stmt.line], ⟨condition, body, orelse, hstmt, htest⟩, htrue, ?_⟩
  rw [hfalse, hstmt, Stmt.hasElse, Store.exists_push_iff, ← Bool.and_eq_true_iff]
  split <;> simp_all

/-- The other branch starts with the negated test and otherwise with what the first started with. -/
theorem eq_take_of_snapshot? (h : execution.snapshot? = some snapshot) {store : Store}
    (hstore : snapshot.beforeFalse = some store) :
    store = snapshot.beforeTrue.take (.not snapshot.test) := by
  obtain ⟨condition, body, orelse, -, -, htrue, hfalse⟩ := exists_of_snapshot? h
  rw [hfalse] at hstore
  split at hstore
  · cases hstore
    rw [htrue]
  · cases hstore

/-- The executions that leave a snapshot are those that count, and each leaves its own. -/
theorem forall₂_snapshots (log : List Execution) :
    List.Forall₂ Records (log.filter countsConditional) (log.filterMap snapshot?) := by
  induction log with
  | nil => exact .nil
  | cons execution rest ih =>
      have hcounts := execution.isSome_snapshot?
      cases hsnapshot : execution.snapshot? with
      | none =>
          rw [hsnapshot] at hcounts
          rw [List.filter_cons_of_neg (by simp [← hcounts]), List.filterMap_cons_none hsnapshot]
          exact ih
      | some snapshot =>
          rw [hsnapshot] at hcounts
          rw [List.filter_cons_of_pos hcounts.symm, List.filterMap_cons_some hsnapshot]
          exact .cons (records_of_snapshot? hsnapshot) ih

theorem length_snapshots (log : List Execution) :
    (log.filterMap snapshot?).length = log.countP countsConditional := by
  rw [List.length_filterMap_eq_countP]
  exact List.countP_congr fun execution _ => by rw [isSome_snapshot?]

end Execution

namespace Exploration

/-! ## What the moves do to the trace -/

section Moves

variable {solver : Backend} {tracing : Bool} {line : Line} {test : Term} {state : Exploration}

theorem trace_check (solver : Backend) (line : Line) (state : Exploration) :
    (state.check solver line).trace = state.trace := by
  unfold check
  dsimp only
  split <;> rfl

theorem trace_settle (line : Line) (result : Exploration × Option Error) :
    (settle line result).trace = result.1.trace := by
  obtain ⟨state, failure⟩ := result
  cases failure with
  | none => rfl
  | some error =>
      show (state.fail line error).trace = state.trace
      unfold fail
      split <;> rfl

theorem trace_of_reach {reached : Exploration} (h : state.reach line = some reached) :
    reached.trace = state.trace := by
  rw [eq_of_reach h]

theorem trace_enterBody (solver : Backend) (line : Line) (test : Term) (state : Exploration) :
    (state.enterBody solver line test).trace = state.trace :=
  trace_check solver line _

/-- A declaration touches the variables and the store only. -/
theorem exists_declare_eq (state : Exploration) (target annotation : String)
    (value : Option Expr) : ∃ bindings nextId store,
      (state.declare target annotation value).1 = { state with bindings, nextId, store } := by
  unfold declare
  split
  · exact ⟨_, _, _, rfl⟩
  · split
    · exact ⟨_, _, _, rfl⟩
    · rename_i x bound hbind
      obtain rfl | ⟨-, sort, rfl⟩ := eq_of_bind hbind <;>
      · split
        · exact ⟨_, _, _, rfl⟩
        · split <;> exact ⟨_, _, _, rfl⟩

theorem trace_perform {stmt : Stmt} (h : stmt.branches = false) (state : Exploration) :
    (perform solver tracing stmt state).1.trace = state.trace := by
  cases stmt with
  | declaration _ target annotation value =>
      obtain ⟨bindings, nextId, store, heq⟩ := exists_declare_eq state target annotation value
      rw [perform, heq]
  | reassignment _ targets value =>
      rw [perform]
      unfold reassign
      split
      · rfl
      · split <;> rfl
  | conditional => cases h
  | loop => cases h
  | other => rfl

end Moves

/-! ## The trace of an exploration -/

/-- The trace gains the snapshots of the executions, in their order. -/
def Traces (before : Exploration) (log : List Execution) (after : Exploration) : Prop :=
  after.trace = before.trace ++ log.filterMap Execution.snapshot?

namespace Traces

variable {solver : Backend} {state reached first second third after explored explored' :
  Exploration} {line : Line} {condition : Expr} {test : Term} {body : List Stmt}
  {log log' : List Execution}

theorem append (h : Traces first log second) (h' : Traces second log' third) :
    Traces first (log ++ log') third := by
  unfold Traces at *
  rw [h', h, List.filterMap_append, List.append_assoc]

/-- A statement that fails or has no branches. -/
theorem single {stmt : Stmt} (position : Nat) (hreach : state.reach stmt.line = some reached)
    (h : stmt.branches = true → (perform solver true stmt reached).2.isSome = true) :
    Traces state [⟨position, stmt, reached, (perform solver true stmt reached).2⟩]
      (settle stmt.line (perform solver true stmt reached)) := by
  unfold Traces
  rw [trace_settle, ← trace_of_reach hreach]
  cases stmt with
  | conditional line condition body orelse =>
      obtain ⟨error, htest, heq⟩ | ⟨test, htest, hfull, heq⟩ | ⟨test, -, -, heq⟩ :=
        perform_conditional solver true line condition body orelse reached
      · rw [heq]
        simp [Execution.snapshot?, htest]
      · -- the conditional counts, but no branch of it is taken
        rw [heq]
        simp [Execution.snapshot?, htest, hfull, enterConditional]
      · have hfails := h rfl
        rw [heq] at hfails
        cases hfails
  | loop line condition body =>
      obtain ⟨error, -, heq⟩ | ⟨test, -, -, heq⟩ | ⟨test, -, -, heq⟩ :=
        perform_loop solver true line condition body reached
      · rw [heq]
        exact (List.append_nil _).symm
      · rw [heq]
        exact (List.append_nil _).symm
      · have hfails := h rfl
        rw [heq] at hfails
        cases hfails
  | _ =>
      rw [trace_perform rfl]
      exact (List.append_nil _).symm

/-- Behind the body the snapshot of the conditional stands where the trace ended before it. -/
theorem trace_behind (h : Traces (reached.enterTrue true line test) log explored) :
    ((explored.check solver line).backTo reached).trace =
      reached.trace ++ ⟨line, test, reached.store, none⟩ :: log.filterMap Execution.snapshot? := by
  have hexplored : explored.trace =
      (reached.trace ++ [⟨line, test, reached.store, none⟩]) ++
        log.filterMap Execution.snapshot? := h
  have hchecked : ((explored.check solver line).backTo reached).trace = explored.trace :=
    trace_check solver line explored
  rw [hchecked, hexplored, List.append_assoc, List.singleton_append]

theorem ifTrue (position : Nat) (hreach : state.reach line = some reached)
    (htest : condition.constraint reached.bindings = .ok test)
    (hbody : Traces (reached.enterTrue true line test) log explored) :
    Traces state (⟨position, .conditional line condition body [], reached, none⟩ :: log)
      ((explored.check solver line).backTo reached) := by
  unfold Traces
  rw [hbody.trace_behind, ← trace_of_reach hreach]
  simp [Execution.snapshot?, htest]

theorem ifElse {firstElse : Stmt} {restElse : List Stmt} (position : Nat)
    (hreach : state.reach line = some reached)
    (htest : condition.constraint reached.bindings = .ok test)
    (hroom : reached.store.hasRoom = true)
    (hbody : Traces (reached.enterTrue true line test) log explored)
    (horelse : Traces (((explored.check solver line).backTo reached).enterFalse solver true line
      test reached.trace.length) log' explored') :
    Traces state
      (⟨position, .conditional line condition body (firstElse :: restElse), reached, none⟩ ::
        (log ++ log'))
      (explored'.backTo reached) := by
  -- the snapshot of the conditional is found again by the length of the trace before it
  have hnoted : (((explored.check solver line).backTo reached).enterFalse solver true line test
      reached.trace.length).trace =
        reached.trace ++ ⟨line, test, reached.store, some (reached.store.take (.not test))⟩ ::
          log.filterMap Execution.snapshot? := by
    rw [enterFalse, trace_check]
    show List.modify ((explored.check solver line).backTo reached).trace _ _ = _
    rw [hbody.trace_behind, List.modify_eq_take_drop, List.take_left, List.drop_left]
    rfl
  have hexplored : (explored'.backTo reached).trace = explored'.trace := rfl
  unfold Traces at horelse ⊢
  rw [hexplored, horelse, hnoted, ← trace_of_reach hreach]
  simp [Execution.snapshot?, htest, hroom]

theorem loop (position : Nat) (hreach : state.reach line = some reached)
    (hbody : Traces (reached.enterBody solver line test) log explored) :
    Traces state (⟨position, .loop line condition body, reached, none⟩ :: log)
      (explored.leaveLoop.backTo reached) := by
  have hexplored : explored.trace = reached.trace ++ log.filterMap Execution.snapshot? := by
    rw [← trace_enterBody solver line test reached]
    exact hbody
  show explored.trace = state.trace ++ log.filterMap Execution.snapshot?
  rw [hexplored, trace_of_reach hreach]

theorem closed (solver : Backend) : Closed solver true Traces where
  nil _ := (List.append_nil _).symm
  append h h' := h.append h'
  skip _ := (List.append_nil _).symm
  single _ position hreach h := single position hreach h
  ifTrue position hreach htest _ hbody := ifTrue position hreach htest hbody
  ifElse position hreach htest hroom hbody horelse :=
    ifElse position hreach htest hroom hbody horelse
  loop position hreach _ _ hbody := loop position hreach hbody

end Traces

/-! ## Exploring without tracing -/

/-- The state without the trace. -/
def untraced (state : Exploration) : Exploration :=
  { state with trace := [] }

theorem untraced_fail (state : Exploration) (line : Line) (error : Error) :
    (state.fail line error).untraced = state.untraced.fail line error := by
  unfold fail
  cases Diagnostic.ofError? line error <;> rfl

theorem untraced_check (solver : Backend) (line : Line) (state : Exploration) :
    (state.check solver line).untraced = state.untraced.check solver line := by
  unfold check
  dsimp only [untraced]
  split <;> rfl

/-- With and without tracing an exploration goes the same way. -/
theorem lockstep_untraced (solver : Backend) :
    Lockstep solver solver true false fun s s' => s.untraced = s' where
  bindings h := (congrArg Exploration.bindings h :)
  nextId h := (congrArg Exploration.nextId h :)
  params h := (congrArg Exploration.params h :)
  store h := (congrArg Exploration.store h :)
  frames h := (congrArg Exploration.frames h :)
  setBindings bindings nextId h := congrArg (fun s => { s with bindings, nextId }) h
  setParams params h := congrArg (fun s => { s with params }) h
  setStore store h := congrArg (fun s => { s with store }) h
  setFrames frames h := congrArg (fun s => { s with frames }) h
  fail line error h := by rw [untraced_fail, h]
  skip h := congrArg skip h
  countLoop h := congrArg countLoop h
  countLoopCheck h := congrArg countLoopCheck h
  enterConditional line test h := congrArg (enterConditional false line test) h
  noteElse _ h := h
  check line h := by rw [untraced_check, h]

end Exploration

/-- **The branches of a conditional are isolated.**  In the trace of an analysis the store with
which the other branch of a conditional starts has the values that the store before the conditional
has, and its tests followed by the negation of the test, whatever was done in the body in between.
The trace has one snapshot for each conditional that counts, in the order of entering them, with the
other branch exactly if there is one and the test was taken.  Without tracing the report is the same
but for the trace, which is then empty. -/
theorem Settings.branches_isolated (settings : Settings) (solver : Backend) (function : Function) :
    let start := (Exploration.start (settings.maxPathConstraints.map UInt64.toNat)).bindParams
      function.params
    let log := Exploration.executions solver true function.body 0 start
    let report := { settings with traceBranches := true }.analyzeWith solver function
    (∀ snapshot ∈ report.trace, ∀ store, snapshot.beforeFalse = some store →
        store.named = snapshot.beforeTrue.named ∧
          store.branch = snapshot.beforeTrue.branch ++ [.not snapshot.test]) ∧
      List.Forall₂ Execution.Records (log.filter Execution.countsConditional) report.trace ∧
      report.trace.length = report.stats.conditionals ∧
      { settings with traceBranches := false }.analyzeWith solver function =
        { report with trace := [] } := by
  intro start log report
  have hlockstep := Exploration.lockstep_untraced solver
  have hfresh :
      (Exploration.start (settings.maxPathConstraints.map UInt64.toNat)).untraced = _ := rfl
  have hstart : start.untraced = start := hlockstep.bindParams hfresh function.params
  have htrace : report.trace = log.filterMap Execution.snapshot? := by
    have htraces : report.trace = start.trace ++ log.filterMap Execution.snapshot? :=
      (Exploration.Traces.closed solver).explore function.body 0 start
    have hempty : start.trace = [] := by rw [← hstart]; rfl
    rw [htraces, hempty, List.nil_append]
  have hcount : report.stats.conditionals = log.countP Execution.countsConditional := by
    have hbound := Exploration.adds_bindParams function.params
      (Exploration.start (settings.maxPathConstraints.map UInt64.toNat))
    have haccounts := (Exploration.Accounts.closed solver true).explore function.body 0 start
    rw [show report.stats.conditionals = _ from (hbound.trans haccounts.adds).conditionals]
    exact (Nat.zero_add _).trans (Nat.zero_add _)
  refine ⟨?_, ?_, ?_, ?_⟩
  · intro snapshot hsnapshot store hstore
    rw [htrace] at hsnapshot
    obtain ⟨execution, -, hleft⟩ := List.mem_filterMap.mp hsnapshot
    rw [Execution.eq_take_of_snapshot? hleft hstore]
    exact ⟨rfl, rfl⟩
  · rw [htrace]
    exact Execution.forall₂_snapshots log
  · rw [htrace, Execution.length_snapshots, hcount]
  · have hfinal := hlockstep.explore function.body start start hstart
    exact (congrArg (fun state => state.report function.name) hfinal).symm

/-- The variable `c` is false, and the conditional on it gives it another value in its body and
enters a conditional there.  The other branch starts with the first value. -/
theorem Settings.branches_isolated_assigning :
    let c : Var := ⟨0, "c", .bool⟩
    let function : Function := { name := "assigning", body := [
      .declaration 1 "c" "bool" (some (.literal (.bool false))),
      .conditional 2 (.identifier "c")
        [.reassignment 3 ["c"] (.literal (.bool true)),
          .conditional 4 (.unary "not" (.identifier "c")) [] []]
        [.other 5 none]] }
    let report := { Preset.fast.settings with traceBranches := true }.analyzeWith
      (fun _ _ => .unsat) function
    let entered : Store := { named := [("c", ⟨c, .const (.bool false)⟩)] }
    let other : Store := { entered with branch := [.not (.var c)] }
    (⟨2, .var c, entered, some other⟩ ∈ report.trace ∧ report.trace.length = 2) ∧
      other.named = entered.named ∧ other.branch = entered.branch ++ [.not (.var c)] := by
  intro c function report entered other
  have htrace : ∃ later, report.trace = [⟨2, .var c, entered, some other⟩, later] := ⟨_, rfl⟩
  obtain ⟨later, htrace⟩ := htrace
  have hmem : ⟨2, .var c, entered, some other⟩ ∈ report.trace := by simp [htrace]
  obtain ⟨hisolated, -, -, -⟩ :=
    Settings.branches_isolated Preset.fast.settings (fun _ _ => .unsat) function
  exact ⟨⟨hmem, by rw [htrace]; rfl⟩, hisolated _ hmem other rfl⟩

end BranchWitness
