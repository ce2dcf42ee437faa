import BranchWitness.Proofs.Events
import BranchWitness.Proofs.Failures

/-!
# What the executions of an analysis come to

The diagnostics of failures, the counts of conditionals and loops and the number of checks are all
determined by the executions of an analysis (`Exploration.Accounts`): a failed execution has one
diagnostic, a conditional or a loop counts if its test resolves, and if there is room for the test
it is checked, a conditional with an `else` twice.

So no failure goes unreported, and the number of checks is known before the solver is asked.
-/

namespace BranchWitness

/-! ## What one execution comes to -/

namespace Stmt

/-- Whether the statement is a conditional. -/
def isConditional : Stmt → Bool
  | .conditional _ _ _ _ => true
  | _ => false

/-- Whether the statement is a loop. -/
def isLoop : Stmt → Bool
  | .loop _ _ _ => true
  | _ => false

/-- Whether the statement is a conditional with an `else`. -/
def hasElse : Stmt → Bool
  | .conditional _ _ _ orelse => !orelse.isEmpty
  | _ => false

/-- Whether the test of the statement resolves. -/
def resolves (bindings : Bindings) : Stmt → Bool
  | .conditional _ condition _ _ => (condition.constraint bindings).isOk
  | .loop _ condition _ => (condition.constraint bindings).isOk
  | _ => false

end Stmt

/-- The line and the message of a diagnostic. -/
def Diagnostic.reported (diagnostic : Diagnostic) : Line × String :=
  (diagnostic.line, diagnostic.message)

namespace Execution

/-- Whether the execution counts as a conditional. -/
def countsConditional (execution : Execution) : Bool :=
  execution.stmt.isConditional && execution.stmt.resolves execution.before.bindings

/-- Whether the execution counts as a loop. -/
def countsLoop (execution : Execution) : Bool :=
  execution.stmt.isLoop && execution.stmt.resolves execution.before.bindings

/-- The number of checks that the execution makes, without those inside it. -/
def checks (execution : Execution) : Nat :=
  match execution.stmt, execution.failure with
  | .conditional _ _ _ orelse, none => if orelse.isEmpty then 1 else 2
  | .loop _ _ _, none => 1
  | _, _ => 0

/-- The number of checks that the executions make. -/
def totalChecks : List Execution → Nat
  | [] => 0
  | execution :: rest => execution.checks + totalChecks rest

/-- The diagnostic of the execution, if it failed. -/
def diagnostic? (execution : Execution) : Option Diagnostic :=
  execution.failure.bind (Diagnostic.ofError? execution.stmt.line)

/-- The line and the reason under which the execution is reported, if it failed. -/
def report? (execution : Execution) : Option (Line × String) :=
  execution.failure.map fun error => (execution.stmt.line, error.message)

theorem countP_cons_toNat (p : Execution → Bool) (execution : Execution) (log : List Execution) :
    (execution :: log).countP p = (p execution).toNat + log.countP p := by
  rw [List.countP_cons, Nat.add_comm]
  cases p execution <;> rfl

section Counts

variable {line : Line} {condition : Expr} {test : Term} {body orelse : List Stmt}
  {before : Exploration} (position : Nat) (failure : Option Error)

theorem countsConditional_of_ok (htest : condition.constraint before.bindings = .ok test) :
    countsConditional ⟨position, .conditional line condition body orelse, before, failure⟩ =
      true := by
  rw [countsConditional, Stmt.resolves, htest]
  rfl

theorem countsConditional_of_error {error : Error}
    (htest : condition.constraint before.bindings = .error error) :
    countsConditional ⟨position, .conditional line condition body orelse, before, failure⟩ =
      false := by
  rw [countsConditional, Stmt.resolves, htest]
  rfl

theorem countsLoop_of_ok (htest : condition.constraint before.bindings = .ok test) :
    countsLoop ⟨position, .loop line condition body, before, failure⟩ = true := by
  rw [countsLoop, Stmt.resolves, htest]
  rfl

theorem countsLoop_of_error {error : Error}
    (htest : condition.constraint before.bindings = .error error) :
    countsLoop ⟨position, .loop line condition body, before, failure⟩ = false := by
  rw [countsLoop, Stmt.resolves, htest]
  rfl

end Counts

theorem checks_eq_zero {execution : Execution}
    (h : execution.stmt.branches = true → execution.failure.isSome = true) :
    execution.checks = 0 := by
  obtain ⟨position, stmt, before, failure⟩ := execution
  cases failure with
  | some error => cases stmt <;> rfl
  | none =>
      cases stmt with
      | conditional => cases h rfl
      | loop => cases h rfl
      | _ => rfl

theorem checks_le (execution : Execution) :
    execution.checks ≤
      2 * execution.stmt.isConditional.toNat + execution.stmt.isLoop.toNat := by
  obtain ⟨position, stmt, before, failure⟩ := execution
  cases stmt with
  | conditional line condition body orelse =>
      cases failure with
      | none => cases orelse <;> simp [checks, Stmt.isConditional, Stmt.isLoop]
      | some error => exact Nat.zero_le _
  | loop line condition body => cases failure <;> simp [checks, Stmt.isConditional, Stmt.isLoop]
  | _ => exact Nat.zero_le _

theorem totalChecks_append (log log' : List Execution) :
    totalChecks (log ++ log') = totalChecks log + totalChecks log' := by
  induction log with
  | nil => exact (Nat.zero_add _).symm
  | cons execution rest ih => rw [List.cons_append, totalChecks, totalChecks, ih, Nat.add_assoc]

/-- Where there is room for the test, every execution that counts is checked. -/
theorem checks_eq {solver : Backend} {tracing : Bool} {execution : Execution}
    (hfailure : execution.failure =
      (Exploration.perform solver tracing execution.stmt execution.before).2)
    (hroom : execution.before.store.hasRoom = true) :
    execution.checks = execution.countsLoop.toNat + execution.countsConditional.toNat +
      (execution.countsConditional && execution.stmt.hasElse).toNat := by
  obtain ⟨position, stmt, before, failure⟩ := execution
  cases stmt with
  | conditional line condition body orelse =>
      obtain ⟨error, htest, heq⟩ | ⟨test, -, hfull, -⟩ | ⟨test, htest, -, heq⟩ :=
        Exploration.perform_conditional solver tracing line condition body orelse before
      · have hfails : failure = some error := hfailure.trans (congrArg Prod.snd heq)
        rw [hfails, countsConditional_of_error position _ htest]
        rfl
      · exact absurd hroom (Bool.eq_false_iff.mp hfull)
      · have hdone : failure = none := hfailure.trans (congrArg Prod.snd heq)
        rw [hdone, countsConditional_of_ok position _ htest]
        cases orelse <;> rfl
  | loop line condition body =>
      obtain ⟨error, htest, heq⟩ | ⟨test, -, hfull, -⟩ | ⟨test, htest, -, heq⟩ :=
        Exploration.perform_loop solver tracing line condition body before
      · have hfails : failure = some error := hfailure.trans (congrArg Prod.snd heq)
        rw [hfails, countsLoop_of_error position _ htest]
        rfl
      · exact absurd hroom (Bool.eq_false_iff.mp hfull)
      · have hdone : failure = none := hfailure.trans (congrArg Prod.snd heq)
        rw [hdone, countsLoop_of_ok position _ htest]
        rfl
  | _ => rfl

theorem totalChecks_le (log : List Execution) :
    totalChecks log ≤
      2 * log.countP (fun execution => execution.stmt.isConditional) +
        log.countP fun execution => execution.stmt.isLoop := by
  induction log with
  | nil => exact Nat.zero_le _
  | cons execution rest ih =>
      have hfirst := execution.checks_le
      rw [totalChecks, countP_cons_toNat, countP_cons_toNat]
      omega

theorem totalChecks_eq {log : List Execution}
    (h : ∀ execution ∈ log, execution.checks = execution.countsLoop.toNat +
      execution.countsConditional.toNat +
      (execution.countsConditional && execution.stmt.hasElse).toNat) :
    totalChecks log = log.countP countsLoop + log.countP countsConditional +
      log.countP fun execution => execution.countsConditional && execution.stmt.hasElse := by
  induction log with
  | nil => rfl
  | cons execution rest ih =>
      obtain ⟨hfirst, hrest⟩ := List.forall_mem_cons.mp h
      have htotal := ih hrest
      rw [totalChecks, countP_cons_toNat, countP_cons_toNat, countP_cons_toNat]
      omega

end Execution

namespace Exploration

/-! ## What the moves add -/

/-- The diagnostics of failures. -/
def failures (state : Exploration) : List Diagnostic :=
  state.diagnostics.filter fun diagnostic => !diagnostic.kind.isAnswer

/-- The second state has these diagnostics of failures more than the first, and this many
conditionals, loops and checks, and it has room for as many tests. -/
structure Adds (first second : Exploration) (failed : List Diagnostic)
    (conditionals loops checks : Nat) : Prop where
  failures : second.failures = first.failures ++ failed
  conditionals : second.stats.conditionals = first.stats.conditionals + conditionals
  loops : second.stats.loops = first.stats.loops + loops
  solverChecks : second.stats.solverChecks = first.stats.solverChecks + checks
  capacity : second.store.capacity = first.store.capacity

section Adds

variable {first second third state : Exploration} {failed failed' : List Diagnostic}
  {conditionals conditionals' loops loops' checks checks' : Nat}

/-- Nothing is added if the parts that matter are the same. -/
theorem Adds.of_same (hdiagnostics : second.diagnostics = first.diagnostics)
    (hconditionals : second.stats.conditionals = first.stats.conditionals)
    (hloops : second.stats.loops = first.stats.loops)
    (hchecks : second.stats.solverChecks = first.stats.solverChecks)
    (hcapacity : second.store.capacity = first.store.capacity) : Adds first second [] 0 0 0 where
  failures := by rw [Exploration.failures, hdiagnostics, List.append_nil, Exploration.failures]
  conditionals := hconditionals
  loops := hloops
  solverChecks := hchecks
  capacity := hcapacity

theorem Adds.refl (state : Exploration) : Adds state state [] 0 0 0 :=
  .of_same rfl rfl rfl rfl rfl

theorem Adds.trans (h : Adds first second failed conditionals loops checks)
    (h' : Adds second third failed' conditionals' loops' checks') :
    Adds first third (failed ++ failed') (conditionals + conditionals') (loops + loops')
      (checks + checks') where
  failures := by rw [h'.failures, h.failures, List.append_assoc]
  conditionals := by rw [h'.conditionals, h.conditionals, Nat.add_assoc]
  loops := by rw [h'.loops, h.loops, Nat.add_assoc]
  solverChecks := by rw [h'.solverChecks, h.solverChecks, Nat.add_assoc]
  capacity := h'.capacity.trans h.capacity

theorem Adds.congr (h : Adds first second failed conditionals loops checks)
    (hfailed : failed = failed') (hconditionals : conditionals = conditionals')
    (hloops : loops = loops') (hchecks : checks = checks') :
    Adds first second failed' conditionals' loops' checks' := by
  subst hfailed hconditionals hloops hchecks
  exact h

theorem Adds.backTo (h : Adds first second failed conditionals loops checks)
    {earlier : Exploration} (hearlier : earlier.store.capacity = first.store.capacity) :
    Adds first (second.backTo earlier) failed conditionals loops checks :=
  ⟨h.failures, h.conditionals, h.loops, h.solverChecks, hearlier⟩

theorem adds_check (solver : Backend) (line : Line) (state : Exploration) :
    Adds state (state.check solver line) [] 0 0 1 := by
  have hfailures : (state.check solver line).failures = state.failures := by
    unfold check failures
    cases hanswer : solver state.asked state.store.assertions <;>
      simp [hanswer, DiagnosticKind.isAnswer]
  refine ⟨?_, ?_, ?_, ?_, ?_⟩
  · rw [hfailures, List.append_nil]
  all_goals
    unfold check
    dsimp only
    split <;> rfl

theorem adds_enterConditional (tracing : Bool) (line : Line) (test : Term) (state : Exploration) :
    Adds state (state.enterConditional tracing line test) [] 1 0 0 := by
  cases tracing <;> exact ⟨(List.append_nil _).symm, rfl, rfl, rfl, rfl⟩

theorem adds_enterTrue (tracing : Bool) (line : Line) (test : Term) (state : Exploration) :
    Adds state (state.enterTrue tracing line test) [] 1 0 0 := by
  have htaken : Adds (state.enterConditional tracing line test)
      (state.enterTrue tracing line test) [] 0 0 0 := .of_same rfl rfl rfl rfl rfl
  exact (adds_enterConditional tracing line test state).trans htaken

theorem adds_enterFalse (solver : Backend) (tracing : Bool) (line : Line) (test : Term)
    (position : Nat) (state : Exploration) :
    Adds state (state.enterFalse solver tracing line test position) [] 0 0 1 := by
  have hnoted : Adds state ((state.take (.not test)).noteElse tracing position) [] 0 0 0 := by
    cases tracing <;> exact .of_same rfl rfl rfl rfl rfl
  exact hnoted.trans (adds_check solver line _)

theorem adds_countLoop (state : Exploration) : Adds state state.countLoop [] 0 1 0 :=
  ⟨(List.append_nil _).symm, rfl, rfl, rfl, rfl⟩

theorem adds_enterBody (solver : Backend) (line : Line) (test : Term) (state : Exploration) :
    Adds state (state.enterBody solver line test) [] 0 1 1 := by
  have htaken : Adds state.countLoop (state.countLoop.take test).countLoopCheck [] 0 0 0 :=
    .of_same rfl rfl rfl rfl rfl
  have hasked := adds_check solver line (state.countLoop.take test).countLoopCheck
  have hentered : Adds ((state.countLoop.take test).countLoopCheck.check solver line)
      (state.enterBody solver line test) [] 0 0 0 := .of_same rfl rfl rfl rfl rfl
  exact (((adds_countLoop state).trans htaken).trans hasked).trans hentered

theorem adds_of_reach {line : Line} {reached : Exploration}
    (h : state.reach line = some reached) : Adds state reached [] 0 0 0 := by
  rw [eq_of_reach h]
  exact .of_same rfl rfl rfl rfl rfl

theorem adds_fail (state : Exploration) (line : Line) (error : Error) :
    Adds state (state.fail line error) (Diagnostic.ofError? line error).toList 0 0 0 := by
  unfold fail
  cases hdiagnostic : Diagnostic.ofError? line error with
  | none => exact .refl state
  | some diagnostic =>
      have hfailure := Diagnostic.isAnswer_of_ofError? hdiagnostic
      refine ⟨?_, rfl, rfl, rfl, rfl⟩
      simp [failures, hfailure]

theorem adds_settle (line : Line) (state : Exploration) (failure : Option Error) :
    Adds state (settle line (state, failure)) (failure.bind (Diagnostic.ofError? line)).toList
      0 0 0 := by
  cases failure with
  | none => exact .refl state
  | some error => exact adds_fail state line error

theorem adds_bind {bound : Exploration} {name type : String} {x : Var}
    (h : state.bind name type = .ok (x, bound)) : Adds state bound [] 0 0 0 := by
  obtain rfl | ⟨-, sort, rfl⟩ := eq_of_bind h
  · exact .refl _
  · exact .of_same rfl rfl rfl rfl rfl

theorem capacity_assign {store next : Store} {target : Var} {value : Term}
    (h : store.assign target value = .ok next) : next.capacity = store.capacity := by
  obtain ⟨-, -, rfl⟩ := Store.assign_eq_ok h
  change (store.settled target).capacity = store.capacity
  unfold Store.settled
  split <;> rfl

theorem capacity_assignEach (value : Term) (handles : List Var) (store : Store) :
    (assignEach value handles store).1.capacity = store.capacity := by
  induction handles generalizing store with
  | nil => rfl
  | cons x rest ih =>
      rw [assignEach]
      split
      · rfl
      · rename_i next hassign
        rw [ih, capacity_assign hassign]

theorem adds_declare (state : Exploration) (target annotation : String) (value : Option Expr) :
    Adds state (state.declare target annotation value).1 [] 0 0 0 := by
  unfold declare
  split
  · exact .refl state
  · split
    · exact .refl state
    · rename_i x bound hbind
      have hbound := adds_bind hbind
      split
      · exact hbound
      · split
        · exact hbound
        · rename_i store hassign
          have hassigned : Adds bound { bound with store } [] 0 0 0 :=
            .of_same rfl rfl rfl rfl (capacity_assign hassign)
          exact hbound.trans hassigned

theorem adds_reassign (state : Exploration) (targets : List String) (value : Expr) :
    Adds state (state.reassign targets value).1 [] 0 0 0 := by
  unfold reassign
  split
  · exact .refl state
  · split
    · exact .refl state
    · exact .of_same rfl rfl rfl rfl (capacity_assignEach _ _ state.store)

/-- A statement that fails or has no branches adds its count at most. -/
theorem adds_perform {solver : Backend} {tracing : Bool} {stmt : Stmt}
    (h : stmt.branches = true → (perform solver tracing stmt state).2.isSome = true)
    (position : Nat) (failure : Option Error) :
    Adds state (perform solver tracing stmt state).1 []
      (Execution.countsConditional ⟨position, stmt, state, failure⟩).toNat
      (Execution.countsLoop ⟨position, stmt, state, failure⟩).toNat 0 := by
  cases stmt with
  | declaration _ target annotation value => exact adds_declare state target annotation value
  | reassignment _ targets value => exact adds_reassign state targets value
  | conditional line condition body orelse =>
      obtain ⟨error, htest, heq⟩ | ⟨test, htest, -, heq⟩ | ⟨test, -, -, heq⟩ :=
        perform_conditional solver tracing line condition body orelse state
      · rw [heq, Execution.countsConditional_of_error position failure htest]
        exact .refl state
      · rw [heq, Execution.countsConditional_of_ok position failure htest]
        exact adds_enterConditional tracing line test state
      · have hfails := h rfl
        rw [heq] at hfails
        cases hfails
  | loop line condition body =>
      obtain ⟨error, htest, heq⟩ | ⟨test, htest, -, heq⟩ | ⟨test, -, -, heq⟩ :=
        perform_loop solver tracing line condition body state
      · rw [heq, Execution.countsLoop_of_error position failure htest]
        exact .refl state
      · rw [heq, Execution.countsLoop_of_ok position failure htest]
        exact adds_countLoop state
      · have hfails := h rfl
        rw [heq] at hfails
        cases hfails
  | other => exact .refl state

end Adds

/-! ## What the executions come to -/

/-- What the second state has more than the first is what the executions come to, and they all have
room for as many tests. -/
structure Accounts (before : Exploration) (log : List Execution) (after : Exploration) : Prop where
  adds : Adds before after (log.filterMap Execution.diagnostic?)
    (log.countP Execution.countsConditional) (log.countP Execution.countsLoop)
    (Execution.totalChecks log)
  within : ∀ execution ∈ log, execution.before.store.capacity = before.store.capacity

namespace Accounts

variable {solver : Backend} {tracing : Bool} {state reached first second third after : Exploration}
  {log log' : List Execution}

theorem append (h : Accounts first log second) (h' : Accounts second log' third) :
    Accounts first (log ++ log') third := by
  have hcapacity : second.store.capacity = first.store.capacity := h.adds.capacity
  constructor
  · refine (h.adds.trans h'.adds).congr ?_ ?_ ?_ ?_
    · rw [List.filterMap_append]
    · rw [List.countP_append]
    · rw [List.countP_append]
    · rw [Execution.totalChecks_append]
  · refine List.forall_mem_append.mpr ⟨h.within, fun execution hexecution => ?_⟩
    rw [h'.within execution hexecution, hcapacity]

/-- An execution with what it adds by itself, and those inside it. -/
theorem enter {execution : Execution} {failed : List Diagnostic}
    {conditionals loops checks : Nat}
    (hreach : state.reach execution.stmt.line = some execution.before)
    (hadds : Adds execution.before after failed conditionals loops checks)
    (hwithin : ∀ inner ∈ log, inner.before.store.capacity = execution.before.store.capacity)
    (hfailed : failed = execution.diagnostic?.toList ++ log.filterMap Execution.diagnostic?)
    (hconditionals : conditionals =
      execution.countsConditional.toNat + log.countP Execution.countsConditional)
    (hloops : loops = execution.countsLoop.toNat + log.countP Execution.countsLoop)
    (hchecks : checks = execution.checks + Execution.totalChecks log) :
    Accounts state (execution :: log) after := by
  have hreached := adds_of_reach hreach
  constructor
  · refine (hreached.trans hadds).congr ?_ ?_ ?_ ?_
    · rw [hfailed, List.nil_append, List.filterMap_cons]
      cases execution.diagnostic? <;> rfl
    · rw [hconditionals, Nat.zero_add, Execution.countP_cons_toNat]
    · rw [hloops, Nat.zero_add, Execution.countP_cons_toNat]
    · rw [hchecks, Nat.zero_add, Execution.totalChecks]
  · refine List.forall_mem_cons.mpr ⟨hreached.capacity, fun inner hinner => ?_⟩
    rw [hwithin inner hinner, hreached.capacity]

/-- A statement with nothing executed inside it. -/
theorem single {stmt : Stmt} (position : Nat) (hreach : state.reach stmt.line = some reached)
    (h : stmt.branches = true → (perform solver tracing stmt reached).2.isSome = true) :
    Accounts state [⟨position, stmt, reached, (perform solver tracing stmt reached).2⟩]
      (settle stmt.line (perform solver tracing stmt reached)) := by
  have hperformed := adds_perform h position (perform solver tracing stmt reached).2
  have hsettled := adds_settle stmt.line (perform solver tracing stmt reached).1
    (perform solver tracing stmt reached).2
  have hchecks : Execution.checks
      ⟨position, stmt, reached, (perform solver tracing stmt reached).2⟩ = 0 :=
    Execution.checks_eq_zero h
  refine enter hreach (hperformed.trans hsettled) (by simp) ?_ rfl rfl ?_
  · rw [List.nil_append, List.filterMap_nil, List.append_nil]
    rfl
  · rw [hchecks]
    rfl

section Branches

variable {explored explored' : Exploration} {line : Line} {condition : Expr} {test : Term}
  {body : List Stmt}

theorem ifTrue (position : Nat) (hreach : state.reach line = some reached)
    (htest : condition.constraint reached.bindings = .ok test)
    (hbody : Accounts (reached.enterTrue tracing line test) log explored) :
    Accounts state (⟨position, .conditional line condition body [], reached, none⟩ :: log)
      ((explored.check solver line).backTo reached) := by
  have hentered := adds_enterTrue tracing line test reached
  have hchecked := adds_check solver line explored
  have hadds := ((hentered.trans hbody.adds).trans hchecked).backTo rfl
  refine enter hreach hadds ?_ ?_ ?_ ?_ ?_
  · intro inner hinner
    rw [hbody.within inner hinner, hentered.capacity]
  · simp [Execution.diagnostic?]
  · rw [Execution.countsConditional_of_ok position _ htest, Bool.toNat_true]
    omega
  · rfl
  · show 0 + Execution.totalChecks log + 1 = 1 + Execution.totalChecks log
    omega

theorem ifElse {first : Stmt} {rest : List Stmt} (position : Nat)
    (hreach : state.reach line = some reached)
    (htest : condition.constraint reached.bindings = .ok test)
    (hbody : Accounts (reached.enterTrue tracing line test) log explored)
    (horelse : Accounts (((explored.check solver line).backTo reached).enterFalse solver tracing
      line test reached.trace.length) log' explored') :
    Accounts state
      (⟨position, .conditional line condition body (first :: rest), reached, none⟩ :: (log ++ log'))
      (explored'.backTo reached) := by
  have hentered := adds_enterTrue tracing line test reached
  have hchecked := adds_check solver line explored
  -- one check behind the body, one before the other branch
  have hback := ((hentered.trans hbody.adds).trans hchecked).backTo rfl
  have hother := adds_enterFalse solver tracing line test reached.trace.length
    ((explored.check solver line).backTo reached)
  have hadds := ((hback.trans hother).trans horelse.adds).backTo rfl
  refine enter hreach hadds ?_ ?_ ?_ ?_ ?_
  · refine List.forall_mem_append.mpr ⟨fun inner hinner => ?_, fun inner hinner => ?_⟩
    · rw [hbody.within inner hinner, hentered.capacity]
    · rw [horelse.within inner hinner, hother.capacity]
      rfl
  · simp [Execution.diagnostic?]
  · rw [Execution.countsConditional_of_ok position _ htest, Bool.toNat_true, List.countP_append]
    omega
  · rw [List.countP_append]
    show 0 + _ + 0 + 0 + _ = 0 + _
    omega
  · have htwice : Execution.checks
        ⟨position, .conditional line condition body (first :: rest), reached, none⟩ = 2 := rfl
    rw [htwice, Execution.totalChecks_append]
    omega

theorem loop (position : Nat) (hreach : state.reach line = some reached)
    (htest : condition.constraint reached.bindings = .ok test)
    (hbody : Accounts (reached.enterBody solver line test) log explored) :
    Accounts state (⟨position, .loop line condition body, reached, none⟩ :: log)
      (explored.leaveLoop.backTo reached) := by
  have hentered := adds_enterBody solver line test reached
  have hleft : Adds explored explored.leaveLoop [] 0 0 0 := .of_same rfl rfl rfl rfl rfl
  have hadds := ((hentered.trans hbody.adds).trans hleft).backTo rfl
  refine enter hreach hadds ?_ ?_ ?_ ?_ ?_
  · intro inner hinner
    rw [hbody.within inner hinner, hentered.capacity]
  · simp [Execution.diagnostic?]
  · rfl
  · rw [Execution.countsLoop_of_ok position _ htest, Bool.toNat_true]
    omega
  · rfl

end Branches

theorem closed (solver : Backend) (tracing : Bool) : Closed solver tracing Accounts where
  nil state := ⟨.refl state, by simp⟩
  append h h' := h.append h'
  skip _ := ⟨.of_same rfl rfl rfl rfl rfl, by simp⟩
  single _ position hreach h := single position hreach h
  ifTrue position hreach htest _ hbody := ifTrue position hreach htest hbody
  ifElse position hreach htest _ hbody horelse := ifElse position hreach htest hbody horelse
  loop position hreach htest _ hbody := loop position hreach htest hbody

end Accounts

/-! ## Parameters -/

/-- Why parameters are not bound, one failure for each that is not. -/
def bindFailures : List Param → Exploration → List Error
  | [], _ => []
  | param :: rest, state =>
      match state.bind param.name param.type with
      | .error error => error :: bindFailures rest (state.bindParam param)
      | .ok _ => bindFailures rest (state.bindParam param)

theorem adds_bindParams (params : List Param) (state : Exploration) :
    Adds state (state.bindParams params)
      ((bindFailures params state).filterMap (Diagnostic.ofError? 0)) 0 0 0 := by
  unfold bindParams
  induction params generalizing state with
  | nil => exact .refl state
  | cons param rest ih =>
      have hrest := ih (state.bindParam param)
      rw [List.foldl_cons, bindFailures]
      cases hbind : state.bind param.name param.type with
      | error error =>
          have hfailed : Adds state (state.bindParam param)
              (Diagnostic.ofError? 0 error).toList 0 0 0 := by
            rw [bindParam, hbind]
            exact adds_fail state 0 error
          refine (hfailed.trans hrest).congr ?_ rfl rfl rfl
          rw [List.filterMap_cons]
          cases Diagnostic.ofError? 0 error <;> rfl
      | ok result =>
          obtain ⟨x, bound⟩ := result
          have hlisted : Adds bound { bound with params := bound.params ++ [x] } [] 0 0 0 :=
            .of_same rfl rfl rfl rfl rfl
          have hbound : Adds state (state.bindParam param) [] 0 0 0 := by
            rw [bindParam, hbind]
            dsimp only
            split
            · exact adds_bind hbind
            · exact (adds_bind hbind).trans hlisted
          exact hbound.trans hrest

theorem bindFailures_not_fatal {params : List Param} {state : Exploration} {error : Error}
    (h : error ∈ bindFailures params state) : error.isFatal = false := by
  induction params generalizing state with
  | nil => cases h
  | cons param rest ih =>
      rw [bindFailures] at h
      split at h
      · rename_i failed hbind
        rcases List.mem_cons.mp h with rfl | hrest
        · exact recoverable_bind state param.name param.type error hbind
        · exact ih hrest
      · exact ih h

/-! ## What is reported -/

theorem map_reported_failures {errors : List Error} (line : Line)
    (h : ∀ error ∈ errors, error.isFatal = false) :
    (errors.filterMap (Diagnostic.ofError? line)).map Diagnostic.reported =
      errors.map fun error => (line, error.message) := by
  induction errors with
  | nil => rfl
  | cons error rest ih =>
      obtain ⟨hfirst, hrest⟩ := List.forall_mem_cons.mp h
      obtain ⟨kind, hkind⟩ := Diagnostic.exists_of_not_fatal line hfirst
      rw [List.filterMap_cons_some hkind, List.map_cons, List.map_cons, ih hrest]
      rfl

/-- Every failed execution is reported at the line of its statement. -/
theorem map_reported_executions (solver : Backend) (tracing : Bool) (stmts : List Stmt)
    (position : Nat) (state : Exploration) :
    ((executions solver tracing stmts position state).filterMap Execution.diagnostic?).map
        Diagnostic.reported =
      (executions solver tracing stmts position state).filterMap Execution.report? := by
  rw [List.map_filterMap]
  refine List.filterMap_congr fun execution hexecution => ?_
  have hfailure := failure_of_mem_executions hexecution
  unfold Execution.diagnostic? Execution.report?
  cases hcase : execution.failure with
  | none => rfl
  | some error =>
      have hmild : error.isFatal = false := perform_not_fatal (hfailure.symm.trans hcase)
      obtain ⟨kind, hkind⟩ := Diagnostic.exists_of_not_fatal execution.stmt.line hmild
      rw [Option.bind_some, hkind]
      rfl

theorem length_reports (log : List Execution) :
    (log.filterMap Execution.report?).length =
      log.countP fun execution => execution.failure.isSome := by
  rw [List.length_filterMap_eq_countP]
  refine List.countP_congr fun execution _ => ?_
  rw [Execution.report?, Option.isSome_map]

/-! ## How often the solver is asked -/

/-- Without a limit every execution that counts is checked. -/
theorem totalChecks_of_capacity_none {solver : Backend} {tracing : Bool} {stmts : List Stmt}
    {position : Nat} {state : Exploration} (h : state.store.capacity = none) :
    Execution.totalChecks (executions solver tracing stmts position state) =
      (executions solver tracing stmts position state).countP Execution.countsLoop +
      (executions solver tracing stmts position state).countP Execution.countsConditional +
      (executions solver tracing stmts position state).countP fun execution =>
        execution.countsConditional && execution.stmt.hasElse := by
  have haccounts := (Accounts.closed solver tracing).explore stmts position state
  refine Execution.totalChecks_eq fun execution hexecution => ?_
  have hcapacity : execution.before.store.capacity = none := by
    rw [haccounts.within execution hexecution, h]
  exact Execution.checks_eq (failure_of_mem_executions hexecution)
    (Store.hasRoom_of_capacity_none hcapacity)

/-- The executed statements of a kind are no more than all statements of this kind. -/
theorem countP_executions_le (solver : Backend) (tracing : Bool) (stmts : List Stmt)
    (position : Nat) (state : Exploration) (kind : Stmt → Bool) :
    (executions solver tracing stmts position state).countP
        (fun execution => kind execution.stmt) ≤ (Stmt.nodes stmts).countP kind := by
  have hsublist := (sublist_executions solver tracing stmts position state).map Prod.fst
  rw [List.map_map, List.zipIdx_map_fst] at hsublist
  have hle : ((executions solver tracing stmts position state).map
      (Prod.fst ∘ Execution.node)).countP kind ≤ (Stmt.nodes stmts).countP kind :=
    hsublist.countP_le
  rw [List.countP_map] at hle
  exact hle

end Exploration

/-- **No statement is dropped in silence.**  An analysis executes every statement at most once.
Resolving, binding, assigning and taking a test do not fail fatally; so what is reported besides the
answers of the solver are the parameters that are not bound, at line `0`, and the executions that
fail, at the lines of their statements.  The conditionals and loops counted are those executed whose
test resolves; without a limit each of them is checked, those with an `else` twice. -/
theorem Settings.executions_accounted (settings : Settings) (solver : Backend)
    (function : Function) :
    let start := Exploration.start (settings.maxPathConstraints.map UInt64.toNat)
    let log := Exploration.executions solver settings.traceBranches function.body 0
      (start.bindParams function.params)
    let unbound := Exploration.bindFailures function.params start
    let report := settings.analyzeWith solver function
    let failures := report.diagnostics.filter fun diagnostic => !diagnostic.kind.isAnswer
    (log.map Execution.position).Nodup ∧
      (log.map Execution.node).Sublist (Stmt.nodes function.body).zipIdx ∧
      (∀ bindings expr, Recoverable (Expr.resolve bindings expr)) ∧
      (∀ state name type, Recoverable (Exploration.bind state name type)) ∧
      (∀ store target value, Recoverable (Store.assign store target value)) ∧
      (∀ store test, Recoverable (Store.push store test)) ∧
      failures.map Diagnostic.reported =
        unbound.map (fun error => (0, error.message)) ++ log.filterMap Execution.report? ∧
      failures.length =
        unbound.length + log.countP (fun execution => execution.failure.isSome) ∧
      report.stats.conditionals = log.countP Execution.countsConditional ∧
      report.stats.loops = log.countP Execution.countsLoop ∧
      (settings.maxPathConstraints = none →
        report.stats.solverChecks = report.stats.loops + report.stats.conditionals +
          log.countP fun execution => execution.countsConditional && execution.stmt.hasElse) ∧
      report.stats.solverChecks ≤
        2 * (Stmt.nodes function.body).countP Stmt.isConditional +
          (Stmt.nodes function.body).countP Stmt.isLoop := by
  intro start log unbound report failures
  have hbound := Exploration.adds_bindParams function.params start
  have haccounts := (Exploration.Accounts.closed solver settings.traceBranches).explore
    function.body 0 (start.bindParams function.params)
  have hadds := hbound.trans haccounts.adds
  have hchecks : report.stats.solverChecks = Execution.totalChecks log := by
    rw [show report.stats.solverChecks = _ from hadds.solverChecks]
    exact (Nat.zero_add _).trans (Nat.zero_add _)
  have hconditionals : report.stats.conditionals = log.countP Execution.countsConditional := by
    rw [show report.stats.conditionals = _ from hadds.conditionals]
    exact (Nat.zero_add _).trans (Nat.zero_add _)
  have hloops : report.stats.loops = log.countP Execution.countsLoop := by
    rw [show report.stats.loops = _ from hadds.loops]
    exact (Nat.zero_add _).trans (Nat.zero_add _)
  have hreported : failures.map Diagnostic.reported =
      unbound.map (fun error => (0, error.message)) ++ log.filterMap Execution.report? := by
    rw [show failures = _ from hadds.failures, List.map_append, List.map_append,
      Exploration.map_reported_failures 0 fun error => Exploration.bindFailures_not_fatal,
      Exploration.map_reported_executions]
    rfl
  refine ⟨Exploration.nodup_positions _ _ _ _, Exploration.sublist_executions _ _ _ _ _,
    Expr.recoverable_resolve, Exploration.recoverable_bind, Store.recoverable_assign,
    Store.recoverable_push, hreported, ?_, hconditionals, hloops, ?_, ?_⟩
  · -- one report for each failure, so the numbers agree
    have hlength := congrArg List.length hreported
    rw [List.length_map, List.length_append, List.length_map, Exploration.length_reports] at hlength
    exact hlength
  · intro hnone
    have hcapacity : (start.bindParams function.params).store.capacity = none := by
      rw [hbound.capacity]
      show settings.maxPathConstraints.map UInt64.toNat = none
      rw [hnone]
      rfl
    rw [hchecks, hloops, hconditionals]
    exact Exploration.totalChecks_of_capacity_none hcapacity
  · calc report.stats.solverChecks
        = Execution.totalChecks log := hchecks
      _ ≤ 2 * log.countP (fun execution => execution.stmt.isConditional) +
            log.countP (fun execution => execution.stmt.isLoop) := Execution.totalChecks_le log
      _ ≤ 2 * (Stmt.nodes function.body).countP Stmt.isConditional +
            (Stmt.nodes function.body).countP Stmt.isLoop :=
          Nat.add_le_add
            (Nat.mul_le_mul_left 2 (Exploration.countP_executions_le _ _ _ _ _ Stmt.isConditional))
            (Exploration.countP_executions_le _ _ _ _ _ Stmt.isLoop)

/-- Without a limit: a loop around a conditional with an `else` is checked three times, once for the
loop and twice for the conditional. -/
theorem Settings.executions_accounted_nested :
    let function : Function := { name := "nested", body := [.loop 1 (.literal (.bool true))
      [.conditional 2 (.literal (.bool true)) [] [.other 3 none]]] }
    let report := Preset.fast.settings.analyzeWith (fun _ _ => .unsat) function
    Preset.fast.settings.maxPathConstraints = none ∧
      report.stats.solverChecks = report.stats.loops + report.stats.conditionals + 1 := by
  intro function report
  have hnone : Preset.fast.settings.maxPathConstraints = none := rfl
  obtain ⟨-, -, -, -, -, -, -, -, -, -, hchecks, -⟩ :=
    Settings.executions_accounted Preset.fast.settings (fun _ _ => .unsat) function
  exact ⟨hnone, hchecks hnone⟩

end BranchWitness
