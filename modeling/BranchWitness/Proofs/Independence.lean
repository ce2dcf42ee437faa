import BranchWitness.Proofs.Path

/-!
# Explorations side by side

Two explorations of the same statements, with two solvers, run in lockstep: where one executes a
statement, pushes a test or makes a check, so does the other.  `Lockstep` says what a relation
between their states has to satisfy for that.  It gives both explorations the same variables, store
and loop frames, which is all that decides where an exploration goes, and it is kept by the few
changes that explorations are made of.  A relation of this kind is kept by every statement
(`Lockstep.explore`), by one induction over the statements.

The relation used here forgets what the solvers answered: the test cases, the violations, the counts
of the answers and the diagnostics about checks (`Exploration.unanswered`).  Checks change nothing
else (`unanswered_check`), so all that is left is the same with every solver.
-/

namespace BranchWitness

/-! ## Lockstep -/

/-- A relation between the states of two explorations with the given solvers that shows both the
same path and is kept by all that they do. -/
structure Lockstep (solver solver' : Backend) (tracing tracing' : Bool)
    (R : Exploration → Exploration → Prop) : Prop where
  -- what decides where an exploration goes
  bindings : ∀ {s s'}, R s s' → s.bindings = s'.bindings
  nextId : ∀ {s s'}, R s s' → s.nextId = s'.nextId
  params : ∀ {s s'}, R s s' → s.params = s'.params
  store : ∀ {s s'}, R s s' → s.store = s'.store
  frames : ∀ {s s'}, R s s' → s.frames = s'.frames
  -- what an exploration does to that
  setBindings : ∀ {s s'} bindings nextId, R s s' →
    R { s with bindings, nextId } { s' with bindings, nextId }
  setParams : ∀ {s s'} params, R s s' → R { s with params } { s' with params }
  setStore : ∀ {s s'} store, R s s' → R { s with store } { s' with store }
  setFrames : ∀ {s s'} frames, R s s' → R { s with frames } { s' with frames }
  -- what it files; a position in the trace is the length that the trace had
  fail : ∀ {s s'} line error, R s s' → R (s.fail line error) (s'.fail line error)
  skip : ∀ {s s'}, R s s' → R s.skip s'.skip
  countLoop : ∀ {s s'}, R s s' → R s.countLoop s'.countLoop
  countLoopCheck : ∀ {s s'}, R s s' → R s.countLoopCheck s'.countLoopCheck
  enterConditional : ∀ {s s'} line test, R s s' →
    R (s.enterConditional tracing line test) (s'.enterConditional tracing' line test)
  noteElse : ∀ {entry entry' s s'}, R entry entry' → R s s' →
    R (s.noteElse tracing entry.trace.length) (s'.noteElse tracing' entry'.trace.length)
  check : ∀ {s s'} line, R s s' → R (s.check solver line) (s'.check solver' line)

namespace Lockstep

variable {solver solver' : Backend} {tracing tracing' : Bool}
  {R : Exploration → Exploration → Prop}

/-- The outcomes of a statement in the two explorations: related states, and the same failure if
there is one. -/
structure Matches (R : Exploration → Exploration → Prop)
    (result result' : Exploration × Option Error) : Prop where
  state : R result.1 result'.1
  failure : result.2 = result'.2

theorem settle (h : Lockstep solver solver' tracing tracing' R) (line : Line)
    {result result' : Exploration × Option Error} (hresult : Matches R result result') :
    R (Exploration.settle line result) (Exploration.settle line result') := by
  obtain ⟨s, failure⟩ := result
  obtain ⟨s', failure'⟩ := result'
  obtain ⟨hstate, rfl⟩ := hresult
  cases failure with
  | none => exact hstate
  | some error => exact h.fail line error hstate

/-! ### Variables and values -/

/-- Binding a name fails in both explorations, or gives both the same variable. -/
theorem bind (h : Lockstep solver solver' tracing tracing' R) {s s' : Exploration} (hR : R s s')
    (name type : String) :
    (∃ error, s.bind name type = .error error ∧ s'.bind name type = .error error) ∨
      ∃ x bound bound', s.bind name type = .ok (x, bound) ∧ s'.bind name type = .ok (x, bound') ∧
        R bound bound' := by
  unfold Exploration.bind
  rw [← h.bindings hR, ← h.nextId hR]
  cases ValueSort.ofTag type with
  | error error => exact .inl ⟨error, rfl, rfl⟩
  | ok sort =>
      cases s.bindings.find? name with
      | none => exact .inr ⟨_, _, _, rfl, rfl, h.setBindings _ _ hR⟩
      | some existing =>
          by_cases hsort : existing.sort = sort
          · simp only [if_pos hsort]
            exact .inr ⟨existing, s, s', rfl, rfl, hR⟩
          · simp only [if_neg hsort]
            exact .inl ⟨_, rfl, rfl⟩

theorem bindParam (h : Lockstep solver solver' tracing tracing' R) {s s' : Exploration}
    (hR : R s s') (param : Param) : R (s.bindParam param) (s'.bindParam param) := by
  unfold Exploration.bindParam
  rcases h.bind hR param.name param.type with
    ⟨error, hbind, hbind'⟩ | ⟨x, bound, bound', hbind, hbind', hbound⟩
  · rw [hbind, hbind']
    exact h.fail 0 error hR
  · rw [hbind, hbind']
    dsimp only
    rw [← h.params hbound]
    split
    · exact hbound
    · exact h.setParams _ hbound

theorem bindParams (h : Lockstep solver solver' tracing tracing' R) {s s' : Exploration}
    (hR : R s s') (params : List Param) : R (s.bindParams params) (s'.bindParams params) := by
  unfold Exploration.bindParams
  induction params generalizing s s' with
  | nil => exact hR
  | cons param rest ih => exact ih (h.bindParam hR param)

theorem declare (h : Lockstep solver solver' tracing tracing' R) {s s' : Exploration}
    (hR : R s s') (target annotation : String) (value : Option Expr) :
    Matches R (s.declare target annotation value) (s'.declare target annotation value) := by
  unfold Exploration.declare
  rw [← h.bindings hR]
  cases value.mapM (Expr.resolve s.bindings) with
  | error error => exact ⟨hR, rfl⟩
  | ok initial =>
      rcases h.bind hR target annotation with
        ⟨error, hbind, hbind'⟩ | ⟨x, bound, bound', hbind, hbind', hbound⟩
      · rw [hbind, hbind']
        exact ⟨hR, rfl⟩
      · simp only [hbind, hbind']
        cases initial with
        | none => exact ⟨hbound, rfl⟩
        | some t =>
            simp only [← h.store hbound]
            cases bound.store.assign x t with
            | error error => exact ⟨hbound, rfl⟩
            | ok store => exact ⟨h.setStore store hbound, rfl⟩

theorem reassign (h : Lockstep solver solver' tracing tracing' R) {s s' : Exploration}
    (hR : R s s') (targets : List String) (value : Expr) :
    Matches R (s.reassign targets value) (s'.reassign targets value) := by
  have hlookup : s'.lookup = s.lookup := by
    funext name
    unfold Exploration.lookup
    rw [h.bindings hR]
  have hvalue : value.resolve s'.bindings = value.resolve s.bindings := by rw [h.bindings hR]
  unfold Exploration.reassign
  rw [hlookup, hvalue]
  cases targets.mapM s.lookup with
  | error error => exact ⟨hR, rfl⟩
  | ok handles =>
      cases value.resolve s.bindings with
      | error error => exact ⟨hR, rfl⟩
      | ok t =>
          have hassigned : Exploration.assignEach t handles s'.store =
              Exploration.assignEach t handles s.store := by rw [h.store hR]
          simp only [hassigned]
          exact ⟨h.setStore _ hR, rfl⟩

/-! ### Statements with bodies -/

/-- The two runs take related states to related states. -/
def Relates (R : Exploration → Exploration → Prop) (body body' : Exploration → Exploration) :
    Prop :=
  ∀ s s', R s s' → R (body s) (body' s')

theorem elseBranch (h : Lockstep solver solver' tracing tracing' R)
    {orelse orelse' : Exploration → Exploration} (horelse : Relates R orelse orelse')
    {entry entry' s s' : Exploration} (hentry : R entry entry') (hR : R s s') (line : Line)
    (test : Term) :
    R (s.elseBranch solver tracing line test entry.trace.length orelse)
      (s'.elseBranch solver' tracing' line test entry'.trace.length orelse') := by
  unfold Exploration.elseBranch
  rw [← h.store hR]
  cases s.store.push (.not test) with
  | error error => exact h.fail line error hR
  | ok pushed =>
      have hpushed := h.setStore pushed.2 hR
      exact horelse _ _ (h.check line (h.noteElse hentry hpushed))

theorem conditional (h : Lockstep solver solver' tracing tracing' R)
    {body body' : Exploration → Exploration} (hbody : Relates R body body')
    {orelse orelse' : Option (Exploration → Exploration)}
    (horelse : Option.Rel (Relates R) orelse orelse') {s s' : Exploration} (hR : R s s')
    (line : Line) (condition : Expr) :
    Matches R (s.conditional solver tracing line condition body orelse)
      (s'.conditional solver' tracing' line condition body' orelse') := by
  unfold Exploration.conditional
  rw [← h.bindings hR]
  cases condition.constraint s.bindings with
  | error error => exact ⟨hR, rfl⟩
  | ok test =>
      have hentered := h.enterConditional line test hR
      simp only [← h.store hentered, ← h.store hR]
      cases (s.enterConditional tracing line test).store.push test with
      | error error => exact ⟨hentered, rfl⟩
      | ok pushed =>
          have hexplored := hbody _ _ (h.setStore pushed.2 hentered)
          have hback := h.setStore s.store (h.check line hexplored)
          cases horelse with
          | none => exact ⟨hback, rfl⟩
          | some horelse =>
              -- the other branch is noted at the place where the conditional was entered
              exact ⟨h.setStore _ (h.elseBranch horelse hR hback line test), rfl⟩

theorem enterLoop (h : Lockstep solver solver' tracing tracing' R) {s s' : Exploration}
    (hR : R s s') : R s.enterLoop s'.enterLoop := by
  unfold Exploration.enterLoop
  rw [← h.frames hR]
  exact h.setFrames _ hR

theorem leaveLoop (h : Lockstep solver solver' tracing tracing' R) {s s' : Exploration}
    (hR : R s s') : R s.leaveLoop s'.leaveLoop := by
  unfold Exploration.leaveLoop
  rw [← h.frames hR]
  exact h.setFrames _ hR

theorem unroll (h : Lockstep solver solver' tracing tracing' R)
    {body body' : Exploration → Exploration} (hbody : Relates R body body')
    {s s' : Exploration} (hR : R s s') (line : Line) (condition : Expr) :
    Matches R (s.unroll solver line condition body)
      (s'.unroll solver' line condition body') := by
  -- rewriting the bindings themselves would change the second state too
  have hcondition : condition.constraint s'.bindings = condition.constraint s.bindings := by
    rw [h.bindings hR]
  unfold Exploration.unroll
  rw [hcondition]
  cases condition.constraint s.bindings with
  | error error => exact ⟨hR, rfl⟩
  | ok test =>
      have hcounted := h.countLoop hR
      have hpush : s'.store.push test = s.store.push test := by rw [h.store hR]
      dsimp only
      rw [hpush]
      cases s.store.push test with
      | error error => exact ⟨hcounted, rfl⟩
      | ok pushed =>
          have htaken := h.countLoopCheck (h.setStore pushed.2 hcounted)
          have hexplored := hbody _ _ (h.enterLoop (h.check line htaken))
          have hback := h.setStore s.store (h.leaveLoop hexplored)
          rw [h.store hR] at hback ⊢
          exact ⟨hback, rfl⟩

/-- A statement is reached in both explorations, or was reached before in both. -/
theorem step (h : Lockstep solver solver' tracing tracing' R) (line : Line)
    {run run' : Exploration → Exploration × Option Error}
    (hrun : ∀ s s', R s s' → Matches R (run s) (run' s')) :
    Relates R (Exploration.step line run) (Exploration.step line run') := by
  intro s s' hR
  unfold Exploration.step Exploration.reach
  rw [← h.frames hR]
  cases s.frames with
  | nil => exact h.settle line (hrun s s' hR)
  | cons frame outer =>
      by_cases hline : line ∈ frame
      · simp only [if_pos hline]
        exact h.skip hR
      · simp only [if_neg hline]
        have hreached := h.setFrames ((line :: frame) :: outer) hR
        exact h.settle line (hrun _ _ hreached)

/-! ### Runs -/

mutual

theorem execute (h : Lockstep solver solver' tracing tracing' R) (stmt : Stmt) :
    Relates R (Exploration.execute solver tracing stmt)
      (Exploration.execute solver' tracing' stmt) := by
  unfold Exploration.execute
  cases stmt with
  | declaration line target annotation value =>
      exact h.step line fun s s' hR => h.declare hR target annotation value
  | reassignment line targets value =>
      exact h.step line fun s s' hR => h.reassign hR targets value
  | conditional line test body orelse =>
      have hbody := h.explore body
      cases orelse with
      | nil => exact h.step line fun s s' hR => h.conditional hbody .none hR line test
      | cons first rest =>
          have horelse := h.explore (first :: rest)
          exact h.step line fun s s' hR => h.conditional hbody (.some horelse) hR line test
  | loop line test body =>
      have hbody := h.explore body
      exact h.step line fun s s' hR => h.unroll hbody hR line test
  | other line kind => exact h.step line fun s s' hR => ⟨hR, rfl⟩

/-- **Lockstep.**  Explorations of the same statements from related states end in related
states. -/
theorem explore (h : Lockstep solver solver' tracing tracing' R) (stmts : List Stmt) :
    Relates R (Exploration.explore solver tracing stmts)
      (Exploration.explore solver' tracing' stmts) := by
  unfold Exploration.explore
  cases stmts with
  | nil => exact fun s s' hR => hR
  | cons stmt rest => exact fun s s' hR => h.explore rest _ _ (h.execute stmt s s' hR)

end

end Lockstep

/-! ## What does not depend on the answers -/

/-- The kind of a diagnostic that only an answer of the solver gives rise to. -/
def DiagnosticKind.isAnswer : DiagnosticKind → Bool
  | .solverTimeout | .solverUnknown => true
  | _ => false

/-- No failure of a statement is filed as an answer. -/
theorem Diagnostic.isAnswer_of_ofError? {line : Line} {error : Error} {diagnostic : Diagnostic}
    (h : Diagnostic.ofError? line error = some diagnostic) : diagnostic.kind.isAnswer = false := by
  cases error <;> cases h <;> rfl

namespace Exploration

/-- The state without what the solver answered. -/
def unanswered (state : Exploration) : Exploration :=
  { state with
    testCases := []
    violations := []
    diagnostics := state.diagnostics.filter fun diagnostic => !diagnostic.kind.isAnswer
    stats := { state.stats with sat := 0, unsat := 0, timeouts := 0, unknown := 0 } }

theorem unanswered_fail (state : Exploration) (line : Line) (error : Error) :
    (state.fail line error).unanswered = state.unanswered.fail line error := by
  unfold fail
  cases hdiagnostic : Diagnostic.ofError? line error with
  | none => rfl
  | some diagnostic =>
      have hkept := Diagnostic.isAnswer_of_ofError? hdiagnostic
      simp [unanswered, hkept]

theorem unanswered_enterConditional (state : Exploration) (tracing : Bool) (line : Line)
    (test : Term) : (state.enterConditional tracing line test).unanswered =
      state.unanswered.enterConditional tracing line test := by
  cases tracing <;> rfl

theorem unanswered_noteElse (state : Exploration) (tracing : Bool) (position : Nat) :
    (state.noteElse tracing position).unanswered = state.unanswered.noteElse tracing position := by
  cases tracing <;> rfl

/-- Ask a question, without an answer. -/
def ask (state : Exploration) : Exploration :=
  { state with
    asked := state.asked ++ [state.store.assertions]
    stats := { state.stats with solverChecks := state.stats.solverChecks + 1 } }

/-- Without its answer a check is the question. -/
theorem unanswered_check (state : Exploration) (solver : Backend) (line : Line) :
    (state.check solver line).unanswered = state.unanswered.ask := by
  unfold check
  dsimp only
  cases solver state.asked state.store.assertions with
  | sat model => rfl
  | unsat => rfl
  | timeout => simp [unanswered, ask, DiagnosticKind.isAnswer]
  | unknown reason => simp [unanswered, ask, DiagnosticKind.isAnswer]

/-- Any two solvers lead an exploration the same way. -/
theorem lockstep_unanswered (solver solver' : Backend) (tracing : Bool) :
    Lockstep solver solver' tracing tracing fun s s' => s.unanswered = s'.unanswered where
  bindings h := (congrArg Exploration.bindings h :)
  nextId h := (congrArg Exploration.nextId h :)
  params h := (congrArg Exploration.params h :)
  store h := (congrArg Exploration.store h :)
  frames h := (congrArg Exploration.frames h :)
  setBindings bindings nextId h := congrArg (fun s => { s with bindings, nextId }) h
  setParams params h := congrArg (fun s => { s with params }) h
  setStore store h := congrArg (fun s => { s with store }) h
  setFrames frames h := congrArg (fun s => { s with frames }) h
  fail line error h := by rw [unanswered_fail, unanswered_fail, h]
  skip h := congrArg skip h
  countLoop h := congrArg countLoop h
  countLoopCheck h := congrArg countLoopCheck h
  enterConditional line test h := by
    rw [unanswered_enterConditional, unanswered_enterConditional, h]
  noteElse hentry h := by
    have htrace := congrArg Exploration.trace hentry
    dsimp only [unanswered] at htrace
    rw [unanswered_noteElse, unanswered_noteElse, h, htrace]
  check line h := by rw [unanswered_check, unanswered_check, h]

end Exploration

/-- **The answers do not lead the exploration.**  With any two solvers an analysis asks the same
questions in the same order and ends with the same store; the reports agree on all but the answers
and what was made of them. -/
theorem Settings.explore_independent (settings : Settings) (solver solver' : Backend)
    (function : Function) :
    let first := settings.explore solver function
    let second := settings.explore solver' function
    let report := settings.analyzeWith solver function
    let report' := settings.analyzeWith solver' function
    first.asked = second.asked ∧ first.store = second.store ∧
      report.bindings = report'.bindings ∧ report.trace = report'.trace ∧
      report.stats.solverChecks = report'.stats.solverChecks ∧
      report.stats.conditionals = report'.stats.conditionals ∧
      report.stats.loops = report'.stats.loops ∧
      report.stats.loopChecks = report'.stats.loopChecks ∧
      report.stats.skippedStatements = report'.stats.skippedStatements ∧
      (report.diagnostics.filter fun diagnostic => !diagnostic.kind.isAnswer) =
        report'.diagnostics.filter fun diagnostic => !diagnostic.kind.isAnswer := by
  intro first second report report'
  have hlockstep := Exploration.lockstep_unanswered solver solver' settings.traceBranches
  have hstart : (Exploration.start (settings.maxPathConstraints.map UInt64.toNat)).unanswered = _ :=
    rfl
  have hfinal : first.unanswered = second.unanswered :=
    hlockstep.explore function.body _ _ (hlockstep.bindParams hstart function.params)
  have hstats := congrArg Exploration.stats hfinal
  exact ⟨(congrArg Exploration.asked hfinal :), (congrArg Exploration.store hfinal :),
    (congrArg Exploration.bindings hfinal :), (congrArg Exploration.trace hfinal :),
    (congrArg Stats.solverChecks hstats :), (congrArg Stats.conditionals hstats :),
    (congrArg Stats.loops hstats :), (congrArg Stats.loopChecks hstats :),
    (congrArg Stats.skippedStatements hstats :), (congrArg Exploration.diagnostics hfinal :)⟩

end BranchWitness
