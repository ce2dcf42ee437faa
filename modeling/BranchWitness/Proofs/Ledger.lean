import BranchWitness.Proofs.Events
import BranchWitness.Proofs.Filing

/-!
# What an exploration has on record

The questions, the records of the answers and the number of statements left out are the trace that
the events leave in the state (`Exploration.Ledger`).  Each event adds to it by itself, and nothing
else does; so the record of an exploration is that of its events (`Exploration.logged_ledger`).
With what becomes of a single answer this says what becomes of all of them
(`Settings.answers_filed`).
-/

namespace BranchWitness

/-! ## What an event adds -/

namespace Event

/-- The question, if the event is one. -/
def question? (event : Event) : Option (List Term) :=
  match event.kind with
  | .comes => none
  | .asks => some event.state.store.assertions

/-- The test case with which a question is answered. -/
def testCase? (solver : Backend) (event : Event) : Option TestCase :=
  match event.kind, solver event.state.asked event.state.store.assertions with
  | .asks, .sat model =>
      some (.ofModel event.site.stmt.line model event.state.params event.state.store)
  | _, _ => none

/-- The violation with which a question is answered. -/
def violation? (solver : Backend) (event : Event) : Option Violation :=
  match event.kind, solver event.state.asked event.state.store.assertions with
  | .asks, .unsat => some (.ofStore event.site.stmt.line event.state.store)
  | _, _ => none

/-- The diagnostic with which a question is answered. -/
def diagnostic? (solver : Backend) (event : Event) : Option Diagnostic :=
  match event.kind with
  | .comes => none
  | .asks => (event.state.inquiry solver).diagnostic?.map fun (kind, message) =>
      ⟨event.site.stmt.line, kind, message⟩

end Event

namespace Exploration

variable {solver : Backend} {tracing : Bool} {state reached : Exploration}

/-- What an exploration has on record: the questions, the records of the answers, and how many
statements were left out. -/
structure Ledger where
  /-- The questions. -/
  asked : List (List Term)
  /-- The test cases. -/
  testCases : List TestCase
  /-- The violations. -/
  violations : List Violation
  /-- The diagnostics of answers. -/
  answers : List Diagnostic
  /-- The number of statements left out. -/
  skipped : Nat

/-- What is on record in a state. -/
def ledger (state : Exploration) : Ledger :=
  ⟨state.asked, state.testCases, state.violations, state.answers, state.stats.skippedStatements⟩

/-- The record after more events. -/
def Ledger.extend (solver : Backend) (ledger : Ledger) (log : List Event) : Ledger where
  asked := ledger.asked ++ log.filterMap Event.question?
  testCases := ledger.testCases ++ log.filterMap (Event.testCase? solver)
  violations := ledger.violations ++ log.filterMap (Event.violation? solver)
  answers := ledger.answers ++ log.filterMap (Event.diagnostic? solver)
  skipped := ledger.skipped + log.countP Event.skipped

theorem Ledger.extend_nil (ledger : Ledger) : ledger.extend solver [] = ledger := by
  simp [extend]

theorem Ledger.extend_append (ledger : Ledger) (log log' : List Event) :
    ledger.extend solver (log ++ log') = (ledger.extend solver log).extend solver log' := by
  simp [extend, Nat.add_assoc]

theorem Ledger.extend_cons (ledger : Ledger) (event : Event) (log : List Event) :
    ledger.extend solver (event :: log) = (ledger.extend solver [event]).extend solver log :=
  ledger.extend_append [event] log

theorem Ledger.extend_conditional (ledger : Ledger) (first second third : Event)
    (log log' : List Event) :
    ledger.extend solver (first :: (log ++ second :: third :: log')) =
      ((((ledger.extend solver [first]).extend solver log).extend solver [second]).extend solver
        [third]).extend solver log' := by
  rw [extend_cons, extend_append, extend_cons _ second, extend_cons _ third]

theorem Ledger.extend_singleton (ledger : Ledger) (event : Event) :
    ledger.extend solver [event] =
      ⟨ledger.asked ++ event.question?.toList, ledger.testCases ++ (event.testCase? solver).toList,
        ledger.violations ++ (event.violation? solver).toList,
        ledger.answers ++ (event.diagnostic? solver).toList,
        ledger.skipped + event.skipped.toNat⟩ := by
  have hone : ∀ {α : Type} (f : Event → Option α), [event].filterMap f = (f event).toList := by
    intro α f
    rw [List.filterMap_cons]
    cases f event <;> rfl
  have hcount : [event].countP Event.skipped = event.skipped.toNat := by
    rw [List.countP_singleton]
    cases event.skipped <;> rfl
  simp only [extend, hone, hcount]

theorem ledger_check (site : Site) (state : Exploration) :
    (state.check solver site.stmt.line).ledger =
      state.ledger.extend solver [⟨.asks, site, state⟩] := by
  have htestCases : (state.check solver site.stmt.line).testCases =
      state.testCases ++ (Event.testCase? solver ⟨.asks, site, state⟩).toList := by
    unfold check
    cases hanswer : solver state.asked state.store.assertions <;> simp [Event.testCase?, hanswer]
  have hviolations : (state.check solver site.stmt.line).violations =
      state.violations ++ (Event.violation? solver ⟨.asks, site, state⟩).toList := by
    unfold check
    cases hanswer : solver state.asked state.store.assertions <;> simp [Event.violation?, hanswer]
  have hskipped : (state.check solver site.stmt.line).stats.skippedStatements =
      state.stats.skippedStatements := by
    unfold check
    dsimp only
    split <;> rfl
  rw [Ledger.extend_singleton, ledger, asked_check, htestCases, hviolations, answers_check,
    hskipped]
  rfl

/-- Coming to a statement leaves nothing on record unless it is left out. -/
theorem extend_comes (site : Site) (state : Exploration) (ledger : Ledger) :
    ledger.extend solver [⟨.comes, site, state⟩] =
      { ledger with
        skipped := ledger.skipped + (state.reach site.stmt.line).isNone.toNat } := by
  rw [Ledger.extend_singleton]
  simp [Event.question?, Event.testCase?, Event.violation?, Event.diagnostic?, Event.skipped,
    Event.comes]

theorem ledger_of_reach (solver : Backend) {site : Site}
    (h : state.reach site.stmt.line = some reached) :
    reached.ledger = state.ledger.extend solver [⟨.comes, site, state⟩] := by
  rw [extend_comes, h, eq_of_reach h]
  rfl

theorem ledger_skip {site : Site} (h : state.reach site.stmt.line = none) :
    state.skip.ledger = state.ledger.extend solver [⟨.comes, site, state⟩] := by
  rw [extend_comes, h]
  rfl

theorem ledger_settle (line : Line) (result : Exploration × Option Error) :
    (settle line result).ledger = result.1.ledger := by
  obtain ⟨state, failure⟩ := result
  cases failure with
  | none => rfl
  | some error =>
      change (state.fail line error).ledger = state.ledger
      unfold fail
      cases hdiagnostic : Diagnostic.ofError? line error with
      | none => rfl
      | some diagnostic =>
          have hfailure := Diagnostic.isAnswer_of_ofError? hdiagnostic
          simp [ledger, answers, hfailure]

theorem ledger_enterTrue (tracing : Bool) (line : Line) (test : Term) (state : Exploration) :
    (state.enterTrue tracing line test).ledger = state.ledger := by
  cases tracing <;> rfl

theorem ledger_takeNegation (tracing : Bool) (test : Term) (position : Nat) (state : Exploration) :
    (state.takeNegation tracing test position).ledger = state.ledger := by
  cases tracing <;> rfl

theorem ledger_backTo (state earlier : Exploration) :
    (state.backTo earlier).ledger = state.ledger :=
  rfl

theorem ledger_enterBody (site : Site) (test : Term) (state : Exploration) :
    (state.enterBody solver site.stmt.line test).ledger =
      state.ledger.extend solver [⟨.asks, site, state.takeLoop test⟩] :=
  ledger_check site (state.takeLoop test)

/-- The record of an exploration is that of its events. -/
theorem logged_ledger (solver : Backend) (tracing : Bool) :
    Logged solver tracing fun _ _ _ before log after =>
      after.ledger = before.ledger.extend solver log where
  nil _ _ state := (Ledger.extend_nil state.ledger).symm
  append h h' := by rw [Ledger.extend_append, ← h, h']
  skip site hreach := ledger_skip hreach
  single site hreach h := by
    obtain ⟨bindings, nextId, store, trace, conditionals, loops, heq⟩ := exists_perform_eq h
    rw [ledger_settle, heq, ← ledger_of_reach solver hreach]
    rfl
  ifTrue site _ hreach _ _ hbody := by
    rw [ledger_enterTrue, ledger_of_reach solver hreach] at hbody
    rw [Ledger.extend_cons, Ledger.extend_append, ← hbody, ← ledger_check]
    rfl
  ifElse site _ hreach _ _ hbody horelse := by
    rw [ledger_enterTrue, ledger_of_reach solver hreach] at hbody
    rw [ledger_check, ledger_takeNegation, ledger_backTo, ledger_check, hbody] at horelse
    rw [ledger_backTo, horelse, Ledger.extend_conditional]
  loop site _ hreach _ _ hbody := by
    rw [ledger_enterBody, ledger_of_reach solver hreach] at hbody
    rw [Ledger.extend_cons, Ledger.extend_cons, ← hbody]
    rfl

/-- What failures and variables do not show in stays as it is while the parameters are bound. -/
theorem view_bindParams {α : Type} (view : Exploration → α)
    (hfail : ∀ (state : Exploration) error, view (state.fail 0 error) = view state)
    (hbind : ∀ (state : Exploration) bindings nextId params,
      view { state with bindings, nextId, params } = view state)
    (params : List Param) (state : Exploration) : view (state.bindParams params) = view state := by
  unfold bindParams
  induction params generalizing state with
  | nil => rfl
  | cons param rest ih =>
      rw [List.foldl_cons, ih, bindParam]
      split
      · exact hfail state _
      · rename_i x bound heq
        obtain ⟨bindings, nextId, rfl⟩ := exists_bind_eq heq
        split
        · exact hbind state bindings nextId state.params
        · exact hbind state bindings nextId _

theorem ledger_bindParams (params : List Param) (state : Exploration) :
    (state.bindParams params).ledger = state.ledger :=
  view_bindParams ledger (fun state error => ledger_settle 0 (state, some error))
    (fun _ _ _ _ => rfl) params state

end Exploration

/-! ## The record of an analysis -/

namespace Settings

/-- The events of the exploration of a function under the settings. -/
def events (settings : Settings) (solver : Backend) (function : Function) : List Event :=
  Exploration.events solver settings.traceBranches function.body none 0
    ((Exploration.start (settings.maxPathConstraints.map UInt64.toNat)).bindParams function.params)

/-- An analysis starts with nothing on record. -/
theorem ledger_explore (settings : Settings) (solver : Backend) (function : Function) :
    (settings.explore solver function).ledger =
      (⟨[], [], [], [], 0⟩ : Exploration.Ledger).extend solver
        (settings.events solver function) := by
  let start := (Exploration.start (settings.maxPathConstraints.map UInt64.toNat)).bindParams
    function.params
  have hstart : start.ledger = ⟨[], [], [], [], 0⟩ :=
    Exploration.ledger_bindParams function.params _
  rw [← hstart]
  exact (Exploration.logged_ledger solver settings.traceBranches).explore function.body none 0 start

/-- **No answer is lost or misfiled.**  The questions are those that the conditionals and loops ask,
one for each check.  Every answer calls for one record, and the records of an analysis are those
that the answers call for, in the order of asking: a test case with the model and the path, a
violation with the constraints, or a diagnostic with its text.  The counts are those of the records,
and they add up to the number of checks. -/
theorem answers_filed (settings : Settings) (solver : Backend) (function : Function) :
    let inquiries := solver.inquiries [] (settings.explore solver function).asked
    let report := settings.analyzeWith solver function
    (settings.explore solver function).asked =
        (settings.events solver function).filterMap Event.question? ∧
      (∀ inquiry : Inquiry,
        inquiry.testCase?.toList.length + inquiry.violation?.toList.length +
          inquiry.diagnostic?.toList.length = 1) ∧
      report.testCases.map TestCase.shown = inquiries.filterMap Inquiry.testCase? ∧
      report.violations.map Violation.shown = inquiries.filterMap Inquiry.violation? ∧
      (report.diagnostics.filter fun diagnostic => diagnostic.kind.isAnswer).map Diagnostic.shown =
        inquiries.filterMap Inquiry.diagnostic? ∧
      report.stats.sat = report.testCases.length ∧
      report.stats.unsat = report.violations.length ∧
      report.stats.timeouts =
        report.diagnostics.countP (fun diagnostic => diagnostic.kind = .solverTimeout) ∧
      report.stats.unknown =
        report.diagnostics.countP (fun diagnostic => diagnostic.kind = .solverUnknown) ∧
      report.stats.sat + report.stats.unsat + report.stats.timeouts + report.stats.unknown =
        report.stats.solverChecks ∧
      report.stats.solverChecks = inquiries.length := by
  intro inquiries report
  have hfiled : (settings.explore solver function).Filed solver :=
    Exploration.filed_explore solver settings.traceBranches _ function.params function.body
  have htimeouts := hfiled.timeouts
  have hunknown := hfiled.unknown
  rw [Exploration.countP_answers _ rfl] at htimeouts hunknown
  refine ⟨congrArg Exploration.Ledger.asked (settings.ledger_explore solver function),
    Inquiry.length_records, hfiled.testCases, hfiled.violations, hfiled.diagnostics, hfiled.sat,
    hfiled.unsat, htimeouts, hunknown, hfiled.total, ?_⟩
  rw [Backend.length_inquiries]
  exact hfiled.solverChecks

end Settings

end BranchWitness
