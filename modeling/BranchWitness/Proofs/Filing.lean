import BranchWitness.Proofs.Statements

/-!
# What becomes of the answers

Each check asks one question and files one record: a test case, a violation or a diagnostic, by the
answer.  The questions are in the state, in the order of asking, and the solver answers each of them
knowing those before it; so the questions determine the answers (`Backend.inquiries`), and these
determine what is filed (`Exploration.Filed`).

The records show the constraints of the path, and they are read off the store, not off the question.
That they show the assertions that were asked is `Store.rendered_eq`.
-/

namespace BranchWitness

/-! ## Constraints as they are shown -/

theorem Binding.render_eq (binding : Binding) : binding.render = binding.term.render := by
  simp [render, term, Term.equals, Term.render, CmpOp.symbol, String.append_assoc]

/-- The store shows its assertions, one after another. -/
theorem Store.rendered_eq (store : Store) : store.rendered = store.assertions.map Term.render := by
  simp [rendered, assertions, Binding.render_eq]

/-! ## Questions and answers -/

/-- A question to a solver and its answer. -/
structure Inquiry where
  /-- The assertions asked about. -/
  assertions : List Term
  /-- The answer. -/
  answer : Answer

namespace Inquiry

/-- The assertions as they are shown. -/
def shown (inquiry : Inquiry) : List String :=
  inquiry.assertions.map Term.render

/-- The assertions as they are shown in one line. -/
def line (inquiry : Inquiry) : String :=
  String.intercalate ", " inquiry.shown

/-- The model and the path of the test case that the answer calls for. -/
def testCase? (inquiry : Inquiry) : Option (Model × List String) :=
  match inquiry.answer with
  | .sat model => some (model, inquiry.shown)
  | _ => none

/-- The condition and the constraints of the violation that the answer calls for. -/
def violation? (inquiry : Inquiry) : Option (String × List Term) :=
  match inquiry.answer with
  | .unsat => some (inquiry.line, inquiry.assertions)
  | _ => none

/-- The kind and the message of the diagnostic that the answer calls for. -/
def diagnostic? (inquiry : Inquiry) : Option (DiagnosticKind × String) :=
  match inquiry.answer with
  | .timeout => some (.solverTimeout, "Solver timed out on (" ++ inquiry.line ++ ")")
  | .unknown reason =>
      some (.solverUnknown, "Solver returned unknown on (" ++ inquiry.line ++ "): " ++ reason)
  | _ => none

/-- Every answer calls for one record. -/
theorem length_records (inquiry : Inquiry) :
    inquiry.testCase?.toList.length + inquiry.violation?.toList.length +
      inquiry.diagnostic?.toList.length = 1 := by
  obtain ⟨assertions, answer⟩ := inquiry
  cases answer <;> rfl

end Inquiry

/-- The questions with the answers of the solver, which knows the earlier ones each time. -/
def Backend.inquiries (solver : Backend) (earlier : List (List Term)) :
    List (List Term) → List Inquiry
  | [] => []
  | assertions :: rest =>
      ⟨assertions, solver earlier assertions⟩ ::
        inquiries solver (earlier ++ [assertions]) rest

theorem Backend.inquiries_append_singleton (solver : Backend) (earlier asked : List (List Term))
    (assertions : List Term) :
    solver.inquiries earlier (asked ++ [assertions]) =
      solver.inquiries earlier asked ++ [⟨assertions, solver (earlier ++ asked) assertions⟩] := by
  induction asked generalizing earlier with
  | nil => simp [inquiries]
  | cons first rest ih => simp [inquiries, ih]

theorem Backend.length_inquiries (solver : Backend) (earlier asked : List (List Term)) :
    (solver.inquiries earlier asked).length = asked.length := by
  induction asked generalizing earlier with
  | nil => rfl
  | cons first rest ih => rw [inquiries, List.length_cons, ih, List.length_cons]

/-! ## Records -/

/-- The model and the path of a test case. -/
def TestCase.shown (test : TestCase) : Model × List String :=
  (test.model, test.path)

/-- The condition and the constraints of a violation. -/
def Violation.shown (violation : Violation) : String × List Term :=
  (violation.condition, violation.snapshot.assertions)

/-- The kind and the message of a diagnostic. -/
def Diagnostic.shown (diagnostic : Diagnostic) : DiagnosticKind × String :=
  (diagnostic.kind, diagnostic.message)

namespace Exploration

/-- The diagnostics of answers. -/
def answers (state : Exploration) : List Diagnostic :=
  state.diagnostics.filter fun diagnostic => diagnostic.kind.isAnswer

/-- The question of a check in the given state, and the answer. -/
def inquiry (solver : Backend) (state : Exploration) : Inquiry :=
  ⟨state.store.assertions, solver state.asked state.store.assertions⟩

/-- What was filed is what the answers call for, in the order of asking, and the counts are those of
the records. -/
structure Filed (solver : Backend) (state : Exploration) : Prop where
  testCases : state.testCases.map TestCase.shown =
    (solver.inquiries [] state.asked).filterMap Inquiry.testCase?
  violations : state.violations.map Violation.shown =
    (solver.inquiries [] state.asked).filterMap Inquiry.violation?
  diagnostics : state.answers.map Diagnostic.shown =
    (solver.inquiries [] state.asked).filterMap Inquiry.diagnostic?
  sat : state.stats.sat = state.testCases.length
  unsat : state.stats.unsat = state.violations.length
  timeouts : state.stats.timeouts =
    state.answers.countP fun diagnostic => diagnostic.kind = .solverTimeout
  unknown : state.stats.unknown =
    state.answers.countP fun diagnostic => diagnostic.kind = .solverUnknown
  solverChecks : state.stats.solverChecks = state.asked.length
  total : state.stats.sat + state.stats.unsat + state.stats.timeouts + state.stats.unknown =
    state.stats.solverChecks

variable {solver : Backend} {tracing : Bool} {state first second : Exploration}

theorem filed_start (solver : Backend) (capacity : Option Nat) : Filed solver (start capacity) where
  testCases := rfl
  violations := rfl
  diagnostics := rfl
  sat := rfl
  unsat := rfl
  timeouts := rfl
  unknown := rfl
  solverChecks := rfl
  total := rfl

/-! ## A check -/

section Check

variable (solver state) (line : Line)

theorem asked_check :
    (state.check solver line).asked = state.asked ++ [state.store.assertions] := by
  unfold check
  dsimp only
  split <;> rfl

theorem solverChecks_check :
    (state.check solver line).stats.solverChecks = state.stats.solverChecks + 1 := by
  unfold check
  dsimp only
  split <;> rfl

theorem shown_testCases_check :
    (state.check solver line).testCases.map TestCase.shown =
      state.testCases.map TestCase.shown ++ (state.inquiry solver).testCase?.toList := by
  unfold check
  cases hanswer : solver state.asked state.store.assertions <;>
    simp [inquiry, Inquiry.testCase?, Inquiry.shown, TestCase.shown, TestCase.ofModel, hanswer,
      Store.rendered_eq]

theorem shown_violations_check :
    (state.check solver line).violations.map Violation.shown =
      state.violations.map Violation.shown ++ (state.inquiry solver).violation?.toList := by
  unfold check
  cases hanswer : solver state.asked state.store.assertions <;>
    simp [inquiry, Inquiry.violation?, Inquiry.line, Inquiry.shown, Violation.shown,
      Violation.ofStore, hanswer, Store.render, Store.rendered_eq]

theorem answers_check :
    (state.check solver line).answers =
      state.answers ++ ((state.inquiry solver).diagnostic?.map fun (kind, message) =>
        ⟨line, kind, message⟩).toList := by
  unfold check
  cases hanswer : solver state.asked state.store.assertions <;>
    simp [inquiry, Inquiry.diagnostic?, Inquiry.line, Inquiry.shown, answers,
      DiagnosticKind.isAnswer, hanswer, Store.render, Store.rendered_eq]

theorem shown_answers_check :
    (state.check solver line).answers.map Diagnostic.shown =
      state.answers.map Diagnostic.shown ++ (state.inquiry solver).diagnostic?.toList := by
  rw [answers_check, List.map_append]
  cases (state.inquiry solver).diagnostic? <;> rfl

end Check

/-- What the answers call for after one more question. -/
theorem filterMap_inquiries_check {α : Type} (record? : Inquiry → Option α) (line : Line) :
    (solver.inquiries [] (state.check solver line).asked).filterMap record? =
      (solver.inquiries [] state.asked).filterMap record? ++
        (record? (state.inquiry solver)).toList := by
  rw [asked_check, Backend.inquiries_append_singleton, List.filterMap_append]
  rfl

/-- The count of an answer and its records go up together, and the counts together go up with the
number of checks. -/
theorem Filed.counts_check (h : Filed solver state) (line : Line) :
    (state.check solver line).stats.sat = (state.check solver line).testCases.length ∧
    (state.check solver line).stats.unsat = (state.check solver line).violations.length ∧
    (state.check solver line).stats.timeouts =
      (state.check solver line).answers.countP (fun diagnostic =>
        diagnostic.kind = .solverTimeout) ∧
    (state.check solver line).stats.unknown =
      (state.check solver line).answers.countP (fun diagnostic =>
        diagnostic.kind = .solverUnknown) ∧
    (state.check solver line).stats.sat + (state.check solver line).stats.unsat +
        (state.check solver line).stats.timeouts + (state.check solver line).stats.unknown =
      (state.check solver line).stats.solverChecks := by
  rw [answers_check, List.countP_append, List.countP_append, ← h.timeouts, ← h.unknown]
  have hsat := h.sat
  have hunsat := h.unsat
  have htotal := h.total
  unfold Exploration.check
  -- one count goes up in each case, and with it the list of its records
  cases hanswer : solver state.asked state.store.assertions <;>
    simp [inquiry, Inquiry.diagnostic?, hanswer, ← hsat, ← hunsat, ← htotal] <;>
    omega

theorem Filed.check (h : Filed solver state) (line : Line) :
    Filed solver (state.check solver line) := by
  obtain ⟨hsat, hunsat, htimeouts, hunknown, htotal⟩ := h.counts_check line
  refine ⟨?_, ?_, ?_, hsat, hunsat, htimeouts, hunknown, ?_, htotal⟩
  · rw [shown_testCases_check, h.testCases, filterMap_inquiries_check]
  · rw [shown_violations_check, h.violations, filterMap_inquiries_check]
  · rw [shown_answers_check, h.diagnostics, filterMap_inquiries_check]
  · rw [asked_check, List.length_append, ← h.solverChecks]
    exact solverChecks_check solver state line

/-! ## An exploration -/

/-- What was filed and asked so far: the findings without the variables, the store and the trace. -/
def records (state : Exploration) : Exploration :=
  { state.findings with bindings := .empty, nextId := 0, store := {}, trace := [] }

theorem answers_records (state : Exploration) : state.records.answers = state.answers := by
  simp [records, findings, answers]

theorem filed_records_iff : Filed solver state.records ↔ Filed solver state := by
  have hanswers := answers_records state
  constructor
  · rintro ⟨htestCases, hviolations, hdiagnostics, hsat, hunsat, htimeouts, hunknown,
      hchecks, htotal⟩
    rw [hanswers] at hdiagnostics htimeouts hunknown
    exact ⟨htestCases, hviolations, hdiagnostics, hsat, hunsat, htimeouts, hunknown,
      hchecks, htotal⟩
  · rintro ⟨htestCases, hviolations, hdiagnostics, hsat, hunsat, htimeouts, hunknown,
      hchecks, htotal⟩
    rw [← hanswers] at hdiagnostics htimeouts hunknown
    exact ⟨htestCases, hviolations, hdiagnostics, hsat, hunsat, htimeouts, hunknown,
      hchecks, htotal⟩

theorem Filed.of_records (h : Filed solver first) (hrecords : second.records = first.records) :
    Filed solver second := by
  rw [← filed_records_iff, hrecords, filed_records_iff]
  exact h

theorem records_bind {bound : Exploration} {name type : String} {x : Var}
    (h : state.bind name type = .ok (x, bound)) : bound.records = state.records := by
  obtain rfl | ⟨-, sort, rfl⟩ := eq_of_bind h <;> rfl

/-- Only a check files an answer. -/
theorem Leads.filed (h : Leads solver tracing first second) (hfirst : Filed solver first) :
    Filed solver second := by
  induction h with
  | same h => exact hfirst.of_records (by rw [records, h, records])
  | trans _ _ ih ih' => exact ih' (ih hfirst)
  | bind h => exact hfirst.of_records (records_bind h)
  | enter => cases tracing <;> exact hfirst.of_records rfl
  | take _ _ _ ih => exact (ih hfirst).of_records rfl
  | assign _ _ _ _ ih => exact (ih hfirst).of_records rfl
  | note => cases tracing <;> exact hfirst.of_records rfl
  | check state line => exact hfirst.check line
  | back _ ih => exact (ih hfirst).of_records rfl

theorem filed_explore (solver : Backend) (tracing : Bool) (capacity : Option Nat)
    (params : List Param) (stmts : List Stmt) :
    Filed solver (explore solver tracing stmts ((start capacity).bindParams params)) := by
  have hbound : Leads solver tracing (start capacity) ((start capacity).bindParams params) :=
    .bindParams _ params
  exact (hbound.trans (.explore solver tracing stmts _)).filed (filed_start solver capacity)

theorem countP_answers (state : Exploration) {kind : DiagnosticKind}
    (hkind : kind.isAnswer = true) :
    state.answers.countP (fun diagnostic => diagnostic.kind = kind) =
      state.diagnostics.countP fun diagnostic => diagnostic.kind = kind := by
  rw [answers, List.countP_filter]
  refine List.countP_congr fun diagnostic _ => ?_
  constructor
  · intro h
    exact (Bool.and_eq_true_iff.mp h).1
  · intro h
    have heq : diagnostic.kind = kind := of_decide_eq_true h
    simp [heq, hkind]

end Exploration

end BranchWitness
