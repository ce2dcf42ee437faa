import BranchWitness.Proofs.Equality
import BranchWitness.Proofs.Recording
import BranchWitness.Proofs.Solver.Soundness

/-!
# What violations and test cases say about runs

A violation says that no start drives the path of its check; a test case says that its inputs do.
Both are read off the store at the end of the path, so both hold as far as the store is faithful to
the path.

* Where the store has no solution, no start drives the path
  (`Faithful.not_drives_of_unsat`).  The run may leave variables undefined, and then equations of
  the store are undefined, not false; so it matters that the solver finds a false conjunct for
  every assignment, and not only that none makes all of them true.
* Where the solver gives a model, a start that agrees with it on the variables that the path does
  not give values to drives the path (`Faithful.drives_of_sat`).

Both hold for every check that the exploration of a function makes with a clean trail.  The
condition is needed: where a parameter is given a value after it was tested, the test is read as one
of the new value.
-/

namespace BranchWitness

/-! ## Constraints under an assignment -/

namespace Store

variable {among : Var → Prop} {store : Store}

theorem WellFormed.over_assertions (h : WellFormed among store) :
    ∀ x ∈ store.assertions.flatMap Term.occurrences, among x := by
  intro x hx
  obtain ⟨t, ht, hxt⟩ := List.mem_flatMap.mp hx
  rcases mem_assertions ht with ⟨entry, hentry, rfl⟩ | htest
  · rw [occurrences_term, List.mem_cons] at hxt
    rcases hxt with rfl | hvalue
    · exact (h.target entry hentry).1
    · exact h.value entry hentry x hvalue
  · exact h.test t htest x hxt

theorem WellFormed.consistent (h : WellFormed among store) (hamong : Coherent among) :
    Solver.Consistent (store.assertions.flatMap Term.occurrences) := by
  intro x hx y hy
  have hxamong := h.over_assertions x hx
  have hyamong := h.over_assertions y hy
  exact ⟨hamong.eq_of_id hxamong hyamong,
    fun hname => by rw [hamong.eq_of_name hxamong hyamong hname]⟩

theorem mem_occurrences_of_entry {entry : String × Binding} (hentry : entry ∈ store.named) {x : Var}
    (hx : x = entry.2.target ∨ x ∈ entry.2.value.occurrences) :
    x ∈ store.assertions.flatMap Term.occurrences := by
  refine List.mem_flatMap.mpr ⟨entry.2.term, ?_, ?_⟩
  · exact List.mem_append_left _ (List.mem_map_of_mem hentry)
  · rw [occurrences_term, List.mem_cons]
    exact hx

theorem mem_occurrences_of_test {t : Term} (ht : t ∈ store.branch) {x : Var}
    (hx : x ∈ t.occurrences) : x ∈ store.assertions.flatMap Term.occurrences :=
  List.mem_flatMap.mpr ⟨t, List.mem_append_right _ ht, hx⟩

end Store

/-! ## Starts -/

/-- A start for the path: the variables that the path does not give values to have contents of
their sorts, and the others have such contents or none. -/
structure Memory.Starts (memory : Memory) (bindings : Bindings) (path : Path) : Prop where
  sorted : memory.Sorted bindings
  defined : ∀ name x, bindings.find? name = some x → name ∉ path.assigned →
    ∃ v, memory name = some v

namespace Faithful

variable {bindings : Bindings} {store : Store} {path : Path} {start : Memory}

theorem not_mem_assigned (h : Faithful bindings store path) {name : String}
    (hnone : store.binding? name = none) : name ∉ path.assigned := by
  intro hmem
  have hsome := (h.assigned name).mpr hmem
  simp [hnone] at hsome

/-- A variable without an entry has at the end of the path what it started with. -/
theorem run_eq_start (h : Faithful bindings store path) {x : Var}
    (hnone : store.binding? x.name = none) : path.run start x.name = start x.name :=
  Path.run_of_not_mem_assigned (h.not_mem_assigned hnone)

/-- The values in the store mention defined variables only. -/
theorem exists_of_mem_value (h : Faithful bindings store path)
    (hstart : start.Starts bindings path) {entry : String × Binding}
    (hentry : entry ∈ store.named) {x : Var} (hx : x ∈ entry.2.value.occurrences) :
    ∃ v, path.run start x.name = some v := by
  have hnone := h.wellFormed.closed entry hentry x hx
  rw [h.run_eq_start hnone]
  exact hstart.defined x.name x (h.wellFormed.value entry hentry x hx) (h.not_mem_assigned hnone)

end Faithful

/-! ## Violations -/

/-- A value of the sort. -/
def ValueSort.sample : ValueSort → Value
  | .bool => .bool false
  | .int => .int 0
  | .str => .str ""

theorem ValueSort.sort_sample (sort : ValueSort) : sort.sample.sort = sort := by
  cases sort <;> rfl

/-- The assignment of a memory to the given variables, with some value where it has none. -/
def Memory.assignment (memory : Memory) (vars : List Var) : Assignment := fun id =>
  (vars.find? fun x => x.id == id).map fun x => (memory x.name).getD x.sort.sample

theorem Memory.assignment_of_mem {memory : Memory} {vars : List Var}
    (hvars : Solver.Consistent vars) {x : Var} (hx : x ∈ vars) :
    memory.assignment vars x.id = some ((memory x.name).getD x.sort.sample) := by
  unfold assignment
  cases hfind : vars.find? fun y => y.id == x.id with
  | none => simpa using List.find?_eq_none.mp hfind x hx
  | some y =>
      have hid : y.id = x.id := by simpa using List.find?_some hfind
      rw [Option.map_some, (hvars y (List.mem_of_find?_eq_some hfind) x hx).1 hid]

theorem Memory.environment_assignment {memory : Memory} {vars : List Var}
    (hvars : Solver.Consistent vars) {x : Var} (hx : x ∈ vars) {v : Value}
    (hv : memory x.name = some v) : (memory.assignment vars).environment x = .known v := by
  refine Assignment.environment_of_some ?_
  rw [assignment_of_mem hvars hx, hv, Option.getD_some]

theorem Memory.Sorted.respects_assignment {bindings : Bindings} {memory : Memory}
    (h : memory.Sorted bindings) {vars : List Var} (hvars : Solver.Consistent vars)
    (hbound : ∀ x ∈ vars, bindings.Binds x) :
    Solver.Respects (memory.assignment vars) vars := by
  intro x hx
  refine ⟨_, assignment_of_mem hvars hx, ?_⟩
  cases hv : memory x.name with
  | none => exact x.sort.sort_sample
  | some v => exact h x.name x v (hbound x hx) hv

/-- The memory with the values of a model and some value for the other bound variables. -/
def Memory.ofModel (bindings : Bindings) (model : Model) : Memory := fun name =>
  (model.find? name).or ((bindings.find? name).map fun x => x.sort.sample)

theorem Memory.ofModel_of_some {bindings : Bindings} {model : Model} {name : String} {v : Value}
    (h : model.find? name = some v) : Memory.ofModel bindings model name = some v := by
  rw [ofModel, h, Option.some_or]

theorem Memory.ofModel_of_none {bindings : Bindings} {model : Model} {name : String}
    (h : model.find? name = none) :
    Memory.ofModel bindings model name = (bindings.find? name).map fun x => x.sort.sample := by
  rw [ofModel, h, Option.none_or]

theorem Memory.environment_of_some {memory : Memory} {x : Var} {v : Value}
    (h : memory x.name = some v) : memory.environment x = .known v := by
  rw [environment, h, Meaning.ofOption]

theorem Memory.eq_some_of_environment {memory : Memory} {x : Var} {v : Value}
    (h : memory.environment x = .known v) : memory x.name = some v := by
  cases hmemory : memory x.name with
  | none => simp [environment, hmemory, Meaning.ofOption] at h
  | some w => simpa [environment, hmemory, Meaning.ofOption] using h

/-- An equation is not false if its variable has the value of its other side, or that has none. -/
theorem Binding.not_refuted {binding : Binding} {assignment : Assignment}
    (h : ∀ v, binding.value.meaning assignment.environment = .known v →
      assignment.environment binding.target = .known v) :
    ¬ Solver.Refuted assignment binding.term := by
  rintro ⟨result, hresult, hfalse⟩
  rw [Term.eval_eq_meaning, Binding.term, Term.equals, Term.meaning, Term.meaning] at hresult
  obtain ⟨v, w, htarget, hvalue, hcompare⟩ := Meaning.exists_of_lift₂ hresult
  have hsame : v = w := by
    rw [h w hvalue, Meaning.known.injEq] at htarget
    exact htarget.symm
  rw [hsame, Solver.eq_apply_of_sort_eq rfl] at hcompare
  exact hfalse (by simpa [Except.map, Meaning.ofResult] using hcompare.symm)

/-- An equation that is true has values on both sides that compare equal. -/
theorem Binding.equals_of_holds {binding : Binding} {assignment : Assignment}
    (h : binding.term.Holds assignment) :
    ∃ v w, assignment.environment binding.target = .known v ∧
      binding.value.meaning assignment.environment = .known w ∧ v.Equals w := by
  rw [Term.Holds, Term.eval_eq_meaning, Binding.term, Term.equals, Term.meaning, Term.meaning] at h
  obtain ⟨v, w, htarget, hvalue, hcompare⟩ := Meaning.exists_of_lift₂ h
  refine ⟨v, w, htarget, hvalue, ?_⟩
  have hresult := Meaning.exists_of_ofResult hcompare
  unfold Value.Equals
  cases hequal : CmpOp.eq.apply v w with
  | ok truth => simpa [hequal, Except.map] using hresult
  | error _ => simp [hequal, Except.map] at hresult

namespace Faithful

variable {bindings : Bindings} {store : Store} {path : Path} {start : Memory}
  {limits : Solver.Limits}

/-- **No solution, no run.**  Where the constraints have no solution, no start drives the path. -/
theorem not_drives_of_unsat (h : Faithful bindings store path)
    (hcoherent : Coherent bindings.Binds)
    (hunsat : Solver.check limits store.assertions = .unsat)
    (hstart : start.Starts bindings path) : ¬ start.Drives path := by
  intro hdrives
  have hsorted := h.sorted start hstart.sorted
  have hpasses := (h.drives start hstart.sorted).mp hdrives
  have hdescribes := h.describes start hstart.sorted
  have hvars := h.wellFormed.consistent hcoherent
  -- the end of the run, with some value for what is undefined there
  let memory := path.run start
  let assignment := memory.assignment (store.assertions.flatMap Term.occurrences)
  have hknown : ∀ x ∈ store.assertions.flatMap Term.occurrences, ∀ v, memory x.name = some v →
      assignment.environment x = .known v :=
    fun x hx v hv => Memory.environment_assignment hvars hx hv
  obtain ⟨c, hc, hrefuted⟩ := Solver.exists_refuted_of_unsat hunsat
    (hsorted.respects_assignment hvars h.wellFormed.over_assertions)
  rw [Solver.conjunctsAll_eq] at hc
  obtain ⟨t, ht, hct⟩ := List.mem_flatMap.mp hc
  rcases Store.mem_assertions ht with ⟨entry, hentry, rfl⟩ | htest
  · -- an equation is true, or undefined because the value of its variable is
    obtain rfl : c = entry.2.term := by
      simpa [Binding.term, Term.equals, Solver.conjuncts] using hct
    refine Binding.not_refuted (fun v hv => ?_) hrefuted
    have hvalue : entry.2.value.meaning assignment.environment =
        entry.2.value.meaning memory.environment := by
      refine Term.meaning_congr fun x hx => ?_
      obtain ⟨w, hw⟩ := h.exists_of_mem_value hstart hentry hx
      exact (hknown x (Store.mem_occurrences_of_entry hentry (.inr hx)) w hw).trans
        (Memory.environment_of_some hw).symm
    rw [hvalue, hdescribes entry hentry] at hv
    exact hknown _ (Store.mem_occurrences_of_entry hentry (.inl rfl)) v
      (Memory.eq_some_of_environment hv)
  · -- a test is true
    refine hrefuted.not_holds (Solver.holds_iff_conjuncts.mp ?_ c hct)
    rw [Term.Holds, Term.eval_eq_meaning]
    exact Term.meaning_eq_known (fun x hx w hw => hknown x (Store.mem_occurrences_of_test htest hx)
      w (Memory.eq_some_of_environment hw)) (hpasses t htest)

/-! ## Test cases -/

/-- Where a solution has the values that variables without an entry start with, it has the values
that all variables end with. -/
theorem environment_run_eq (h : Faithful bindings store path) (hcoherent : Coherent bindings.Binds)
    (hstart : start.Sorted bindings) {found : Assignment}
    (hholds : ∀ t ∈ store.assertions, t.Holds found)
    (hrespects : Solver.Respects found (store.assertions.flatMap Term.occurrences))
    (hfree : ∀ x ∈ store.assertions.flatMap Term.occurrences, store.binding? x.name = none →
      (path.run start).environment x = found.environment x) :
    ∀ x ∈ store.assertions.flatMap Term.occurrences,
      (path.run start).environment x = found.environment x := by
  intro x hx
  cases hbinding : store.binding? x.name with
  | none => exact hfree x hx hbinding
  | some binding =>
      have hentry := Store.mem_named_of_binding? hbinding
      have hbound := h.wellFormed.over_assertions x hx
      have htarget := h.wellFormed.target_eq hcoherent hbound hbinding
      have hvalue : binding.value.meaning (path.run start).environment =
          binding.value.meaning found.environment :=
        Term.meaning_congr fun y hy => hfree y
          (Store.mem_occurrences_of_entry hentry (.inr hy)) (h.wellFormed.closed _ hentry y hy)
      obtain ⟨v, w, hv, hw, hequal⟩ := Binding.equals_of_holds
        (hholds _ (List.mem_append_left _ (List.mem_map_of_mem hentry)))
      dsimp only at hv hw
      rw [htarget] at hv
      have hrun : (path.run start).environment x = .known w := by
        rw [← htarget, ← h.describes start hstart _ hentry, hvalue, hw]
      -- both sides of the equation have the sort of the variable, so they are equal
      have hwsort : w.sort = x.sort :=
        h.sorted start hstart x.name x w hbound (Memory.eq_some_of_environment hrun)
      obtain ⟨u, hu, husort⟩ := hrespects x hx
      have hsame : u = v := by
        rw [Assignment.environment_of_some hu, Meaning.known.injEq] at hv
        exact hv
      rw [hrun, hv, hequal.eq_of_sort_eq (by rw [← hsame, husort, hwsort])]

/-- **A model, a run.**  A start that agrees with a model of the constraints on the variables that
the path does not give values to drives the path. -/
theorem drives_of_sat (h : Faithful bindings store path) (hcoherent : Coherent bindings.Binds)
    {model : Model} (hsat : Solver.check limits store.assertions = .sat model)
    (hstart : start.Starts bindings path)
    (hmodel : ∀ name v, name ∉ path.assigned → model.find? name = some v → start name = some v) :
    start.Drives path := by
  obtain ⟨-, found, hholds, hvalues⟩ :=
    Solver.check_sat_spec (h.wellFormed.consistent hcoherent) hsat
  have hrespects : Solver.Respects found (store.assertions.flatMap Term.occurrences) := by
    intro x hx
    obtain ⟨v, hfound, hsort, -⟩ := hvalues x hx
    exact ⟨v, hfound, hsort⟩
  -- variables without an entry have the values of the model from the start
  have hfree : ∀ x ∈ store.assertions.flatMap Term.occurrences, store.binding? x.name = none →
      (path.run start).environment x = found.environment x := by
    intro x hx hnone
    obtain ⟨v, hfound, -, hv⟩ := hvalues x hx
    rw [Assignment.environment_of_some hfound]
    refine Memory.environment_of_some ?_
    rw [h.run_eq_start hnone]
    exact hmodel x.name v (h.not_mem_assigned hnone) hv
  have hagree := h.environment_run_eq hcoherent hstart.sorted hholds hrespects hfree
  refine (h.drives start hstart.sorted).mpr fun t ht => ?_
  have htrue : t.eval found = .known (.bool true) := hholds t (List.mem_append_right _ ht)
  rw [← htrue, Term.eval_eq_meaning]
  exact Term.meaning_congr fun x hx => hagree x (Store.mem_occurrences_of_test ht hx)

/-- The values of a model of the constraints, and some value for the other variables, make a
start. -/
theorem starts_ofModel (h : Faithful bindings store path) (hcoherent : Coherent bindings.Binds)
    {model : Model} (hsat : Solver.check limits store.assertions = .sat model) :
    (Memory.ofModel bindings model).Starts bindings path := by
  obtain ⟨hnames, found, -, hvalues⟩ :=
    Solver.check_sat_spec (h.wellFormed.consistent hcoherent) hsat
  refine ⟨fun name x v hfind hv => ?_, fun name x hfind _ => ?_⟩
  · cases hmodel : model.find? name with
    | none =>
        rw [Memory.ofModel_of_none hmodel, hfind, Option.map_some, Option.some.injEq] at hv
        rw [← hv, ValueSort.sort_sample]
    | some w =>
        rw [Memory.ofModel_of_some hmodel, Option.some.injEq] at hv
        -- the model speaks about the variables of the constraints only
        by_contra hne
        have hnone : model.find? name = none := by
          refine hnames name fun y hy hname => hne ?_
          obtain ⟨u, -, husort, hu⟩ := hvalues y hy
          have hbound : bindings.find? y.name = some y := h.wellFormed.over_assertions y hy
          rw [hname, hfind, Option.some.injEq] at hbound
          rw [hname, hmodel, Option.some.injEq] at hu
          rw [← hv, hu, husort, hbound]
        rw [hnone] at hmodel
        cases hmodel
  · cases hmodel : model.find? name with
    | none => exact ⟨_, by rw [Memory.ofModel_of_none hmodel, hfind, Option.map_some]⟩
    | some w => exact ⟨w, Memory.ofModel_of_some hmodel⟩

end Faithful

/-! ## Functions -/

namespace Settings

theorem sound_record (settings : Settings) {function : Function}
    (hkinds : function.wellKinded = true) :
    (settings.record function).Sound settings.boundedBackend :=
  (Recorded.preserves_executeAll _ _ function.body hkinds _ (Recorded.sound_start _ _ _)).1

theorem analyze_eq_report {settings : Settings} (hbounded : settings.solver.backend = .bounded)
    (function : Function) :
    settings.analyze function =
      .ok ((settings.record function).state.report function.name) := by
  rw [state_record, analyze, backend, hbounded]
  rfl

end Settings

/-- **Violations.**  With the bounded solver every function is analysed, and if its operators are in
their place, its violations are those of the checks made, in their order, and no start drives the
path of such a check, provided that its trail is clean. -/
theorem violations_not_driven (settings : Settings) (function : Function)
    (hbounded : settings.solver.backend = .bounded) (hkinds : function.wellKinded = true) :
    ∃ report, settings.analyze function = .ok report ∧
      report.violations =
        (settings.checks function).filterMap (Checkpoint.violation? settings.boundedBackend) ∧
      ∀ check ∈ settings.checks function, check.trail.clean = true →
        (check.violation? settings.boundedBackend).isSome = true →
        ¬ ∃ start : Memory, start.Starts check.state.bindings check.trail.path ∧
          start.Drives check.trail.path := by
  have hsound := settings.sound_record hkinds
  refine ⟨_, Settings.analyze_eq_report hbounded function, hsound.violations, ?_⟩
  rintro check hcheck hclean hviolation ⟨start, hstart, hdrives⟩
  have hunsat : Solver.check settings.limits check.state.store.assertions = .unsat := by
    unfold Checkpoint.violation? at hviolation
    split at hviolation
    · assumption
    · cases hviolation
  have hcheckSound := hsound.checks check hcheck
  exact (hcheckSound.faithful hclean).not_drives_of_unsat hcheckSound.coherent hunsat hstart hdrives

/-- The function that copies `n` to `x`, tests `x > 5`, overwrites `x` and then tests `n < 3`.  The
first test is kept as one of `n`, so the branch behind the second is a violation; its trail is
clean, and nothing drives it. -/
theorem violations_not_driven_overwriting :
    let settings := Preset.fast.settings
    let function : Function :=
      { name := "overwriting"
        params := [⟨"n", "int"⟩]
        body :=
          [.declaration 1 "x" "int" (some (.identifier "n")),
            .conditional 2 (.comparison (.identifier "x") [">"] [.literal (.int 5)])
              [.reassignment 3 ["x"] (.literal (.int 0)),
                .conditional 4 (.comparison (.identifier "n") ["<"] [.literal (.int 3)]) []
                  [.reassignment 5 ["x"] (.identifier "n")]] []] }
    (settings.solver.backend = .bounded ∧ function.wellKinded = true ∧
      ((settings.checks function).map fun check => (check.line, check.trail.clean,
        (check.violation? settings.boundedBackend).isSome)) =
          [(4, true, true), (4, true, false), (2, true, false)]) ∧
      ∃ report, settings.analyze function = .ok report ∧
        report.violations =
          (settings.checks function).filterMap (Checkpoint.violation? settings.boundedBackend) ∧
        ∀ check ∈ settings.checks function, check.trail.clean = true →
          (check.violation? settings.boundedBackend).isSome = true →
          ¬ ∃ start : Memory, start.Starts check.state.bindings check.trail.path ∧
            start.Drives check.trail.path := by
  intro settings function
  exact ⟨⟨rfl, rfl, by decide +kernel⟩, violations_not_driven settings function rfl rfl⟩

/-- One value everywhere is of the right sorts where one variable of its sort is bound. -/
theorem Memory.sorted_insert_empty {name : String} {x : Var} {v : Value} (h : v.sort = x.sort) :
    Memory.Sorted (NameMap.empty.insert name x) fun _ => some v := by
  intro other y w hfind hw
  cases hw
  rw [NameMap.find?_insert, NameMap.find?_empty] at hfind
  split at hfind
  · cases hfind
    exact h
  · cases hfind

/-- **Overwritten parameters.**  The function that tests `n < 0` and then gives `n` the value `5`
has a violation at the test, and the start with `n = -1` drives its path. -/
theorem violation_driven_of_overwritten_parameter :
    let settings := Preset.fast.settings
    let function : Function :=
      { name := "overwritten"
        params := [⟨"n", "int"⟩]
        body := [.conditional 1 (.comparison (.identifier "n") ["<"] [.literal (.int 0)])
          [.reassignment 2 ["n"] (.literal (.int 5))] []] }
    settings.solver.backend = .bounded ∧ function.wellKinded = true ∧
      ∃ check ∈ settings.checks function, check.trail.clean = false ∧
        (check.violation? settings.boundedBackend).isSome = true ∧
        ∃ start : Memory, start.Starts check.state.bindings check.trail.path ∧
          start.Drives check.trail.path := by
  intro settings function
  refine ⟨rfl, rfl, ?_⟩
  obtain ⟨check, hchecks, hclean, hviolation, hpath, hbindings⟩ :
      ∃ check, settings.checks function = [check] ∧ check.trail.clean = false ∧
        (check.violation? settings.boundedBackend).isSome = true ∧
        check.trail.path = [.test (.comparison (.identifier "n") ["<"] [.literal (.int 0)]) true,
          .assign ["n"] (.literal (.int 5))] ∧
        check.state.bindings = NameMap.empty.insert "n" ⟨0, "n", .int⟩ :=
    ⟨_, rfl, rfl, rfl, rfl, rfl⟩
  refine ⟨check, by simp [hchecks], hclean, hviolation, fun _ => some (.int (-1)), ?_, ?_⟩
  · rw [hbindings]
    exact ⟨Memory.sorted_insert_empty rfl, fun name x _ _ => ⟨_, rfl⟩⟩
  · rw [hpath]
    exact ⟨rfl, trivial, trivial⟩

/-! ## Functions: test cases -/

/-- A start that a test case stands for: it has the inputs of the test case and, where the path does
not give values to variables that are no parameters, the values of its model. -/
structure Checkpoint.StartsFrom (check : Checkpoint) (test : TestCase) (start : Memory) : Prop where
  starts : start.Starts check.state.bindings check.trail.path
  inputs : ∀ input ∈ test.inputs, start input.name = some input.value
  locals : ∀ name v, name ∉ check.trail.path.assigned →
    (∀ param ∈ check.state.params, param.name ≠ name) → test.model.find? name = some v →
    start name = some v

theorem Checkpoint.exists_of_testCase? {solver : Backend} {check : Checkpoint} {test : TestCase}
    (h : check.testCase? solver = some test) :
    ∃ model, check.answer solver = .sat model ∧
      test = .ofModel check.line model check.state.params check.state.store := by
  unfold testCase? at h
  split at h
  · rename_i model hanswer
    cases h
    exact ⟨model, hanswer, rfl⟩
  · cases h

theorem TestCase.mem_inputs_ofModel {line : Line} {model : Model} {params : List Var}
    {store : Store} {input : Input} :
    input ∈ (TestCase.ofModel line model params store).inputs ↔
      ∃ param ∈ params, param.name = input.name ∧ model.find? input.name = some input.value := by
  simp only [ofModel, List.mem_filterMap, Option.map_eq_some_iff]
  constructor
  · rintro ⟨param, hparam, v, hv, rfl⟩
    exact ⟨param, hparam, rfl, hv⟩
  · rintro ⟨param, hparam, hname, hv⟩
    exact ⟨param, hparam, input.value, hname ▸ hv, by rw [hname]⟩

/-- **Test cases.**  With the bounded solver every function is analysed, and if its operators are in
their place, its test cases are those of the checks made, in their order.  Provided that the trail
of such a check is clean, the test case stands for some start, and every start that it stands for
drives the path. -/
theorem testCases_drive (settings : Settings) (function : Function)
    (hbounded : settings.solver.backend = .bounded) (hkinds : function.wellKinded = true) :
    ∃ report, settings.analyze function = .ok report ∧
      report.testCases =
        (settings.checks function).filterMap (Checkpoint.testCase? settings.boundedBackend) ∧
      ∀ check ∈ settings.checks function, check.trail.clean = true →
        ∀ test, check.testCase? settings.boundedBackend = some test →
          (∃ start, check.StartsFrom test start) ∧
            ∀ start, check.StartsFrom test start → start.Drives check.trail.path := by
  have hsound := settings.sound_record hkinds
  refine ⟨_, Settings.analyze_eq_report hbounded function, hsound.testCases, ?_⟩
  intro check hcheck hclean test htest
  obtain ⟨model, hsat, rfl⟩ := Checkpoint.exists_of_testCase? htest
  have hcoherent := (hsound.checks check hcheck).coherent
  have hfaithful := (hsound.checks check hcheck).faithful hclean
  constructor
  · refine ⟨.ofModel check.state.bindings model, hfaithful.starts_ofModel hcoherent hsat,
      fun input hinput => ?_, fun name v _ _ hv => Memory.ofModel_of_some hv⟩
    obtain ⟨param, -, -, hv⟩ := TestCase.mem_inputs_ofModel.mp hinput
    exact Memory.ofModel_of_some hv
  · intro start hstart
    refine hfaithful.drives_of_sat hcoherent hsat hstart.starts fun name v hname hv => ?_
    by_cases hparam : ∃ param ∈ check.state.params, param.name = name
    · obtain ⟨param, hmem, hparamName⟩ := hparam
      exact hstart.inputs ⟨name, v⟩ (TestCase.mem_inputs_ofModel.mpr ⟨param, hmem, hparamName, hv⟩)
    · exact hstart.locals name v hname (fun param hmem heq => hparam ⟨param, hmem, heq⟩) hv

/-- The function that copies `n` to `x`, tests it, gives `y` and `x` the value `x + 1` and tests a
local that has no value.  Both checks have test cases and clean trails. -/
theorem testCases_drive_overwriting :
    let settings := Preset.fast.settings
    let function : Function :=
      { name := "overwriting"
        params := [⟨"n", "int"⟩]
        body :=
          [.declaration 1 "x" "int" (some (.identifier "n")),
            .declaration 2 "y" "int" none,
            .declaration 3 "s" "str" none,
            .conditional 4 (.comparison (.identifier "x") [">"] [.literal (.int 5)])
              [.reassignment 5 ["y", "x"]
                  (.arithmetic "+" (.identifier "x") (.literal (.int 1))),
                .conditional 6 (.identifier "s") [] []] []] }
    (settings.solver.backend = .bounded ∧ function.wellKinded = true ∧
      ((settings.checks function).map fun check => (check.line, check.trail.clean,
        (check.testCase? settings.boundedBackend).isSome)) =
          [(6, true, true), (4, true, true)]) ∧
      ∃ report, settings.analyze function = .ok report ∧
        report.testCases =
          (settings.checks function).filterMap (Checkpoint.testCase? settings.boundedBackend) ∧
        ∀ check ∈ settings.checks function, check.trail.clean = true →
          ∀ test, check.testCase? settings.boundedBackend = some test →
            (∃ start, check.StartsFrom test start) ∧
              ∀ start, check.StartsFrom test start → start.Drives check.trail.path := by
  intro settings function
  exact ⟨⟨rfl, rfl, by decide +kernel⟩, testCases_drive settings function rfl rfl⟩

/-- **Overwritten parameters.**  The function that tests `n < 10`, then gives `n` the value `3` and
then `20` has the test case `n = 20`, which fails the test. -/
theorem testCase_misses_overwritten_parameter :
    let settings := Preset.fast.settings
    let function : Function :=
      { name := "overwritten"
        params := [⟨"n", "int"⟩]
        body := [.conditional 1 (.comparison (.identifier "n") ["<"] [.literal (.int 10)])
          [.reassignment 2 ["n"] (.literal (.int 3)),
            .reassignment 3 ["n"] (.literal (.int 20))] []] }
    settings.solver.backend = .bounded ∧ function.wellKinded = true ∧
      ∃ check ∈ settings.checks function, check.trail.clean = false ∧
        ∃ test, check.testCase? settings.boundedBackend = some test ∧
          test.inputs = [⟨"n", .int 20⟩] ∧
          ∃ start, check.StartsFrom test start ∧ ¬ start.Drives check.trail.path := by
  intro settings function
  refine ⟨rfl, rfl, ?_⟩
  obtain ⟨check, test, hchecks, hclean, htest, hinputs, hmodel, hpath, hbindings⟩ :
      ∃ check test, settings.checks function = [check] ∧ check.trail.clean = false ∧
        check.testCase? settings.boundedBackend = some test ∧
        test.inputs = [⟨"n", .int 20⟩] ∧ test.model = NameMap.empty.insert "n" (.int 20) ∧
        check.trail.path = [.test (.comparison (.identifier "n") ["<"] [.literal (.int 10)]) true,
          .assign ["n"] (.literal (.int 3)), .assign ["n"] (.literal (.int 20))] ∧
        check.state.bindings = NameMap.empty.insert "n" ⟨0, "n", .int⟩ :=
    ⟨_, _, rfl, rfl, rfl, rfl, rfl, rfl, rfl⟩
  refine ⟨check, by simp [hchecks], hclean, test, htest, hinputs, fun _ => some (.int 20), ?_, ?_⟩
  · refine ⟨⟨?_, fun name x _ _ => ⟨_, rfl⟩⟩, by simp [hinputs], fun name v hname _ hv => ?_⟩
    · rw [hbindings]
      exact Memory.sorted_insert_empty rfl
    · rw [hmodel, NameMap.find?_insert, NameMap.find?_empty] at hv
      split at hv
      · exact hv
      · cases hv
  · rw [hpath]
    rintro ⟨hfirst, -⟩
    cases hfirst

end BranchWitness
