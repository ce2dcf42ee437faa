import BranchWitness.Proofs.Reachability
import BranchWitness.Proofs.Solver.Budget
import BranchWitness.Proofs.Solver.Completeness
import BranchWitness.Proofs.Statements

/-!
# Conditionals on formulas

A conditional on a *formula* over parameters that are truth values (`Expr.Formula`) is settled: with
a budget for all their values the analysis reports one test case, which makes the formula true, or,
if nothing does, one violation (`Settings.formula_branch_settled`).  This is so if the branch has
nothing to explore in it: what does stand in it is explored before the check, and reports as well
(`Settings.formula_branch_nested_reports_twice`).

Each stage of the analysis has its part in this.

* Every formula resolves, connectives inside connectives included, and to an elementary term
  (`Expr.Formula.resolvable`).
* The parameters are bound one after another, to variables that are truth values
  (`Exploration.bindParams_truths`).
* The exploration makes one check, of the term of the formula (`Exploration.explore_conditional`).
* The solver decides it: the term is elementary, and the budget suffices.
* What the term is worth under an assignment is what the formula is worth
  (`Bindings.Truths.holds_iff`).
-/

namespace BranchWitness

/-! ## Formulas -/

/-- Connectives and negations over truth values and the given names.  A connective has operands. -/
inductive Expr.Formula (names : List String) : Expr → Prop
  | identifier {name : String} (hname : name ∈ names) : Formula names (.identifier name)
  | literal (b : Bool) : Formula names (.literal (.bool b))
  | not {tag : String} {operand : Expr} (htag : Operator.tags.lookup tag = some .not)
      (h : Formula names operand) : Formula names (.unary tag operand)
  | and {tag : String} {operands : List Expr} (htag : Operator.tags.lookup tag = some .and)
      (hne : operands ≠ []) (h : ∀ e ∈ operands, Formula names e) :
      Formula names (.connective tag operands)
  | or {tag : String} {operands : List Expr} (htag : Operator.tags.lookup tag = some .or)
      (hne : operands ≠ []) (h : ∀ e ∈ operands, Formula names e) :
      Formula names (.connective tag operands)

namespace Expr

/-- The expression resolves to an elementary term, and if it is a connective, so do its operands. -/
structure Resolvable (bindings : Bindings) (e : Expr) : Prop where
  term : ∃ t, e.resolve bindings = .ok t ∧ t.Elementary
  operands : ∀ tag es, e = .connective tag es →
    ∃ ts, resolveSpliced bindings tag es = .ok ts ∧ ts ≠ [] ∧ ∀ t ∈ ts, t.Elementary

/-- Operands that resolve are resolved in turn, those of a connective with the same tag in its
place. -/
theorem exists_resolveSpliced {bindings : Bindings} (tag : String) {es : List Expr}
    (h : ∀ e ∈ es, Resolvable bindings e) :
    ∃ ts, resolveSpliced bindings tag es = .ok ts ∧ (es ≠ [] → ts ≠ []) ∧
      ∀ t ∈ ts, t.Elementary := by
  induction es with
  | nil => exact ⟨[], by rw [resolveSpliced], fun hne => absurd rfl hne, by simp⟩
  | cons e rest ih =>
      obtain ⟨he, hrest⟩ := List.forall_mem_cons.mp h
      obtain ⟨others, hothers, -, helementary⟩ := ih hrest
      obtain ⟨t, ht, htelementary⟩ := he.term
      by_cases hsplice : ∃ es, e = .connective tag es
      · obtain ⟨es, rfl⟩ := hsplice
        obtain ⟨ts, hts, hne, htselementary⟩ := he.operands tag es rfl
        refine ⟨ts ++ others, ?_, fun _ => by simp [hne],
          List.forall_mem_append.mpr ⟨htselementary, helementary⟩⟩
        rw [resolveSpliced, if_pos rfl, hts, hothers]
        rfl
      · refine ⟨t :: others, ?_, fun _ => by simp,
          List.forall_mem_cons.mpr ⟨htelementary, helementary⟩⟩
        cases e with
        | connective op es =>
            have hop : op ≠ tag := fun hop => hsplice ⟨es, by rw [hop]⟩
            rw [resolveSpliced, if_neg hop, ht, hothers]
            rfl
        | _ =>
            rw [resolveSpliced, ht, hothers]
            · rfl
            · simp

theorem resolvable_connective {bindings : Bindings} {tag : String} {es : List Expr}
    {operator : Operator} {make : List Term → Term}
    (htag : Operator.tags.lookup tag = some operator)
    (hconstruct : ∀ ts, operator.construct ts = Operator.buildConnective make ts)
    (hmake : ∀ {ts : List Term}, (∀ t ∈ ts, t.Elementary) → (make ts).Elementary)
    (hne : es ≠ []) (h : ∀ e ∈ es, Resolvable bindings e) :
    Resolvable bindings (.connective tag es) := by
  obtain ⟨ts, hts, htsne, helementary⟩ := exists_resolveSpliced tag h
  constructor
  · refine ⟨make ts, ?_, hmake helementary⟩
    have happly : operator.applyLogical ts = .ok (make ts) := by
      refine Operator.applyLogical_of_construct ?_
      rw [hconstruct]
      exact Operator.buildConnective_of_bools (htsne hne) fun t ht => (helementary t ht).sort_eq
    rw [resolve, ofTag_of_lookup htag, hts]
    exact happly
  · intro tag' es' heq
    cases heq
    exact ⟨ts, hts, htsne hne, helementary⟩

namespace Formula

variable {names : List String} {bindings : Bindings} {e : Expr}

theorem resolvable (h : e.Formula names)
    (hnames : ∀ name ∈ names, ∃ x, bindings.find? name = some x ∧ x.sort = .bool) :
    Resolvable bindings e := by
  induction h with
  | identifier hname =>
      obtain ⟨x, hfind, hsort⟩ := hnames _ hname
      exact ⟨⟨.var x, by rw [resolve, hfind], .var hsort⟩, by simp⟩
  | literal b => exact ⟨⟨.const (.bool b), by rw [resolve], .const b⟩, by simp⟩
  | not htag _ ih =>
      obtain ⟨t, ht, helementary⟩ := ih.term
      refine ⟨⟨.not t, ?_, .not helementary⟩, by simp⟩
      have happly : Operator.not.applyLogical [t] = .ok (.not t) :=
        Operator.applyLogical_of_construct (if_pos helementary.sort_eq)
      rw [resolve, ofTag_of_lookup htag, ht]
      exact happly
  | and htag hne _ ih => exact resolvable_connective htag (fun _ => rfl) .and hne ih
  | or htag hne _ ih => exact resolvable_connective htag (fun _ => rfl) .or hne ih

theorem wellKindedAll_of_forall {es : List Expr} (h : ∀ e ∈ es, e.wellKinded = true) :
    Expr.wellKindedAll es = true := by
  induction es with
  | nil => rfl
  | cons e rest ih =>
      obtain ⟨he, hrest⟩ := List.forall_mem_cons.mp h
      rw [Expr.wellKindedAll, he, ih hrest]
      rfl

theorem wellKinded (h : e.Formula names) : e.wellKinded = true := by
  induction h with
  | identifier _ => rfl
  | literal _ => rfl
  | not htag _ ih =>
      rw [Expr.wellKinded, Operator.tagOf_eq_of_lookup htag, ih]
      rfl
  | and htag _ _ ih =>
      rw [Expr.wellKinded, Operator.tagOf_eq_of_lookup htag, wellKindedAll_of_forall ih]
      rfl
  | or htag _ _ ih =>
      rw [Expr.wellKinded, Operator.tagOf_eq_of_lookup htag, wellKindedAll_of_forall ih]
      rfl

/-- The constraint of a formula is an elementary term. -/
theorem exists_constraint (h : e.Formula names)
    (hnames : ∀ name ∈ names, ∃ x, bindings.find? name = some x ∧ x.sort = .bool) :
    ∃ test, e.constraint bindings = .ok test ∧ test.Elementary := by
  obtain ⟨t, ht, helementary⟩ := (h.resolvable hnames).term
  refine ⟨t, ?_, helementary⟩
  rw [constraint, ht, Except.map, Term.truthy_of_bool helementary.sort_eq]

end Formula

end Expr

/-! ## Parameters that are truth values -/

/-- The variables of parameters that are truth values, numbered from the given number on. -/
def Param.truthVars (first : Nat) : List Param → List Var
  | [] => []
  | param :: rest => ⟨first, param.name, .bool⟩ :: truthVars (first + 1) rest

/-- The bindings with variables under their names. -/
def Bindings.withVars (bindings : Bindings) (vars : List Var) : Bindings :=
  vars.foldl (fun bindings x => bindings.insert x.name x) bindings

namespace Param

variable {params : List Param}

theorem length_truthVars (first : Nat) (params : List Param) :
    (truthVars first params).length = params.length := by
  induction params generalizing first with
  | nil => rfl
  | cons param rest ih => rw [truthVars, List.length_cons, List.length_cons, ih]

theorem map_name_truthVars (first : Nat) (params : List Param) :
    (truthVars first params).map Var.name = params.map Param.name := by
  induction params generalizing first with
  | nil => rfl
  | cons param rest ih => rw [truthVars, List.map_cons, List.map_cons, ih]

theorem sort_of_mem_truthVars {first : Nat} {x : Var} (h : x ∈ truthVars first params) :
    x.sort = .bool := by
  induction params generalizing first with
  | nil => cases h
  | cons param rest ih =>
      rcases List.mem_cons.mp h with rfl | hrest
      · rfl
      · exact ih hrest

end Param

namespace Bindings

variable {bindings : Bindings} {vars : List Var}

theorem find?_withVars_of_not_mem {name : String} (h : ∀ x ∈ vars, x.name ≠ name) :
    (bindings.withVars vars).find? name = bindings.find? name := by
  unfold withVars
  induction vars generalizing bindings with
  | nil => rfl
  | cons x rest ih =>
      obtain ⟨hx, hrest⟩ := List.forall_mem_cons.mp h
      rw [List.foldl_cons, ih hrest, NameMap.find?_insert, if_neg hx.symm]

theorem find?_withVars {x : Var} (hnames : (vars.map Var.name).Nodup) (hx : x ∈ vars) :
    (bindings.withVars vars).find? x.name = some x := by
  induction vars generalizing bindings with
  | nil => cases hx
  | cons y rest ih =>
      rw [List.map_cons, List.nodup_cons] at hnames
      obtain ⟨hy, hrest⟩ := hnames
      show (Bindings.withVars (bindings.insert y.name y) rest).find? x.name = some x
      rcases List.mem_cons.mp hx with rfl | hx
      · have hothers : ∀ z ∈ rest, z.name ≠ x.name :=
          fun z hz hname => hy (List.mem_map.mpr ⟨z, hz, hname⟩)
        rw [find?_withVars_of_not_mem hothers, NameMap.find?_insert, if_pos rfl]
      · exact ih hrest hx

theorem mem_of_find?_withVars {name : String} {x : Var}
    (h : (Bindings.withVars .empty vars).find? name = some x)
    (hnames : (vars.map Var.name).Nodup) : x ∈ vars := by
  by_cases hmem : ∃ y ∈ vars, y.name = name
  · obtain ⟨y, hy, rfl⟩ := hmem
    rw [find?_withVars hnames hy, Option.some_inj] at h
    exact h ▸ hy
  · rw [find?_withVars_of_not_mem fun y hy hname => hmem ⟨y, hy, hname⟩] at h
    simp at h

end Bindings

namespace Exploration

theorem bindParam_truth {state : Exploration} {param : Param}
    (htype : ValueSort.ofTag param.type = .ok .bool)
    (hfresh : state.bindings.find? param.name = none)
    (hbelow : ∀ x ∈ state.params, x.id < state.nextId) :
    state.bindParam param = { state with
      bindings := state.bindings.insert param.name ⟨state.nextId, param.name, .bool⟩
      params := state.params ++ [⟨state.nextId, param.name, .bool⟩]
      nextId := state.nextId + 1 } := by
  have hbind : state.bind param.name param.type = .ok (⟨state.nextId, param.name, .bool⟩,
      { state with
        bindings := state.bindings.insert param.name ⟨state.nextId, param.name, .bool⟩
        nextId := state.nextId + 1 }) := by
    rw [bind, htype, hfresh]
  have hnew : (state.params.any fun other => other.id == state.nextId) = false := by
    refine List.any_eq_false.mpr fun x hx => ?_
    have hlt := hbelow x hx
    simp only [beq_iff_eq]
    omega
  simp only [bindParam, hbind, hnew, Bool.false_eq_true, if_false]

/-- Parameters of different names that are truth values are bound one after another. -/
theorem bindParams_truths {params : List Param} {state : Exploration}
    (hnames : (params.map Param.name).Nodup)
    (htypes : ∀ param ∈ params, ValueSort.ofTag param.type = .ok .bool)
    (hfresh : ∀ param ∈ params, state.bindings.find? param.name = none)
    (hbelow : ∀ x ∈ state.params, x.id < state.nextId) :
    state.bindParams params = { state with
      bindings := state.bindings.withVars (Param.truthVars state.nextId params)
      params := state.params ++ Param.truthVars state.nextId params
      nextId := state.nextId + params.length } := by
  induction params generalizing state with
  | nil =>
      show state = { state with params := state.params ++ [] }
      rw [List.append_nil]
  | cons param rest ih =>
      rw [List.map_cons, List.nodup_cons] at hnames
      obtain ⟨htype, htypes⟩ := List.forall_mem_cons.mp htypes
      obtain ⟨hnew, hfresh⟩ := List.forall_mem_cons.mp hfresh
      show (state.bindParam param).bindParams rest = _
      rw [bindParam_truth htype hnew hbelow, ih hnames.2 htypes ?_ ?_]
      · simp only [Param.truthVars, List.length_cons, List.append_assoc, List.singleton_append,
          Bindings.withVars, List.foldl_cons, Nat.add_assoc, Nat.add_comm 1]
      · intro other hother
        have hne : other.name ≠ param.name :=
          fun hname => hnames.1 (hname ▸ List.mem_map_of_mem hother)
        rw [NameMap.find?_insert, if_neg hne]
        exact hfresh other hother
      · intro x hx
        show x.id < state.nextId + 1
        rcases List.mem_append.mp hx with hold | hlast
        · exact Nat.lt_succ_of_lt (hbelow x hold)
        · rw [List.mem_singleton.mp hlast]
          exact Nat.lt_succ_self _

end Exploration

/-- Names stand for truth values, which are among the given variables. -/
structure Bindings.Truths (bindings : Bindings) (vars : List Var) : Prop where
  keyed : bindings.Keyed
  coherent : Coherent bindings.Binds
  mem : ∀ {name x}, bindings.find? name = some x → x ∈ vars
  sort : ∀ x ∈ vars, x.sort = .bool

/-- The parameters of a function, if they are truth values with different names. -/
theorem Exploration.truths_bindParams {params : List Param}
    (hnames : (params.map Param.name).Nodup)
    (htypes : ∀ param ∈ params, ValueSort.ofTag param.type = .ok .bool) (capacity : Option Nat) :
    let vars := Param.truthVars 0 params
    let bound := (start capacity).bindParams params
    bound = { start capacity with
        bindings := bound.bindings, params := vars, nextId := params.length } ∧
      bound.bindings.Truths vars ∧
      ∀ name ∈ params.map Param.name, ∃ x, bound.bindings.find? name = some x ∧ x.sort = .bool := by
  intro vars bound
  have hbound : bound = { start capacity with
      bindings := Bindings.withVars .empty vars, params := vars, nextId := 0 + params.length } :=
    bindParams_truths hnames htypes (by simp [start]) (by simp [start])
  have hvars : (vars.map Var.name).Nodup := by
    rw [Param.map_name_truthVars]
    exact hnames
  have hnumbered : bound.bindings.Numbered bound.nextId :=
    (keeps_bindParams (start capacity) params).numbered Bindings.numbered_empty
  refine ⟨?_, ⟨hnumbered.keyed, hnumbered.coherent, fun hfind => ?_, fun x hx => ?_⟩, ?_⟩
  · rw [hbound, Nat.zero_add]
  · rw [hbound] at hfind
    exact Bindings.mem_of_find?_withVars hfind hvars
  · exact Param.sort_of_mem_truthVars hx
  · intro name hname
    rw [← Param.map_name_truthVars 0] at hname
    obtain ⟨x, hx, rfl⟩ := List.mem_map.mp hname
    rw [hbound]
    exact ⟨x, Bindings.find?_withVars hvars hx, Param.sort_of_mem_truthVars hx⟩

/-! ## One conditional -/

/-- Whether the statement is one that the exploration passes by. -/
def Stmt.isOther : Stmt → Bool
  | .other _ _ => true
  | _ => false

namespace Exploration

variable {solver : Backend} {tracing : Bool} {state : Exploration}

theorem reach_of_frames_eq_nil (h : state.frames = []) (line : Line) :
    state.reach line = some state := by
  rw [reach, h]

theorem explore_others {stmts : List Stmt} (h : ∀ stmt ∈ stmts, stmt.isOther = true)
    (hframes : state.frames = []) : explore solver tracing stmts state = state := by
  induction stmts with
  | nil => rw [explore_nil]
  | cons stmt rest ih =>
      obtain ⟨hstmt, hrest⟩ := List.forall_mem_cons.mp h
      have hpassed : execute solver tracing stmt state = state := by
        rw [execute_eq_step, step_of_reach_eq_some (reach_of_frames_eq_nil hframes _)]
        cases stmt with
        | other => rfl
        | _ => cases hstmt
      rw [explore_cons, hpassed, ih hrest]

/-- Outside of loops, a conditional without an `else` and with nothing in its body is one check. -/
theorem explore_conditional (solver : Backend) (tracing : Bool) (line : Line) {condition : Expr}
    {test : Term} {inner : List Stmt} (hframes : state.frames = [])
    (htest : condition.constraint state.bindings = .ok test)
    (hroom : state.store.hasRoom = true) (hinner : ∀ stmt ∈ inner, stmt.isOther = true) :
    explore solver tracing [.conditional line condition inner []] state =
      ((state.enterTrue tracing line test).check solver line).backTo state := by
  have hentered : (state.enterTrue tracing line test).frames = [] := by
    cases tracing <;> exact hframes
  rw [explore_cons, explore_nil, execute_eq_step,
    step_of_reach_eq_some (reach_of_frames_eq_nil hframes _), perform,
    conditional_of_room htest hroom]
  show state.trueBranch solver tracing line test (explore solver tracing inner) = _
  rw [trueBranch, explore_others hinner hentered]

end Exploration

/-! ## Truth values for the parameters -/

/-- The memory with these truth values. -/
def Memory.ofTruths (values : String → Bool) : Memory := fun name =>
  some (.bool (values name))

/-- The truth values agree with the inputs of the test case. -/
def TestCase.Allows (test : TestCase) (values : String → Bool) : Prop :=
  ∀ input ∈ test.inputs, input.value = .bool (values input.name)

namespace Bindings.Truths

variable {bindings : Bindings} {vars : List Var} {e : Expr} {test : Term} {values : String → Bool}

theorem over_vars (h : bindings.Truths vars) (htest : e.constraint bindings = .ok test) :
    ∀ x ∈ test.occurrences, x ∈ vars :=
  fun x hx => h.mem (Expr.over_of_constraint h.keyed htest x hx)

theorem consistent (h : bindings.Truths vars) (htest : e.constraint bindings = .ok test) :
    Solver.Consistent test.occurrences := by
  have hbound := Expr.over_of_constraint h.keyed htest
  intro x hx y hy
  refine ⟨h.coherent.eq_of_id (hbound x hx) (hbound y hy), fun hname => ?_⟩
  rw [h.coherent.eq_of_name (hbound x hx) (hbound y hy) hname]

/-- Under these truth values the constraint is true exactly if the expression is. -/
theorem holds_iff (h : bindings.Truths vars) (hkinds : e.wellKinded = true)
    (htest : e.constraint bindings = .ok test) {assignment : Assignment}
    (hvalues : ∀ x ∈ test.occurrences, assignment x.id = some (.bool (values x.name))) :
    test.Holds assignment ↔ e.truth (.ofTruths values) = some true := by
  have hsorted : (Memory.ofTruths values).Sorted bindings := by
    intro name x v hfind hv
    cases hv
    exact (h.sort x (h.mem hfind)).symm
  have hmeaning : test.meaning (Memory.ofTruths values).environment =
      .ofTruth (e.truth (.ofTruths values)) :=
    Expr.meaning_of_constraint (hsorted.shown h.keyed) hkinds htest
  have hsame : test.eval assignment = test.meaning (Memory.ofTruths values).environment := by
    rw [Term.eval_eq_meaning]
    exact Term.meaning_congr fun x hx => Assignment.environment_of_some (hvalues x hx)
  rw [Term.Holds, hsame, hmeaning, Meaning.ofTruth_eq_known_iff]

/-- Where truth values make the expression true, its constraint has a solution. -/
theorem satisfiable (h : bindings.Truths vars) (hkinds : e.wellKinded = true)
    (htest : e.constraint bindings = .ok test) (htrue : e.truth (.ofTruths values) = some true) :
    Solver.Satisfiable [test] := by
  have hvalues : ∀ x ∈ test.occurrences,
      (Memory.ofTruths values).assignment test.occurrences x.id = some (.bool (values x.name)) :=
    fun x hx => Memory.assignment_of_mem (h.consistent htest) hx
  refine ⟨(Memory.ofTruths values).assignment test.occurrences, fun x hx => ?_, ?_⟩
  · have hx : x ∈ test.occurrences := by simpa using hx
    exact ⟨_, hvalues x hx, (h.sort x (h.over_vars htest x hx)).symm⟩
  · rw [List.forall_mem_singleton]
    exact (h.holds_iff hkinds htest hvalues).mpr htrue

/-- The test case of a model of the constraint agrees with some truth values, and all with which it
agrees make the expression true. -/
theorem allows_of_sat (h : bindings.Truths vars) (hkinds : e.wellKinded = true)
    (htest : e.constraint bindings = .ok test) {limits : Solver.Limits} {model : Model}
    (hcheck : Solver.check limits [test] = .sat model) (line : Line) (store : Store) :
    (∃ values, (TestCase.ofModel line model vars store).Allows values) ∧
      ∀ values, (TestCase.ofModel line model vars store).Allows values →
        e.truth (.ofTruths values) = some true := by
  have hconsistent : Solver.Consistent ([test].flatMap Term.occurrences) := by
    rw [List.flatMap_singleton]
    exact h.consistent htest
  obtain ⟨hnames, found, hholds, hvalues⟩ := Solver.check_sat_spec hconsistent hcheck
  rw [List.flatMap_singleton] at hnames hvalues
  constructor
  · refine ⟨fun name => decide (model.find? name = some (.bool true)), fun input hinput => ?_⟩
    obtain ⟨-, -, -, hinput⟩ := TestCase.mem_inputs_ofModel.mp hinput
    -- a name with a value in the model is that of a variable of the constraint
    obtain ⟨x, hx, hname⟩ : ∃ x ∈ test.occurrences, x.name = input.name := by
      by_contra hnone
      rw [hnames input.name fun x hx hname => hnone ⟨x, hx, hname⟩] at hinput
      cases hinput
    obtain ⟨v, -, hsort, hmodel⟩ := hvalues x hx
    obtain ⟨b, rfl⟩ := Value.exists_bool (hsort.trans (h.sort x (h.over_vars htest x hx)))
    rw [hname, hinput, Option.some_inj] at hmodel
    simp [hinput, hmodel]
  · intro values hallows
    refine (h.holds_iff hkinds htest fun x hx => ?_).mp (hholds test List.mem_cons_self)
    obtain ⟨v, hv, -, hmodel⟩ := hvalues x hx
    have hinput : v = .bool (values x.name) :=
      hallows ⟨x.name, v⟩
        (TestCase.mem_inputs_ofModel.mpr ⟨x, h.over_vars htest x hx, rfl, hmodel⟩)
    rw [hv, hinput]

/-- The solver gives a model of an elementary constraint or finds that there is none, within a
budget for all values of the variables. -/
theorem sat_or_unsat (h : bindings.Truths vars) (htest : e.constraint bindings = .ok test)
    (helementary : test.Elementary) {limits : Solver.Limits}
    (hnodes : 2 ^ (vars.length + 1) - 2 ≤ limits.nodes) :
    (∃ model, Solver.check limits [test] = .sat model) ∨ Solver.check limits [test] = .unsat := by
  have hvars : [test].flatMap Term.occurrences = test.occurrences := List.flatMap_singleton ..
  have hbudget : Solver.check limits [test] ≠ .timeout :=
    Solver.check_ne_timeout (by rw [hvars]; exact h.over_vars htest) h.sort hnodes
  have hsorts : Solver.OneSort ([test].flatMap Term.occurrences) := by
    rw [hvars]
    exact (h.consistent htest).oneSort
  have hknows := Solver.check_ne_unknown limits (List.forall_mem_singleton.mpr helementary) hsorts
  cases hcheck : Solver.check limits [test] with
  | sat model => exact .inl ⟨model, rfl⟩
  | unsat => exact .inr rfl
  | timeout => exact absurd hcheck hbudget
  | unknown reason => exact absurd hcheck (hknows reason)

end Bindings.Truths

/-! ## The analysis of a formula -/

/-- What is reported after a first check that the solver settles. -/
theorem Exploration.report_check (solver : Backend) {state : Exploration}
    (htestCases : state.testCases = []) (hviolations : state.violations = [])
    (hdiagnostics : state.diagnostics = []) (line : Line) (name : String) :
    let report := (state.check solver line).report name
    (∀ model, solver state.asked state.store.assertions = .sat model →
        report.diagnostics = [] ∧ report.violations = [] ∧
          report.testCases = [.ofModel line model state.params state.store]) ∧
      (solver state.asked state.store.assertions = .unsat →
        report.diagnostics = [] ∧ report.testCases = [] ∧
          report.violations = [.ofStore line state.store]) := by
  constructor
  · intro model hanswer
    simp [check, hanswer, Exploration.report, htestCases, hviolations, hdiagnostics]
  · intro hanswer
    simp [check, hanswer, Exploration.report, htestCases, hviolations, hdiagnostics]

/-- With the bounded solver, the analysis of a conditional with nothing in its body reports the
answer to one check. -/
theorem Settings.analyze_conditional {settings : Settings}
    (hbounded : settings.solver.backend = .bounded)
    (hroom : ∀ limit, settings.maxPathConstraints = some limit → 1 ≤ limit.toNat)
    {params : List Param} {bindings : Bindings} {vars : List Var} {next : Nat}
    (hbound : (Exploration.start (settings.maxPathConstraints.map UInt64.toNat)).bindParams params =
      { Exploration.start (settings.maxPathConstraints.map UInt64.toNat) with
        bindings, params := vars, nextId := next })
    {condition : Expr} {test : Term} (htest : condition.constraint bindings = .ok test)
    {inner : List Stmt} (hinner : ∀ stmt ∈ inner, stmt.isOther = true) (name : String)
    (line : Line) :
    ∃ report, settings.analyze
          { name, params, body := [.conditional line condition inner []] } = .ok report ∧
      (∀ model, Solver.check settings.limits [test] = .sat model →
        report.diagnostics = [] ∧ report.violations = [] ∧
          ∃ store, report.testCases = [.ofModel line model vars store]) ∧
      (Solver.check settings.limits [test] = .unsat →
        report.diagnostics = [] ∧ report.testCases = [] ∧
          ∃ violation, report.violations = [violation]) := by
  let bound : Exploration :=
    { Exploration.start (settings.maxPathConstraints.map UInt64.toNat) with
      bindings, params := vars, nextId := next }
  have hfits : bound.store.hasRoom = true := by
    show Store.hasRoom { capacity := settings.maxPathConstraints.map UInt64.toNat } = true
    cases hlimit : settings.maxPathConstraints with
    | none => rfl
    | some limit => exact decide_eq_true (hroom limit hlimit)
  let entered := bound.enterTrue settings.traceBranches line test
  have hanalyze : settings.analyze
      { name, params, body := [.conditional line condition inner []] } =
        .ok ((entered.check settings.boundedBackend line).report name) := by
    have hexplored := Exploration.explore_conditional settings.boundedBackend
      settings.traceBranches line (show bound.frames = [] from rfl) htest hfits hinner
    rw [Settings.analyze, Settings.backend, hbounded]
    show Except.ok (Exploration.report (Exploration.explore settings.boundedBackend
      settings.traceBranches _ _) name) = _
    rw [hbound, hexplored]
    rfl
  -- entering the conditional has found nothing, and the test is all there is to check
  have hentered : ∀ tracing, let entered := bound.enterTrue tracing line test
      entered.testCases = [] ∧ entered.violations = [] ∧ entered.diagnostics = [] ∧
        entered.params = vars ∧ entered.store.assertions = [test] := by
    intro tracing
    cases tracing <;> exact ⟨rfl, rfl, rfl, rfl, rfl⟩
  obtain ⟨htestCases, hviolations, hdiagnostics, hparams, hassertions⟩ :=
    hentered settings.traceBranches
  obtain ⟨hsat, hunsat⟩ := Exploration.report_check settings.boundedBackend htestCases
    hviolations hdiagnostics line name
  rw [hassertions, hparams] at hsat
  rw [hassertions] at hunsat
  refine ⟨_, hanalyze, fun model hcheck => ?_, fun hcheck => ?_⟩
  · obtain ⟨hdiagnostics, hviolations, htestCases⟩ := hsat model hcheck
    exact ⟨hdiagnostics, hviolations, _, htestCases⟩
  · obtain ⟨hdiagnostics, htestCases, hviolations⟩ := hunsat hcheck
    exact ⟨hdiagnostics, htestCases, _, hviolations⟩

/-- **Formulas are settled.**  Consider a function whose parameters are truth values and whose body
is a conditional on a formula over them, without an `else` and with nothing to explore in its body.
With time, room for one test and a budget for all values of the parameters, the analysis has nothing
to complain about.  If some truth values make the formula true, it finds one test case, and all
truth values that agree with its inputs make the formula true; otherwise it finds one violation. -/
theorem Settings.formula_branch_settled (settings : Settings) (name : String) (params : List Param)
    (line : Line) (formula : Expr) (inner : List Stmt)
    (hbounded : settings.solver.backend = .bounded) (htime : settings.solver.timeoutMs ≠ 0)
    (hnodes : 2 ^ (params.length + 1) - 2 ≤ settings.solver.maxNodes.toNat)
    (hroom : ∀ limit, settings.maxPathConstraints = some limit → 1 ≤ limit.toNat)
    (hnames : (params.map Param.name).Nodup)
    (htypes : ∀ param ∈ params, ValueSort.ofTag param.type = .ok .bool)
    (hformula : formula.Formula (params.map Param.name))
    (hinner : ∀ stmt ∈ inner, stmt.isOther = true) :
    ∃ report, settings.analyze
          { name, params, body := [.conditional line formula inner []] } = .ok report ∧
      report.diagnostics = [] ∧
      ((∃ values, formula.truth (.ofTruths values) = some true) →
        ∃ test, report.testCases = [test] ∧ report.violations = [] ∧
          (∃ values, test.Allows values) ∧
          ∀ values, test.Allows values → formula.truth (.ofTruths values) = some true) ∧
      ((¬ ∃ values, formula.truth (.ofTruths values) = some true) →
        ∃ violation, report.violations = [violation] ∧ report.testCases = []) := by
  obtain ⟨hbound, htruths, hfound⟩ := Exploration.truths_bindParams hnames htypes
    (settings.maxPathConstraints.map UInt64.toNat)
  obtain ⟨test, htest, helementary⟩ := hformula.exists_constraint hfound
  obtain ⟨report, hanalyze, hsat, hunsat⟩ :=
    Settings.analyze_conditional hbounded hroom hbound htest hinner name line
  have hbudget : 2 ^ ((Param.truthVars 0 params).length + 1) - 2 ≤ settings.limits.nodes := by
    rw [Param.length_truthVars, Settings.limits, if_neg htime]
    exact hnodes
  refine ⟨report, hanalyze, ?_⟩
  rcases htruths.sat_or_unsat htest helementary hbudget with ⟨model, hcheck⟩ | hcheck
  · obtain ⟨hdiagnostics, hviolations, store, htestCases⟩ := hsat model hcheck
    obtain ⟨hallowed, htrue⟩ := htruths.allows_of_sat hformula.wellKinded htest hcheck line store
    refine ⟨hdiagnostics, fun _ => ⟨_, htestCases, hviolations, hallowed, htrue⟩, fun hnone => ?_⟩
    obtain ⟨values, hvalues⟩ := hallowed
    exact absurd ⟨values, htrue values hvalues⟩ hnone
  · obtain ⟨hdiagnostics, htestCases, violation, hviolations⟩ := hunsat hcheck
    refine ⟨hdiagnostics, fun hsome => ?_, fun _ => ⟨violation, hviolations, htestCases⟩⟩
    obtain ⟨values, htrue⟩ := hsome
    exact absurd (htruths.satisfiable hformula.wellKinded htest htrue)
      (Solver.not_satisfiable_of_unsat hcheck)

/-- Exactly one of `a` and `b`, with a third parameter that is not mentioned, at the least budget
and with room for one test; the conjunction inside the conjunction has its tag and is spliced into
it. -/
theorem Settings.formula_branch_settled_exclusive :
    let a : Expr := .identifier "a"
    let b : Expr := .identifier "b"
    let formula : Expr := .connective "and" [.connective "or" [a, b],
      .connective "and" [.unary "not" (.connective "&&" [a, b]), .literal (.bool true)]]
    let function : Function :=
      { name := "exclusive"
        params := [⟨"a", "bool"⟩, ⟨"b", "boolean"⟩, ⟨"c", "Bool"⟩]
        body := [.conditional 1 formula [.other 2 (some "return")] []] }
    let settings : Settings :=
      { Preset.fast.settings with
        solver := { Preset.fast.solver with maxNodes := 14 }
        maxPathConstraints := some 1 }
    ∃ report, settings.analyze function = .ok report ∧
      report.diagnostics = [] ∧
      ∃ test, report.testCases = [test] ∧ report.violations = [] ∧
        (∃ values, test.Allows values) ∧
        ∀ values, test.Allows values → formula.truth (.ofTruths values) = some true := by
  intro a b formula function settings
  have ha : a.Formula ["a", "b", "c"] := .identifier (by simp)
  have hb : b.Formula ["a", "b", "c"] := .identifier (by simp)
  have hformula : formula.Formula ["a", "b", "c"] := by
    refine .and rfl (by simp) (List.forall_mem_cons.mpr ⟨.or rfl (by simp) ?_, ?_⟩)
    · simp [ha, hb]
    · rw [List.forall_mem_singleton]
      refine .and rfl (by simp) (List.forall_mem_cons.mpr ⟨.not rfl (.and rfl (by simp) ?_), ?_⟩)
      · simp [ha, hb]
      · rw [List.forall_mem_singleton]
        exact .literal true
  have htypes : ∀ param ∈ function.params, ValueSort.ofTag param.type = .ok .bool := by
    simp only [function, List.forall_mem_cons]
    exact ⟨rfl, rfl, rfl, by simp⟩
  have hsome : formula.truth (.ofTruths fun name => decide (name = "a")) = some true := by decide
  obtain ⟨report, hanalyze, hdiagnostics, hsat, -⟩ :=
    Settings.formula_branch_settled settings function.name function.params 1 formula
      [.other 2 (some "return")] rfl (by decide) (by decide) (by simp [settings]) (by decide)
      htypes hformula (by simp [Stmt.isOther])
  exact ⟨report, hanalyze, hdiagnostics, hsat ⟨_, hsome⟩⟩

/-- A branch with something to explore in it can report more: with all that is asked of settings and
formula, the conditional in this branch, on line `2`, has a test case of its own. -/
theorem Settings.formula_branch_nested_reports_twice :
    let b : Expr := .identifier "b"
    let function : Function :=
      { name := "nested"
        params := [⟨"b", "bool"⟩]
        body := [.conditional 1 b [.conditional 2 b [.other 3 (some "return")] []] []] }
    let settings := Preset.fast.settings
    (settings.solver.backend = .bounded ∧ settings.solver.timeoutMs ≠ 0 ∧
        2 ^ (function.params.length + 1) - 2 ≤ settings.solver.maxNodes.toNat ∧
        ∀ limit, settings.maxPathConstraints = some limit → 1 ≤ limit.toNat) ∧
      b.Formula (function.params.map Param.name) ∧
      b.truth (.ofTruths fun _ => true) = some true ∧
      ∃ report, settings.analyze function = .ok report ∧
        report.testCases.map TestCase.line = [2, 1] ∧
        ¬ ∃ test, report.testCases = [test] := by
  intro b function settings
  refine ⟨⟨rfl, by decide, by decide, nofun⟩, .identifier (by decide), by decide, ?_⟩
  obtain ⟨report, hanalyze, hlines⟩ : ∃ report, settings.analyze function = .ok report ∧
      report.testCases.map TestCase.line = [2, 1] := ⟨_, rfl, by decide +kernel⟩
  refine ⟨report, hanalyze, hlines, ?_⟩
  rintro ⟨test, htest⟩
  rw [htest] at hlines
  simp at hlines

end BranchWitness
