import BranchWitness.Proofs.Solver.Search
import BranchWitness.Solver

/-!
# The answers of the bounded solver

The solver is right when it answers, whatever its limits are.

* Where it says that there is no solution, every assignment of the right sorts makes one of the
  conjuncts false (`exists_refuted_of_unsat`).  This is more than that no assignment makes all
  assertions true: an assignment under which assertions are undefined, and none is false, is
  excluded too.
* Where it gives a model, the model has a value of the right sort for exactly the variables of the
  assertions, and the assertions are true in it (`check_sat_spec`).

Neither depends on how long the search may run or how wide the window of integers is.
-/

namespace BranchWitness.Solver

/-! ## Conjuncts -/

@[simp] theorem conjunctsAll_eq (ts : List Term) : conjunctsAll ts = ts.flatMap conjuncts := by
  induction ts with
  | nil => simp [conjunctsAll]
  | cons t ts ih => simp [conjunctsAll, ih]

/-- Splitting conjunctions keeps what it takes to be true. -/
theorem holds_iff_conjuncts {assignment : Assignment} {t : Term} :
    t.Holds assignment ↔ ∀ c ∈ conjuncts t, c.Holds assignment := by
  induction t with
  | and ts ih =>
      rw [Term.holds_and_iff, conjuncts, conjunctsAll_eq]
      simp only [List.mem_flatMap, forall_exists_index, and_imp]
      exact ⟨fun h c t ht hc => (ih t ht).mp (h t ht) c hc,
        fun h t ht => (ih t ht).mpr fun c hc => h c t ht hc⟩
  | _ => simp [conjuncts]

/-- Splitting conjunctions keeps the variables. -/
theorem occurrences_conjuncts (t : Term) :
    (conjuncts t).flatMap Term.occurrences = t.occurrences := by
  induction t with
  | and ts ih =>
      rw [conjuncts, conjunctsAll_eq, Term.occurrences, Term.occurrencesAll_eq,
        List.flatMap_assoc]
      exact List.flatMap_congr ih
  | _ => simp [conjuncts]

theorem occurrences_conjunctsAll (ts : List Term) :
    (conjunctsAll ts).flatMap Term.occurrences = ts.flatMap Term.occurrences := by
  rw [conjunctsAll_eq, List.flatMap_assoc]
  exact List.flatMap_congr fun t _ => occurrences_conjuncts t

/-! ## Conjuncts without variables -/

theorem occurrences_of_isGround {t : Term} (h : t.isGround = true) : t.occurrences = [] := by
  simpa [Term.isGround] using h

theorem eval_of_isGround {t : Term} (h : t.isGround = true) (assignment : Assignment) :
    t.eval assignment = t.eval .empty :=
  Term.eval_congr (by simp [occurrences_of_isGround h])

/-- Settling ends early only at a conjunct without variables, which is false or has no value. -/
theorem settleGround_error {parts : List Term} {answer : Answer}
    (h : settleGround parts = .error answer) :
    ∃ t ∈ parts, t.isGround = true ∧
      ((∃ v, t.eval .empty = .known v ∧ v ≠ .bool true) ∧ answer = .unsat ∨
        (∀ v, t.eval .empty ≠ .known v) ∧ ∃ reason, answer = .unknown reason) := by
  induction parts with
  | nil => cases h
  | cons t rest ih =>
      unfold settleGround at h
      split at h
      · rename_i hground
        split at h
        · rename_i v heval
          split at h
          · obtain ⟨u, hu, hends⟩ := ih h
            exact ⟨u, List.mem_cons_of_mem t hu, hends⟩
          · rename_i hfalse
            cases h
            exact ⟨t, List.mem_cons_self, hground, .inl ⟨⟨v, heval, hfalse⟩, rfl⟩⟩
        · rename_i hnone
          cases h
          exact ⟨t, List.mem_cons_self, hground, .inr ⟨hnone, _, rfl⟩⟩
      · split at h
        · cases h
        · rename_i hanswer
          cases h
          obtain ⟨u, hu, hends⟩ := ih hanswer
          exact ⟨u, List.mem_cons_of_mem t hu, hends⟩

theorem settleGround_unsat {parts : List Term} (h : settleGround parts = .error .unsat)
    (assignment : Assignment) : ∃ t ∈ parts, Refuted assignment t := by
  obtain ⟨t, ht, hground, ⟨⟨v, heval, hfalse⟩, -⟩ | ⟨-, reason, hanswer⟩⟩ := settleGround_error h
  · exact ⟨t, ht, v, by rw [eval_of_isGround hground, heval], hfalse⟩
  · cases hanswer

/-- Settling keeps the conjuncts with variables; the others are true. -/
theorem settleGround_ok {parts symbolic : List Term} (h : settleGround parts = .ok symbolic) :
    (∀ t ∈ symbolic, t ∈ parts ∧ t.isGround = false) ∧
      ∀ t ∈ parts, t ∈ symbolic ∨ t.isGround = true ∧ ∀ assignment, t.Holds assignment := by
  induction parts generalizing symbolic with
  | nil =>
      cases h
      simp
  | cons t rest ih =>
      unfold settleGround at h
      split at h
      · rename_i hground
        split at h
        · rename_i v heval
          split at h
          · rename_i htrue
            obtain ⟨hmem, hsettled⟩ := ih h
            refine ⟨fun u hu => ⟨List.mem_cons_of_mem _ (hmem u hu).1, (hmem u hu).2⟩, ?_⟩
            refine List.forall_mem_cons.mpr ⟨.inr ⟨hground, fun assignment => ?_⟩, hsettled⟩
            rw [Term.Holds, eval_of_isGround hground, heval, htrue]
          · cases h
        · cases h
      · rename_i hground
        cases hrest : settleGround rest with
        | error answer => simp [hrest] at h
        | ok remaining =>
            simp only [hrest, Except.ok.injEq] at h
            subst h
            obtain ⟨hmem, hsettled⟩ := ih hrest
            constructor
            · refine List.forall_mem_cons.mpr ⟨⟨List.mem_cons_self, by simpa using hground⟩, ?_⟩
              exact fun u hu => ⟨List.mem_cons_of_mem _ (hmem u hu).1, (hmem u hu).2⟩
            · refine List.forall_mem_cons.mpr ⟨.inl List.mem_cons_self, fun u hu => ?_⟩
              exact (hsettled u hu).imp_left (List.mem_cons_of_mem _)

/-! ## The variables of a problem -/

theorem ranks_before : Ranks Var.before where
  asymm {x y} h := by
    simp only [Var.before, decide_eq_true_eq, decide_eq_false_iff_not] at h ⊢
    omega
  split {x y} h z := by
    simp only [Var.before, decide_eq_true_eq] at h ⊢
    omega

theorem mem_occurrences_of_mem_variablesOf {symbolic : List Term} {x : Var}
    (h : x ∈ variablesOf symbolic) : x ∈ symbolic.flatMap Term.occurrences := by
  rw [← Term.occurrencesAll_eq]
  exact (mem_insertAllAscending h).resolve_right List.not_mem_nil

theorem exists_mem_variablesOf {symbolic : List Term} {x : Var}
    (h : x ∈ symbolic.flatMap Term.occurrences) : ∃ y ∈ variablesOf symbolic, y.id = x.id := by
  rw [← Term.occurrencesAll_eq] at h
  obtain ⟨y, hy, hfirst, hsecond⟩ := exists_tie_insertAllAscending ranks_before.irrefl h []
  refine ⟨y, hy, ?_⟩
  simp only [Var.before, decide_eq_false_iff_not] at hfirst hsecond
  omega

theorem ascending_variablesOf (symbolic : List Term) :
    (variablesOf symbolic).Pairwise fun first second => first.id < second.id := by
  have htrans : ∀ x y z : Var, x.before y = true → y.before z = true → x.before z = true :=
    fun _ _ _ => ranks_before.trans
  refine (pairwise_insertAllAscending htrans _ .nil).imp fun hbefore => ?_
  simpa [Var.before] using hbefore

theorem pairwise_variablesOf (symbolic : List Term) :
    (variablesOf symbolic).Pairwise fun first second => first.id ≠ second.id :=
  (ascending_variablesOf symbolic).imp Nat.ne_of_lt

/-! ## No solution -/

/-- **No solution.**  Where the solver answers that there is no solution, every assignment of the
right sorts makes one of the conjuncts false. -/
theorem exists_refuted_of_unsat {limits : Limits} {assertions : List Term}
    (h : check limits assertions = .unsat) {assignment : Assignment}
    (hrespects : Respects assignment (assertions.flatMap Term.occurrences)) :
    ∃ t ∈ conjunctsAll assertions, Refuted assignment t := by
  unfold check at h
  dsimp only at h
  split at h
  · cases h
  · cases hsettle : settleGround (conjunctsAll assertions) with
    | error answer =>
        simp only [hsettle] at h
        exact settleGround_unsat (h ▸ hsettle) assignment
    | ok symbolic =>
        simp only [hsettle, solve] at h
        have hparts : ∀ t ∈ symbolic, t ∈ conjunctsAll assertions :=
          fun t ht => ((settleGround_ok hsettle).1 t ht).1
        have hvars : Respects assignment (variablesOf symbolic) := by
          intro x hx
          obtain ⟨t, ht, hocc⟩ := List.mem_flatMap.mp (mem_occurrences_of_mem_variablesOf hx)
          refine hrespects x ?_
          rw [← occurrences_conjunctsAll]
          exact List.mem_flatMap.mpr ⟨t, hparts t ht, hocc⟩
        split at h
        · cases h
        · cases h
        · rename_i progress hsearch
          split at h
          · rename_i hexhaustive
            have hextends : assignment.Extends .empty := fun _ _ hnone => by cases hnone
            obtain ⟨t, ht, hrefuted⟩ := exists_refuted_of_exhausted
              (zero_mem_seeds limits.width symbolic) (pairwise_variablesOf symbolic) hsearch
              hexhaustive hextends hvars
            exact ⟨t, hparts t ht, hrefuted⟩
          · cases h

/-- An assignment of the right sorts does not make all assertions true. -/
theorem not_holds_of_unsat {limits : Limits} {assertions : List Term}
    (h : check limits assertions = .unsat) {assignment : Assignment}
    (hrespects : Respects assignment (Term.occurrencesAll assertions)) :
    ¬ ∀ t ∈ assertions, t.Holds assignment := by
  intro hholds
  rw [Term.occurrencesAll_eq] at hrespects
  obtain ⟨c, hc, hrefuted⟩ := exists_refuted_of_unsat h hrespects
  rw [conjunctsAll_eq] at hc
  obtain ⟨t, ht, hct⟩ := List.mem_flatMap.mp hc
  exact hrefuted.not_holds (holds_iff_conjuncts.mp (hholds t ht) c hct)

/-- **Unsatisfiable means unsatisfiable.**  Where the solver answers that there is no solution, no
assignment that gives every variable a value of its sort makes all assertions true.  The terms
need not be well-sorted, and nothing is asked of the limits.  Were one number used at two sorts,
no assignment would respect both, so this need not be excluded. -/
theorem check_unsat_sound (limits : Limits) (assertions : List Term)
    (h : check limits assertions = .unsat) :
    ¬ ∃ assignment : Assignment, Respects assignment (Term.occurrencesAll assertions) ∧
      ∀ t ∈ assertions, t.Holds assignment := by
  rintro ⟨assignment, hrespects, hholds⟩
  exact not_holds_of_unsat h hrespects hholds

/-- The answer at `x > 10`, with `x < 5` unless `b` is false, `b` unless `s` is `"a"`, and `s` not
`"a"`: three sorts, a disjunction over two of them, and no solution. -/
theorem check_unsat_sound_mixed :
    let x := Term.var ⟨0, "x", .int⟩
    let s := Term.var ⟨1, "s", .str⟩
    let b := Term.var ⟨2, "b", .bool⟩
    let assertions : List Term :=
      [.and [.cmp .gt x (.const (.int 10)), .or [.cmp .lt x (.const (.int 5)), .not b]],
        .or [b, .cmp .eq s (.const (.str "a"))], .cmp .ne (.const (.str "a")) s]
    check ⟨1000, 2⟩ assertions = .unsat ∧
      ¬ ∃ assignment : Assignment, Respects assignment (Term.occurrencesAll assertions) ∧
        ∀ t ∈ assertions, t.Holds assignment :=
  ⟨rfl, check_unsat_sound ⟨1000, 2⟩ _ rfl⟩

/-! ## Models -/

/-- Put the value of a variable into a model, if it has one. -/
def addValue (assignment : Assignment) (model : Model) (x : Var) : Model :=
  match assignment x.id with
  | some v => model.insert x.name v
  | none => model

theorem modelOf_eq_foldl (vars : List Var) (assignment : Assignment) :
    modelOf vars assignment = vars.foldl (addValue assignment) .empty := rfl

theorem find?_foldl_addValue_of_not_mem {vars : List Var} {name : String}
    (h : ∀ x ∈ vars, x.name ≠ name) (assignment : Assignment) (model : Model) :
    (vars.foldl (addValue assignment) model).find? name = model.find? name := by
  induction vars generalizing model with
  | nil => rfl
  | cons x rest ih =>
      obtain ⟨hx, hrest⟩ := List.forall_mem_cons.mp h
      rw [List.foldl_cons, ih hrest]
      unfold addValue
      split
      · rw [NameMap.find?_insert, if_neg hx.symm]
      · rfl

theorem find?_modelOf_of_not_mem {vars : List Var} {name : String}
    (h : ∀ x ∈ vars, x.name ≠ name) (assignment : Assignment) :
    (modelOf vars assignment).find? name = none := by
  rw [modelOf_eq_foldl, find?_foldl_addValue_of_not_mem h, NameMap.find?_empty]

theorem find?_modelOf {vars : List Var} {assignment : Assignment}
    (hnames : vars.Pairwise fun first second => first.name ≠ second.name)
    (hrespects : Respects assignment vars) {x : Var} (hx : x ∈ vars) :
    (modelOf vars assignment).find? x.name = assignment x.id := by
  rw [modelOf_eq_foldl]
  generalize NameMap.empty = model
  induction vars generalizing model with
  | nil => simp at hx
  | cons y rest ih =>
      obtain ⟨hy, hrest⟩ := List.pairwise_cons.mp hnames
      rw [List.foldl_cons]
      rcases List.mem_cons.mp hx with rfl | hx
      · obtain ⟨v, hv, -⟩ := hrespects x List.mem_cons_self
        rw [find?_foldl_addValue_of_not_mem fun z hz => (hy z hz).symm, addValue, hv,
          NameMap.find?_insert, if_pos rfl]
      · exact ih hrest (fun z hz => hrespects z (List.mem_cons_of_mem _ hz)) hx _

/-- One variable for each number and one number for each name. -/
def Consistent (vars : List Var) : Prop :=
  ∀ x ∈ vars, ∀ y ∈ vars, (x.id = y.id → x = y) ∧ (x.name = y.name → x.id = y.id)

/-- The assignment that a model stands for: each of the variables has the value of its name. -/
def valuation (model : Model) (vars : List Var) : Assignment := fun id =>
  (vars.find? fun x => x.id == id).bind fun x => model.find? x.name

theorem valuation_of_mem {vars : List Var} (hvars : Consistent vars) (model : Model) {x : Var}
    (hx : x ∈ vars) : valuation model vars x.id = model.find? x.name := by
  unfold valuation
  cases hfind : vars.find? fun y => y.id == x.id with
  | none => simpa using List.find?_eq_none.mp hfind x hx
  | some y =>
      have hid : y.id = x.id := by simpa using List.find?_some hfind
      rw [Option.bind_some, (hvars y (List.mem_of_find?_eq_some hfind) x hx).1 hid]

/-- One sort for each number. -/
def OneSort (vars : List Var) : Prop :=
  ∀ x ∈ vars, ∀ y ∈ vars, x.id = y.id → x.sort = y.sort

theorem Consistent.oneSort {vars : List Var} (h : Consistent vars) : OneSort vars :=
  fun x hx y hy hid => congrArg Var.sort ((h x hx y hy).1 hid)

/-- With one name for each variable the model of an assignment has its values. -/
theorem find?_modelOf_variablesOf {symbolic : List Term} {assignment : Assignment}
    (hvars : Consistent (symbolic.flatMap Term.occurrences))
    (hrespects : Respects assignment (symbolic.flatMap Term.occurrences)) {x : Var}
    (hx : x ∈ symbolic.flatMap Term.occurrences) :
    (modelOf (variablesOf symbolic) assignment).find? x.name = assignment x.id := by
  have hmem : ∀ y ∈ variablesOf symbolic, y ∈ symbolic.flatMap Term.occurrences :=
    fun y hy => mem_occurrences_of_mem_variablesOf hy
  have hnames : (variablesOf symbolic).Pairwise fun first second => first.name ≠ second.name := by
    refine List.Pairwise.imp_of_mem ?_ (pairwise_variablesOf symbolic)
    exact fun {y z} hy hz hne hname => hne ((hvars y (hmem y hy) z (hmem z hz)).2 hname)
  have hlisted : x ∈ variablesOf symbolic := by
    obtain ⟨y, hy, hid⟩ := exists_mem_variablesOf hx
    exact (hvars y (hmem y hy) x hx).1 hid ▸ hy
  exact find?_modelOf hnames (fun y hy => hrespects y (hmem y hy)) hlisted

/-- What the search found gives all variables values of their sorts and makes the conjuncts true. -/
theorem solves_of_found {limits : Limits} {symbolic : List Term} {found : Assignment}
    {progress : Progress} (hsorts : OneSort (symbolic.flatMap Term.occurrences))
    (hsymbolic : ∀ t ∈ symbolic, t.isGround = false)
    (h : search (Seeds.of limits.width symbolic) ((variablesOf symbolic).map (Slot.of symbolic))
      .empty ⟨limits.nodes, true⟩ = (.found found, progress)) :
    Respects found (symbolic.flatMap Term.occurrences) ∧ ∀ t ∈ symbolic, t.Holds found := by
  obtain ⟨hvalues, -, hholds⟩ := found_spec (pairwise_variablesOf symbolic) h
  have hrespects : Respects found (symbolic.flatMap Term.occurrences) := by
    intro x hx
    obtain ⟨y, hy, hid⟩ := exists_mem_variablesOf hx
    obtain ⟨v, hv, hsort⟩ := hvalues y hy
    refine ⟨v, hid ▸ hv, hsort.trans ?_⟩
    exact hsorts y (mem_occurrences_of_mem_variablesOf hy) x hx hid
  refine ⟨hrespects, fun t ht => hholds t ht ?_ fun y hy => ?_⟩
  · -- a conjunct of the search has a variable
    obtain ⟨y, hy⟩ : ∃ y, y ∈ t.occurrences := by
      have hne := hsymbolic t ht
      rw [Term.isGround, List.isEmpty_eq_false_iff] at hne
      exact List.exists_mem_of_ne_nil _ hne
    obtain ⟨x, hx, hid⟩ := exists_mem_variablesOf (List.mem_flatMap.mpr ⟨t, ht, hy⟩)
    exact ⟨x, hx, Term.mentions_iff.mpr ⟨y, hy, hid.symm⟩⟩
  · obtain ⟨v, hv, -⟩ := hrespects y (List.mem_flatMap.mpr ⟨t, ht, hy⟩)
    exact ⟨v, hv⟩

/-- A model is made of what the search found. -/
theorem exists_found_of_solve {limits : Limits} {symbolic : List Term} {model : Model}
    (h : solve limits symbolic = .sat model) :
    ∃ found progress, search (Seeds.of limits.width symbolic)
        ((variablesOf symbolic).map (Slot.of symbolic)) .empty ⟨limits.nodes, true⟩ =
          (.found found, progress) ∧
      model = modelOf (variablesOf symbolic) found := by
  simp only [solve] at h
  split at h
  · rename_i found progress hsearch
    cases h
    exact ⟨found, progress, hsearch, rfl⟩
  · cases h
  · split at h <;> cases h

/-- What the search found, seen through the model made of it. -/
theorem solve_sat {limits : Limits} {symbolic : List Term} {model : Model}
    (hvars : Consistent (symbolic.flatMap Term.occurrences))
    (hsymbolic : ∀ t ∈ symbolic, t.isGround = false) (h : solve limits symbolic = .sat model) :
    (∀ name, (∀ x ∈ symbolic.flatMap Term.occurrences, x.name ≠ name) →
        model.find? name = none) ∧
      ∃ found : Assignment, (∀ t ∈ symbolic, t.Holds found) ∧
        ∀ x ∈ symbolic.flatMap Term.occurrences, ∃ v, found x.id = some v ∧ v.sort = x.sort ∧
          model.find? x.name = some v := by
  obtain ⟨found, progress, hsearch, rfl⟩ := exists_found_of_solve h
  obtain ⟨hrespects, hholds⟩ := solves_of_found hvars.oneSort hsymbolic hsearch
  refine ⟨fun name hname => ?_, found, hholds, fun x hx => ?_⟩
  · exact find?_modelOf_of_not_mem
      (fun x hx => hname x (mem_occurrences_of_mem_variablesOf hx)) found
  · obtain ⟨v, hv, hsort⟩ := hrespects x hx
    exact ⟨v, hv, hsort, by rw [find?_modelOf_variablesOf hvars hrespects hx, hv]⟩

/-! ## From conjuncts with variables to assertions -/

/-- What is searched are conjuncts of the assertions. -/
theorem exists_of_mem_settled {assertions symbolic : List Term}
    (h : settleGround (conjunctsAll assertions) = .ok symbolic) {c : Term} (hc : c ∈ symbolic) :
    ∃ t ∈ assertions, c ∈ conjuncts t := by
  have hpart := ((settleGround_ok h).1 c hc).1
  rw [conjunctsAll_eq] at hpart
  exact List.mem_flatMap.mp hpart

/-- The conjuncts that were settled have no variables, so none is lost. -/
theorem occurrences_settled {parts symbolic : List Term} (h : settleGround parts = .ok symbolic) :
    symbolic.flatMap Term.occurrences = parts.flatMap Term.occurrences := by
  induction parts generalizing symbolic with
  | nil =>
      cases h
      rfl
  | cons t rest ih =>
      unfold settleGround at h
      split at h
      · rename_i hground
        split at h
        · split at h
          · simp [ih h, occurrences_of_isGround hground]
          · cases h
        · cases h
      · split at h
        · rename_i hrest
          cases h
          simp [ih hrest]
        · cases h

theorem mem_occurrences_settled {assertions symbolic : List Term}
    (h : settleGround (conjunctsAll assertions) = .ok symbolic) (x : Var) :
    x ∈ assertions.flatMap Term.occurrences ↔ x ∈ symbolic.flatMap Term.occurrences := by
  rw [occurrences_settled h, occurrences_conjunctsAll]

/-- The conjuncts that were settled are true, so only the others matter. -/
theorem holds_of_settled {assertions symbolic : List Term}
    (h : settleGround (conjunctsAll assertions) = .ok symbolic) {assignment : Assignment}
    (hholds : ∀ t ∈ symbolic, t.Holds assignment) : ∀ t ∈ assertions, t.Holds assignment := by
  intro t ht
  refine holds_iff_conjuncts.mpr fun c hc => ?_
  have hpart : c ∈ conjunctsAll assertions := by
    rw [conjunctsAll_eq]
    exact List.mem_flatMap.mpr ⟨t, ht, hc⟩
  rcases (settleGround_ok h).2 c hpart with hsymbolic | ⟨-, htrue⟩
  · exact hholds c hsymbolic
  · exact htrue assignment

/-- What the search found gives all variables of the assertions values of their sorts and makes the
assertions true. -/
theorem solves_assertions_of_found {limits : Limits} {assertions symbolic : List Term}
    {found : Assignment} {progress : Progress}
    (hsorts : OneSort (assertions.flatMap Term.occurrences))
    (hsettle : settleGround (conjunctsAll assertions) = .ok symbolic)
    (h : search (Seeds.of limits.width symbolic) ((variablesOf symbolic).map (Slot.of symbolic))
      .empty ⟨limits.nodes, true⟩ = (.found found, progress)) :
    Respects found (assertions.flatMap Term.occurrences) ∧ ∀ t ∈ assertions, t.Holds found := by
  have hmem := mem_occurrences_settled hsettle
  obtain ⟨hrespects, hholds⟩ := solves_of_found
    (fun x hx y hy => hsorts x ((hmem x).mpr hx) y ((hmem y).mpr hy))
    (fun t ht => ((settleGround_ok hsettle).1 t ht).2) h
  exact ⟨fun x hx => hrespects x ((hmem x).mp hx), holds_of_settled hsettle hholds⟩

/-- A model is the answer to the conjuncts with variables. -/
theorem check_eq_sat {limits : Limits} {assertions : List Term} {model : Model}
    (h : check limits assertions = .sat model) :
    ∃ symbolic, settleGround (conjunctsAll assertions) = .ok symbolic ∧
      solve limits symbolic = .sat model := by
  unfold check at h
  dsimp only at h
  split at h
  · cases h
  · cases hsettle : settleGround (conjunctsAll assertions) with
    | error answer =>
        simp only [hsettle] at h
        subst h
        obtain ⟨t, -, -, ⟨-, hanswer⟩ | ⟨-, reason, hanswer⟩⟩ := settleGround_error hsettle
        · cases hanswer
        · cases hanswer
    | ok symbolic =>
        simp only [hsettle] at h
        exact ⟨symbolic, rfl, h⟩

theorem check_of_settled {limits : Limits} {assertions symbolic : List Term}
    (hbool : ∀ t ∈ conjunctsAll assertions, t.sort = .bool)
    (hsettle : settleGround (conjunctsAll assertions) = .ok symbolic) :
    check limits assertions = solve limits symbolic := by
  have hfind : (conjunctsAll assertions).find? (fun t => decide (t.sort ≠ .bool)) = none :=
    List.find?_eq_none.mpr fun t ht => by simp [hbool t ht]
  simp only [check, hfind, hsettle]

theorem sort_of_check_sat {limits : Limits} {assertions : List Term} {model : Model}
    (h : check limits assertions = .sat model) :
    ∀ t ∈ conjunctsAll assertions, t.sort = .bool := by
  unfold check at h
  dsimp only at h
  split at h
  · cases h
  · rename_i hfind
    intro t ht
    simpa using List.find?_eq_none.mp hfind t ht

/-- Which conjuncts are searched does not depend on the limits. -/
theorem check_eq_solve_of_sat {limits : Limits} {assertions : List Term} {model : Model}
    (h : check limits assertions = .sat model) :
    ∃ symbolic, settleGround (conjunctsAll assertions) = .ok symbolic ∧
      solve limits symbolic = .sat model ∧
      ∀ limits', check limits' assertions = solve limits' symbolic := by
  obtain ⟨symbolic, hsettle, hsolve⟩ := check_eq_sat h
  exact ⟨symbolic, hsettle, hsolve, fun _ => check_of_settled (sort_of_check_sat h) hsettle⟩

/-- **A model.**  Where the solver answers with a model, that is a model of the assertions, and it
says nothing about other names. -/
theorem check_sat_spec {limits : Limits} {assertions : List Term} {model : Model}
    (hvars : Consistent (assertions.flatMap Term.occurrences))
    (h : check limits assertions = .sat model) :
    (∀ name, (∀ x ∈ assertions.flatMap Term.occurrences, x.name ≠ name) →
        model.find? name = none) ∧
      ∃ found : Assignment, (∀ t ∈ assertions, t.Holds found) ∧
        ∀ x ∈ assertions.flatMap Term.occurrences, ∃ v, found x.id = some v ∧ v.sort = x.sort ∧
          model.find? x.name = some v := by
  obtain ⟨symbolic, hsettle, hsolve⟩ := check_eq_sat h
  have hsymbolic : ∀ t ∈ symbolic, t.isGround = false :=
    fun t ht => ((settleGround_ok hsettle).1 t ht).2
  simp only [Consistent, mem_occurrences_settled hsettle] at hvars ⊢
  obtain ⟨hnames, found, hholds, hvalues⟩ := solve_sat hvars hsymbolic hsolve
  exact ⟨hnames, found, holds_of_settled hsettle hholds, hvalues⟩

/-- **Satisfiable means satisfied.**  Where the solver answers with a model, the model assigns
exactly the names of the variables of the assertions, each a value of the variable's sort, and
all assertions are true under it. -/
theorem check_sat_sound (limits : Limits) (assertions : List Term) (model : Model)
    (hvars : Consistent (Term.occurrencesAll assertions))
    (h : check limits assertions = .sat model) :
    (∀ name, (model.find? name).isSome ↔
        ∃ x ∈ Term.occurrencesAll assertions, x.name = name) ∧
      (∀ x ∈ Term.occurrencesAll assertions, ∃ v,
        model.find? x.name = some v ∧ v.sort = x.sort) ∧
      ∀ t ∈ assertions, t.Holds (valuation model (Term.occurrencesAll assertions)) := by
  rw [Term.occurrencesAll_eq] at hvars ⊢
  obtain ⟨hnames, found, hholds, hvalues⟩ := check_sat_spec hvars h
  refine ⟨fun name => ⟨fun hsome => ?_, ?_⟩, fun x hx => ?_, fun t ht => ?_⟩
  · by_contra hnone
    rw [hnames name fun x hx hname => hnone ⟨x, hx, hname⟩] at hsome
    cases hsome
  · rintro ⟨x, hx, rfl⟩
    obtain ⟨v, -, -, hmodel⟩ := hvalues x hx
    rw [hmodel]
    rfl
  · obtain ⟨v, -, hsort, hmodel⟩ := hvalues x hx
    exact ⟨v, hmodel, hsort⟩
  · have hsame : t.eval (valuation model (assertions.flatMap Term.occurrences)) = t.eval found := by
      refine Term.eval_congr fun x hx => ?_
      have hmem : x ∈ assertions.flatMap Term.occurrences := List.mem_flatMap.mpr ⟨t, ht, hx⟩
      obtain ⟨v, hv, -, hmodel⟩ := hvalues x hmem
      rw [valuation_of_mem hvars model hmem, hmodel, hv]
    rw [Term.Holds, hsame]
    exact hholds t ht

/-- The answer at `y = x * 3`, `x > 6` and, inside a conjunction, `s` not empty. -/
theorem check_sat_sound_product :
    let x : Var := ⟨0, "x", .int⟩
    let y : Var := ⟨1, "y", .int⟩
    let s : Var := ⟨2, "s", .str⟩
    let assertions : List Term :=
      [.cmp .eq (.var y) (.arith .mul (.var x) (.const (.int 3))),
        .and [.cmp .gt (.var x) (.const (.int 6)), .cmp .ne (.var s) (.const (.str ""))]]
    let model : Model :=
      ((NameMap.empty.insert "x" (.int 7)).insert "y" (.int 21)).insert "s" (.str "s0")
    check ⟨1000, 2⟩ assertions = .sat model ∧
      (∀ name, (model.find? name).isSome ↔
        ∃ x ∈ Term.occurrencesAll assertions, x.name = name) ∧
      (∀ x ∈ Term.occurrencesAll assertions, ∃ v,
        model.find? x.name = some v ∧ v.sort = x.sort) ∧
      ∀ t ∈ assertions, t.Holds (valuation model (Term.occurrencesAll assertions)) := by
  intro x y s assertions model
  have hcheck : check ⟨1000, 2⟩ assertions = .sat model := rfl
  have hvars : Consistent (Term.occurrencesAll assertions) := by
    unfold Consistent
    decide
  exact ⟨hcheck, check_sat_sound ⟨1000, 2⟩ assertions model hvars hcheck⟩

end BranchWitness.Solver
