import BranchWitness.Proofs.Solver.Completeness
import BranchWitness.Proofs.Solver.Descent

/-!
# Models are the least solutions

Where integers are compared with constants only, the model that the solver gives is the least
solution there is: least at the first variable, then at the second, and so on.  An integer comes
before those that are farther from zero, and a negative one before its opposite; `true` comes before
`false` (`Earlier`).  This is the order among *all* integers, of which only a few are tried.

## Strategy

* **A solution can be moved into the tree.**  If a solution extends the values so far, then for its
  value at the next variable some value is tried that is as good and comes no later
  (`exists_step`), and by induction there is a way down (`exists_descent`).
* **The values are tried in their order** (`pairwise_domain`).  For the integers this is so because
  the window is written down in its order and everything else is inserted at its place.
* **The first solution is the least** (`least_of_found`).  At the first variable where another
  solution differs, a value in front of the one that is found was exhausted, so by the first point
  no solution has it.

The least solution is unique, and nothing in it depends on the window.
-/

namespace BranchWitness

/-- Connectives over truth values and over comparisons of an integer variable with a constant. -/
inductive Term.Ranged : Term → Prop
  | var {x : Var} (hsort : x.sort = .bool) : Ranged (.var x)
  | const (b : Bool) : Ranged (.const (.bool b))
  | cmpVar {op : CmpOp} {x : Var} {n : Int64} (hsort : x.sort = .int) :
      Ranged (.cmp op (.var x) (.const (.int n)))
  | cmpConst {op : CmpOp} {x : Var} {n : Int64} (hsort : x.sort = .int) :
      Ranged (.cmp op (.const (.int n)) (.var x))
  | not {t : Term} (h : Ranged t) : Ranged (.not t)
  | and {ts : List Term} (h : ∀ t ∈ ts, Ranged t) : Ranged (.and ts)
  | or {ts : List Term} (h : ∀ t ∈ ts, Ranged t) : Ranged (.or ts)

namespace Term.Ranged

theorem elementary {t : Term} (h : t.Ranged) : t.Elementary := by
  induction h with
  | var hsort => exact .var hsort
  | const b => exact .const b
  | cmpVar hsort => exact .cmpVar hsort.symm (by simp [hsort])
  | cmpConst hsort => exact .cmpConst hsort.symm (by simp [hsort])
  | not _ ih => exact .not ih
  | and _ ih => exact .and ih
  | or _ ih => exact .or ih

/-- There are no texts. -/
theorem sort_ne_str {t : Term} (h : t.Ranged) : ∀ x ∈ t.occurrences, x.sort ≠ .str := by
  induction h with
  | var hsort => simp [Term.occurrences, hsort]
  | const b => simp [Term.occurrences]
  | cmpVar hsort => simp [Term.occurrences, hsort]
  | cmpConst hsort => simp [Term.occurrences, hsort]
  | not _ ih =>
      rw [Term.occurrences]
      exact ih
  | and _ ih | or _ ih =>
      rw [Term.occurrences, Term.occurrencesAll_eq]
      intro x hx
      obtain ⟨t, ht, hxt⟩ := List.mem_flatMap.mp hx
      exact ih t ht x hxt

end Term.Ranged

namespace Solver

/-! ## The order of solutions -/

theorem Earlier.trans {u v w : Value} (h : Earlier u v) (h' : Earlier v w) : Earlier u w := by
  cases u <;> cases v <;> cases w <;> simp only [Earlier] at h h' ⊢
  · exact ⟨h.1, h'.2⟩
  · omega

theorem Earlier.asymm {v w : Value} (h : Earlier v w) : ¬ Earlier w v := by
  cases v <;> cases w <;> simp only [Earlier] at h ⊢
  · simp [h]
  · omega

/-- The first assignment comes before the second: at the first of the variables where they differ,
its value comes before the other one. -/
def Precedes (vars : List Var) (first second : Assignment) : Prop :=
  ∃ x ∈ vars, (∀ y ∈ vars, y.id < x.id → first y.id = second y.id) ∧
    ∃ v w, first x.id = some v ∧ second x.id = some w ∧ Earlier v w

/-- Values of the right sorts for the variables of the assertions that make all of them true. -/
def Solves (assignment : Assignment) (assertions : List Term) : Prop :=
  Respects assignment (Term.occurrencesAll assertions) ∧ ∀ t ∈ assertions, t.Holds assignment

/-- A solution that comes before all those that are not the same on the variables of the
assertions. -/
structure Least (assertions : List Term) (least : Assignment) : Prop where
  solves : Solves least assertions
  first : ∀ other, Solves other assertions →
    (∀ x ∈ Term.occurrencesAll assertions, least x.id = other x.id) ∨
      Precedes (Term.occurrencesAll assertions) least other

theorem Precedes.asymm {vars : List Var} {first second : Assignment}
    (h : Precedes vars first second) : ¬ Precedes vars second first := by
  rintro ⟨y, hy, hbelow', v', w', hv', hw', hearlier'⟩
  obtain ⟨x, hx, hbelow, v, w, hv, hw, hearlier⟩ := h
  have hself : ∀ u, ¬ Earlier u u := fun u hu => hu.asymm hu
  rcases Nat.lt_trichotomy x.id y.id with hlt | heq | hgt
  · have hsame := hbelow' x hx hlt
    rw [hv, hw, Option.some_inj] at hsame
    exact hself v (hsame ▸ hearlier)
  · rw [← heq, hw, Option.some_inj] at hv'
    rw [← heq, hv, Option.some_inj] at hw'
    subst hv' hw'
    exact hearlier.asymm hearlier'
  · have hsame := hbelow y hy hgt
    rw [hv', hw', Option.some_inj] at hsame
    exact hself v' (hsame ▸ hearlier')

/-- There is one least solution. -/
theorem Least.unique {assertions : List Term} {least other : Assignment}
    (h : Least assertions least) (hother : Least assertions other) :
    ∀ x ∈ Term.occurrencesAll assertions, least x.id = other x.id := by
  rcases h.first other hother.solves with hsame | hprecedes
  · exact hsame
  · rcases hother.first least h.solves with hsame | hprecedes'
    · exact fun x hx => (hsame x hx).symm
    · exact absurd hprecedes' hprecedes.asymm

/-- Which of the variables with one number are listed does not matter. -/
theorem Precedes.of_ids {vars vars' : List Var} {first second : Assignment}
    (hsub : ∀ x ∈ vars, ∃ y ∈ vars', y.id = x.id) (hsup : ∀ y ∈ vars', ∃ x ∈ vars, x.id = y.id)
    (h : Precedes vars first second) : Precedes vars' first second := by
  obtain ⟨x, hx, hbelow, hvalues⟩ := h
  obtain ⟨y, hy, hid⟩ := hsub x hx
  refine ⟨y, hy, fun z hz hlt => ?_, hid ▸ hvalues⟩
  obtain ⟨u, hu, huid⟩ := hsup z hz
  exact huid ▸ hbelow u hu (by omega)

/-! ## Values are tried in their order -/

theorem pairwise_window {width : Nat} (h : (width : Int) ≤ Int64.maxValue.toInt) :
    (window width).Pairwise fun first second => nearerZero first second = true := by
  rw [Int64.toInt_maxValue] at h
  -- inside the range of the integers the window is what it is written as
  have hvalues : ∀ k < width, ∀ n ∈ [Int64.ofInt (-((k : Int) + 1)), Int64.ofInt ((k : Int) + 1)],
      n.toInt = -((k : Int) + 1) ∨ n.toInt = (k : Int) + 1 := by
    intro k hk n hn
    simp only [List.mem_cons, List.not_mem_nil, or_false] at hn
    rcases hn with rfl | rfl
    · exact .inl (Int64.toInt_ofInt_of_le (by omega) (by omega))
    · exact .inr (Int64.toInt_ofInt_of_le (by omega) (by omega))
  have hnearer : ∀ {m n : Int64}, m.toInt.natAbs < n.toInt.natAbs → nearerZero m n = true := by
    intro m n hlt
    simp [nearerZero, hlt]
  refine List.pairwise_cons.mpr ⟨fun n hn => ?_, List.pairwise_flatMap.mpr ⟨fun k hk => ?_, ?_⟩⟩
  · -- zero is nearest to zero
    obtain ⟨k, hk, hn⟩ := List.mem_flatMap.mp hn
    have hvalue := hvalues k (List.mem_range.mp hk) n hn
    refine hnearer ?_
    rw [Int64.toInt_zero]
    omega
  · -- of two at one distance the negative one comes first
    have hk := List.mem_range.mp hk
    have hneg : (Int64.ofInt (-((k : Int) + 1))).toInt = -((k : Int) + 1) :=
      Int64.toInt_ofInt_of_le (by omega) (by omega)
    have hpos : (Int64.ofInt ((k : Int) + 1)).toInt = (k : Int) + 1 :=
      Int64.toInt_ofInt_of_le (by omega) (by omega)
    refine List.pairwise_pair.mpr ?_
    rw [← earlier_int_iff, Earlier, hneg, hpos]
    omega
  · refine List.Pairwise.imp_of_mem ?_ List.pairwise_lt_range
    intro j k hj hk hlt m hm n hn
    have hfirst := hvalues j (List.mem_range.mp hj) m hm
    have hsecond := hvalues k (List.mem_range.mp hk) n hn
    exact hnearer (by omega)

theorem pairwise_withNeighbours (ints : List Int64) {known : List Int64}
    (h : known.Pairwise fun first second => nearerZero first second = true) :
    (withNeighbours ints known).Pairwise fun first second => nearerZero first second = true := by
  have htrans : ∀ a b c, nearerZero a b = true → nearerZero b c = true → nearerZero a c = true :=
    fun _ _ _ => ranks_nearerZero.trans
  exact pairwise_insertAllAscending htrans _ h

theorem pairwise_map_int {ints : List Int64}
    (h : ints.Pairwise fun first second => nearerZero first second = true) :
    (ints.map Value.int).Pairwise Earlier :=
  List.pairwise_map.mpr (h.imp earlier_int_iff.mpr)

theorem pairwise_intDomain {seeds : Seeds}
    (hseeds : seeds.ints.Pairwise fun first second => nearerZero first second = true)
    (slot : Slot) (assignment : Assignment) :
    (intDomain seeds slot assignment).values.Pairwise Earlier := by
  unfold intDomain
  split
  · exact pairwise_map_int hseeds
  · exact pairwise_map_int (pairwise_withNeighbours _ hseeds)

/-- The values of a variable that is no text are tried in their order. -/
theorem pairwise_domain {seeds : Seeds}
    (hseeds : seeds.ints.Pairwise fun first second => nearerZero first second = true)
    {slot : Slot} (hsort : slot.target.sort ≠ .str) (assignment : Assignment) :
    (domain seeds slot assignment).values.Pairwise Earlier := by
  unfold domain
  split
  · exact List.pairwise_singleton _ _
  · exact .nil
  · split
    · exact List.pairwise_pair.mpr ⟨rfl, rfl⟩
    · exact pairwise_intDomain hseeds slot assignment
    · rename_i htext
      exact absurd htext hsort

/-! ## A solution can be moved into the tree -/

section Tree

variable {seeds : Seeds} {conjuncts : List Term} {x : Var} {vars : List Var}
  {assignment larger : Assignment}

/-- A solution above the point that the search has reached: it extends the values so far, has values
of the right sorts for the variables to come and makes the conjuncts true. -/
structure Above (conjuncts : List Term) (vars : List Var) (assignment larger : Assignment) :
    Prop where
  keeps : larger.Extends assignment
  respects : Respects larger vars
  holds : ∀ t ∈ conjuncts, t.Holds larger

theorem holds_of_alike {first second : Assignment} {t : Term}
    (h : Alike (t.eval first) (t.eval second)) (hholds : t.Holds first) : t.Holds second := by
  rw [Term.Holds] at hholds ⊢
  obtain heq | ⟨v, w, hv, -, hsort, -⟩ := h
  · rw [← heq, hholds]
  · rw [hholds, Meaning.known.injEq] at hv
    exact absurd (hv ▸ rfl) hsort

/-- **One step.**  The value of a solution at the next variable can be traded for one that is tried,
comes no later and is possible, and the solution stays one. -/
theorem exists_step (hzero : (0 : Int64) ∈ seeds.ints)
    (hdistinct : (x :: vars).Pairwise fun first second => first.id ≠ second.id)
    (hcomplete : (domain seeds (Slot.of conjuncts x) assignment).complete = true)
    (h : Above conjuncts (x :: vars) assignment larger) :
    ∃ v, larger x.id = some v ∧ ∃ w ∈ (domain seeds (Slot.of conjuncts x) assignment).values,
      (v.sort = .str ∨ w = v ∨ Earlier w v) ∧
        standing (assignment.set x.id w) (Slot.of conjuncts x).conjuncts = .possible ∧
        Above conjuncts vars (assignment.set x.id w) (larger.set x.id w) := by
  obtain ⟨v, hv, hsort⟩ := h.respects x List.mem_cons_self
  refine ⟨v, hv, ?_⟩
  rcases exists_candidate hzero hcomplete h.keeps hv hsort with
    ⟨t, ht, hrefuted⟩ | ⟨w, hw, halike, hearlier⟩
  · exact absurd (h.holds t ht) hrefuted.not_holds
  have hextends : (larger.set x.id w).Extends (assignment.set x.id w) := h.keeps.set x.id w
  have hholds : ∀ t ∈ conjuncts, t.Holds (larger.set x.id w) :=
    fun t ht => holds_of_alike (halike t ht) (h.holds t ht)
  refine ⟨w, hw, hearlier, standing_possible_iff.mpr fun t ht => ?_, hextends, fun y hy => ?_,
    hholds⟩
  · -- what is settled already is as it is in the solution
    by_cases hunknown : t.eval (assignment.set x.id w) = .unknown
    · exact .inl hunknown
    · refine .inr ?_
      rw [Term.Holds, ← Term.eval_of_extends hextends hunknown]
      exact hholds t (mem_conjuncts_of.mp ht).1
  · obtain ⟨u, hu, husort⟩ := h.respects y (List.mem_cons_of_mem _ hy)
    have hne : y.id ≠ x.id := ((List.pairwise_cons.mp hdistinct).1 y hy).symm
    exact ⟨u, by rw [Assignment.set, if_neg hne, hu], husort⟩

/-- Where there is a solution above, there is a way down. -/
theorem exists_descent (hzero : (0 : Int64) ∈ seeds.ints)
    (hdistinct : vars.Pairwise fun first second => first.id ≠ second.id)
    (hcomplete : ∀ x ∈ vars, ∀ assignment,
      (domain seeds (Slot.of conjuncts x) assignment).complete = true)
    (h : Above conjuncts vars assignment larger) :
    ∃ goal, Descent seeds (vars.map (Slot.of conjuncts)) assignment goal := by
  induction vars generalizing assignment larger with
  | nil => exact ⟨assignment, .done assignment⟩
  | cons x rest ih =>
      obtain ⟨hx, hrest⟩ := List.forall_mem_cons.mp hcomplete
      obtain ⟨-, -, w, hw, -, hpossible, habove⟩ :=
        exists_step hzero hdistinct (hx assignment) h
      obtain ⟨goal, hgoal⟩ := ih (List.pairwise_cons.mp hdistinct).2 hrest habove
      exact ⟨goal, .step hw hpossible hgoal⟩

end Tree

/-! ## The first solution is the least -/

theorem Precedes.cons {x : Var} {vars : List Var} {first second : Assignment}
    (hsame : first x.id = second x.id) (h : Precedes vars first second) :
    Precedes (x :: vars) first second := by
  obtain ⟨y, hy, hbelow, hvalues⟩ := h
  exact ⟨y, List.mem_cons_of_mem _ hy,
    List.forall_mem_cons.mpr ⟨fun _ => hsame, hbelow⟩, hvalues⟩

/-- A difference at the first variable decides. -/
theorem Precedes.head {x : Var} {vars : List Var} {first second : Assignment} {v w : Value}
    (hascending : (x :: vars).Pairwise fun first second => first.id < second.id)
    (hv : first x.id = some v) (hw : second x.id = some w) (h : Earlier v w) :
    Precedes (x :: vars) first second := by
  refine ⟨x, List.mem_cons_self, List.forall_mem_cons.mpr ⟨fun hlt => ?_, fun y hy hlt => ?_⟩,
    v, w, hv, hw, h⟩
  · exact absurd hlt (Nat.lt_irrefl _)
  · exact absurd hlt (Nat.lt_asymm ((List.pairwise_cons.mp hascending).1 y hy))

/-- **The first solution is the least.**  Every solution above the start is the one that is found,
as far as the variables are concerned, or comes behind it. -/
theorem least_of_found {seeds : Seeds} (hzero : (0 : Int64) ∈ seeds.ints)
    (hseeds : seeds.ints.Pairwise fun first second => nearerZero first second = true)
    {conjuncts : List Term} {vars : List Var}
    (hascending : vars.Pairwise fun first second => first.id < second.id)
    (hsorts : ∀ x ∈ vars, x.sort ≠ .str)
    (hcomplete : ∀ x ∈ vars, ∀ assignment,
      (domain seeds (Slot.of conjuncts x) assignment).complete = true)
    {assignment found other : Assignment} {before after : Progress}
    (h : search seeds (vars.map (Slot.of conjuncts)) assignment before = (.found found, after))
    (hother : Above conjuncts vars assignment other) :
    (∀ x ∈ vars, found x.id = other x.id) ∨ Precedes vars found other := by
  induction vars generalizing assignment before after with
  | nil => exact .inl (by simp)
  | cons x rest ih =>
      have hdistinct := hascending.imp Nat.ne_of_lt
      obtain ⟨hx, hrest⟩ := List.pairwise_cons.mp hascending
      obtain ⟨hsort, hsorts⟩ := List.forall_mem_cons.mp hsorts
      obtain ⟨hnow, hlater⟩ := List.forall_mem_cons.mp hcomplete
      obtain ⟨u, hu, w, hw, hearlier, hpossible, habove⟩ :=
        exists_step hzero hdistinct (hnow assignment) hother
      rw [List.map_cons, search_cons] at h
      obtain ⟨front, v, back, hvalues, hfront, start, stop, hattempt⟩ := tryValues_found h
      obtain ⟨-, hsearch⟩ := search_of_attempt hattempt
      have hfound : found x.id = some v := by
        rw [(found_spec hdistinct.of_cons hsearch).2.1 x.id fun y hy => Nat.ne_of_gt (hx y hy)]
        simp [Assignment.set]
      have husort : u.sort ≠ .str := by
        obtain ⟨u', hu', husort⟩ := hother.respects x List.mem_cons_self
        rw [hu, Option.some_inj] at hu'
        rwa [hu', husort]
      have hearlier := hearlier.resolve_left husort
      have horder : (domain seeds (Slot.of conjuncts x) assignment).values.Pairwise Earlier :=
        pairwise_domain hseeds hsort assignment
      rw [hvalues] at hw horder
      obtain ⟨-, horder, -⟩ := List.pairwise_append.mp horder
      rcases List.mem_append.mp hw with hskipped | hw
      · -- a value in front of the one that is found belongs to no solution
        obtain ⟨start, stop, hexhausted⟩ := hfront w hskipped
        rw [attempt_of_possible hpossible] at hexhausted
        obtain ⟨goal, hgoal⟩ := exists_descent hzero hdistinct.of_cons hlater habove
        exact absurd hexhausted (hgoal.ne_exhausted start stop)
      rcases List.mem_cons.mp hw with rfl | hbehind
      · rcases hearlier with rfl | hless
        · -- the same value, so the later variables decide
          have hsame : found x.id = other x.id := by rw [hfound, hu]
          rw [Assignment.set_self hu] at habove
          rcases ih hrest hsorts hlater hsearch habove with hagree | hprecedes
          · exact .inl (List.forall_mem_cons.mpr ⟨hsame, hagree⟩)
          · exact .inr (hprecedes.cons hsame)
        · exact .inr (.head hascending hfound hu hless)
      · have hless : Earlier v w := (List.pairwise_cons.mp horder).1 w hbehind
        refine .inr (.head hascending hfound hu ?_)
        rcases hearlier with rfl | hearlier
        · exact hless
        · exact hless.trans hearlier

/-! ## Checks -/

/-- The conjuncts without variables do not count among the variables. -/
theorem variablesOf_settled {assertions symbolic : List Term}
    (h : settleGround (conjunctsAll assertions) = .ok symbolic) :
    variablesOf symbolic = variablesOf assertions := by
  rw [variablesOf, variablesOf, Term.occurrencesAll_eq, Term.occurrencesAll_eq,
    occurrences_settled h, occurrences_conjunctsAll]

theorem modelOf_congr {vars : List Var} {first second : Assignment}
    (h : ∀ x ∈ vars, first x.id = second x.id) : modelOf vars first = modelOf vars second := by
  rw [modelOf_eq_foldl, modelOf_eq_foldl]
  generalize NameMap.empty = model
  induction vars generalizing model with
  | nil => rfl
  | cons x rest ih =>
      obtain ⟨hx, hrest⟩ := List.forall_mem_cons.mp h
      rw [List.foldl_cons, List.foldl_cons, addValue, addValue, hx]
      exact ih hrest _

section Settled

variable {assertions symbolic : List Term}

theorem elementary_settled (hsettle : settleGround (conjunctsAll assertions) = .ok symbolic)
    (hranged : ∀ t ∈ assertions, t.Ranged) : ∀ t ∈ symbolic, t.Elementary := by
  intro c hc
  obtain ⟨t, ht, hct⟩ := exists_of_mem_settled hsettle hc
  exact (hranged t ht).elementary.of_mem_conjuncts c hct

/-- The search goes through complete domains only. -/
theorem complete_settled (hsettle : settleGround (conjunctsAll assertions) = .ok symbolic)
    (hranged : ∀ t ∈ assertions, t.Ranged) (hsorts : OneSort (assertions.flatMap Term.occurrences))
    (seeds : Seeds) : ∀ x ∈ variablesOf symbolic, ∀ assignment,
      (domain seeds (Slot.of symbolic x) assignment).complete = true := by
  have hmem := mem_occurrences_settled hsettle
  intro x hx assignment
  refine complete_domain seeds (elementary_settled hsettle hranged) fun t ht y hy hid => ?_
  have hx := mem_occurrences_of_mem_variablesOf hx
  have hy : y ∈ symbolic.flatMap Term.occurrences := List.mem_flatMap.mpr ⟨t, ht, hy⟩
  exact hsorts y ((hmem y).mpr hy) x ((hmem x).mpr hx) hid

/-- A solution of the assertions is one above the start of the search. -/
theorem Solves.above (hsettle : settleGround (conjunctsAll assertions) = .ok symbolic)
    {other : Assignment} (h : Solves other assertions) :
    Above symbolic (variablesOf symbolic) .empty other := by
  obtain ⟨hrespects, hholds⟩ := h
  rw [Term.occurrencesAll_eq] at hrespects
  refine ⟨?_, fun x hx => ?_, fun c hc => ?_⟩
  · intro _ _ hnone
    cases hnone
  · exact hrespects x
      ((mem_occurrences_settled hsettle x).mpr (mem_occurrences_of_mem_variablesOf hx))
  · obtain ⟨t, ht, hct⟩ := exists_of_mem_settled hsettle hc
    exact holds_iff_conjuncts.mp (hholds t ht) c hct

/-- The model of ranged assertions is that of a least solution. -/
theorem exists_least_of_sat {nodes width : Nat} (hwidth : (width : Int) ≤ Int64.maxValue.toInt)
    {model : Model} (hranged : ∀ t ∈ assertions, t.Ranged)
    (hsorts : OneSort (Term.occurrencesAll assertions))
    (h : check ⟨nodes, width⟩ assertions = .sat model) :
    ∃ least, Least assertions least ∧ model = modelOf (variablesOf assertions) least := by
  obtain ⟨symbolic, hsettle, hsolve⟩ := check_eq_sat h
  obtain ⟨found, progress, hsearch, rfl⟩ := exists_found_of_solve hsolve
  rw [Term.occurrencesAll_eq] at hsorts
  have hmem := mem_occurrences_settled hsettle
  have hvars : ∀ x ∈ variablesOf symbolic, x ∈ assertions.flatMap Term.occurrences :=
    fun x hx => (hmem x).mpr (mem_occurrences_of_mem_variablesOf hx)
  have hids : ∀ y ∈ assertions.flatMap Term.occurrences,
      ∃ x ∈ variablesOf symbolic, x.id = y.id :=
    fun y hy => exists_mem_variablesOf ((hmem y).mp hy)
  have htexts : ∀ x ∈ variablesOf symbolic, x.sort ≠ .str := by
    intro x hx
    obtain ⟨t, ht, hxt⟩ := List.mem_flatMap.mp (hvars x hx)
    exact (hranged t ht).sort_ne_str x hxt
  have hsolves : Solves found assertions := by
    rw [Solves, Term.occurrencesAll_eq]
    exact solves_assertions_of_found hsorts hsettle hsearch
  rw [← variablesOf_settled hsettle]
  refine ⟨found, ⟨hsolves, fun other hother => ?_⟩, rfl⟩
  rw [Term.occurrencesAll_eq]
  rcases least_of_found (zero_mem_seeds width symbolic)
      (pairwise_withNeighbours _ (pairwise_window hwidth)) (ascending_variablesOf symbolic)
      htexts (complete_settled hsettle hranged hsorts _) hsearch (hother.above hsettle)
    with hsame | hprecedes
  · refine .inl fun y hy => ?_
    obtain ⟨x, hx, hid⟩ := hids y hy
    exact hid ▸ hsame x hx
  · exact .inr (hprecedes.of_ids (fun x hx => ⟨x, hvars x hx, rfl⟩) hids)

end Settled

/-- **Models are the least solutions.**  Of assertions that compare integers with constants only,
the model that the solver gives is the least solution among all values of the right sorts.  So it
does not depend on the window: with any other one, and any other budget, the solver gives this
model or runs out of its budget. -/
theorem check_sat_least (nodes : Nat) (intWindow : Int64) (assertions : List Term) (model : Model)
    (hranged : ∀ t ∈ assertions, t.Ranged) (hsorts : OneSort (Term.occurrencesAll assertions))
    (h : check ⟨nodes, intWindow.toInt.toNat⟩ assertions = .sat model) :
    ∃ least, Least assertions least ∧ model = modelOf (variablesOf assertions) least ∧
      (Consistent (Term.occurrencesAll assertions) →
        ∀ x ∈ Term.occurrencesAll assertions, model.find? x.name = least x.id) ∧
      ∀ (nodes' : Nat) (intWindow' : Int64),
        check ⟨nodes', intWindow'.toInt.toNat⟩ assertions = .timeout ∨
          check ⟨nodes', intWindow'.toInt.toNat⟩ assertions = .sat model := by
  have hwidth : ∀ n : Int64, (n.toInt.toNat : Int) ≤ Int64.maxValue.toInt := by
    intro n
    have hle := Int64.toInt_le n
    rw [Int64.toInt_maxValue] at hle ⊢
    omega
  obtain ⟨least, hleast, rfl⟩ := exists_least_of_sat (hwidth intWindow) hranged hsorts h
  refine ⟨least, hleast, rfl, fun hvars x hx => ?_, fun nodes' intWindow' => ?_⟩
  · have hrespects := hleast.solves.1
    rw [Term.occurrencesAll_eq] at hvars hrespects hx
    exact find?_modelOf_variablesOf hvars hrespects hx
  · cases hother : check ⟨nodes', intWindow'.toInt.toNat⟩ assertions with
    | timeout => exact .inl rfl
    | unsat => exact absurd ⟨least, hleast.solves⟩ (not_satisfiable_of_unsat hother)
    | unknown reason =>
        rw [Term.occurrencesAll_eq] at hsorts
        exact absurd hother (check_ne_unknown _ (fun t ht => (hranged t ht).elementary) hsorts _)
    | sat model' =>
        obtain ⟨least', hleast', rfl⟩ :=
          exists_least_of_sat (hwidth intWindow') hranged hsorts hother
        refine .inr (congrArg Answer.sat (modelOf_congr fun x hx => ?_))
        refine hleast'.unique hleast x ?_
        rw [Term.occurrencesAll_eq]
        exact mem_occurrences_of_mem_variablesOf hx

/-- Below `-5` or above `3`, and negative if `b` is true.  The nearest to zero is `4`, which leaves
`b` false; that comes before `-6`, with which `b` could be true. -/
theorem check_sat_least_disjunctions :
    let x : Var := ⟨0, "x", .int⟩
    let b : Var := ⟨1, "b", .bool⟩
    let assertions : List Term :=
      [.or [.cmp .lt (.var x) (.const (.int (-5))), .cmp .lt (.const (.int 3)) (.var x)],
        .or [.not (.var b), .cmp .lt (.var x) (.const (.int 0))]]
    let model : Model := (NameMap.empty.insert "x" (.int 4)).insert "b" (.bool false)
    check ⟨100, (2 : Int64).toInt.toNat⟩ assertions = .sat model ∧
      ∃ least, Least assertions least ∧ least 0 = some (.int 4) ∧ least 1 = some (.bool false) ∧
        ∀ (nodes' : Nat) (intWindow' : Int64),
          check ⟨nodes', intWindow'.toInt.toNat⟩ assertions = .timeout ∨
            check ⟨nodes', intWindow'.toInt.toNat⟩ assertions = .sat model := by
  intro x b assertions model
  have hwidth : (2 : Int64).toInt.toNat = 2 := by decide
  have hcheck : check ⟨100, (2 : Int64).toInt.toNat⟩ assertions = .sat model := by
    simp only [hwidth, assertions, model, x, b]
    rfl
  have hranged : ∀ t ∈ assertions, t.Ranged := by
    refine List.forall_mem_cons.mpr ⟨.or ?_, List.forall_mem_singleton.mpr (.or ?_)⟩
    · exact List.forall_mem_cons.mpr ⟨.cmpVar rfl, List.forall_mem_singleton.mpr (.cmpConst rfl)⟩
    · exact List.forall_mem_cons.mpr
        ⟨.not (.var rfl), List.forall_mem_singleton.mpr (.cmpVar rfl)⟩
  have hvars : Consistent (Term.occurrencesAll assertions) := by
    unfold Consistent
    decide
  obtain ⟨least, hleast, -, hvalues, hwindows⟩ :=
    check_sat_least 100 2 assertions model hranged hvars.oneSort hcheck
  have hx := hvalues hvars x (by decide)
  have hb := hvalues hvars b (by decide)
  exact ⟨hcheck, least, hleast, hx.symm, hb.symm, hwindows⟩

end Solver

end BranchWitness
