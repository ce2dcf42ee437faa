import BranchWitness.Proofs.Solver.Completeness

/-!
# The arrangement of assertions

The same conjuncts can be handed to the solver in many ways: in another order, grouped into other
conjunctions, or repeated.  Its search is then another one, because the first usable equation
forces a value and the first conjunct that is not true ends the look at a value.  Even the reason
for which no model is given can change.  The model cannot (`check_sat_arrangement`).

## Strategy

Compare two searches over the same set of conjuncts, at the same point.

* Everything that the search reads off the conjuncts as a set is the same: the variables, the
  seeds, whether some equation is usable, the boundaries, and whether a value is possible.  The
  domains are ascending lists, so they are equal as soon as they have the same elements
  (`insertAllAscending_congr`).
* What is read off the order is the value that the first usable equation forces.  If the two
  searches are forced to different values, then no solution extends the point at all: a solution
  makes every usable equation true and so gives the variable the value that this equation forces
  (`Usable.eq_known`).  Here the terms have to be well-sorted, because an equation between a
  truth value and a number can be true and still force nothing.

So at every point either the domains are equal, and the searches go on side by side, or neither of
them finds anything (`search_agree`).
-/

namespace BranchWitness.Solver

/-! ## The orders of trying -/

theorem ranks_earlierText : Ranks earlierText where
  asymm {a b} h := by
    simp only [earlierText, decide_eq_true_eq, decide_eq_false_iff_not] at h ⊢
    exact String.lt_asymm h
  split {a b} h c := by
    simp only [earlierText, decide_eq_true_eq] at h ⊢
    by_cases hac : a < c
    · exact .inl hac
    · by_cases hca : c < a
      · exact .inr (String.lt_trans hca h)
      · exact .inr (name_eq_of_not_lt hac hca ▸ h)

theorem withNeighbours_congr {ints ints' : List Int64} (hsame : ∀ n, n ∈ ints ↔ n ∈ ints')
    (known : List Int64) : withNeighbours ints known = withNeighbours ints' known := by
  refine insertAllAscending_congr ranks_nearerZero (fun a _ b _ => eq_of_nearerZero_tie a b)
    (fun n => ?_) known
  simp only [List.mem_flatMap, hsame]

theorem withTexts_congr {texts texts' : List String} (hsame : ∀ s, s ∈ texts ↔ s ∈ texts')
    (known : List String) : withTexts texts known = withTexts texts' known :=
  insertAllAscending_congr ranks_earlierText (fun a _ b _ => eq_of_earlierText_tie a b) hsame known

/-! ## What is read off the conjuncts as a set -/

@[simp] theorem constantsAll_eq (ts : List Term) : constantsAll ts = ts.flatMap constants := by
  induction ts with
  | nil => simp [constantsAll]
  | cons t ts ih => simp [constantsAll, ih]

section Sets

variable {first second : List Term} {target : Var} {assignment : Assignment}

theorem mem_flatMap_of_same (hsame : ∀ t, t ∈ first ↔ t ∈ second) {β : Type}
    (f : Term → List β) (y : β) : y ∈ first.flatMap f ↔ y ∈ second.flatMap f := by
  simp only [List.mem_flatMap, hsame]

theorem seeds_of_same (hsame : ∀ t, t ∈ first ↔ t ∈ second) (width : Nat) :
    Seeds.of width first = Seeds.of width second := by
  have hvalues : ∀ v, v ∈ constantsAll first ↔ v ∈ constantsAll second := by
    simpa only [constantsAll_eq] using mem_flatMap_of_same hsame constants
  have hints : ∀ n, n ∈ intsOf (constantsAll first) ↔ n ∈ intsOf (constantsAll second) := by
    simp only [intsOf, List.mem_filterMap, hvalues, implies_true]
  have htexts : ∀ s, s ∈ textsOf (constantsAll first) ↔ s ∈ textsOf (constantsAll second) := by
    simp only [textsOf, List.mem_filterMap, hvalues, implies_true]
  simp only [Seeds.of, withNeighbours_congr hints, withTexts_congr htexts]

/-- One variable for each number makes the list of variables a matter of the set of conjuncts. -/
theorem variablesOf_of_same (hsame : ∀ t, t ∈ first ↔ t ∈ second)
    (hvars : ∀ x ∈ first.flatMap Term.occurrences, ∀ y ∈ first.flatMap Term.occurrences,
      x.id = y.id → x = y) : variablesOf first = variablesOf second := by
  unfold variablesOf
  rw [Term.occurrencesAll_eq, Term.occurrencesAll_eq]
  refine insertAllAscending_congr ranks_before (fun x hx y hy hxy hyx => hvars x hx y hy ?_)
    (mem_flatMap_of_same hsame Term.occurrences) []
  simp only [Var.before, decide_eq_false_iff_not] at hxy hyx
  omega

theorem mem_conjuncts_of_same (hsame : ∀ t, t ∈ first ↔ t ∈ second) (target : Var) (t : Term) :
    t ∈ (Slot.of first target).conjuncts ↔ t ∈ (Slot.of second target).conjuncts := by
  rw [mem_conjuncts_of, mem_conjuncts_of, hsame]

theorem mem_atoms_of_same (hsame : ∀ t, t ∈ first ↔ t ∈ second) (target : Var) (atom : Term) :
    atom ∈ (Slot.of first target).atoms ↔ atom ∈ (Slot.of second target).atoms := by
  simp only [Slot.of, atomsAll_eq, List.mem_filter, List.mem_flatMap, hsame]

/-- If the variable has boundaries in one arrangement, it has the same ones in the other. -/
theorem boundaries_of_same (hsame : ∀ t, t ∈ first ↔ t ∈ second) {values : List Value}
    (h : boundaries (Slot.of first target) assignment = some values) :
    ∃ values', boundaries (Slot.of second target) assignment = some values' ∧
      ∀ v, v ∈ values ↔ v ∈ values' := by
  have hatoms := mem_atoms_of_same hsame target
  obtain ⟨values', hvalues'⟩ : ∃ values',
      boundaries (Slot.of second target) assignment = some values' := by
    refine exists_mapM_eq_some fun atom hatom => ?_
    obtain ⟨v, -, hv⟩ := exists_mem_of_mapM h ((hatoms atom).mpr hatom)
    exact ⟨v, hv⟩
  refine ⟨values', hvalues', fun v => ?_⟩
  rw [mem_iff_of_mapM h, mem_iff_of_mapM hvalues']
  simp only [hatoms, Slot.target_of]

/-- The domain of a variable is a matter of the set of conjuncts, but for the value that is
forced. -/
theorem domain_of_same (hsame : ∀ t, t ∈ first ↔ t ∈ second)
    (hforced : forced target assignment (Slot.of first target).conjuncts =
      forced target assignment (Slot.of second target).conjuncts) (seeds : Seeds) :
    domain seeds (Slot.of first target) assignment =
      domain seeds (Slot.of second target) assignment := by
  have hnone : boundaries (Slot.of first target) assignment = none →
      boundaries (Slot.of second target) assignment = none := by
    intro h
    rw [Option.eq_none_iff_forall_ne_some] at h ⊢
    intro values hvalues
    obtain ⟨values', hvalues', -⟩ := boundaries_of_same (fun t => (hsame t).symm) hvalues
    exact h values' hvalues'
  have hints : intDomain seeds (Slot.of first target) assignment =
      intDomain seeds (Slot.of second target) assignment := by
    unfold intDomain
    cases h : boundaries (Slot.of first target) assignment with
    | none => rw [hnone h]
    | some values =>
        obtain ⟨values', hvalues', hmem⟩ := boundaries_of_same hsame h
        have hbounds : ∀ n, n ∈ values.filterMap Value.toInt? ↔
            n ∈ values'.filterMap Value.toInt? := by
          simp only [List.mem_filterMap, hmem, implies_true]
        simp only [hvalues', withNeighbours_congr hbounds]
  have htexts : textDomain seeds (Slot.of first target) assignment =
      textDomain seeds (Slot.of second target) assignment := by
    unfold textDomain
    cases h : boundaries (Slot.of first target) assignment with
    | none => rw [hnone h]
    | some values =>
        obtain ⟨values', hvalues', hmem⟩ := boundaries_of_same hsame h
        have hbounds : ∀ s, s ∈ textsOf values ↔ s ∈ textsOf values' := by
          simp only [textsOf, List.mem_filterMap, hmem, implies_true]
        simp only [hvalues', withTexts_congr hbounds]
  simp only [domain, Slot.target_of, hforced, hints, htexts]

/-- Whether a value is possible is a matter of the set of conjuncts. -/
theorem standing_of_same (hsame : ∀ t, t ∈ first ↔ t ∈ second) (target : Var)
    (assignment : Assignment) :
    standing assignment (Slot.of first target).conjuncts = .possible ↔
      standing assignment (Slot.of second target).conjuncts = .possible := by
  simp only [standing_possible_iff, mem_conjuncts_of_same hsame]

end Sets

/-! ## Forced values -/

/-- An equation between the variable and a term whose meaning `m` is settled. -/
def Usable (target : Var) (assignment : Assignment) (m : Meaning) (t : Term) : Prop :=
  m ≠ .unknown ∧ ∃ left right other, t = .cmp .eq left right ∧
    facing target.id left right = some other ∧ other.eval assignment = m

/-- What an equation with a term of the given meaning forces. -/
def Forced.ofMeaning (target : Var) : Meaning → Forced
  | .known v => if v.sort = target.sort then .to v else .toNothing
  | _ => .toNothing

/-- What equations can force: nothing if none of them is usable, else what a usable one forces. -/
def Forces (target : Var) (assignment : Assignment) (conjuncts : List Term) (outcome : Forced) :
    Prop :=
  (outcome = .free ∧ ∀ t ∈ conjuncts, ∀ m, ¬ Usable target assignment m t) ∨
    ∃ t ∈ conjuncts, ∃ m, Usable target assignment m t ∧ outcome = .ofMeaning target m

section Forcing

variable {target : Var} {assignment : Assignment} {conjuncts : List Term} {v : Value}

theorem Forces.skip {t : Term} {outcome : Forced} (hunusable : ∀ m, ¬ Usable target assignment m t)
    (h : Forces target assignment conjuncts outcome) :
    Forces target assignment (t :: conjuncts) outcome := by
  rcases h with ⟨hfree, hnone⟩ | ⟨u, hu, hforces⟩
  · exact .inl ⟨hfree, List.forall_mem_cons.mpr ⟨hunusable, hnone⟩⟩
  · exact .inr ⟨u, List.mem_cons_of_mem _ hu, hforces⟩

theorem forces_forced (target : Var) (assignment : Assignment) (conjuncts : List Term) :
    Forces target assignment conjuncts (forced target assignment conjuncts) := by
  fun_induction forced target assignment conjuncts with
  | case1 => exact .inl ⟨rfl, by simp⟩
  | case2 left right rest hfacing ih =>
      refine ih.skip ?_
      rintro m ⟨-, l, r, other, heq, hother, -⟩
      cases heq
      simp [hfacing] at hother
  | case3 left right rest other hfacing heval ih =>
      refine ih.skip ?_
      rintro m ⟨hsettled, l, r, other', heq, hother, hm⟩
      cases heq
      rw [hfacing, Option.some_inj] at hother
      rw [← hm, ← hother] at hsettled
      exact hsettled heval
  | case4 left right rest other hfacing heval =>
      exact .inr ⟨_, List.mem_cons_self, .undefined,
        ⟨by simp, left, right, other, rfl, hfacing, heval⟩, rfl⟩
  | case5 left right rest other hfacing v heval hsort =>
      exact .inr ⟨_, List.mem_cons_self, .known v,
        ⟨by simp, left, right, other, rfl, hfacing, heval⟩, by simp [Forced.ofMeaning, hsort]⟩
  | case6 left right rest other hfacing v heval hsort =>
      exact .inr ⟨_, List.mem_cons_self, .known v,
        ⟨by simp, left, right, other, rfl, hfacing, heval⟩, by simp [Forced.ofMeaning, hsort]⟩
  | case7 t rest hshape ih =>
      refine ih.skip ?_
      rintro m ⟨-, l, r, other, heq, -, -⟩
      exact hshape l r heq

/-- Where all usable equations have one value of the right sort, it does not matter which of them
comes first. -/
theorem forced_eq_of_usable {first second : List Term} (hsame : ∀ t, t ∈ first ↔ t ∈ second)
    (hvalue : ∀ t ∈ first, ∀ m, Usable target assignment m t → m = .known v) :
    forced target assignment first = forced target assignment second := by
  rcases forces_forced target assignment first with ⟨hfree, hnone⟩ | ⟨t, ht, m, hm, hforced⟩
  · rcases forces_forced target assignment second with ⟨hfree', -⟩ | ⟨u, hu, k, hk, -⟩
    · rw [hfree, hfree']
    · exact absurd hk (hnone u ((hsame u).mpr hu) k)
  · rcases forces_forced target assignment second with ⟨-, hnone⟩ | ⟨u, hu, k, hk, hforced'⟩
    · exact absurd hm (hnone t ((hsame t).mp ht) m)
    · rw [hforced, hforced', hvalue t ht m hm, hvalue u ((hsame u).mpr hu) k hk]

/-- A solution makes a usable equation true only by the value that faces the variable. -/
theorem Usable.eq_known {larger : Assignment} (hextends : larger.Extends assignment) {t : Term}
    {m : Meaning} (h : Usable target assignment m t) (hwell : t.WellSorted)
    (hrespects : Respects larger t.occurrences)
    (hsort : ∀ x ∈ t.occurrences, x.id = target.id → x.sort = target.sort)
    (hv : larger target.id = some v) (hvsort : v.sort = target.sort) (hholds : t.Holds larger) :
    m = .known v := by
  obtain ⟨hsettled, left, right, other, rfl, hfacing, heval⟩ := h
  have hlarger : other.eval larger = m := by
    rw [Term.eval_of_extends hextends (heval ▸ hsettled), heval]
  -- the facing side is well-sorted, of the sort of the variable, and its variables have values
  have hother : other.WellSorted ∧ other.sort = target.sort ∧
      ∀ x ∈ other.occurrences, x ∈ (Term.cmp .eq left right).occurrences := by
    cases hwell with
    | cmp hleft hright hsorts _ =>
        obtain ⟨-, ⟨x, rfl, hx, rfl⟩ | ⟨x, rfl, hx, rfl⟩⟩ := facing_eq_some hfacing
        · refine ⟨hright, ?_, fun y hy => List.mem_append_right _ hy⟩
          rw [← hsorts]
          exact hsort x (by simp [Term.occurrences]) hx
        · refine ⟨hleft, ?_, fun y hy => List.mem_append_left _ hy⟩
          rw [hsorts]
          exact hsort x (by simp [Term.occurrences]) hx
  obtain ⟨hwellOther, hsortOther, hoccurrences⟩ := hother
  rw [Term.Holds] at hholds
  cases m with
  | unknown => exact absurd rfl hsettled
  | undefined =>
      exfalso
      obtain ⟨-, ⟨x, rfl, hx, rfl⟩ | ⟨x, rfl, hx, rfl⟩⟩ := facing_eq_some hfacing
      · simp [Term.eval, hx, hv, hlarger, Meaning.lift₂] at hholds
      · simp [Term.eval, hx, hv, hlarger, Meaning.lift₂] at hholds
  | known w =>
      have hwsort : w.sort = other.sort := by
        refine hwellOther.sort_of_meaning (fun x hx u hu => ?_)
          ((Term.eval_eq_meaning larger other).symm.trans hlarger)
        obtain ⟨value, hvalue, hvaluesort⟩ := hrespects x (hoccurrences x hx)
        rw [Assignment.environment_of_some hvalue, Meaning.known.injEq] at hu
        exact hu ▸ hvaluesort
      have hsame : v.sort = w.sort := by rw [hvsort, hwsort, hsortOther]
      rcases eval_cmp_of_facing hfacing hv hlarger .eq with hleft | hright
      · rw [hleft, eq_apply_of_sort_eq hsame] at hholds
        simpa [Meaning.ofResult, Except.map, eq_comm] using hholds
      · rw [hright, eq_apply_of_sort_eq hsame.symm] at hholds
        simpa [Meaning.ofResult, Except.map] using hholds

end Forcing

/-! ## Two searches side by side -/

section TryValues

variable {action action' : Value → Progress → Ending × Progress} {values : List Value}
  {before before' after after' : Progress} {ending ending' : Ending}

/-- Trying the same values in the same order ends alike if every single attempt does. -/
theorem tryValues_agree
    (hagree : ∀ v ∈ values, ∀ start start' result result' stop stop',
      action v start = (result, stop) → action' v start' = (result', stop') →
        result ≠ .outOfBudget → result' ≠ .outOfBudget → result = result')
    (h : tryValues action values before = (ending, after))
    (h' : tryValues action' values before' = (ending', after'))
    (hbudget : ending ≠ .outOfBudget) (hbudget' : ending' ≠ .outOfBudget) : ending = ending' := by
  induction values generalizing before before' with
  | nil =>
      cases h
      cases h'
      rfl
  | cons v rest ih =>
      obtain ⟨hv, hrest⟩ := List.forall_mem_cons.mp hagree
      obtain ⟨start, result, stop, hattempt, hresult, hnext⟩ := tryValues_cons h hbudget
      obtain ⟨start', result', stop', hattempt', hresult', hnext'⟩ := tryValues_cons h' hbudget'
      obtain rfl := hv _ _ _ _ _ _ hattempt hattempt' hresult hresult'
      rcases hnext with ⟨hexhausted, hnext⟩ | ⟨hdone, hending⟩
      · rcases hnext' with ⟨-, hnext'⟩ | ⟨hdone', -⟩
        · exact ih hrest hnext hnext'
        · exact absurd hexhausted hdone'
      · rcases hnext' with ⟨hexhausted', -⟩ | ⟨-, hending'⟩
        · exact absurd hexhausted' hdone
        · rw [hending, hending']

end TryValues

/-- A point of the search: values of the right sorts for the variables that were given one, and the
variables still to come. -/
structure Point (conjuncts : List Term) (vars : List Var) (assignment : Assignment) : Prop where
  wellSorted : ∀ t ∈ conjuncts, t.WellSorted
  distinct : vars.Pairwise fun first second => first.id ≠ second.id
  unset : ∀ x ∈ vars, assignment x.id = none
  eq_of_id : ∀ x ∈ vars, ∀ y ∈ conjuncts.flatMap Term.occurrences, x.id = y.id → x = y
  covered : ∀ y ∈ conjuncts.flatMap Term.occurrences,
    y ∈ vars ∨ ∃ v, assignment y.id = some v ∧ v.sort = y.sort

namespace Point

variable {conjuncts first second : List Term} {x : Var} {vars : List Var} {assignment : Assignment}

theorem of_same (h : Point first vars assignment) (hsame : ∀ t, t ∈ first ↔ t ∈ second) :
    Point second vars assignment where
  wellSorted t ht := h.wellSorted t ((hsame t).mpr ht)
  distinct := h.distinct
  unset := h.unset
  eq_of_id x hx y hy := h.eq_of_id x hx y ((mem_flatMap_of_same hsame _ y).mpr hy)
  covered y hy := h.covered y ((mem_flatMap_of_same hsame _ y).mpr hy)

/-- Giving the next variable a value of its sort leads to the next point. -/
theorem set (h : Point conjuncts (x :: vars) assignment) {v : Value} (hsort : v.sort = x.sort) :
    Point conjuncts vars (assignment.set x.id v) where
  wellSorted := h.wellSorted
  distinct := (List.pairwise_cons.mp h.distinct).2
  unset y hy := by
    have hne : y.id ≠ x.id := ((List.pairwise_cons.mp h.distinct).1 y hy).symm
    rw [Assignment.set, if_neg hne, h.unset y (List.mem_cons_of_mem _ hy)]
  eq_of_id y hy := h.eq_of_id y (List.mem_cons_of_mem _ hy)
  covered y hy := by
    by_cases hid : x.id = y.id
    · obtain rfl := h.eq_of_id x List.mem_cons_self y hy hid
      exact .inr ⟨v, by simp [Assignment.set], hsort⟩
    · rcases h.covered y hy with hmem | ⟨w, hw, hwsort⟩
      · refine .inl ((List.mem_cons.mp hmem).resolve_left fun heq => hid (heq ▸ rfl))
      · exact .inr ⟨w, by simp [Assignment.set, Ne.symm hid, hw], hwsort⟩

/-- What is found gives all variables values of their sorts. -/
theorem respects_of_found (h : Point conjuncts vars assignment) {seeds : Seeds}
    {before after : Progress} {found : Assignment}
    (hfound : search seeds (vars.map (Slot.of conjuncts)) assignment before =
      (.found found, after)) : Respects found (conjuncts.flatMap Term.occurrences) := by
  obtain ⟨hvalues, hframe, -⟩ := found_spec h.distinct hfound
  intro y hy
  by_cases hlater : y ∈ vars
  · exact hvalues y hlater
  · obtain ⟨v, hv, hsort⟩ := (h.covered y hy).resolve_left hlater
    refine ⟨v, ?_, hsort⟩
    rw [hframe y.id fun z hz hid => hlater (h.eq_of_id z hz y hy hid ▸ hz), hv]

/-- Where something is found, the usable equations have the value that is found. -/
theorem eq_known_of_found (h : Point conjuncts (x :: vars) assignment) {seeds : Seeds}
    {before after : Progress} {found : Assignment}
    (hfound : search seeds ((x :: vars).map (Slot.of conjuncts)) assignment before =
      (.found found, after)) :
    ∃ v, ∀ t ∈ (Slot.of conjuncts x).conjuncts, ∀ m, Usable x assignment m t → m = .known v := by
  have hrespects := h.respects_of_found hfound
  obtain ⟨hvalues, hframe, hholds⟩ := found_spec h.distinct hfound
  obtain ⟨v, hv, hsort⟩ := hvalues x List.mem_cons_self
  have hextends : found.Extends assignment := by
    intro id w hw
    rw [hframe id fun y hy hid => ?_, hw]
    rw [← hid, h.unset y hy] at hw
    cases hw
  refine ⟨v, fun t ht m husable => ?_⟩
  obtain ⟨hmem, hmentions⟩ := mem_conjuncts_of.mp ht
  have hoccurrence : ∀ y ∈ t.occurrences, y ∈ conjuncts.flatMap Term.occurrences :=
    fun y hy => List.mem_flatMap.mpr ⟨t, hmem, hy⟩
  have htrue : t.Holds found := by
    refine hholds t hmem ⟨x, List.mem_cons_self, hmentions⟩ fun y hy => ?_
    obtain ⟨w, hw, -⟩ := hrespects y (hoccurrence y hy)
    exact ⟨w, hw⟩
  refine husable.eq_known hextends (h.wellSorted t hmem)
    (fun y hy => hrespects y (hoccurrence y hy)) (fun y hy hid => ?_) hv hsort htrue
  rw [h.eq_of_id x List.mem_cons_self y (hoccurrence y hy) hid.symm]

/-- Where two arrangements force different things, nothing is found. -/
theorem eq_exhausted_of_forced_ne (h : Point first (x :: vars) assignment)
    (hsame : ∀ t, t ∈ first ↔ t ∈ second)
    (hforced : forced x assignment (Slot.of first x).conjuncts ≠
      forced x assignment (Slot.of second x).conjuncts)
    {seeds : Seeds} {before after : Progress} {ending : Ending}
    (hsearch : search seeds ((x :: vars).map (Slot.of first)) assignment before = (ending, after))
    (hbudget : ending ≠ .outOfBudget) : ending = .exhausted := by
  cases ending with
  | exhausted => rfl
  | outOfBudget => exact absurd rfl hbudget
  | found found =>
      obtain ⟨v, hv⟩ := h.eq_known_of_found hsearch
      exact absurd (forced_eq_of_usable (mem_conjuncts_of_same hsame x) hv) hforced

end Point

/-- **Two searches over the same conjuncts.**  Within their budgets they end alike. -/
theorem search_agree {seeds : Seeds} {first second : List Term}
    (hsame : ∀ t, t ∈ first ↔ t ∈ second) {vars : List Var} {assignment : Assignment}
    (hpoint : Point first vars assignment) {before before' after after' : Progress}
    {ending ending' : Ending}
    (h : search seeds (vars.map (Slot.of first)) assignment before = (ending, after))
    (h' : search seeds (vars.map (Slot.of second)) assignment before' = (ending', after'))
    (hbudget : ending ≠ .outOfBudget) (hbudget' : ending' ≠ .outOfBudget) : ending = ending' := by
  induction vars generalizing assignment before before' after after' ending ending' with
  | nil =>
      cases h
      cases h'
      rfl
  | cons x rest ih =>
      by_cases hforced : forced x assignment (Slot.of first x).conjuncts =
          forced x assignment (Slot.of second x).conjuncts
      · -- the same values are tried, and each of them goes the same way
        rw [List.map_cons, search_cons, domain_of_same hsame hforced] at h
        rw [List.map_cons, search_cons] at h'
        refine tryValues_agree (fun v hv start start' result result' stop stop' hattempt
          hattempt' hresult hresult' => ?_) h h' hbudget hbudget'
        have hstanding := standing_of_same hsame x (assignment.set x.id v)
        by_cases hpossible :
            standing (assignment.set x.id v) (Slot.of first x).conjuncts = .possible
        · rw [attempt_of_possible hpossible] at hattempt
          rw [attempt_of_possible (hstanding.mp hpossible)] at hattempt'
          exact ih (hpoint.set (sort_of_mem_domain hv)) hattempt hattempt' hresult hresult'
        · rw [eq_exhausted_of_attempt hattempt hpossible,
            eq_exhausted_of_attempt hattempt' fun hother => hpossible (hstanding.mpr hother)]
      · -- no solution is left, so neither search finds one
        rw [hpoint.eq_exhausted_of_forced_ne hsame hforced h hbudget,
          (hpoint.of_same hsame).eq_exhausted_of_forced_ne (fun t => (hsame t).symm)
            (Ne.symm hforced) h' hbudget']

/-! ## Checks -/

/-- Splitting conjunctions keeps terms well-sorted. -/
theorem wellSorted_of_mem_conjuncts {t : Term} (h : t.WellSorted) :
    ∀ c ∈ conjuncts t, c.WellSorted := by
  induction t with
  | and ts ih =>
      cases h with
      | and hall _ =>
          rw [conjuncts, conjunctsAll_eq]
          intro c hc
          obtain ⟨t, ht, hct⟩ := List.mem_flatMap.mp hc
          exact ih t ht (hall t ht) c hct
  | _ => simpa [conjuncts] using h

theorem mem_settled_iff {parts symbolic : List Term} (h : settleGround parts = .ok symbolic)
    (t : Term) : t ∈ symbolic ↔ t ∈ parts ∧ t.isGround = false := by
  obtain ⟨hkept, hsettled⟩ := settleGround_ok h
  refine ⟨hkept t, fun ⟨hmem, hground⟩ => (hsettled t hmem).resolve_right ?_⟩
  rintro ⟨hground', -⟩
  rw [hground] at hground'
  cases hground'

/-- Settling succeeds if the conjuncts without variables are true. -/
theorem exists_settled {parts : List Term}
    (h : ∀ t ∈ parts, t.isGround = true → t.Holds .empty) :
    ∃ symbolic, settleGround parts = .ok symbolic := by
  induction parts with
  | nil => exact ⟨[], rfl⟩
  | cons t rest ih =>
      obtain ⟨ht, hrest⟩ := List.forall_mem_cons.mp h
      obtain ⟨symbolic, hsymbolic⟩ := ih hrest
      unfold settleGround
      split
      · rename_i hground
        have htrue : t.eval .empty = .known (.bool true) := ht hground
        exact ⟨symbolic, by simp only [htrue, if_true, hsymbolic]⟩
      · exact ⟨t :: symbolic, by simp only [hsymbolic]⟩

/-- What has no variables and is settled is true. -/
theorem holds_of_isGround {parts symbolic : List Term} (h : settleGround parts = .ok symbolic)
    {t : Term} (ht : t ∈ parts) (hground : t.isGround = true) (assignment : Assignment) :
    t.Holds assignment := by
  rcases (settleGround_ok h).2 t ht with hkept | ⟨-, htrue⟩
  · rw [((mem_settled_iff h t).mp hkept).2] at hground
    cases hground
  · exact htrue assignment

section Check

variable {first second : List Term} {nodes nodes' width : Nat}

/-- Two searches over the same conjuncts give the same model. -/
theorem solve_sat_of_same (hsame : ∀ t, t ∈ first ↔ t ∈ second)
    (hwell : ∀ t ∈ first, t.WellSorted)
    (hvars : ∀ x ∈ first.flatMap Term.occurrences, ∀ y ∈ first.flatMap Term.occurrences,
      x.id = y.id → x = y)
    {model : Model} (h : solve ⟨nodes, width⟩ first = .sat model)
    (hbudget : solve ⟨nodes', width⟩ second ≠ .timeout) :
    solve ⟨nodes', width⟩ second = .sat model := by
  have hmem : ∀ x ∈ variablesOf first, x ∈ first.flatMap Term.occurrences :=
    fun x hx => mem_occurrences_of_mem_variablesOf hx
  have hpoint : Point first (variablesOf first) .empty := by
    refine ⟨hwell, pairwise_variablesOf first, fun _ _ => rfl, fun x hx y hy => ?_,
      fun y hy => .inl ?_⟩
    · exact hvars x (hmem x hx) y hy
    · obtain ⟨x, hx, hid⟩ := exists_mem_variablesOf hy
      exact hvars x (hmem x hx) y hy hid ▸ hx
  obtain ⟨found, progress, hfound, rfl⟩ := exists_found_of_solve h
  unfold solve at hbudget ⊢
  dsimp only at hbudget ⊢
  rw [← variablesOf_of_same hsame hvars, ← seeds_of_same hsame] at hbudget ⊢
  cases hother : search (Seeds.of width first)
      ((variablesOf first).map (Slot.of second)) .empty ⟨nodes', true⟩ with
  | mk ending' progress' =>
      rw [hother] at hbudget
      have hin : ending' ≠ .outOfBudget := by
        rintro rfl
        exact hbudget rfl
      obtain rfl := search_agree hsame hpoint hfound hother (by simp) hin
      rfl

/-- If the solver gives a model to assertions, it gives the same one to the same conjuncts in
another arrangement. -/
theorem check_sat_of_same (hsame : ∀ t, t ∈ conjunctsAll first ↔ t ∈ conjunctsAll second)
    (hwell : ∀ t ∈ conjunctsAll first, t.WellSorted)
    (hvars : ∀ x ∈ (conjunctsAll first).flatMap Term.occurrences,
      ∀ y ∈ (conjunctsAll first).flatMap Term.occurrences, x.id = y.id → x = y)
    {model : Model} (h : check ⟨nodes, width⟩ first = .sat model)
    (hbudget : check ⟨nodes', width⟩ second ≠ .timeout) :
    check ⟨nodes', width⟩ second = .sat model := by
  obtain ⟨symbolic, hsettle, hsolve⟩ := check_eq_sat h
  obtain ⟨symbolic', hsettle'⟩ : ∃ symbolic', settleGround (conjunctsAll second) = .ok symbolic' :=
    exists_settled fun t ht hground => holds_of_isGround hsettle ((hsame t).mpr ht) hground _
  have hsymbolic : ∀ t, t ∈ symbolic ↔ t ∈ symbolic' := by
    intro t
    rw [mem_settled_iff hsettle, mem_settled_iff hsettle', hsame]
  have hparts : ∀ t ∈ symbolic, t ∈ conjunctsAll first :=
    fun t ht => ((mem_settled_iff hsettle t).mp ht).1
  have hoccurrence : ∀ x ∈ symbolic.flatMap Term.occurrences,
      x ∈ (conjunctsAll first).flatMap Term.occurrences := by
    intro x hx
    obtain ⟨t, ht, hxt⟩ := List.mem_flatMap.mp hx
    exact List.mem_flatMap.mpr ⟨t, hparts t ht, hxt⟩
  have hbool : ∀ t ∈ conjunctsAll second, t.sort = .bool :=
    fun t ht => sort_of_check_sat h t ((hsame t).mpr ht)
  rw [check_of_settled hbool hsettle'] at hbudget ⊢
  exact solve_sat_of_same hsymbolic (fun t ht => hwell t (hparts t ht))
    (fun x hx y hy => hvars x (hoccurrence x hx) y (hoccurrence y hy)) hsolve hbudget

end Check

/-- **Models do not depend on the arrangement.**  Two lists of assertions with the same conjuncts,
in whatever order, grouping and number, have the same models for answers, as long as the window is
the same and neither check runs out of its budget.  The assertions are well-sorted and have one
variable for each number; that is asked of the first list only, since the conjuncts of the second
are the same. -/
theorem check_sat_arrangement (nodes nodes' width : Nat) (first second : List Term)
    (hwell : ∀ t ∈ first, t.WellSorted)
    (hvars : ∀ x ∈ Term.occurrencesAll first, ∀ y ∈ Term.occurrencesAll first,
      x.id = y.id → x = y)
    (hsame : ∀ t, t ∈ conjunctsAll first ↔ t ∈ conjunctsAll second)
    (hbudget : check ⟨nodes, width⟩ first ≠ .timeout)
    (hbudget' : check ⟨nodes', width⟩ second ≠ .timeout) (model : Model) :
    check ⟨nodes, width⟩ first = .sat model ↔ check ⟨nodes', width⟩ second = .sat model := by
  rw [Term.occurrencesAll_eq, ← occurrences_conjunctsAll] at hvars
  have hparts : ∀ t ∈ conjunctsAll first, t.WellSorted := by
    intro c hc
    rw [conjunctsAll_eq] at hc
    obtain ⟨t, ht, hct⟩ := List.mem_flatMap.mp hc
    exact wellSorted_of_mem_conjuncts (hwell t ht) c hct
  constructor
  · intro h
    exact check_sat_of_same hsame hparts hvars h hbudget'
  · intro h
    refine check_sat_of_same (fun t => (hsame t).symm) (fun t ht => hparts t ((hsame t).mpr ht))
      (fun x hx y hy => ?_) h hbudget
    have hmem := mem_flatMap_of_same hsame Term.occurrences
    exact hvars x ((hmem x).mpr hx) y ((hmem y).mpr hy)

/-- The model of `x = y * 2`, `y > 1` and `x ≠ 4`, in two arrangements.  In the second one a
conjunct is repeated and the equation comes last. -/
theorem check_sat_arrangement_regrouped :
    let x : Var := ⟨0, "x", .int⟩
    let y : Var := ⟨1, "y", .int⟩
    let double : Term := .cmp .eq (.var x) (.arith .mul (.var y) (.const (.int 2)))
    let large : Term := .cmp .gt (.var y) (.const (.int 1))
    let other : Term := .cmp .ne (.var x) (.const (.int 4))
    let first : List Term := [double, .and [large, other]]
    let second : List Term := [.and [other, .and [large]], large, double]
    let model : Model := (NameMap.empty.insert "x" (.int 6)).insert "y" (.int 3)
    check ⟨1000, 6⟩ first = .sat model ∧
      ∀ answer, check ⟨1000, 6⟩ first = .sat answer ↔ check ⟨2000, 6⟩ second = .sat answer := by
  intro x y double large other first second model
  have hfirst : check ⟨1000, 6⟩ first = .sat model := rfl
  have hsecond : (check ⟨2000, 6⟩ second).isSat = true := by decide +kernel
  have hdouble : double.WellSorted :=
    .cmp (.var x) (.arith (.var y) (.const _) (.inl ⟨rfl, rfl⟩)) rfl (by decide)
  have hlarge : large.WellSorted := .cmp (.var y) (.const _) rfl (by decide)
  have hother : other.WellSorted := .cmp (.var x) (.const _) rfl (by decide)
  have hwell : ∀ t ∈ first, t.WellSorted := by
    refine List.forall_mem_cons.mpr ⟨hdouble, List.forall_mem_singleton.mpr (.and ?_ ?_)⟩
    · exact List.forall_mem_cons.mpr ⟨hlarge, List.forall_mem_singleton.mpr hother⟩
    · exact List.forall_mem_cons.mpr ⟨rfl, List.forall_mem_singleton.mpr rfl⟩
  have hsame : ∀ t, t ∈ conjunctsAll first ↔ t ∈ conjunctsAll second := by
    intro t
    change t ∈ [double, large, other] ↔ t ∈ [other, large, large, double]
    simp only [List.mem_cons, List.not_mem_nil, or_false]
    grind
  refine ⟨hfirst, check_sat_arrangement 1000 2000 6 first second hwell (by decide) hsame
    (by rw [hfirst]; simp) fun htimeout => ?_⟩
  rw [htimeout] at hsecond
  cases hsecond

end BranchWitness.Solver
