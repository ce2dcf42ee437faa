import BranchWitness.Proofs.Solver.Soundness

/-!
# Ways down the search tree

The search goes depth first, and what it comes across depends on all values it tried before.  The
tree it goes through does not: which values a variable has is read off the values of the earlier
variables alone.  So the end of a search can be told from the *descents* of its tree, in which each
variable has a value of its domain that is possible.

* What is found lies at the end of a descent (`descent_of_found`).
* If there is a descent, the search does not end exhausted (`Descent.ne_exhausted`): it finds
  something, at the end of this descent or of an earlier one, or it runs out of its budget.

With a wider window of integers a domain gains values and loses none (`mem_domain_of_within`), so
the descents stay.  What forces a value and what bounds it do not look at the window.  Hence a wider
window never loses a solution (`check_sat_of_wider_window`), although it can find another one.
-/

namespace BranchWitness.Solver

/-! ## Descents -/

/-- A way down the search tree: each slot in turn has a value of its domain that is possible. -/
inductive Descent (seeds : Seeds) : List Slot → Assignment → Assignment → Prop
  | done (assignment : Assignment) : Descent seeds [] assignment assignment
  | step {slot : Slot} {rest : List Slot} {assignment goal : Assignment} {v : Value}
      (hv : v ∈ (domain seeds slot assignment).values)
      (hpossible : standing (assignment.set slot.target.id v) slot.conjuncts = .possible)
      (hrest : Descent seeds rest (assignment.set slot.target.id v) goal) :
      Descent seeds (slot :: rest) assignment goal

section Descent

variable {seeds : Seeds} {slots : List Slot} {assignment goal : Assignment}
  {before after : Progress}

/-- What an attempt finds is found below a possible value. -/
theorem search_of_attempt {slot : Slot} {rest : List Slot} {v : Value} {found : Assignment}
    (h : attempt seeds slot rest assignment v before = (.found found, after)) :
    standing (assignment.set slot.target.id v) slot.conjuncts = .possible ∧
      search seeds rest (assignment.set slot.target.id v) before = (.found found, after) := by
  by_cases hpossible : standing (assignment.set slot.target.id v) slot.conjuncts = .possible
  · exact ⟨hpossible, by rw [← attempt_of_possible hpossible, h]⟩
  · cases eq_exhausted_of_attempt h hpossible

theorem descent_of_found {found : Assignment}
    (h : search seeds slots assignment before = (.found found, after)) :
    Descent seeds slots assignment found := by
  induction slots generalizing assignment before after with
  | nil =>
      cases h
      exact .done _
  | cons slot rest ih =>
      rw [search_cons] at h
      obtain ⟨front, v, back, hvalues, -, start, stop, hattempt⟩ := tryValues_found h
      obtain ⟨hpossible, hsearch⟩ := search_of_attempt hattempt
      exact .step (by simp [hvalues]) hpossible (ih hsearch)

/-- Where there is a way down, the search does not come to an end without finding one. -/
theorem Descent.ne_exhausted (h : Descent seeds slots assignment goal) (before after : Progress) :
    search seeds slots assignment before ≠ (.exhausted, after) := by
  induction h generalizing before after with
  | done assignment =>
      intro hsearch
      cases hsearch
  | @step slot rest assignment goal v hv hpossible _ ih =>
      intro hsearch
      rw [search_cons] at hsearch
      obtain ⟨start, stop, hattempt, -⟩ := tryValues_exhausted attempt_exhaustive hsearch hv
      rw [attempt_of_possible hpossible] at hattempt
      exact ih start stop hattempt

end Descent

/-! ## Wider windows -/

/-- The first seeds give every integer that the second ones give, and the same texts. -/
structure Seeds.Within (seeds wider : Seeds) : Prop where
  ints : ∀ n ∈ seeds.ints, n ∈ wider.ints
  texts : seeds.texts = wider.texts

section Window

variable {seeds wider : Seeds} {slot : Slot} {assignment goal : Assignment}

theorem mem_window_of_le {width greater : Nat} (hle : width ≤ greater) {n : Int64}
    (h : n ∈ window width) : n ∈ window greater := by
  rw [window, List.mem_cons] at h ⊢
  refine h.imp_right fun hmem => ?_
  obtain ⟨k, hk, hn⟩ := List.mem_flatMap.mp hmem
  rw [List.mem_range] at hk
  exact List.mem_flatMap.mpr ⟨k, List.mem_range.mpr (Nat.lt_of_lt_of_le hk hle), hn⟩

theorem mem_withNeighbours_of_subset (ints : List Int64) {known more : List Int64}
    (hmore : ∀ n ∈ known, n ∈ more) {n : Int64} (h : n ∈ withNeighbours ints known) :
    n ∈ withNeighbours ints more := by
  rcases mem_insertAllAscending h with hnew | hknown
  · exact mem_insertAllAscending_of_mem_left ranks_nearerZero.irrefl eq_of_nearerZero_tie hnew _
  · exact mem_insertAllAscending_of_mem _ (hmore n hknown)

theorem Seeds.within_of_le {width greater : Nat} (hle : width ≤ greater) (conjuncts : List Term) :
    (Seeds.of width conjuncts).Within (Seeds.of greater conjuncts) where
  ints _ := mem_withNeighbours_of_subset _ fun _ => mem_window_of_le hle
  texts := rfl

/-- More seeds give a domain more values. -/
theorem mem_domain_of_within (h : seeds.Within wider) {v : Value}
    (hv : v ∈ (domain seeds slot assignment).values) :
    v ∈ (domain wider slot assignment).values := by
  unfold domain at hv ⊢
  cases hforced : forced slot.target assignment slot.conjuncts with
  | «to» w => simpa only [hforced] using hv
  | toNothing => simpa only [hforced] using hv
  | free =>
      simp only [hforced] at hv ⊢
      cases hsort : slot.target.sort with
      | bool => simpa only [hsort] using hv
      | str => simpa only [hsort, textDomain, h.texts] using hv
      | int =>
          simp only [hsort, intDomain] at hv ⊢
          cases hbounds : boundaries slot assignment with
          | none =>
              simp only [hbounds] at hv ⊢
              obtain ⟨n, hn, rfl⟩ := List.mem_map.mp hv
              exact List.mem_map_of_mem (h.ints n hn)
          | some bounds =>
              simp only [hbounds] at hv ⊢
              obtain ⟨n, hn, rfl⟩ := List.mem_map.mp hv
              exact List.mem_map_of_mem (mem_withNeighbours_of_subset _ h.ints hn)

theorem Descent.of_within (hwithin : seeds.Within wider) {slots : List Slot}
    (h : Descent seeds slots assignment goal) : Descent wider slots assignment goal := by
  induction h with
  | done assignment => exact .done assignment
  | step hv hpossible _ ih => exact .step (mem_domain_of_within hwithin hv) hpossible ih

end Window

/-! ## Checks -/

/-- Within its budget the solver gives a model where there is a way down. -/
theorem exists_sat_of_descent {limits : Limits} {symbolic : List Term} {goal : Assignment}
    (h : Descent (Seeds.of limits.width symbolic) ((variablesOf symbolic).map (Slot.of symbolic))
      .empty goal) (hbudget : solve limits symbolic ≠ .timeout) :
    ∃ model, solve limits symbolic = .sat model := by
  simp only [solve] at hbudget ⊢
  cases hsearch : search (Seeds.of limits.width symbolic)
      ((variablesOf symbolic).map (Slot.of symbolic)) .empty ⟨limits.nodes, true⟩ with
  | mk ending progress =>
      rw [hsearch] at hbudget
      cases ending with
      | found found => exact ⟨_, rfl⟩
      | outOfBudget => exact absurd rfl hbudget
      | exhausted => exact absurd hsearch (h.ne_exhausted _ _)

/-- **A wider window never loses a solution.**  If the solver gives a model with one window of
integers, then with a wider one it gives a model too, unless it runs out of its budget.  Nothing is
asked of the assertions, and the budgets of the two checks need not be the same. -/
theorem check_sat_of_wider_window (nodes nodes' width wider : Nat) (hle : width ≤ wider)
    (assertions : List Term) (model : Model) (h : check ⟨nodes, width⟩ assertions = .sat model)
    (hbudget : check ⟨nodes', wider⟩ assertions ≠ .timeout) :
    ∃ model', check ⟨nodes', wider⟩ assertions = .sat model' := by
  obtain ⟨symbolic, -, hsolve, hcheck⟩ := check_eq_solve_of_sat h
  obtain ⟨found, progress, hfound, -⟩ := exists_found_of_solve hsolve
  have hdescent := (descent_of_found hfound).of_within (Seeds.within_of_le hle symbolic)
  rw [hcheck] at hbudget ⊢
  exact exists_sat_of_descent hdescent hbudget

/-- The roots of `x * x = x + 20` are `-4` and `5`, and `x < 6`.  Beside the narrow window only the
neighbours of the constants are tried, so it has the root `5` alone; the wider one comes across `-4`
first. -/
theorem check_sat_of_wider_window_roots :
    let x : Var := ⟨0, "x", .int⟩
    let square : Term := .arith .mul (.var x) (.var x)
    let assertions : List Term :=
      [.cmp .eq square (.arith .add (.var x) (.const (.int 20))),
        .cmp .lt (.var x) (.const (.int 6))]
    let narrow : Model := NameMap.empty.insert "x" (.int 5)
    check ⟨100, 1⟩ assertions = .sat narrow ∧ check ⟨100, 4⟩ assertions ≠ .sat narrow ∧
      ∃ model, check ⟨100, 4⟩ assertions = .sat model := by
  intro x square assertions narrow
  have hnarrow : check ⟨100, 1⟩ assertions = .sat narrow := by
    simp only [assertions, narrow, square, x]
    rfl
  have hwide : check ⟨100, 4⟩ assertions = .sat (NameMap.empty.insert "x" (.int (-4))) := by
    simp only [assertions, square, x]
    rfl
  refine ⟨hnarrow, fun hsame => ?_, check_sat_of_wider_window 100 100 1 4 (by decide) assertions
    narrow hnarrow (by rw [hwide]; simp)⟩
  have hmodel := Answer.sat.inj (hwide.symm.trans hsame)
  exact absurd (congrArg (fun model : Model => model.find? "x") hmodel) (by decide)

end BranchWitness.Solver
