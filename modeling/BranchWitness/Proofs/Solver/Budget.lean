import BranchWitness.Proofs.Solver.Soundness
import Mathlib.Algebra.Group.Nat.Defs

/-!
# Budgets

The budget of a check is the number of values that it may try.

* **Budgets that suffice.**  A search over truth values tries at most two values for each variable,
  so its tree has at most `2 + 4 + ... + 2 ^ k` values over `k` variables (`nodesBelow`).  With a
  budget of that many the solver does not run out of it (`check_ne_timeout`).
* **The threshold.**  Whatever the assertions are, some budget is the least that suffices, and from
  there on the answer is always the same (`check_budget_threshold`).

What a part of the search may use is stated with what it leaves (`Affordable`, `Costs`), so that the
parts can be put together: the attempts at the values of one variable share a budget, and each of
them pays for itself.  A bound on the cost says how much is left at least; the cost itself says how
much is left exactly, and so the next part starts alike under every budget that is large enough.
-/

namespace BranchWitness.Solver

/-- The number of values tried in a full search over that many truth values. -/
def nodesBelow : Nat → Nat
  | 0 => 0
  | count + 1 => 2 * (nodesBelow count + 1)

theorem nodesBelow_eq (count : Nat) : nodesBelow count = 2 ^ (count + 1) - 2 := by
  induction count with
  | zero => rfl
  | succ count ih =>
      have htwo : 2 ≤ 2 ^ (count + 1) := by
        rw [Nat.pow_succ]
        have hpos : 0 < 2 ^ count := Nat.two_pow_pos count
        omega
      rw [nodesBelow, ih, Nat.pow_succ 2 (count + 1)]
      omega

theorem nodesBelow_mono {fewer count : Nat} (h : fewer ≤ count) :
    nodesBelow fewer ≤ nodesBelow count := by
  induction h with
  | refl => exact Nat.le_refl _
  | step _ ih =>
      rw [nodesBelow]
      omega

/-- With a budget of at least the cost, the run does not use it up, and it uses no more than the
cost. -/
def Affordable (cost : Nat) (run : Progress → Ending × Progress) : Prop :=
  ∀ before, cost ≤ before.budget →
    (run before).1 ≠ .outOfBudget ∧ before.budget ≤ (run before).2.budget + cost

theorem Affordable.mono {cost greater : Nat} {run : Progress → Ending × Progress}
    (h : Affordable cost run) (hle : cost ≤ greater) : Affordable greater run := by
  intro before hbudget
  obtain ⟨hending, hused⟩ := h before (Nat.le_trans hle hbudget)
  exact ⟨hending, by omega⟩

/-- Each value costs one beside what its attempt costs. -/
theorem affordable_tryValues {action : Value → Progress → Ending × Progress} {cost : Nat}
    {values : List Value} (h : ∀ v ∈ values, Affordable cost (action v)) :
    Affordable (values.length * (cost + 1)) (tryValues action values) := by
  induction values with
  | nil =>
      intro before _
      exact ⟨by simp [tryValues], Nat.le_add_right _ _⟩
  | cons v rest ih =>
      intro before hbudget
      obtain ⟨hv, hrest⟩ := List.forall_mem_cons.mp h
      rw [List.length_cons, Nat.succ_mul] at hbudget ⊢
      unfold tryValues
      split
      · omega
      · rename_i budget hbefore
        obtain ⟨hending, hused⟩ := hv { before with budget } (by dsimp only; omega)
        dsimp only at hused
        split
        · -- what this attempt leaves is enough for the others
          rename_i later hattempt
          rw [hattempt] at hused
          dsimp only at hused
          obtain ⟨hending', hused'⟩ := ih hrest later (by omega)
          exact ⟨hending', by omega⟩
        · exact ⟨hending, by omega⟩

theorem affordable_attempt {seeds : Seeds} {rest : List Slot} {cost : Nat}
    (h : ∀ assignment, Affordable cost (search seeds rest assignment)) (slot : Slot)
    (assignment : Assignment) (v : Value) :
    Affordable cost (attempt seeds slot rest assignment v) := by
  intro before hbudget
  unfold attempt
  dsimp only
  split
  · exact h _ before hbudget
  · exact ⟨by simp, Nat.le_add_right _ _⟩
  · exact ⟨by simp, Nat.le_add_right _ _⟩

/-- A truth value has two values, or the one that is forced. -/
theorem length_domain_le {slot : Slot} (h : slot.target.sort = .bool) (seeds : Seeds)
    (assignment : Assignment) : (domain seeds slot assignment).values.length ≤ 2 := by
  unfold domain
  split
  · exact Nat.le_succ 1
  · exact Nat.zero_le 2
  · rw [h]
    exact Nat.le_refl 2

theorem affordable_search {slots : List Slot} (h : ∀ slot ∈ slots, slot.target.sort = .bool)
    (seeds : Seeds) (assignment : Assignment) :
    Affordable (nodesBelow slots.length) (search seeds slots assignment) := by
  induction slots generalizing assignment with
  | nil =>
      intro before _
      exact ⟨by simp [search], Nat.le_add_right _ _⟩
  | cons slot rest ih =>
      obtain ⟨hslot, hrest⟩ := List.forall_mem_cons.mp h
      have htried : Affordable (nodesBelow (slot :: rest).length)
          (tryValues (attempt seeds slot rest assignment)
            (domain seeds slot assignment).values) := by
        refine (affordable_tryValues fun v _ =>
          affordable_attempt (ih hrest) slot assignment v).mono ?_
        exact Nat.mul_le_mul_right _ (length_domain_le hslot seeds assignment)
      intro before hbudget
      rw [search_cons]
      exact htried { before with exhaustive := _ } hbudget

/-! ## The solver -/

theorem settleGround_ne_timeout (parts : List Term) : settleGround parts ≠ .error .timeout := by
  intro h
  obtain ⟨t, -, -, ⟨-, hanswer⟩ | ⟨-, reason, hanswer⟩⟩ := settleGround_error h
  · cases hanswer
  · cases hanswer

/-- The solver finds as many variables as there are, at most. -/
theorem length_variablesOf_le {symbolic : List Term} {vars : List Var}
    (h : ∀ x ∈ symbolic.flatMap Term.occurrences, x ∈ vars) :
    (variablesOf symbolic).length ≤ vars.length := by
  have hnodup : (variablesOf symbolic).Nodup :=
    (pairwise_variablesOf symbolic).imp fun hne heq => hne (congrArg Var.id heq)
  have hsubset : variablesOf symbolic ⊆ vars :=
    fun x hx => h x (mem_occurrences_of_mem_variablesOf hx)
  exact (hnodup.subperm hsubset).length_le

/-- **A budget that suffices.**  Over truth values the solver does not run out of a budget of
`2 ^ (k + 1) - 2`, where `k` is the number of variables. -/
theorem check_ne_timeout {limits : Limits} {assertions : List Term} {vars : List Var}
    (hvars : ∀ x ∈ assertions.flatMap Term.occurrences, x ∈ vars)
    (hsorts : ∀ x ∈ vars, x.sort = .bool) (hnodes : 2 ^ (vars.length + 1) - 2 ≤ limits.nodes) :
    check limits assertions ≠ .timeout := by
  unfold check
  dsimp only
  split
  · simp
  · cases hsettle : settleGround (conjunctsAll assertions) with
    | error answer =>
        intro hanswer
        exact settleGround_ne_timeout _ (hsettle.trans (congrArg Except.error hanswer))
    | ok symbolic =>
        have hsymbolic : ∀ x ∈ symbolic.flatMap Term.occurrences, x ∈ vars :=
          fun x hx => hvars x ((mem_occurrences_settled hsettle x).mpr hx)
        have hslots : ∀ slot ∈ (variablesOf symbolic).map (Slot.of symbolic),
            slot.target.sort = .bool := by
          refine List.forall_mem_map.mpr fun x hx => ?_
          exact hsorts x (hsymbolic x (mem_occurrences_of_mem_variablesOf hx))
        have hbudget : nodesBelow ((variablesOf symbolic).map (Slot.of symbolic)).length ≤
            limits.nodes := by
          rw [List.length_map]
          calc nodesBelow (variablesOf symbolic).length
              ≤ nodesBelow vars.length := nodesBelow_mono (length_variablesOf_le hsymbolic)
            _ = 2 ^ (vars.length + 1) - 2 := nodesBelow_eq _
            _ ≤ limits.nodes := hnodes
        obtain ⟨hending, -⟩ := affordable_search hslots (Seeds.of limits.width symbolic) .empty
          ⟨limits.nodes, true⟩ hbudget
        dsimp only [solve]
        split
        · simp
        · rename_i hsearch
          rw [hsearch] at hending
          exact absurd rfl hending
        · split <;> simp

/-! ## What a search costs -/

/-- Started with the given flag, the run has one cost.  With a budget of at least the cost it comes
to the same end and leaves the rest of the budget; with less it ends out of budget. -/
structure Costs (run : Progress → Ending × Progress) (exhaustive : Bool) (cost : Nat)
    (ending : Ending) (later : Bool) : Prop where
  settled : ending ≠ .outOfBudget
  paid : ∀ budget, cost ≤ budget → run ⟨budget, exhaustive⟩ = (ending, ⟨budget - cost, later⟩)
  unpaid : ∀ budget, budget < cost → (run ⟨budget, exhaustive⟩).1 = .outOfBudget

/-- Whatever flag it is started with, the run has a cost. -/
def Metered (run : Progress → Ending × Progress) : Prop :=
  ∀ exhaustive, ∃ cost ending later, Costs run exhaustive cost ending later

/-- A run that does not look at its budget costs nothing. -/
theorem Costs.free {run : Progress → Ending × Progress} {exhaustive later : Bool} {ending : Ending}
    (hsettled : ending ≠ .outOfBudget)
    (h : ∀ budget, run ⟨budget, exhaustive⟩ = (ending, ⟨budget, later⟩)) :
    Costs run exhaustive 0 ending later where
  settled := hsettled
  paid budget _ := h budget
  unpaid budget hless := absurd hless (Nat.not_lt_zero budget)

section TryValues

variable {action : Value → Progress → Ending × Progress} {v : Value} {rest : List Value}
  {exhaustive later : Bool} {cost : Nat} {ending : Ending}

/-- Each value costs one, whether or not its attempt can be paid for. -/
theorem tryValues_cons_unpaid (h : Costs (action v) exhaustive cost ending later) {budget : Nat}
    (hless : budget < cost + 1) :
    (tryValues action (v :: rest) ⟨budget, exhaustive⟩).1 = .outOfBudget := by
  cases budget with
  | zero => rfl
  | succ budget =>
      have hout := h.unpaid budget (by omega)
      simp only [tryValues]
      split
      · rename_i hattempt
        rw [hattempt] at hout
        cases hout
      · exact hout

/-- A value whose attempt is not exhausted is the last one tried. -/
theorem Costs.tryValues_stop (h : Costs (action v) exhaustive cost ending later)
    (hending : ending ≠ .exhausted) :
    Costs (tryValues action (v :: rest)) exhaustive (cost + 1) ending later where
  settled := h.settled
  paid budget hle := by
    obtain ⟨budget, rfl⟩ : ∃ left, budget = left + 1 := ⟨budget - 1, by omega⟩
    simp only [tryValues, h.paid budget (by omega), Nat.add_sub_add_right]
    split
    · rename_i hexhausted
      cases hexhausted
      exact absurd rfl hending
    · rfl
  unpaid budget hless := tryValues_cons_unpaid h hless

/-- Behind a value whose attempt is exhausted the others are tried with what is left. -/
theorem Costs.tryValues_next {cost' : Nat} {later' : Bool}
    (h : Costs (action v) exhaustive cost .exhausted later)
    (hrest : Costs (tryValues action rest) later cost' ending later') :
    Costs (tryValues action (v :: rest)) exhaustive (cost + 1 + cost') ending later' where
  settled := hrest.settled
  paid budget hle := by
    obtain ⟨budget, rfl⟩ : ∃ left, budget = left + 1 := ⟨budget - 1, by omega⟩
    have hleft : budget - cost - cost' = budget + 1 - (cost + 1 + cost') := by omega
    simp only [tryValues, h.paid budget (by omega), hrest.paid (budget - cost) (by omega), hleft]
  unpaid budget hless := by
    by_cases hfirst : budget < cost + 1
    · exact tryValues_cons_unpaid h hfirst
    · obtain ⟨budget, rfl⟩ : ∃ left, budget = left + 1 := ⟨budget - 1, by omega⟩
      simp only [tryValues, h.paid budget (by omega)]
      exact hrest.unpaid (budget - cost) (by omega)

theorem metered_tryValues {values : List Value} (h : ∀ v ∈ values, Metered (action v)) :
    Metered (tryValues action values) := by
  induction values with
  | nil =>
      intro exhaustive
      exact ⟨0, .exhausted, exhaustive, .free (by simp) fun _ => rfl⟩
  | cons v rest ih =>
      intro exhaustive
      obtain ⟨hv, hrest⟩ := List.forall_mem_cons.mp h
      obtain ⟨cost, ending, later, hcosts⟩ := hv exhaustive
      by_cases hending : ending = .exhausted
      · subst hending
        obtain ⟨cost', ending', later', hothers⟩ := ih hrest later
        exact ⟨_, _, _, hcosts.tryValues_next hothers⟩
      · exact ⟨_, _, _, hcosts.tryValues_stop hending⟩

end TryValues

theorem metered_attempt {seeds : Seeds} {rest : List Slot}
    (h : ∀ assignment, Metered (search seeds rest assignment)) (slot : Slot)
    (assignment : Assignment) (v : Value) : Metered (attempt seeds slot rest assignment v) := by
  intro exhaustive
  unfold attempt
  dsimp only
  split
  · exact h _ exhaustive
  · exact ⟨0, .exhausted, exhaustive, .free (by simp) fun _ => rfl⟩
  · exact ⟨0, .exhausted, false, .free (by simp) fun _ => rfl⟩

/-- Every search has a cost. -/
theorem metered_search (seeds : Seeds) (slots : List Slot) (assignment : Assignment) :
    Metered (search seeds slots assignment) := by
  induction slots generalizing assignment with
  | nil =>
      intro exhaustive
      exact ⟨0, .found assignment, exhaustive, .free (by simp) fun _ => rfl⟩
  | cons slot rest ih =>
      intro exhaustive
      have htried : Metered (tryValues (attempt seeds slot rest assignment)
          (domain seeds slot assignment).values) :=
        metered_tryValues fun v _ => metered_attempt ih slot assignment v
      obtain ⟨cost, ending, later, hcosts⟩ :=
        htried (exhaustive && (domain seeds slot assignment).complete)
      exact ⟨cost, ending, later, hcosts.settled, hcosts.paid, hcosts.unpaid⟩

/-- Below the cost of the search there is no answer, and from there on there is one. -/
theorem solve_of_costs {width cost : Nat} {symbolic : List Term} {ending : Ending} {later : Bool}
    (h : Costs (search (Seeds.of width symbolic) ((variablesOf symbolic).map (Slot.of symbolic))
      .empty) true cost ending later) :
    ∃ answer, answer ≠ .timeout ∧
      (∀ nodes, nodes < cost → solve ⟨nodes, width⟩ symbolic = .timeout) ∧
      ∀ nodes, cost ≤ nodes → solve ⟨nodes, width⟩ symbolic = answer := by
  have hunpaid : ∀ nodes, nodes < cost → solve ⟨nodes, width⟩ symbolic = .timeout := by
    intro nodes hless
    have hout := h.unpaid nodes hless
    simp only [solve]
    split
    · rename_i hsearch
      rw [hsearch] at hout
      cases hout
    · rfl
    · rename_i hsearch
      rw [hsearch] at hout
      cases hout
  cases ending with
  | found assignment =>
      refine ⟨.sat (modelOf (variablesOf symbolic) assignment), by simp, hunpaid, ?_⟩
      intro nodes hle
      simp only [solve, h.paid nodes hle]
  | outOfBudget => exact absurd rfl h.settled
  | exhausted =>
      refine ⟨if later then .unsat
        else .unknown "search space exhausted without a completeness guarantee",
        by split <;> simp, hunpaid, ?_⟩
      intro nodes hle
      simp only [solve, h.paid nodes hle]

/-- **The threshold of the budget.**  Whatever the assertions and the window are, there is a number
of values from which on the budget does not matter: with fewer the check runs out of its budget, and
with that many or more it gives one and the same answer. -/
theorem check_budget_threshold (width : Nat) (assertions : List Term) :
    ∃ threshold answer, answer ≠ .timeout ∧
      (∀ nodes, nodes < threshold → check ⟨nodes, width⟩ assertions = .timeout) ∧
      ∀ nodes, threshold ≤ nodes → check ⟨nodes, width⟩ assertions = answer := by
  cases hfind : (conjunctsAll assertions).find? fun t => t.sort ≠ .bool with
  | some t =>
      refine ⟨0, .unknown ("non-boolean assertion '" ++ t.render ++ "'"), by simp, by simp, ?_⟩
      intro nodes _
      simp only [check, hfind]
  | none =>
      cases hsettle : settleGround (conjunctsAll assertions) with
      | error answer =>
          refine ⟨0, answer, ?_, by simp, fun nodes _ => by simp only [check, hfind, hsettle]⟩
          rintro rfl
          exact settleGround_ne_timeout _ hsettle
      | ok symbolic =>
          have hsolve : ∀ nodes,
              check ⟨nodes, width⟩ assertions = solve ⟨nodes, width⟩ symbolic := by
            intro nodes
            simp only [check, hfind, hsettle]
          obtain ⟨cost, ending, later, hcosts⟩ := metered_search (Seeds.of width symbolic)
            ((variablesOf symbolic).map (Slot.of symbolic)) .empty true
          simp only [hsolve]
          exact ⟨cost, solve_of_costs hcosts⟩

end BranchWitness.Solver
