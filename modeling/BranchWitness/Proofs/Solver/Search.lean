import BranchWitness.Proofs.Solver.Candidates
import BranchWitness.Solver.Search

/-!
# What the end of a search says

Two statements about the search over the slots of a list of conjuncts, each by induction on the
slots still to come.

* **Exhaustion.**  A search that ends exhausted and still exhaustive has refuted everything: every
  assignment that extends the one it started from, with values of the right sorts, refutes some
  conjunct (`exists_refuted_of_exhausted`).  At a slot the values that extend to a solution are
  not enumerated one by one; `exists_candidate` trades the value at hand for one that was tried.
* **Success.**  An assignment that is found has a value of the right sort for every slot, and all
  conjuncts with a variable among the slots are true in it (`found_spec`).  A conjunct is looked
  at after each of its variables; the last of these looks sees all of them and settles it.
-/

namespace BranchWitness.Solver

/-! ## One value and all values -/

/-- Try one value for the variable of a slot. -/
def attempt (seeds : Seeds) (slot : Slot) (rest : List Slot) (assignment : Assignment) (v : Value)
    (progress : Progress) : Ending × Progress :=
  let extended := assignment.set slot.target.id v
  match standing extended slot.conjuncts with
  | .possible => search seeds rest extended progress
  | .refuted => (.exhausted, progress)
  | .undefined => (.exhausted, { progress with exhaustive := false })

theorem search_cons (seeds : Seeds) (slot : Slot) (rest : List Slot) (assignment : Assignment)
    (progress : Progress) :
    search seeds (slot :: rest) assignment progress =
      tryValues (attempt seeds slot rest assignment) (domain seeds slot assignment).values
        { progress with
          exhaustive := progress.exhaustive && (domain seeds slot assignment).complete } := rfl

section TryValues

variable {action : Value → Progress → Ending × Progress}

/-- Attempts that do not restore exhaustiveness do not restore it together. -/
theorem tryValues_exhaustive
    (hkeeps : ∀ v before ending after, action v before = (ending, after) →
      after.exhaustive = true → before.exhaustive = true)
    {values : List Value} {before after : Progress} {ending : Ending}
    (h : tryValues action values before = (ending, after)) (hafter : after.exhaustive = true) :
    before.exhaustive = true := by
  induction values generalizing before with
  | nil =>
      cases h
      exact hafter
  | cons v rest ih =>
      unfold tryValues at h
      split at h
      · cases h
        exact hafter
      · rename_i budget _
        cases hattempt : action v { before with budget } with
        | mk result later =>
            have hbefore : later.exhaustive = true → before.exhaustive = true :=
              hkeeps v { before with budget } _ _ hattempt
            cases result with
            | exhausted =>
                rw [hattempt] at h
                exact hbefore (ih h)
            | found assignment =>
                simp only [hattempt, Prod.mk.injEq] at h
                exact hbefore (h.2 ▸ hafter)
            | outOfBudget =>
                simp only [hattempt, Prod.mk.injEq] at h
                exact hbefore (h.2 ▸ hafter)

/-- Within the budget the first value decides, unless its attempt ends exhausted. -/
theorem tryValues_cons {v : Value} {values : List Value} {before after : Progress}
    {ending : Ending} (h : tryValues action (v :: values) before = (ending, after))
    (hbudget : ending ≠ .outOfBudget) :
    ∃ start result stop, action v start = (result, stop) ∧ result ≠ .outOfBudget ∧
      (result = .exhausted ∧ tryValues action values stop = (ending, after) ∨
        result ≠ .exhausted ∧ ending = result) := by
  unfold tryValues at h
  split at h
  · cases h
    exact absurd rfl hbudget
  · rename_i budget _
    cases hattempt : action v { before with budget } with
    | mk result stop =>
        refine ⟨_, result, stop, hattempt, ?_⟩
        rw [hattempt] at h
        cases result with
        | exhausted => exact ⟨by simp, .inl ⟨rfl, h⟩⟩
        | found assignment =>
            cases h
            exact ⟨by simp, .inr ⟨by simp, rfl⟩⟩
        | outOfBudget =>
            cases h
            exact absurd rfl hbudget

/-- When all values are exhausted, so was the attempt at each of them. -/
theorem tryValues_exhausted
    (hkeeps : ∀ v before ending after, action v before = (ending, after) →
      after.exhaustive = true → before.exhaustive = true)
    {values : List Value} {before after : Progress}
    (h : tryValues action values before = (.exhausted, after)) {v : Value} (hv : v ∈ values) :
    ∃ start stop, action v start = (.exhausted, stop) ∧
      (after.exhaustive = true → stop.exhaustive = true) := by
  induction values generalizing before with
  | nil => simp at hv
  | cons w rest ih =>
      obtain ⟨start, result, stop, hattempt, -, ⟨rfl, hnext⟩ | ⟨hdone, hending⟩⟩ :=
        tryValues_cons h (by simp)
      · rcases List.mem_cons.mp hv with rfl | hrest
        · exact ⟨start, stop, hattempt, tryValues_exhaustive hkeeps hnext⟩
        · exact ih hnext hrest
      · exact absurd hending.symm hdone

/-- What is found is found at one of the values, after the attempts at those in front of it were
exhausted. -/
theorem tryValues_found {values : List Value} {before after : Progress} {found : Assignment}
    (h : tryValues action values before = (.found found, after)) :
    ∃ front v back, values = front ++ v :: back ∧
      (∀ w ∈ front, ∃ start stop, action w start = (.exhausted, stop)) ∧
      ∃ start stop, action v start = (.found found, stop) := by
  induction values generalizing before with
  | nil => cases h
  | cons v rest ih =>
      obtain ⟨start, result, stop, hattempt, -, ⟨rfl, hnext⟩ | ⟨-, rfl⟩⟩ :=
        tryValues_cons h (by simp)
      · obtain ⟨front, w, back, rfl, hfront, hfound⟩ := ih hnext
        refine ⟨v :: front, w, back, rfl, ?_, hfound⟩
        exact List.forall_mem_cons.mpr ⟨⟨start, stop, hattempt⟩, hfront⟩
      · exact ⟨[], v, rest, rfl, by simp, start, stop, hattempt⟩

end TryValues

/-! ## Standing -/

theorem standing_refuted {assignment : Assignment} {conjuncts : List Term}
    (h : standing assignment conjuncts = .refuted) : ∃ t ∈ conjuncts, Refuted assignment t := by
  fun_induction standing assignment conjuncts with
  | case1 => cases h
  | case2 t rest heval ih =>
      obtain ⟨u, hu, hrefuted⟩ := ih h
      exact ⟨u, List.mem_cons_of_mem _ hu, hrefuted⟩
  | case3 => cases h
  | case4 t rest heval ih =>
      obtain ⟨u, hu, hrefuted⟩ := ih h
      exact ⟨u, List.mem_cons_of_mem _ hu, hrefuted⟩
  | case5 t rest v heval hfalse => exact ⟨t, List.mem_cons_self, v, heval, hfalse⟩

theorem standing_possible {assignment : Assignment} {conjuncts : List Term}
    (h : standing assignment conjuncts = .possible) {t : Term} (ht : t ∈ conjuncts) :
    t.eval assignment = .unknown ∨ t.Holds assignment := by
  fun_induction standing assignment conjuncts with
  | case1 => simp at ht
  | case2 u rest heval ih =>
      rcases List.mem_cons.mp ht with rfl | ht
      · exact .inl heval
      · exact ih h ht
  | case3 => cases h
  | case4 u rest heval ih =>
      rcases List.mem_cons.mp ht with rfl | ht
      · exact .inr heval
      · exact ih h ht
  | case5 => cases h

theorem standing_possible_iff {assignment : Assignment} {conjuncts : List Term} :
    standing assignment conjuncts = .possible ↔
      ∀ t ∈ conjuncts, t.eval assignment = .unknown ∨ t.Holds assignment := by
  refine ⟨fun h t ht => standing_possible h ht, fun h => ?_⟩
  induction conjuncts with
  | nil => rfl
  | cons t rest ih =>
      obtain ⟨ht, hrest⟩ := List.forall_mem_cons.mp h
      rcases ht with hunknown | hholds
      · simp only [standing, hunknown, ih hrest]
      · rw [Term.Holds] at hholds
        simp only [standing, hholds, if_true, ih hrest]

section Attempt

variable {seeds : Seeds} {slot : Slot} {rest : List Slot} {assignment : Assignment} {v : Value}

theorem attempt_of_possible
    (h : standing (assignment.set slot.target.id v) slot.conjuncts = .possible)
    (start : Progress) : attempt seeds slot rest assignment v start =
      search seeds rest (assignment.set slot.target.id v) start := by
  simp only [attempt, h]

theorem eq_exhausted_of_attempt {start stop : Progress} {result : Ending}
    (hattempt : attempt seeds slot rest assignment v start = (result, stop))
    (h : standing (assignment.set slot.target.id v) slot.conjuncts ≠ .possible) :
    result = .exhausted := by
  unfold attempt at hattempt
  dsimp only at hattempt
  split at hattempt
  · rename_i hpossible
    exact absurd hpossible h
  · cases hattempt
    rfl
  · cases hattempt
    rfl

end Attempt

/-! ## Exhaustion -/

theorem attempt_exhaustive_of {seeds : Seeds} {slot : Slot} {rest : List Slot}
    (hrest : ∀ {assignment before ending after},
      search seeds rest assignment before = (ending, after) →
        after.exhaustive = true → before.exhaustive = true)
    (assignment : Assignment) (v : Value) (before : Progress) (ending : Ending) (after : Progress)
    (h : attempt seeds slot rest assignment v before = (ending, after))
    (hafter : after.exhaustive = true) : before.exhaustive = true := by
  unfold attempt at h
  dsimp only at h
  split at h
  · exact hrest h hafter
  · cases h
    exact hafter
  · cases h
    cases hafter

/-- What a search has given up is not taken back. -/
theorem search_exhaustive {seeds : Seeds} {slots : List Slot} {assignment : Assignment}
    {before : Progress} {ending : Ending} {after : Progress}
    (h : search seeds slots assignment before = (ending, after))
    (hafter : after.exhaustive = true) : before.exhaustive = true := by
  induction slots generalizing assignment before ending after with
  | nil =>
      cases h
      exact hafter
  | cons slot rest ih =>
      rw [search_cons] at h
      have hboth := tryValues_exhaustive (attempt_exhaustive_of ih assignment) h hafter
      exact (Bool.and_eq_true_iff.mp hboth).1

theorem attempt_exhaustive {seeds : Seeds} {slot : Slot} {rest : List Slot}
    {assignment : Assignment} (v : Value) (before : Progress) (ending : Ending) (after : Progress)
    (h : attempt seeds slot rest assignment v before = (ending, after)) :
    after.exhaustive = true → before.exhaustive = true :=
  attempt_exhaustive_of search_exhaustive assignment v before ending after h

theorem Refuted.of_extends {larger smaller : Assignment} {t : Term}
    (hextends : larger.Extends smaller) (h : Refuted smaller t) : Refuted larger t := by
  obtain ⟨v, hv, hfalse⟩ := h
  refine ⟨v, ?_, hfalse⟩
  rw [Term.eval_of_extends hextends (by simp [hv]), hv]

/-- An assignment that gives every variable of the list a value of its sort. -/
def Respects (assignment : Assignment) (vars : List Var) : Prop :=
  ∀ x ∈ vars, ∃ v, assignment x.id = some v ∧ v.sort = x.sort

/-- **Exhaustion.**  After an exhaustive search every assignment that extends the start refutes
some conjunct. -/
theorem exists_refuted_of_exhausted {seeds : Seeds} (hzero : (0 : Int64) ∈ seeds.ints)
    {conjuncts : List Term} {vars : List Var}
    (hdistinct : vars.Pairwise fun first second => first.id ≠ second.id)
    {assignment : Assignment} {before after : Progress}
    (h : search seeds (vars.map (Slot.of conjuncts)) assignment before = (.exhausted, after))
    (hafter : after.exhaustive = true) {larger : Assignment}
    (hextends : larger.Extends assignment) (hrespects : Respects larger vars) :
    ∃ t ∈ conjuncts, Refuted larger t := by
  induction vars generalizing assignment before after larger with
  | nil => cases h
  | cons x rest ih =>
      rw [List.map_cons, search_cons] at h
      obtain ⟨hx, hrest⟩ := List.pairwise_cons.mp hdistinct
      have hcomplete :=
        (Bool.and_eq_true_iff.mp (tryValues_exhaustive attempt_exhaustive h hafter)).2
      obtain ⟨v, hv, hsort⟩ := hrespects x List.mem_cons_self
      rcases exists_candidate hzero hcomplete hextends hv hsort with hrefuted | ⟨w, hw, halike, -⟩
      · exact hrefuted
      -- from here on `w` stands for the value `v` of the given assignment
      suffices hsuffices : ∃ t ∈ conjuncts, Refuted (larger.set x.id w) t by
        obtain ⟨t, ht, hrefuted⟩ := hsuffices
        exact ⟨t, ht, hrefuted.of_alike (halike t ht)⟩
      have hset : (larger.set x.id w).Extends (assignment.set x.id w) := hextends.set x.id w
      obtain ⟨start, stop, hattempt, hstop⟩ := tryValues_exhausted attempt_exhaustive h hw
      unfold attempt at hattempt
      dsimp only [Slot.target_of] at hattempt
      split at hattempt
      · refine ih hrest hattempt (hstop hafter) hset fun y hy => ?_
        obtain ⟨u, hu, husort⟩ := hrespects y (List.mem_cons_of_mem _ hy)
        exact ⟨u, by simp [Assignment.set, (hx y hy).symm, hu], husort⟩
      · rename_i hstanding
        obtain ⟨t, ht, hrefuted⟩ := standing_refuted hstanding
        exact ⟨t, (mem_conjuncts_of.mp ht).1, hrefuted.of_extends hset⟩
      · cases hattempt
        cases hstop hafter

/-! ## Success -/

/-- **Success.**  What is found extends the start by a value of the right sort for every slot, and
the conjuncts with a variable among the slots are true. -/
theorem found_spec {seeds : Seeds} {conjuncts : List Term} {vars : List Var}
    (hdistinct : vars.Pairwise fun first second => first.id ≠ second.id)
    {assignment : Assignment} {before after : Progress} {found : Assignment}
    (h : search seeds (vars.map (Slot.of conjuncts)) assignment before = (.found found, after)) :
    Respects found vars ∧ (∀ id, (∀ x ∈ vars, x.id ≠ id) → found id = assignment id) ∧
      ∀ t ∈ conjuncts, (∃ x ∈ vars, t.mentions x.id = true) →
        (∀ y ∈ t.occurrences, ∃ v, found y.id = some v) → t.Holds found := by
  induction vars generalizing assignment before after with
  | nil =>
      cases h
      exact ⟨by simp [Respects], fun _ _ => rfl, by simp⟩
  | cons x rest ih =>
      obtain ⟨hx, hrest⟩ := List.pairwise_cons.mp hdistinct
      rw [List.map_cons, search_cons] at h
      obtain ⟨front, v, back, hvalues, -, start, stop, hattempt⟩ := tryValues_found h
      have hv : v ∈ (domain seeds (Slot.of conjuncts x) assignment).values := by simp [hvalues]
      unfold attempt at hattempt
      dsimp only [Slot.target_of] at hattempt
      split at hattempt
      · rename_i hstanding
        obtain ⟨hrespects, hframe, hholds⟩ := ih hrest hattempt
        have hvalue : found x.id = some v := by
          rw [hframe x.id fun y hy => (hx y hy).symm]
          simp [Assignment.set]
        refine ⟨?_, ?_, ?_⟩
        · -- values of the right sorts
          intro y hy
          rcases List.mem_cons.mp hy with rfl | hy
          · exact ⟨v, hvalue, sort_of_mem_domain hv⟩
          · exact hrespects y hy
        · -- other variables keep their values
          intro id hid
          obtain ⟨hne, hothers⟩ := List.forall_mem_cons.mp hid
          rw [hframe id hothers]
          simp [Assignment.set, hne.symm]
        · -- a conjunct without later variables is settled by the values so far
          intro t ht hmentions hassigned
          by_cases hlater : ∃ y ∈ rest, t.mentions y.id = true
          · exact hholds t ht hlater hassigned
          · have hnow : t.mentions x.id = true := by
              obtain ⟨y, hy, hmention⟩ := hmentions
              rcases List.mem_cons.mp hy with rfl | hy
              · exact hmention
              · exact absurd ⟨y, hy, hmention⟩ hlater
            have hsame : ∀ y ∈ t.occurrences,
                (assignment.set x.id v) y.id = found y.id := by
              intro y hy
              refine (hframe y.id fun z hz hid => hlater ⟨z, hz, ?_⟩).symm
              exact Term.mentions_iff.mpr ⟨y, hy, hid.symm⟩
            have heval : t.eval (assignment.set x.id v) = t.eval found := Term.eval_congr hsame
            have hsettled : t.eval found ≠ .unknown := Term.eval_ne_unknown hassigned
            have hpossible := standing_possible hstanding (mem_conjuncts_of.mpr ⟨ht, hnow⟩)
            unfold Term.Holds at hpossible ⊢
            rw [heval] at hpossible
            exact hpossible.resolve_left hsettled
      · cases hattempt
      · cases hattempt

end BranchWitness.Solver
