import BranchWitness.Proofs.Meaning
import BranchWitness.Resolve

/-!
# Well-sorted terms

Evaluation gives an ill-sorted operation no value, and nothing in the type of terms excludes one.
`Term.WellSorted` says that every operator of a term has operands of the sorts it is defined for.
The value of such a term has the sort that its outermost operator tells
(`WellSorted.sort_of_meaning`), replacing a variable by a term of its sort keeps it well-sorted
(`WellSorted.substitute`), and its truthiness means what the word says
(`WellSorted.meaning_truthy`).  What an operator of a program can build is said once, by
`Operator.Makes`.
-/

namespace BranchWitness

/-- Every operator of the term has operands of the sorts it is defined for. -/
inductive Term.WellSorted : Term → Prop
  | var (x : Var) : WellSorted (.var x)
  | const (v : Value) : WellSorted (.const v)
  | not {t : Term} : WellSorted t → t.sort = .bool → WellSorted (.not t)
  | and {ts : List Term} : (∀ t ∈ ts, WellSorted t) → (∀ t ∈ ts, t.sort = .bool) →
      WellSorted (.and ts)
  | or {ts : List Term} : (∀ t ∈ ts, WellSorted t) → (∀ t ∈ ts, t.sort = .bool) →
      WellSorted (.or ts)
  | neg {t : Term} : WellSorted t → t.sort = .int → WellSorted (.neg t)
  | cmp {op : CmpOp} {l r : Term} : WellSorted l → WellSorted r → l.sort = r.sort →
      (op.isOrdering = true → l.sort ≠ .bool) → WellSorted (.cmp op l r)
  | arith {op : ArithOp} {l r : Term} : WellSorted l → WellSorted r →
      (l.sort = .int ∧ r.sort = .int) ∨ (op = .add ∧ l.sort = .str ∧ r.sort = .str) →
      WellSorted (.arith op l r)

/-! ## Sorts of results -/

namespace Value

theorem exists_bool {v : Value} (h : v.sort = .bool) : ∃ b, v = .bool b := by
  cases v <;> simp_all [sort]

theorem exists_int {v : Value} (h : v.sort = .int) : ∃ n, v = .int n := by
  cases v <;> simp_all [sort]

theorem exists_str {v : Value} (h : v.sort = .str) : ∃ s, v = .str s := by
  cases v <;> simp_all [sort]

theorem sort_of_negate {v w : Value} (h : v.negate = .ok w) : w.sort = .int := by
  unfold negate at h
  split at h
  · cases h
  · split at h
    · cases h
      rfl
    · cases h

end Value

theorem ArithOp.sort_of_onNumbers {op : ArithOp} {v w result : Value}
    (h : op.onNumbers v w = .ok result) : result.sort = .int := by
  unfold onNumbers at h
  split at h
  · split at h
    · cases h
      rfl
    · cases h
  · cases h

theorem ArithOp.sort_of_apply_int {op : ArithOp} {n m : Int64} {result : Value}
    (h : op.apply (.int n) (.int m) = .ok result) : result.sort = .int := by
  have hnumbers : op.onNumbers (.int n) (.int m) = .ok result := by
    cases op <;> exact h
  exact sort_of_onNumbers hnumbers

theorem sort_of_concatTexts {s u : String} {result : Value} (h : concatTexts s u = .ok result) :
    result.sort = .str := by
  unfold concatTexts at h
  split at h
  · cases h
  · cases h
    rfl

namespace Meaning

theorem exists_of_ofResult {result : Except ValueError Value} {v : Value}
    (h : ofResult result = .known v) : result = .ok v := by
  cases result with
  | ok w => simpa [ofResult] using h
  | error _ => simp [ofResult] at h

theorem exists_of_lift {operation : Value → Meaning} {m : Meaning} {v : Value}
    (h : m.lift operation = .known v) : ∃ a, m = .known a ∧ operation a = .known v := by
  cases m <;> simp_all [lift]

theorem exists_of_lift₂ {operation : Value → Value → Meaning} {m n : Meaning} {v : Value}
    (h : m.lift₂ operation n = .known v) :
    ∃ a b, m = .known a ∧ n = .known b ∧ operation a b = .known v := by
  cases m <;> cases n <;> simp_all [lift₂]

theorem exists_of_not {m : Meaning} {v : Value} (h : m.not = .known v) : ∃ b, v = .bool b := by
  rcases m with (b | _ | _) | _ | _
  · exact ⟨!b, by simpa [not] using h.symm⟩
  all_goals simp [not] at h

/-- A connective that has a value has a truth value. -/
theorem exists_of_joinAll {deciding : Bool} {operands : List Meaning} {v : Value}
    (h : joinAll deciding operands = .known v) : ∃ b, v = .bool b := by
  induction operands generalizing v with
  | nil => exact ⟨!deciding, by simpa [joinAll] using h.symm⟩
  | cons m rest ih =>
      change m.join deciding (joinAll deciding rest) = .known v at h
      unfold join at h
      split at h
      · rename_i hm
        exact ⟨deciding, by simpa [hm] using h.symm⟩
      · split at h
        · exact ih h
        · split at h
          · cases h
          · cases h
          · exact ih h
          · cases h

end Meaning

/-- A well-sorted term has values of its own sort, provided its variables have. -/
theorem Term.WellSorted.sort_of_meaning {t : Term} (ht : t.WellSorted) {env : Environment}
    (henv : ∀ x ∈ t.occurrences, ∀ v, env x = .known v → v.sort = x.sort) {v : Value}
    (h : t.meaning env = .known v) : v.sort = t.sort := by
  induction ht generalizing v with
  | var x => exact henv x (by simp [occurrences]) v h
  | const w =>
      simp only [meaning, Meaning.known.injEq] at h
      rw [← h, Term.sort]
  | not _ _ _ =>
      rw [meaning] at h
      obtain ⟨b, rfl⟩ := Meaning.exists_of_not h
      rfl
  | and _ _ _ =>
      rw [meaning] at h
      obtain ⟨b, rfl⟩ := Meaning.exists_of_joinAll h
      rfl
  | or _ _ _ =>
      rw [meaning] at h
      obtain ⟨b, rfl⟩ := Meaning.exists_of_joinAll h
      rfl
  | neg _ _ _ =>
      rw [meaning] at h
      obtain ⟨a, -, hresult⟩ := Meaning.exists_of_lift h
      exact Value.sort_of_negate (Meaning.exists_of_ofResult hresult)
  | @cmp op l r _ _ _ _ _ _ =>
      rw [meaning] at h
      obtain ⟨a, b, -, -, hresult⟩ := Meaning.exists_of_lift₂ h
      have hok := Meaning.exists_of_ofResult hresult
      cases hcmp : op.apply a b with
      | ok truth =>
          rw [hcmp] at hok
          cases hok
          rfl
      | error _ => simp [hcmp, Except.map] at hok
  | @arith op l r _ _ hsorts ihl ihr =>
      rw [meaning] at h
      obtain ⟨a, b, ha, hb, hresult⟩ := Meaning.exists_of_lift₂ h
      have hok := Meaning.exists_of_ofResult hresult
      have hasort := ihl (fun x hx => henv x (List.mem_append_left _ hx)) ha
      have hbsort := ihr (fun x hx => henv x (List.mem_append_right _ hx)) hb
      rcases hsorts with ⟨hl, hr⟩ | ⟨rfl, hl, hr⟩
      · obtain ⟨n, rfl⟩ := Value.exists_int (hasort.trans hl)
        obtain ⟨m, rfl⟩ := Value.exists_int (hbsort.trans hr)
        have hsort : (Term.arith op l r).sort = .int := by cases op <;> simp [Term.sort, hl]
        rw [ArithOp.sort_of_apply_int hok, hsort]
      · obtain ⟨s, rfl⟩ := Value.exists_str (hasort.trans hl)
        obtain ⟨u, rfl⟩ := Value.exists_str (hbsort.trans hr)
        rw [sort_of_concatTexts hok]
        simp [Term.sort, hl]

/-! ## Substitution -/

namespace Term

variable {t replacement : Term} {id : Nat}

/-- Replacing a variable by a term of its sort keeps the sort of a term. -/
theorem sort_substitute (h : ∀ x ∈ t.occurrences, x.id = id → replacement.sort = x.sort) :
    (t.substitute id replacement).sort = t.sort := by
  induction t with
  | var x =>
      by_cases hx : x.id = id
      · simpa [substitute, hx, sort] using h x (by simp [occurrences]) hx
      · simp [substitute, hx]
  | arith op l r ihl _ =>
      have hl := ihl fun x hx => h x (List.mem_append_left _ hx)
      cases op <;> simp [substitute, sort, hl]
  | _ => simp [substitute, sort]

/-- Replacing a variable by a well-sorted term of its sort keeps a term well-sorted. -/
theorem WellSorted.substitute (ht : t.WellSorted) (hreplacement : replacement.WellSorted)
    (h : ∀ x ∈ t.occurrences, x.id = id → replacement.sort = x.sort) :
    (t.substitute id replacement).WellSorted := by
  induction ht with
  | var x =>
      by_cases hx : x.id = id
      · simpa [Term.substitute, hx] using hreplacement
      · simpa [Term.substitute, hx] using WellSorted.var x
  | const v => simpa [Term.substitute] using WellSorted.const v
  | @not t _ hsort ih =>
      have hkept : (t.substitute id replacement).sort = t.sort := sort_substitute h
      rw [Term.substitute]
      exact .not (ih h) (hkept.trans hsort)
  | and _ hsorts ih =>
      rw [Term.substitute, substituteAll_eq]
      have hmem : ∀ u ∈ _, ∀ x ∈ occurrences u, x.id = id → replacement.sort = x.sort :=
        fun u hu x hx => h x (by simpa [occurrences] using ⟨u, hu, hx⟩)
      refine .and (List.forall_mem_map.mpr fun u hu => ih u hu (hmem u hu))
        (List.forall_mem_map.mpr fun u hu => ?_)
      rw [sort_substitute (hmem u hu), hsorts u hu]
  | or _ hsorts ih =>
      rw [Term.substitute, substituteAll_eq]
      have hmem : ∀ u ∈ _, ∀ x ∈ occurrences u, x.id = id → replacement.sort = x.sort :=
        fun u hu x hx => h x (by simpa [occurrences] using ⟨u, hu, hx⟩)
      refine .or (List.forall_mem_map.mpr fun u hu => ih u hu (hmem u hu))
        (List.forall_mem_map.mpr fun u hu => ?_)
      rw [sort_substitute (hmem u hu), hsorts u hu]
  | @neg t _ hsort ih =>
      have hkept : (t.substitute id replacement).sort = t.sort := sort_substitute h
      rw [Term.substitute]
      exact .neg (ih h) (hkept.trans hsort)
  | cmp _ _ hsame hordered ihl ihr =>
      have hl := fun x hx => h x (List.mem_append_left _ hx)
      have hr := fun x hx => h x (List.mem_append_right _ hx)
      rw [Term.substitute]
      refine .cmp (ihl hl) (ihr hr) ?_ ?_
      · rw [sort_substitute hl, sort_substitute hr, hsame]
      · rw [sort_substitute hl]
        exact hordered
  | arith _ _ hsorts ihl ihr =>
      have hl := fun x hx => h x (List.mem_append_left _ hx)
      have hr := fun x hx => h x (List.mem_append_right _ hx)
      rw [Term.substitute]
      refine .arith (ihl hl) (ihr hr) ?_
      rw [sort_substitute hl, sort_substitute hr]
      exact hsorts

end Term

/-! ## Truthiness -/

/-- Whether a value counts as true: a number unless it is `0`, a text unless it is empty. -/
def Value.truth : Value → Bool
  | .bool b => b
  | .int n => !decide (n = 0)
  | .str s => !decide (s = "")

/-- The truth value that a meaning counts as. -/
def Meaning.truth (m : Meaning) : Meaning :=
  m.lift fun v => .known (.bool v.truth)

namespace Term

theorem truthy_of_bool {t : Term} (h : t.sort = .bool) : t.truthy = t := by
  simp [truthy, h]

theorem sort_truthy (t : Term) : t.truthy.sort = .bool := by
  unfold truthy
  split
  · assumption
  · rfl
  · rfl

theorem occurrences_truthy (t : Term) : t.truthy.occurrences = t.occurrences := by
  unfold truthy
  split <;> simp [occurrences]

namespace WellSorted

theorem truthy {t : Term} (ht : t.WellSorted) : t.truthy.WellSorted := by
  unfold Term.truthy
  split
  · exact ht
  · rename_i hsort
    exact .cmp ht (.const _) hsort (by simp [CmpOp.isOrdering])
  · rename_i hsort
    exact .cmp ht (.const _) hsort (by simp [CmpOp.isOrdering])

theorem truthy_iff {t : Term} : t.truthy.WellSorted ↔ t.WellSorted := by
  refine ⟨fun h => ?_, truthy⟩
  unfold Term.truthy at h
  split at h
  · exact h
  · cases h with
    | cmp ht _ _ _ => exact ht
  · cases h with
    | cmp ht _ _ _ => exact ht

/-- The truthiness of a term means what its value counts as. -/
theorem meaning_truthy {t : Term} (ht : t.WellSorted) {env : Environment}
    (henv : ∀ x ∈ t.occurrences, ∀ v, env x = .known v → v.sort = x.sort) :
    t.truthy.meaning env = (t.meaning env).truth := by
  have hsort : ∀ v, t.meaning env = .known v → v.sort = t.sort :=
    fun v => ht.sort_of_meaning henv
  unfold Term.truthy
  cases hm : t.meaning env with
  | known v =>
      have hv := hsort v hm
      split
      · rename_i ht
        obtain ⟨b, rfl⟩ := Value.exists_bool (hv.trans ht)
        rw [hm]
        rfl
      · rename_i ht
        obtain ⟨n, rfl⟩ := Value.exists_int (hv.trans ht)
        simp [meaning, hm, Meaning.lift₂, CmpOp.apply, Value.toInt?, CmpOp.test, Except.map,
          Meaning.ofResult, Meaning.truth, Meaning.lift, Value.truth]
      · rename_i ht
        obtain ⟨s, rfl⟩ := Value.exists_str (hv.trans ht)
        simp [meaning, hm, Meaning.lift₂, CmpOp.apply, CmpOp.test, Except.map,
          Meaning.ofResult, Meaning.truth, Meaning.lift, Value.truth]
  | unknown => split <;> simp [meaning, hm, Meaning.lift₂, Meaning.truth, Meaning.lift]
  | undefined => split <;> simp [meaning, hm, Meaning.lift₂, Meaning.truth, Meaning.lift]

end WellSorted

end Term

/-! ## What operators build -/

namespace Operator

/-- The terms that the operators make, with the sorts they ask of their operands. -/
inductive Makes : Operator → List Term → Term → Prop
  | and {ts : List Term} (hsorts : ∀ t ∈ ts, t.sort = .bool) : Makes .and ts (.and ts)
  | or {ts : List Term} (hsorts : ∀ t ∈ ts, t.sort = .bool) : Makes .or ts (.or ts)
  | not {t : Term} (hsort : t.sort = .bool) : Makes .not [t] (.not t)
  | negate {t : Term} (hsort : t.sort = .int) : Makes .negate [t] (.neg t)
  | cmp {op : CmpOp} {l r : Term} (hsame : l.sort = r.sort)
      (hordered : op.isOrdering = true → l.sort ≠ .bool) : Makes (.cmp op) [l, r] (.cmp op l r)
  | arith {op : ArithOp} {l r : Term}
      (hsorts : (l.sort = .int ∧ r.sort = .int) ∨ (op = .add ∧ l.sort = .str ∧ r.sort = .str)) :
      Makes (.arith op) [l, r] (.arith op l r)

theorem buildConnective_eq_ok {make : List Term → Term} {operands : List Term} {t : Term}
    (h : buildConnective make operands = .ok t) :
    t = make operands ∧ ∀ u ∈ operands, u.sort = .bool := by
  unfold buildConnective at h
  split at h
  · cases h
  · split at h
    · cases h
    · rename_i hnone
      cases h
      exact ⟨rfl, by simpa using List.find?_eq_none.mp hnone⟩

theorem buildUnary_eq_ok {make : Term → Term} {sort : ValueSort} {operands : List Term} {t : Term}
    (h : buildUnary make sort operands = .ok t) :
    ∃ u, operands = [u] ∧ t = make u ∧ u.sort = sort := by
  unfold buildUnary at h
  split at h
  · rename_i u
    split at h
    · rename_i hsort
      cases h
      exact ⟨u, rfl, rfl, hsort⟩
    · cases h
  · cases h

/-- What an operator makes of its operands when it does not refuse them. -/
theorem makes_of_construct {operator : Operator} {operands : List Term} {t : Term}
    (h : operator.construct operands = .ok t) : Makes operator operands t := by
  cases operator with
  | and =>
      obtain ⟨rfl, hsorts⟩ := buildConnective_eq_ok h
      exact .and hsorts
  | or =>
      obtain ⟨rfl, hsorts⟩ := buildConnective_eq_ok h
      exact .or hsorts
  | not =>
      obtain ⟨u, rfl, rfl, hsort⟩ := buildUnary_eq_ok h
      exact .not hsort
  | negate =>
      obtain ⟨u, rfl, rfl, hsort⟩ := buildUnary_eq_ok h
      exact .negate hsort
  | cmp op =>
      simp only [construct] at h
      unfold buildComparison at h
      split at h
      · split at h
        · cases h
        · rename_i hsame
          split at h
          · cases h
          · rename_i hordered
            cases h
            exact .cmp (by simpa using hsame) fun hop hbool => hordered ⟨hop, hbool⟩
      · cases h
  | arith op =>
      simp only [construct] at h
      unfold buildArithmetic at h
      split at h
      · split at h
        · rename_i hsorts
          cases h
          exact .arith hsorts
        · cases h
      · cases h

end Operator

end BranchWitness
