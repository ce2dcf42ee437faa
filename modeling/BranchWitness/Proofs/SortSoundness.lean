import BranchWitness.Proofs.Resolution

/-!
# Sorts of values

The sort of a term is read off its outermost operator, and its value is computed by operators that
accept more than the sorts they are meant for.  For well-sorted terms the two fit together.  Under
an assignment that gives variables values of their sorts:

* a value of the term has the sort of the term;
* the term is not unknown, once all its variables have values;
* the term is not undefined, unless it calculates: a sum can overflow, and so can a negative, but
  connectives and comparisons of operands of their sorts have a result
  (`Term.WellSorted.eval_ofSort`).

All this survives the replacement of a variable by a term of its sort.  So does what operators ask
of their operands when they build a term (`Term.Built`): they look at the sorts only
(`Operator.construct_substitute`).
-/

namespace BranchWitness

/-! ## Meanings that fit a sort -/

namespace Meaning

/-- A value of the sort, or none yet. -/
def OfSort (sort : ValueSort) (m : Meaning) : Prop :=
  m = .unknown ∨ ∃ v, m = .known v ∧ v.sort = sort

/-- A truth value, or none yet. -/
def Truth (m : Meaning) : Prop :=
  m = .unknown ∨ ∃ b, m = .known (.bool b)

theorem ofSort_bool_iff {m : Meaning} : m.OfSort .bool ↔ m.Truth := by
  constructor
  · rintro (rfl | ⟨v, rfl, hsort⟩)
    · exact .inl rfl
    · obtain ⟨b, rfl⟩ := Value.exists_bool hsort
      exact .inr ⟨b, rfl⟩
  · rintro (rfl | ⟨b, rfl⟩)
    · exact .inl rfl
    · exact .inr ⟨.bool b, rfl, rfl⟩

theorem OfSort.ne_undefined {sort : ValueSort} {m : Meaning} (h : m.OfSort sort) :
    m ≠ .undefined := by
  obtain rfl | ⟨v, rfl, -⟩ := h <;> simp

namespace Truth

theorem not {m : Meaning} (h : m.Truth) : m.not.Truth := by
  obtain rfl | ⟨b, rfl⟩ := h
  · exact .inl rfl
  · exact .inr ⟨!b, rfl⟩

theorem join {m rest : Meaning} (deciding : Bool) (h : m.Truth) (hrest : rest.Truth) :
    (m.join deciding rest).Truth := by
  unfold Meaning.join
  split
  · exact h
  · split
    · exact hrest
    · obtain rfl | ⟨b, rfl⟩ := h
      · exact .inl rfl
      · obtain rfl | ⟨c, rfl⟩ := hrest
        · exact .inl rfl
        · exact .inr ⟨c, rfl⟩

theorem joinAll (deciding : Bool) {operands : List Meaning} (h : ∀ m ∈ operands, m.Truth) :
    (Meaning.joinAll deciding operands).Truth := by
  induction operands with
  | nil => exact .inr ⟨!deciding, rfl⟩
  | cons m rest ih =>
      obtain ⟨hm, hrest⟩ := List.forall_mem_cons.mp h
      exact join deciding hm (ih hrest)

theorem ne_undefined {m : Meaning} (h : m.Truth) : m ≠ .undefined :=
  (ofSort_bool_iff.mpr h).ne_undefined

end Truth

end Meaning

/-- Values of one sort can be compared. -/
theorem CmpOp.exists_apply_eq_ok (op : CmpOp) {v w : Value} (h : v.sort = w.sort) :
    ∃ b, op.apply v w = .ok b := by
  cases v with
  | bool a => obtain ⟨b, rfl⟩ := Value.exists_bool h.symm; exact ⟨_, rfl⟩
  | int a => obtain ⟨b, rfl⟩ := Value.exists_int h.symm; exact ⟨_, rfl⟩
  | str a => obtain ⟨b, rfl⟩ := Value.exists_str h.symm; exact ⟨_, rfl⟩

/-- A comparison of operands of one sort is a truth value. -/
theorem Meaning.OfSort.compare {sort : ValueSort} {m n : Meaning} (op : CmpOp) (hm : m.OfSort sort)
    (hn : n.OfSort sort) :
    (m.lift₂ (fun a b => .ofResult ((op.apply a b).map .bool)) n).Truth := by
  obtain rfl | ⟨v, rfl, hv⟩ := hm
  · obtain rfl | ⟨w, rfl, -⟩ := hn <;> exact .inl rfl
  · obtain rfl | ⟨w, rfl, hw⟩ := hn
    · exact .inl rfl
    · obtain ⟨b, hb⟩ := op.exists_apply_eq_ok (hv.trans hw.symm)
      rw [Meaning.lift₂, hb]
      exact .inr ⟨b, rfl⟩

/-! ## Assignments that fit the variables -/

/-- The values that the assignment gives to the variables of the list are of their sorts. -/
def Assignment.Suits (assignment : Assignment) (vars : List Var) : Prop :=
  ∀ x ∈ vars, ∀ v, assignment x.id = some v → v.sort = x.sort

namespace Assignment.Suits

variable {assignment : Assignment} {vars : List Var}

theorem subset {fewer : List Var} (h : assignment.Suits vars) (hsubset : fewer ⊆ vars) :
    assignment.Suits fewer :=
  fun x hx => h x (hsubset hx)

/-- A value of the right sort for a variable suits the others too if each number has one sort. -/
theorem set (h : assignment.Suits vars) {target : Var} {value : Value}
    (hsort : ∀ x ∈ vars, x.id = target.id → value.sort = x.sort) :
    (assignment.set target.id value).Suits vars := by
  intro x hx v hv
  by_cases hid : x.id = target.id
  · rw [Assignment.set, if_pos hid, Option.some_inj] at hv
    exact hv ▸ hsort x hx hid
  · rw [Assignment.set, if_neg hid] at hv
    exact h x hx v hv

/-- A value that a variable has in the environment of the assignment is one of its sort. -/
theorem environment (h : assignment.Suits vars) :
    ∀ x ∈ vars, ∀ v, assignment.environment x = .known v → v.sort = x.sort := by
  intro x hx v hv
  cases hvalue : assignment x.id with
  | none =>
      rw [Assignment.environment_of_none hvalue] at hv
      cases hv
  | some w =>
      rw [Assignment.environment_of_some hvalue, Meaning.known.injEq] at hv
      exact hv ▸ h x hx w hvalue

end Assignment.Suits

namespace Term

/-! ## Terms that do not calculate -/

mutual

/-- Whether there is arithmetic in the term. -/
def calculates : Term → Bool
  | var _ => false
  | const _ => false
  | not t => calculates t
  | and ts => calculatesAny ts
  | or ts => calculatesAny ts
  | neg _ => true
  | cmp _ l r => calculates l || calculates r
  | arith _ _ _ => true

/-- Whether there is arithmetic in some of the terms. -/
def calculatesAny : List Term → Bool
  | [] => false
  | t :: ts => calculates t || calculatesAny ts

end

theorem calculates_of_mem {t : Term} {ts : List Term} (h : calculatesAny ts = false)
    (ht : t ∈ ts) : t.calculates = false := by
  induction ts with
  | nil => cases ht
  | cons u us ih =>
      rw [calculatesAny, Bool.or_eq_false_iff] at h
      rcases List.mem_cons.mp ht with rfl | hus
      · exact h.1
      · exact ih h.2 hus

variable {t : Term} {assignment : Assignment}

theorem occurrences_subset_and {ts : List Term} (ht : t ∈ ts) :
    t.occurrences ⊆ (Term.and ts).occurrences := by
  intro x hx
  simpa [occurrences] using ⟨t, ht, hx⟩

theorem occurrences_subset_or {ts : List Term} (ht : t ∈ ts) :
    t.occurrences ⊆ (Term.or ts).occurrences :=
  occurrences_subset_and ht

/-- A variable has a value of its sort or none yet. -/
theorem eval_var_ofSort {x : Var} (h : assignment.Suits [x]) :
    ((Term.var x).eval assignment).OfSort x.sort := by
  rw [Term.eval]
  cases hx : assignment x.id with
  | none => exact .inl rfl
  | some v => exact .inr ⟨v, rfl, h x List.mem_cons_self v hx⟩

theorem eval_const_ofSort (v : Value) : ((Term.const v).eval assignment).OfSort v.sort :=
  .inr ⟨v, by rw [Term.eval], rfl⟩

/-- A well-sorted term that does not calculate has a value of its sort, or none yet because a
variable has none. -/
theorem WellSorted.eval_ofSort (ht : t.WellSorted) (hplain : t.calculates = false)
    (hsuits : assignment.Suits t.occurrences) : (t.eval assignment).OfSort t.sort := by
  induction ht with
  | var x => exact eval_var_ofSort hsuits
  | const v => exact eval_const_ofSort v
  | not _ hsort ih =>
      have hoperand := ih (by rwa [calculates] at hplain) hsuits
      rw [hsort, Meaning.ofSort_bool_iff] at hoperand
      rw [Term.eval]
      exact Meaning.ofSort_bool_iff.mpr hoperand.not
  | and _ hsorts ih =>
      rw [calculates] at hplain
      rw [Term.eval, evalAll_eq]
      refine Meaning.ofSort_bool_iff.mpr (.joinAll false (List.forall_mem_map.mpr fun u hu => ?_))
      rw [← Meaning.ofSort_bool_iff, ← hsorts u hu]
      exact ih u hu (calculates_of_mem hplain hu) (hsuits.subset (occurrences_subset_and hu))
  | or _ hsorts ih =>
      rw [calculates] at hplain
      rw [Term.eval, evalAll_eq]
      refine Meaning.ofSort_bool_iff.mpr (.joinAll true (List.forall_mem_map.mpr fun u hu => ?_))
      rw [← Meaning.ofSort_bool_iff, ← hsorts u hu]
      exact ih u hu (calculates_of_mem hplain hu) (hsuits.subset (occurrences_subset_or hu))
  | neg _ _ _ => cases hplain
  | @cmp op l r _ _ hsame _ ihl ihr =>
      rw [calculates, Bool.or_eq_false_iff] at hplain
      have hl := ihl hplain.1 (hsuits.subset (List.subset_append_left _ _))
      have hr := ihr hplain.2 (hsuits.subset (List.subset_append_right _ _))
      rw [← hsame] at hr
      rw [Term.eval]
      exact Meaning.ofSort_bool_iff.mpr (hl.compare op hr)
  | arith _ _ _ _ _ => cases hplain

/-! ## Terms that operators build -/

/-- The terms that operators build from variables and constants. -/
inductive Built : Term → Prop
  | var (x : Var) : Built (.var x)
  | const (v : Value) : Built (.const v)
  | construct {operator : Operator} {operands : List Term} {t : Term}
      (h : operator.construct operands = .ok t) (hoperands : ∀ u ∈ operands, Built u) : Built t

theorem Built.wellSorted (h : t.Built) : t.WellSorted := by
  induction h with
  | var x => exact .var x
  | const v => exact .const v
  | construct h _ ih => exact (Operator.makes_of_construct h).wellSorted_iff.mpr ih

end Term

namespace Operator

theorem ne_nil_of_buildConnective {make : List Term → Term} {operands : List Term} {t : Term}
    (h : buildConnective make operands = .ok t) : operands ≠ [] := by
  rintro rfl
  cases h

theorem buildConnective_map {make : List Term → Term} {operands : List Term} {t : Term}
    {change : Term → Term} (h : buildConnective make operands = .ok t)
    (hsorts : ∀ u ∈ operands, (change u).sort = u.sort) :
    buildConnective make (operands.map change) = .ok (make (operands.map change)) := by
  obtain ⟨-, hbools⟩ := buildConnective_eq_ok h
  refine buildConnective_of_bools (by simpa using ne_nil_of_buildConnective h) ?_
  exact List.forall_mem_map.mpr fun u hu => (hsorts u hu).trans (hbools u hu)

/-- An operator that builds a term builds it with a variable replaced in the operands too, as long
as their sorts stay. -/
theorem construct_substitute {operator : Operator} {operands : List Term} {t replacement : Term}
    {id : Nat} (h : operator.construct operands = .ok t)
    (hsorts : ∀ u ∈ operands, (u.substitute id replacement).sort = u.sort) :
    operator.construct (operands.map fun u => u.substitute id replacement) =
      .ok (t.substitute id replacement) := by
  cases makes_of_construct h with
  | and _ =>
      rw [Term.substitute, Term.substituteAll_eq]
      have hbuilt : buildConnective .and operands = .ok (.and operands) := h
      exact buildConnective_map hbuilt hsorts
  | or _ =>
      rw [Term.substitute, Term.substituteAll_eq]
      have hbuilt : buildConnective .or operands = .ok (.or operands) := h
      exact buildConnective_map hbuilt hsorts
  | not hsort =>
      have hkept := (hsorts _ List.mem_cons_self).trans hsort
      rw [Term.substitute]
      exact if_pos hkept
  | negate hsort =>
      have hkept := (hsorts _ List.mem_cons_self).trans hsort
      rw [Term.substitute]
      exact if_pos hkept
  | cmp hsame hordered =>
      rw [List.forall_mem_cons, List.forall_mem_singleton] at hsorts
      obtain ⟨hl, hr⟩ := hsorts
      rw [Term.substitute]
      simp only [List.map_cons, List.map_nil, construct, buildComparison, hl, hr]
      rw [if_neg (not_not_intro hsame), if_neg fun hbool => hordered hbool.1 hbool.2]
  | arith hoperands =>
      rw [List.forall_mem_cons, List.forall_mem_singleton] at hsorts
      obtain ⟨hl, hr⟩ := hsorts
      rw [Term.substitute]
      simp only [List.map_cons, List.map_nil, construct, buildArithmetic, hl, hr]
      exact if_pos hoperands

end Operator

namespace Term

variable {t replacement : Term} {id : Nat}

/-- Replacing a variable by a term of its sort keeps what operators build. -/
theorem Built.substitute (ht : t.Built) (hreplacement : replacement.Built)
    (h : ∀ x ∈ t.occurrences, x.id = id → replacement.sort = x.sort) :
    (t.substitute id replacement).Built := by
  induction ht with
  | var x =>
      by_cases hx : x.id = id
      · simpa [Term.substitute, hx] using hreplacement
      · simpa [Term.substitute, hx] using Built.var x
  | const v => simpa [Term.substitute] using Built.const v
  | @construct operator operands t hbuilt _ ih =>
      have hoccurs : ∀ u ∈ operands, ∀ x ∈ u.occurrences, x.id = id →
          replacement.sort = x.sort := by
        intro u hu x hx
        refine h x ?_
        rw [(Operator.makes_of_construct hbuilt).occurrences_eq]
        exact List.mem_flatMap.mpr ⟨u, hu, hx⟩
      refine .construct (Operator.construct_substitute hbuilt fun u hu => ?_) ?_
      · exact sort_substitute (hoccurs u hu)
      · exact List.forall_mem_map.mpr fun u hu => ih u hu (hoccurs u hu)

/-- **Sorts are sound.**  Under values of their sorts for the variables, a well-sorted term has
values of its own sort only.  It is not unknown if all its variables have values, and not undefined
if there is no arithmetic in it.  Replacing a variable by a well-sorted term of its sort gives a
well-sorted term of the same sort.  The terms that operators build are well-sorted, and such a
replacement keeps them so built. -/
theorem WellSorted.eval_sound (ht : t.WellSorted) (assignment : Assignment)
    (hsuits : ∀ x ∈ t.occurrences, ∀ v, assignment x.id = some v → v.sort = x.sort) :
    (∀ v, t.eval assignment = .known v → v.sort = t.sort) ∧
    ((∀ x ∈ t.occurrences, ∃ v, assignment x.id = some v) → t.eval assignment ≠ .unknown) ∧
    (t.calculates = false → t.eval assignment ≠ .undefined) ∧
    (∀ (id : Nat) (replacement : Term), replacement.WellSorted →
      (∀ x ∈ t.occurrences, x.id = id → replacement.sort = x.sort) →
      (t.substitute id replacement).WellSorted ∧ (t.substitute id replacement).sort = t.sort) ∧
    (∀ u : Term, u.Built → u.WellSorted) ∧
    (t.Built → ∀ (id : Nat) (replacement : Term), replacement.Built →
      (∀ x ∈ t.occurrences, x.id = id → replacement.sort = x.sort) →
      (t.substitute id replacement).Built) := by
  have hfits : assignment.Suits t.occurrences := hsuits
  refine ⟨fun v hv => ?_, eval_ne_unknown, fun hplain => (ht.eval_ofSort hplain hfits).ne_undefined,
    fun id replacement hreplacement hsort => ?_, fun u => Built.wellSorted,
    fun hbuilt id replacement hreplacement hsort => hbuilt.substitute hreplacement hsort⟩
  · rw [eval_eq_meaning] at hv
    exact ht.sort_of_meaning hfits.environment hv
  · exact ⟨ht.substitute hreplacement hsort, sort_substitute hsort⟩

/-- A term with a sum and a text under `x = 1` and `s = "b"`; then the negative of `x` takes the
place of `x`. -/
theorem WellSorted.eval_sound_mixed :
    let x : Var := ⟨0, "x", .int⟩
    let s : Var := ⟨1, "s", .str⟩
    let t : Term := .and [.cmp .lt (.arith .add (.var x) (.const (.int 1))) (.const (.int 3)),
      .not (.cmp .eq (.var s) (.const (.str "a")))]
    let assignment := (Assignment.empty.set 0 (.int 1)).set 1 (.str "b")
    (t.WellSorted ∧ (∀ y ∈ t.occurrences, ∃ v, assignment y.id = some v ∧ v.sort = y.sort)) ∧
      t.eval assignment ≠ .unknown ∧
      (t.substitute 0 (.neg (.var x))).WellSorted ∧
      (t.substitute 0 (.neg (.var x))).sort = .bool := by
  intro x s t assignment
  have hsum : (Term.arith .add (.var x) (.const (.int 1))).WellSorted :=
    .arith (.var x) (.const _) (.inl ⟨rfl, rfl⟩)
  have hless : (Term.cmp .lt (.arith .add (.var x) (.const (.int 1)))
      (.const (.int 3))).WellSorted :=
    .cmp hsum (.const _) rfl (by decide)
  have hequal : (Term.cmp .eq (.var s) (.const (.str "a"))).WellSorted :=
    .cmp (.var s) (.const _) rfl (by decide)
  have ht : t.WellSorted :=
    .and (List.forall_mem_cons.mpr ⟨hless, List.forall_mem_singleton.mpr (.not hequal rfl)⟩)
      (by decide)
  have hvalues : ∀ y ∈ t.occurrences, ∃ v, assignment y.id = some v ∧ v.sort = y.sort := by
    show ∀ y ∈ [x, s], _
    exact List.forall_mem_cons.mpr ⟨⟨.int 1, rfl, rfl⟩,
      List.forall_mem_singleton.mpr ⟨.str "b", rfl, rfl⟩⟩
  obtain ⟨-, hknown, -, hsubstitute, -, -⟩ := ht.eval_sound assignment fun y hy v hv => by
    obtain ⟨w, hw, hsort⟩ := hvalues y hy
    rw [hw, Option.some_inj] at hv
    exact hv ▸ hsort
  refine ⟨⟨ht, hvalues⟩, hknown fun y hy => ?_,
    hsubstitute 0 (.neg (.var x)) (.neg (.var x) rfl) ?_⟩
  · obtain ⟨v, hv, -⟩ := hvalues y hy
    exact ⟨v, hv⟩
  · show ∀ y ∈ [x, s], _
    decide

end Term

end BranchWitness
