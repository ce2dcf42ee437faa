import BranchWitness.Proofs.Solver.Candidates
import BranchWitness.Proofs.WellSorted

/-!
# Values that compare equal

Values can compare equal without being the same: a truth value is equal to the number it counts as.
An equation between a variable and a term can therefore be true of a value that has not the sort of
the variable.  No well-sorted term tells the difference: give its variables values of their sorts
that compare equal to those they had, and the term has a value that compares equal to the one it had
(`Term.WellSorted.meaning_of_equals`).
-/

namespace BranchWitness

/-- The values compare equal, as a truth value and the number it counts as do. -/
def Value.Equals (v w : Value) : Prop :=
  CmpOp.eq.apply v w = .ok true

namespace Value.Equals

variable {v w : Value}

theorem refl (v : Value) : v.Equals v := by
  rw [Equals, Solver.eq_apply_of_sort_eq rfl, decide_eq_true rfl]

theorem eq_of_sort_eq (h : v.Equals w) (hsort : v.sort = w.sort) : v = w := by
  rw [Equals, Solver.eq_apply_of_sort_eq hsort] at h
  simpa using h

theorem toInt?_eq (h : v.Equals w) : v.toInt? = w.toInt? := by
  unfold Equals CmpOp.apply at h
  cases v <;> cases w <;> simp_all [Value.toInt?, CmpOp.test]

theorem eq_of_str (h : v.Equals w) (hw : w.sort = .str) : v = w := by
  refine h.eq_of_sort_eq ?_
  have hnumber := h.toInt?_eq
  cases v <;> cases w <;> simp_all [Value.toInt?, Value.sort]

end Value.Equals

/-! ## Operations -/

theorem Value.exists_toInt? {v : Value} (h : v.sort ≠ .str) : ∃ n, v.toInt? = some n := by
  cases v <;> simp_all [Value.sort, Value.toInt?]

theorem Value.negate_of_toInt?_eq {v w result : Value} (hnumber : v.toInt? = w.toInt?)
    (h : v.negate = .ok result) : w.negate = .ok result := by
  unfold Value.negate at h ⊢
  rw [← hnumber]
  cases hv : v.toInt? with
  | none => simp [hv] at h
  | some n =>
      simp only [hv] at h ⊢
      cases hn : checked (-n.toInt) with
      | none => simp [hn] at h
      | some m => simpa [hn] using h

theorem CmpOp.apply_of_toInt? (op : CmpOp) {v w : Value} {n m : Int64} (hv : v.toInt? = some n)
    (hw : w.toInt? = some m) : op.apply v w = .ok (op.test n m) := by
  unfold CmpOp.apply
  cases v <;> cases w <;> simp_all [Value.toInt?]

theorem CmpOp.apply_eq_of_equals (op : CmpOp) {v v' w w' : Value} (hv : v.Equals v')
    (hw : w.Equals w') (hsort : v'.sort = w'.sort) : op.apply v w = op.apply v' w' := by
  by_cases hstr : v'.sort = .str
  · rw [hv.eq_of_str hstr, hw.eq_of_str (hsort ▸ hstr)]
  · obtain ⟨n, hn⟩ := Value.exists_toInt? hstr
    obtain ⟨m, hm⟩ := Value.exists_toInt? (hsort ▸ hstr)
    rw [op.apply_of_toInt? (hv.toInt?_eq.trans hn) (hw.toInt?_eq.trans hm),
      op.apply_of_toInt? hn hm]

theorem ArithOp.apply_eq_of_equals (op : ArithOp) {v v' w w' : Value} (hv : v.Equals v')
    (hw : w.Equals w') (hvsort : v'.sort = .int) (hwsort : w'.sort = .int) :
    op.apply v w = op.apply v' w' := by
  obtain ⟨n, rfl⟩ := Value.exists_int hvsort
  obtain ⟨m, rfl⟩ := Value.exists_int hwsort
  have hn : v.toInt? = some n := hv.toInt?_eq
  have hm : w.toInt? = some m := hw.toInt?_eq
  have hnumbers : op.apply v w = op.onNumbers v w := by
    unfold ArithOp.apply
    cases v <;> cases w <;> cases op <;> simp_all [Value.toInt?]
  have hints : op.apply (.int n) (.int m) = op.onNumbers (.int n) (.int m) := by
    cases op <;> rfl
  rw [hnumbers, hints, ArithOp.onNumbers, ArithOp.onNumbers, hn, hm]
  rfl

/-! ## Terms -/

namespace Term

/-- A truth value stays the same where only values that compare equal take its place. -/
theorem truth_of_equals {t : Term} (ht : t.WellSorted) (hsort : t.sort = .bool)
    {env env' : Environment}
    (hsorts : ∀ x ∈ t.occurrences, ∀ v, env' x = .known v → v.sort = x.sort)
    (h : ∀ v, t.meaning env = .known v → ∃ w, t.meaning env' = .known w ∧ v.Equals w) (b : Bool)
    (hb : t.meaning env = .known (.bool b)) : t.meaning env' = .known (.bool b) := by
  obtain ⟨w, hw, hequal⟩ := h (.bool b) hb
  have hwsort : w.sort = .bool := (ht.sort_of_meaning hsorts hw).trans hsort
  rw [hw, hequal.eq_of_sort_eq hwsort.symm]

/-- A connective has the same truth value where only values that compare equal take the place of
those of its operands. -/
theorem joinAll_of_equals {deciding : Bool} {ts : List Term} (hts : ∀ t ∈ ts, t.WellSorted)
    (hbool : ∀ t ∈ ts, t.sort = .bool) {env env' : Environment}
    (hsorts : ∀ t ∈ ts, ∀ x ∈ t.occurrences, ∀ v, env' x = .known v → v.sort = x.sort)
    (hoperands : ∀ t ∈ ts, ∀ v, t.meaning env = .known v →
      ∃ w, t.meaning env' = .known w ∧ v.Equals w) {v : Value}
    (h : Meaning.joinAll deciding (ts.map (meaning env)) = .known v) :
    Meaning.joinAll deciding (ts.map (meaning env')) = .known v := by
  have hkept : ∀ t ∈ ts, ∀ b, t.meaning env = .known (.bool b) → t.meaning env' = .known (.bool b) :=
    fun t ht => truth_of_equals (hts t ht) (hbool t ht) (hsorts t ht) (hoperands t ht)
  obtain ⟨result, rfl⟩ := Meaning.exists_of_joinAll h
  -- one operand decides the connective, or all together do
  by_cases hresult : result = deciding
  · subst hresult
    obtain ⟨t, ht, hdecides⟩ := List.mem_map.mp (Meaning.joinAll_eq_deciding.mp h)
    exact Meaning.joinAll_eq_deciding.mpr (List.mem_map.mpr ⟨t, ht, hkept t ht _ hdecides⟩)
  · obtain rfl : result = !deciding := Bool.eq_not_of_ne hresult
    have hall := List.forall_mem_map.mp (Meaning.joinAll_eq_not_deciding.mp h)
    exact Meaning.joinAll_eq_not_deciding.mpr
      (List.forall_mem_map.mpr fun t ht => hkept t ht _ (hall t ht))

/-- A well-sorted term that has a value keeps it, up to values that compare equal, when its
variables get values of their sorts that compare equal. -/
theorem WellSorted.meaning_of_equals {t : Term} (ht : t.WellSorted) {env env' : Environment}
    (hequals : ∀ x ∈ t.occurrences, ∀ v, env x = .known v → ∃ w, env' x = .known w ∧ v.Equals w)
    (hsorts : ∀ x ∈ t.occurrences, ∀ v, env' x = .known v → v.sort = x.sort) {v : Value}
    (h : t.meaning env = .known v) : ∃ w, t.meaning env' = .known w ∧ v.Equals w := by
  induction ht generalizing v with
  | var x => exact hequals x (by simp [occurrences]) v h
  | const c =>
      simp only [meaning, Meaning.known.injEq] at h
      exact ⟨c, by simp [meaning], h ▸ .refl c⟩
  | @not t ht hsort ih =>
      rw [meaning] at h
      have hkept : ∀ b, t.meaning env = .known (.bool b) → t.meaning env' = .known (.bool b) :=
        truth_of_equals ht hsort hsorts fun v => ih hequals hsorts
      cases hm : t.meaning env with
      | known a =>
          rw [hm] at h
          cases a with
          | bool b => exact ⟨v, by rw [meaning, hkept b hm, h], .refl v⟩
          | int n => simp [Meaning.not] at h
          | str s => simp [Meaning.not] at h
      | unknown => simp [hm, Meaning.not] at h
      | undefined => simp [hm, Meaning.not] at h
  | @and ts hts hbool ih =>
      have hmem : ∀ t ∈ ts, ∀ x ∈ t.occurrences, x ∈ (Term.and ts).occurrences :=
        fun t ht x hx => by simpa [occurrences] using ⟨t, ht, hx⟩
      rw [meaning, meanings_eq] at h
      refine ⟨v, ?_, .refl v⟩
      rw [meaning, meanings_eq]
      exact joinAll_of_equals hts hbool (fun t ht x hx => hsorts x (hmem t ht x hx))
        (fun t ht v => ih t ht (fun x hx => hequals x (hmem t ht x hx))
          fun x hx => hsorts x (hmem t ht x hx)) h
  | @or ts hts hbool ih =>
      have hmem : ∀ t ∈ ts, ∀ x ∈ t.occurrences, x ∈ (Term.or ts).occurrences :=
        fun t ht x hx => by simpa [occurrences] using ⟨t, ht, hx⟩
      rw [meaning, meanings_eq] at h
      refine ⟨v, ?_, .refl v⟩
      rw [meaning, meanings_eq]
      exact joinAll_of_equals hts hbool (fun t ht x hx => hsorts x (hmem t ht x hx))
        (fun t ht v => ih t ht (fun x hx => hequals x (hmem t ht x hx))
          fun x hx => hsorts x (hmem t ht x hx)) h
  | @neg t ht hsort ih =>
      rw [meaning] at h
      obtain ⟨a, ha, hresult⟩ := Meaning.exists_of_lift h
      obtain ⟨a', ha', hequal⟩ := ih hequals hsorts ha
      have hnegate := Value.negate_of_toInt?_eq hequal.toInt?_eq
        (Meaning.exists_of_ofResult hresult)
      exact ⟨v, by simp [meaning, ha', Meaning.lift, hnegate, Meaning.ofResult], .refl v⟩
  | @cmp op l r hl hr hsame _ ihl ihr =>
      have hlvars := fun x hx => hsorts x (List.mem_append_left _ hx)
      have hrvars := fun x hx => hsorts x (List.mem_append_right _ hx)
      rw [meaning] at h
      obtain ⟨a, b, ha, hb, hresult⟩ := Meaning.exists_of_lift₂ h
      obtain ⟨a', ha', haequal⟩ := ihl (fun x hx => hequals x (List.mem_append_left _ hx)) hlvars ha
      obtain ⟨b', hb', hbequal⟩ := ihr (fun x hx => hequals x (List.mem_append_right _ hx)) hrvars hb
      have hsort : a'.sort = b'.sort := by
        rw [hl.sort_of_meaning hlvars ha', hr.sort_of_meaning hrvars hb', hsame]
      refine ⟨v, ?_, .refl v⟩
      rw [meaning, ha', hb', Meaning.lift₂, ← op.apply_eq_of_equals haequal hbequal hsort, hresult]
  | @arith op l r hl hr hoperands ihl ihr =>
      have hlvars := fun x hx => hsorts x (List.mem_append_left _ hx)
      have hrvars := fun x hx => hsorts x (List.mem_append_right _ hx)
      rw [meaning] at h
      obtain ⟨a, b, ha, hb, hresult⟩ := Meaning.exists_of_lift₂ h
      obtain ⟨a', ha', haequal⟩ := ihl (fun x hx => hequals x (List.mem_append_left _ hx)) hlvars ha
      obtain ⟨b', hb', hbequal⟩ := ihr (fun x hx => hequals x (List.mem_append_right _ hx)) hrvars hb
      have hasort := hl.sort_of_meaning hlvars ha'
      have hbsort := hr.sort_of_meaning hrvars hb'
      have hsame : op.apply a b = op.apply a' b' := by
        rcases hoperands with ⟨hlsort, hrsort⟩ | ⟨-, hlsort, hrsort⟩
        · exact op.apply_eq_of_equals haequal hbequal (hasort.trans hlsort) (hbsort.trans hrsort)
        · rw [haequal.eq_of_str (hasort.trans hlsort), hbequal.eq_of_str (hbsort.trans hrsort)]
      exact ⟨v, by rw [meaning, ha', hb', Meaning.lift₂, ← hsame, hresult], .refl v⟩

end Term

end BranchWitness
