import BranchWitness.Proofs.Expression
import Mathlib.Data.List.Forall2

/-!
# Operands that agree

Two terms *agree* if they have one sort, are the same constant or none, and have one value under
every assignment.  The first two are what an operator looks at when it accepts, coerces or folds its
operands.  So it makes agreeing terms of agreeing operands, also where it coerces them
(`Operator.applyLogical_agrees`).

The operands of a conjunction or disjunction need not agree one by one.  Its value is that of the
operands joined, and they can be joined in groups (`Meaning.joinAll_append`), also where some of
them are undefined or no truth values.
-/

namespace BranchWitness

/-! ## Terms that agree -/

/-- One sort, the same constant or none, and one value under every assignment. -/
structure Term.Agrees (t u : Term) : Prop where
  sort : t.sort = u.sort
  constant : t.constant? = u.constant?
  eval : ∀ assignment, t.eval assignment = u.eval assignment

namespace Term.Agrees

variable {t u : Term} {ts us : List Term}

theorem refl (t : Term) : t.Agrees t := ⟨rfl, rfl, fun _ => rfl⟩

theorem symm (h : t.Agrees u) : u.Agrees t :=
  ⟨h.sort.symm, h.constant.symm, fun assignment => (h.eval assignment).symm⟩

theorem map_eval (h : List.Forall₂ Agrees ts us) (assignment : Assignment) :
    ts.map (Term.eval assignment) = us.map (Term.eval assignment) := by
  induction h with
  | nil => rfl
  | cons hhead _ ih => rw [List.map_cons, List.map_cons, hhead.eval, ih]

theorem not (h : t.Agrees u) : (Term.not t).Agrees (.not u) :=
  ⟨rfl, rfl, fun assignment => by simp only [Term.eval, h.eval]⟩

theorem neg (h : t.Agrees u) : (Term.neg t).Agrees (.neg u) :=
  ⟨rfl, rfl, fun assignment => by simp only [Term.eval, h.eval]⟩

theorem and (h : List.Forall₂ Agrees ts us) : (Term.and ts).Agrees (.and us) :=
  ⟨rfl, rfl, fun assignment => by rw [Term.eval, Term.eval, evalAll_eq, evalAll_eq, map_eval h]⟩

theorem or (h : List.Forall₂ Agrees ts us) : (Term.or ts).Agrees (.or us) :=
  ⟨rfl, rfl, fun assignment => by rw [Term.eval, Term.eval, evalAll_eq, evalAll_eq, map_eval h]⟩

theorem cmp (op : CmpOp) {t' u' : Term} (h : t.Agrees u) (h' : t'.Agrees u') :
    (Term.cmp op t t').Agrees (.cmp op u u') :=
  ⟨rfl, rfl, fun assignment => by simp only [Term.eval, h.eval, h'.eval]⟩

theorem arith (op : ArithOp) {t' u' : Term} (h : t.Agrees u) (h' : t'.Agrees u') :
    (Term.arith op t t').Agrees (.arith op u u') where
  sort := by cases op <;> simp only [Term.sort, h.sort]
  constant := rfl
  eval assignment := by simp only [Term.eval, h.eval, h'.eval]

theorem truthy (h : t.Agrees u) : t.truthy.Agrees u.truthy := by
  unfold Term.truthy
  rw [← h.sort]
  split
  · exact h
  · exact h.cmp .ne (refl _)
  · exact h.cmp .ne (refl _)

theorem map_truthy (h : List.Forall₂ Agrees ts us) :
    List.Forall₂ Agrees (ts.map Term.truthy) (us.map Term.truthy) :=
  List.forall₂_map_left_iff.mpr (List.forall₂_map_right_iff.mpr (h.imp fun _ _ => truthy))

theorem forall_sort (h : List.Forall₂ Agrees ts us) (sort : ValueSort)
    (hts : ∀ t ∈ ts, t.sort = sort) : ∀ u ∈ us, u.sort = sort := by
  induction h with
  | nil => simp
  | cons hhead _ ih =>
      obtain ⟨ht, hrest⟩ := List.forall_mem_cons.mp hts
      exact List.forall_mem_cons.mpr ⟨hhead.sort ▸ ht, ih hrest⟩

theorem any_sort (h : List.Forall₂ Agrees ts us) :
    (ts.any fun t => t.sort ≠ .bool) = us.any fun u => u.sort ≠ .bool := by
  induction h with
  | nil => rfl
  | cons hhead _ ih => rw [List.any_cons, List.any_cons, hhead.sort, ih]

theorem mapM_constant (h : List.Forall₂ Agrees ts us) :
    ts.mapM Term.constant? = us.mapM Term.constant? := by
  induction h with
  | nil => rfl
  | cons hhead _ ih => rw [List.mapM_cons, List.mapM_cons, hhead.constant, ih]

theorem singleton {a : Term} (h : List.Forall₂ Agrees [a] us) : ∃ b, a.Agrees b ∧ us = [b] := by
  obtain ⟨b, rest, hab, hrest, rfl⟩ := List.forall₂_cons_left_iff.mp h
  cases hrest
  exact ⟨b, hab, rfl⟩

theorem pair {a a' : Term} (h : List.Forall₂ Agrees [a, a'] us) :
    ∃ b b', a.Agrees b ∧ a'.Agrees b' ∧ us = [b, b'] := by
  obtain ⟨b, rest, hab, hrest, rfl⟩ := List.forall₂_cons_left_iff.mp h
  obtain ⟨b', hab', rfl⟩ := singleton hrest
  exact ⟨b, b', hab, hab', rfl⟩

theorem flip (h : List.Forall₂ Agrees ts us) : List.Forall₂ Agrees us ts :=
  List.Forall₂.flip (h.imp fun _ _ => symm)

end Term.Agrees

/-! ## Operators on operands that agree -/

namespace Operator

variable {operator : Operator} {ts us : List Term} {t : Term}

theorem buildConnective_agrees {make : List Term → Term} (h : List.Forall₂ Term.Agrees ts us)
    (hmake : (make ts).Agrees (make us)) (ht : buildConnective make ts = .ok t) :
    ∃ u, buildConnective make us = .ok u ∧ t.Agrees u := by
  obtain ⟨rfl, hsorts⟩ := buildConnective_eq_ok ht
  have hne : us ≠ [] := by
    rintro rfl
    cases h
    cases ht
  exact ⟨make us, buildConnective_of_bools hne (Term.Agrees.forall_sort h .bool hsorts), hmake⟩

theorem construct_agrees (h : List.Forall₂ Term.Agrees ts us) (ht : operator.construct ts = .ok t) :
    ∃ u, operator.construct us = .ok u ∧ t.Agrees u := by
  cases operator with
  | and => exact buildConnective_agrees h (.and h) ht
  | or => exact buildConnective_agrees h (.or h) ht
  | not =>
      obtain ⟨a, rfl, rfl, hsort⟩ := buildUnary_eq_ok ht
      obtain ⟨b, hab, rfl⟩ := Term.Agrees.singleton h
      exact ⟨.not b, if_pos (hab.sort ▸ hsort), hab.not⟩
  | negate =>
      obtain ⟨a, rfl, rfl, hsort⟩ := buildUnary_eq_ok ht
      obtain ⟨b, hab, rfl⟩ := Term.Agrees.singleton h
      exact ⟨.neg b, if_pos (hab.sort ▸ hsort), hab.neg⟩
  | cmp op =>
      cases makes_of_construct ht with
      | cmp hsame hordered =>
          obtain ⟨l, r, hl, hr, rfl⟩ := Term.Agrees.pair h
          rw [hl.sort, hr.sort] at hsame
          rw [hl.sort, hsame] at hordered
          refine ⟨.cmp op l r, ?_, hl.cmp op hr⟩
          simpa [construct, buildComparison, hsame] using hordered
  | arith op =>
      cases makes_of_construct ht with
      | arith hsorts =>
          obtain ⟨l, r, hl, hr, rfl⟩ := Term.Agrees.pair h
          rw [hl.sort, hr.sort] at hsorts
          exact ⟨.arith op l r, if_pos hsorts, hl.arith op hr⟩

theorem build_agrees (h : List.Forall₂ Term.Agrees ts us) (ht : operator.build ts = .ok t) :
    ∃ u, operator.build us = .ok u ∧ t.Agrees u := by
  unfold build at ht
  split at ht
  · rename_i u hconstruct
    cases ht
    obtain ⟨v, hv, hagrees⟩ := construct_agrees h hconstruct
    exact ⟨v, by rw [build, hv], hagrees⟩
  · cases ht

/-- What refuses operands refuses those that agree with them. -/
theorem exists_error {f : List Term → Except Error Term}
    (hf : ∀ {ts us : List Term} {t : Term}, List.Forall₂ Term.Agrees ts us → f ts = .ok t →
      ∃ u, f us = .ok u ∧ t.Agrees u)
    (h : List.Forall₂ Term.Agrees ts us) {error : Error} (ht : f ts = .error error) :
    ∃ error', f us = .error error' := by
  cases hus : f us with
  | error error' => exact ⟨error', rfl⟩
  | ok u =>
      obtain ⟨v, hv, -⟩ := hf (Term.Agrees.flip h) hus
      rw [hv] at ht
      cases ht

theorem apply_agrees (h : List.Forall₂ Term.Agrees ts us) (ht : operator.apply ts = .ok t) :
    ∃ u, operator.apply us = .ok u ∧ t.Agrees u := by
  unfold apply at ht
  split at ht
  · rename_i u hbuild
    cases ht
    obtain ⟨v, hv, hagrees⟩ := build_agrees h hbuild
    exact ⟨v, by rw [apply, hv], hagrees⟩
  · rename_i error hbuild
    -- what cannot be built is folded, and the constants are the same
    obtain ⟨error', herror⟩ := exists_error build_agrees h hbuild
    have hfold : operator.foldConstants? us = operator.foldConstants? ts := by
      rw [foldConstants?, foldConstants?, Term.Agrees.mapM_constant h]
    split at ht
    · rename_i v hv
      cases ht
      exact ⟨.const v, by simp only [apply, herror, hfold, hv], .refl _⟩
    · cases ht

/-- **Operators keep agreement.** -/
theorem applyLogical_agrees (h : List.Forall₂ Term.Agrees ts us)
    (ht : operator.applyLogical ts = .ok t) :
    ∃ u, operator.applyLogical us = .ok u ∧ t.Agrees u := by
  unfold applyLogical at ht
  split at ht
  · rename_i u happly
    cases ht
    obtain ⟨v, hv, hagrees⟩ := apply_agrees h happly
    exact ⟨v, by rw [applyLogical, hv], hagrees⟩
  · rename_i error happly
    obtain ⟨error', herror⟩ := exists_error apply_agrees h happly
    split at ht
    · rename_i hany
      -- the sorts are the same, so both are coerced, and what they are coerced to agrees
      split at ht
      · rename_i u hbuild
        cases ht
        obtain ⟨v, hv, hagrees⟩ := build_agrees (Term.Agrees.map_truthy h) hbuild
        refine ⟨v, ?_, hagrees⟩
        have hany' : us.any (fun u => u.sort ≠ .bool) = true := by
          rw [← Term.Agrees.any_sort h, hany]
        simp only [applyLogical, herror, hany', if_true, hv]
      · cases ht
    · cases ht

theorem applyLogical_not (t : Term) : Operator.not.applyLogical [t] = .ok (.not t.truthy) := by
  by_cases hsort : t.sort = .bool
  · rw [Term.truthy_of_bool hsort]
    exact applyLogical_of_construct (if_pos hsort)
  · simp [applyLogical, apply, build, construct, buildUnary, foldConstants?, fold?, hsort,
      t.sort_truthy]

theorem exists_of_applyLogical_not (h : Operator.not.applyLogical ts = .ok t) :
    ∃ a, t = .not a := by
  have hmakes := makes_truthy_of_applyLogical rfl h
  generalize ts.map Term.truthy = operands at hmakes
  cases hmakes with
  | not _ => exact ⟨_, rfl⟩

/-! ## How many operands an operator takes -/

/-- Whether an operator accepts that many operands. -/
def accepts : Operator → Nat → Bool
  | and, count | or, count => decide (1 ≤ count)
  | not, count | negate, count => count == 1
  | cmp _, count | arith _, count => count == 2

theorem one_le_of_accepts {count : Nat} (h : operator.accepts count = true) : 1 ≤ count := by
  cases operator <;> simp [accepts] at h <;> omega

theorem accepts_of_makes (h : Makes operator ts t) (hne : ts ≠ []) :
    operator.accepts ts.length = true := by
  cases h with
  | and _ => exact decide_eq_true (List.length_pos_iff.mpr hne)
  | or _ => exact decide_eq_true (List.length_pos_iff.mpr hne)
  | _ => rfl

theorem accepts_of_fold {operation : List Value → Except ValueError Value} {values : List Value}
    {v : Value} (hfold : operator.fold? = some operation) (h : operation values = .ok v) :
    operator.accepts values.length = true := by
  cases operator with
  | and | or | not => cases hfold
  | negate | cmp _ | arith _ =>
      cases hfold
      dsimp only at h
      split at h
      · rfl
      · cases h

/-- An operator is applied only to as many operands as it accepts. -/
theorem accepts_of_applyLogical (h : operator.applyLogical ts = .ok t) (hne : ts ≠ []) :
    operator.accepts ts.length = true := by
  rcases apply_or_makes_truthy_of_applyLogical h with happly | hmakes
  · rcases makes_or_folds_of_apply happly with hmakes | ⟨operation, values, v, hfold, rfl, hv, -⟩
    · exact accepts_of_makes hmakes hne
    · rw [List.length_map]
      exact accepts_of_fold hfold hv
  · rw [← List.length_map]
    exact accepts_of_makes hmakes (by simpa using hne)

end Operator

/-! ## Joining in groups -/

namespace Meaning

/-- What a connective can be: one of the truth values, unknown or undefined. -/
def Joined (m : Meaning) : Prop :=
  (∃ b, m = .known (.bool b)) ∨ m = .unknown ∨ m = .undefined

theorem joined_join (deciding : Bool) (m : Meaning) {rest : Meaning} (h : rest.Joined) :
    (m.join deciding rest).Joined := by
  unfold join
  split
  · rename_i hm
    exact .inl ⟨deciding, hm⟩
  · split
    · exact h
    · split
      · exact .inr (.inl rfl)
      · exact .inr (.inl rfl)
      · exact h
      · exact .inr (.inr rfl)

theorem joined_joinAll (deciding : Bool) (operands : List Meaning) :
    (joinAll deciding operands).Joined := by
  induction operands with
  | nil => exact .inl ⟨!deciding, rfl⟩
  | cons m rest ih => exact joined_join deciding m ih

/-- The first operand can be anything; what is joined to it has been joined before. -/
theorem join_assoc (deciding : Bool) (m : Meaning) {second third : Meaning} (h : second.Joined)
    (h' : third.Joined) :
    (m.join deciding second).join deciding third =
      m.join deciding (second.join deciding third) := by
  obtain ⟨b, rfl⟩ | rfl | rfl := h <;> obtain ⟨c, rfl⟩ | rfl | rfl := h' <;>
    rcases m with (_ | _ | _) | _ | _ <;> grind [join]

/-- The operands of a connective can be joined in groups. -/
theorem joinAll_append (deciding : Bool) (first second : List Meaning) :
    joinAll deciding (first ++ second) =
      (joinAll deciding first).join deciding (joinAll deciding second) := by
  induction first with
  | nil =>
      obtain ⟨b, hb⟩ | hunknown | hundefined := joined_joinAll deciding second
      · grind [joinAll, join]
      · grind [joinAll, join]
      · grind [joinAll, join]
  | cons m rest ih =>
      change m.join deciding (joinAll deciding (rest ++ second)) = _
      rw [ih, ← join_assoc deciding m (joined_joinAll deciding rest)
        (joined_joinAll deciding second)]
      rfl

theorem joinAll_joinAll (deciding : Bool) (operands : List Meaning) :
    joinAll deciding [joinAll deciding operands] = joinAll deciding operands := by
  have happend := joinAll_append deciding operands []
  rw [List.append_nil] at happend
  exact happend.symm

theorem not_not_not (m : Meaning) : m.not.not.not = m.not := by
  rcases m with (b | _ | _) | _ | _
  · cases b <;> rfl
  all_goals rfl

end Meaning

namespace Operator

variable {operator : Operator} {ts : List Term}

/-- An operator that joins the truthiness of its operands, at least one. -/
structure Joins (operator : Operator) (make : List Term → Term) (deciding : Bool) : Prop where
  construct : ∀ ts, operator.construct ts = buildConnective make ts
  fold : operator.fold? = none
  sort : ∀ ts, (make ts).sort = .bool
  constant : ∀ ts, (make ts).constant? = none
  eval : ∀ ts assignment,
    (make ts).eval assignment = .joinAll deciding (ts.map (Term.eval assignment))

theorem joins_and : Joins .and .and false where
  construct _ := rfl
  fold := rfl
  sort _ := rfl
  constant _ := rfl
  eval ts assignment := by rw [Term.eval, Term.evalAll_eq]

theorem joins_or : Joins .or .or true where
  construct _ := rfl
  fold := rfl
  sort _ := rfl
  constant _ := rfl
  eval ts assignment := by rw [Term.eval, Term.evalAll_eq]

/-- A conjunction or disjunction of any operands is one of their truthiness. -/
theorem Joins.applyLogical {make : List Term → Term} {deciding : Bool}
    (h : operator.Joins make deciding) (hne : ts ≠ []) :
    operator.applyLogical ts = .ok (make (ts.map Term.truthy)) := by
  by_cases hsorts : ∀ t ∈ ts, t.sort = .bool
  · -- truth values are their own truthiness
    have hsame : ts.map Term.truthy = ts.map id :=
      List.map_congr_left fun t ht => Term.truthy_of_bool (hsorts t ht)
    rw [hsame, List.map_id]
    refine applyLogical_of_construct ?_
    rw [h.construct]
    exact buildConnective_of_bools hne hsorts
  · -- the operands are refused as they are and accepted once they are coerced
    obtain ⟨t, ht, hsort⟩ : ∃ t ∈ ts, t.sort ≠ .bool := by simpa using hsorts
    have hany : ts.any (fun t => t.sort ≠ .bool) = true :=
      List.any_eq_true.mpr ⟨t, ht, by simpa using hsort⟩
    obtain ⟨error, herror⟩ : ∃ error, operator.build ts = .error error := by
      cases hbuild : operator.build ts with
      | error error => exact ⟨error, rfl⟩
      | ok u =>
          unfold build at hbuild
          rw [h.construct] at hbuild
          split at hbuild
          · rename_i hok
            exact absurd ((buildConnective_eq_ok hok).2 t ht) hsort
          · cases hbuild
    have htruthy : operator.build (ts.map Term.truthy) = .ok (make (ts.map Term.truthy)) := by
      rw [build, h.construct, buildConnective_of_bools (by simpa using hne)]
      exact List.forall_mem_map.mpr fun u _ => u.sort_truthy
    simp only [Operator.applyLogical, apply, herror, foldConstants?, h.fold, hany, if_true, htruthy]

end Operator

end BranchWitness
