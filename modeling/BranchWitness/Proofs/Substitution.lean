import BranchWitness.Proofs.Meaning
import Mathlib.Data.List.Basic

/-!
# Evaluation after a change

What a term evaluates to can change in two ways: the assignment gets more values, or a variable of
the term is replaced.  Both are changes of the environment in which the term has its meaning.

* A meaning that is settled stays when values are added, and a term without unknown variables is
  settled (`eval_monotone`).  A search may therefore give up as soon as one test is settled
  otherwise than true.
* A replacement that has a value acts as an assignment of this value, and one that is unknown in
  place of an unknown variable changes nothing (`eval_substitute_set`).  The occurrences of
  variables after the replacement are those before, with those of the replacement where the
  variable stood (`occurrences_substitute`).
-/

namespace BranchWitness

namespace Assignment

/-- A variable that is set is known. -/
theorem environment_set (assignment : Assignment) (id : Nat) (v : Value) :
    (assignment.set id v).environment = assignment.environment.set id (.known v) := by
  funext x
  by_cases hx : x.id = id
  · rw [Environment.set_of_eq _ _ hx]
    exact environment_of_some (if_pos hx)
  · rw [Environment.set_of_ne _ _ hx]
    exact environment_congr (if_neg hx)

/-- To take a variable without a value as unknown changes nothing. -/
theorem environment_set_unknown {assignment : Assignment} {id : Nat} (h : assignment id = none) :
    assignment.environment.set id .unknown = assignment.environment := by
  funext x
  by_cases hx : x.id = id
  · rw [Environment.set_of_eq _ _ hx, environment_of_none (hx ▸ h)]
  · exact Environment.set_of_ne _ _ hx

end Assignment

namespace Term

/-! ## The occurrences after a replacement -/

/-- Each occurrence of the variable gives way to the occurrences in the replacement. -/
theorem occurrences_substitute (t : Term) (id : Nat) (replacement : Term) :
    (t.substitute id replacement).occurrences =
      t.occurrences.flatMap fun x => if x.id = id then replacement.occurrences else [x] := by
  have hall : ∀ ts : List Term,
      (∀ t ∈ ts, (t.substitute id replacement).occurrences = t.occurrences.flatMap fun x =>
        if x.id = id then replacement.occurrences else [x]) →
      (ts.map fun t => t.substitute id replacement).flatMap occurrences =
        (ts.flatMap occurrences).flatMap fun x =>
          if x.id = id then replacement.occurrences else [x] := by
    intro ts hts
    rw [List.flatMap_map, List.flatMap_assoc]
    exact List.flatMap_congr hts
  induction t with
  | var x => by_cases hx : x.id = id <;> simp [substitute, occurrences, hx]
  | const v => simp [substitute, occurrences]
  | not t ih => simpa [substitute, occurrences] using ih
  | and ts ih => simpa [substitute, occurrences] using hall ts ih
  | or ts ih => simpa [substitute, occurrences] using hall ts ih
  | neg t ih => simpa [substitute, occurrences] using ih
  | cmp op l r ihl ihr => simp only [substitute, occurrences, ihl, ihr, List.flatMap_append]
  | arith op l r ihl ihr => simp only [substitute, occurrences, ihl, ihr, List.flatMap_append]

/-- A term with a variable replaced mentions the other variables it had, and those of the
replacement if there was something to replace. -/
theorem mentions_substitute_iff {t replacement : Term} {id other : Nat} :
    (t.substitute id replacement).mentions other = true ↔
      (t.mentions other = true ∧ other ≠ id) ∨
        (t.mentions id = true ∧ replacement.mentions other = true) := by
  simp only [mentions_iff, occurrences_substitute, List.mem_flatMap]
  constructor
  · rintro ⟨y, ⟨x, hx, hy⟩, rfl⟩
    split at hy
    · rename_i hid
      exact .inr ⟨⟨x, hx, hid⟩, y, hy, rfl⟩
    · rename_i hid
      rw [List.mem_singleton] at hy
      subst hy
      exact .inl ⟨⟨y, hx, rfl⟩, hid⟩
  · rintro (⟨⟨x, hx, rfl⟩, hne⟩ | ⟨⟨x, hx, hid⟩, y, hy, rfl⟩)
    · exact ⟨x, ⟨x, hx, by simp [hne]⟩, rfl⟩
    · exact ⟨y, ⟨x, hx, by simpa [hid] using hy⟩, rfl⟩

/-! ## Evaluation -/

/-- **Substitution.**  Replacing a variable by a term with a value is assigning the value to the
variable; replacing a variable without a value by an unknown term changes nothing.  The result
mentions what the term mentions except for the variable, and what the replacement mentions exactly
if the term mentions the variable. -/
theorem eval_substitute_set (t : Term) (id : Nat) (replacement : Term) (assignment : Assignment) :
    (∀ v, replacement.eval assignment = .known v →
      (t.substitute id replacement).eval assignment = t.eval (assignment.set id v)) ∧
    (replacement.eval assignment = .unknown → assignment id = none →
      (t.substitute id replacement).eval assignment = t.eval assignment) ∧
    (∀ other, (t.substitute id replacement).mentions other = true ↔
      (t.mentions other = true ∧ other ≠ id) ∨
        (t.mentions id = true ∧ replacement.mentions other = true)) := by
  refine ⟨fun v hv => ?_, fun hunknown hnone => ?_, fun other => mentions_substitute_iff⟩
  · rw [eval_eq_meaning] at hv
    rw [eval_eq_meaning, eval_eq_meaning, meaning_substitute, hv, Assignment.environment_set]
  · rw [eval_eq_meaning] at hunknown
    rw [eval_eq_meaning, eval_eq_meaning, meaning_substitute, hunknown,
      Assignment.environment_set_unknown hnone]

/-- In `x < y or y / x = 2` with `y = 3`, the variable `x` is replaced by `y + 1` and by another
variable `z`. -/
theorem eval_substitute_set_quotient :
    let x : Term := .var ⟨0, "x", .int⟩
    let y : Term := .var ⟨1, "y", .int⟩
    let z : Term := .var ⟨2, "z", .int⟩
    let t : Term := .or [.cmp .lt x y, .cmp .eq (.arith .div y x) (.const (.int 2))]
    let next : Term := .arith .add y (.const (.int 1))
    let assignment := Assignment.empty.set 1 (.int 3)
    (next.eval assignment = .known (.int 4) ∧
      (t.substitute 0 next).eval assignment = t.eval (assignment.set 0 (.int 4))) ∧
    ((z.eval assignment = .unknown ∧ assignment 0 = none) ∧
      (t.substitute 0 z).eval assignment = t.eval assignment) ∧
    ((t.substitute 0 z).mentions 2 = true ↔
      (t.mentions 2 = true ∧ 2 ≠ 0) ∨ (t.mentions 0 = true ∧ z.mentions 2 = true)) := by
  intro x y z t next assignment
  have hnext : next.eval assignment = .known (.int 4) := by decide
  have hz : z.eval assignment = .unknown ∧ assignment 0 = none := by decide
  exact ⟨⟨hnext, (eval_substitute_set t 0 next assignment).1 _ hnext⟩,
    ⟨hz, (eval_substitute_set t 0 z assignment).2.1 hz.1 hz.2⟩,
    (eval_substitute_set t 0 z assignment).2.2 2⟩

/-- **Evaluation is monotone.**  A value, and the lack of one by a failed operation, stay when
further variables get values.  The meaning depends on the variables of the term only, and is not
unknown once all of them have values. -/
theorem eval_monotone (t : Term) :
    (∀ smaller larger : Assignment, larger.Extends smaller →
      (∀ v, t.eval smaller = .known v → t.eval larger = .known v) ∧
      (t.eval smaller = .undefined → t.eval larger = .undefined)) ∧
    (∀ first second : Assignment, (∀ id, t.mentions id = true → first id = second id) →
      t.eval first = t.eval second) ∧
    (∀ assignment : Assignment, (∀ id, t.mentions id = true → ∃ v, assignment id = some v) →
      t.eval assignment ≠ .unknown) := by
  have hmentions : ∀ x ∈ t.occurrences, t.mentions x.id = true := fun x hx =>
    mentions_iff.mpr ⟨x, hx, rfl⟩
  refine ⟨fun smaller larger h => ⟨fun v hv => ?_, fun hundefined => ?_⟩, fun first second h => ?_,
    fun assignment h => ?_⟩
  · rw [eval_of_extends h (by simp [hv]), hv]
  · rw [eval_of_extends h (by simp [hundefined]), hundefined]
  · exact eval_congr fun x hx => h x.id (hmentions x hx)
  · exact eval_ne_unknown fun x hx => h x.id (hmentions x hx)

/-- `a and x / 0 = 1` is false as soon as `a` is, and undefined when `x` has a value and `a` is
true, whatever an unrelated variable `b` is. -/
theorem eval_monotone_quotient :
    let a : Term := .var ⟨0, "a", .bool⟩
    let x : Term := .var ⟨1, "x", .int⟩
    let t : Term := .and [a, .cmp .eq (.arith .div x (.const (.int 0))) (.const (.int 1))]
    let refused := Assignment.empty.set 0 (.bool false)
    let failed := (Assignment.empty.set 0 (.bool true)).set 1 (.int 7)
    (t.eval refused = .known (.bool false) ∧
      t.eval (refused.set 1 (.int 7)) = .known (.bool false)) ∧
    (t.eval failed = .undefined ∧ t.eval (failed.set 2 (.bool true)) = .undefined) ∧
    t.eval failed = t.eval (failed.set 2 (.bool true)) ∧
    t.eval failed ≠ .unknown := by
  intro a x t refused failed
  have hextends : ∀ (assignment : Assignment) (id : Nat) (v : Value), assignment id = none →
      (assignment.set id v).Extends assignment := by
    intro assignment id v hnone other w hw
    have hne : other ≠ id := by
      rintro rfl
      rw [hnone] at hw
      cases hw
    simpa [Assignment.set, hne] using hw
  have hfalse : t.eval refused = .known (.bool false) := by decide
  have hundefined : t.eval failed = .undefined := by decide
  have hvars : ∀ id, t.mentions id = true → id = 0 ∨ id = 1 := by
    intro id h
    have hid : 0 = id ∨ 1 = id := by
      simpa [t, a, x, mentions, occurrences, occurrencesAll] using h
    omega
  obtain ⟨hstays, hlocal, htotal⟩ := eval_monotone t
  refine ⟨⟨hfalse, (hstays refused _ (hextends _ _ _ rfl)).1 _ hfalse⟩,
    ⟨hundefined, (hstays failed _ (hextends _ _ _ rfl)).2 hundefined⟩,
    hlocal _ _ fun id hid => ?_, htotal _ fun id hid => ?_⟩
  · rcases hvars id hid with rfl | rfl <;> rfl
  · rcases hvars id hid with rfl | rfl
    · exact ⟨.bool true, rfl⟩
    · exact ⟨.int 7, rfl⟩

end Term

end BranchWitness
