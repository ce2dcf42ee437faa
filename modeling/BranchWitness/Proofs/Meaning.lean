import BranchWitness.Term.Eval

/-!
# Meanings of terms under environments

`Term.eval` reads a term under an assignment, in which a variable has a value or is unknown.  A
program that runs can also leave a variable *undefined*, so the laws of evaluation are stated for
environments, which give every variable a meaning of any of the three kinds (`Term.meaning`).
Evaluation under an assignment is the case of an environment without undefined variables
(`eval_eq_meaning`).

Two kinds of laws follow.

* The meaning of a term is built from the meanings of its variables by four operations.  A
  relation between meanings that these keep holds between the meanings of a term under related
  environments (`Compatible.meaning`).  What a term means depends on its own variables only, is
  final once it is not unknown, and is final in any case once it is a value: all three are such
  relations.
* Substitution is a change of the environment (`meaning_substitute`).
-/

namespace BranchWitness

/-! ## Induction over terms -/

/-- Induction over terms, with the hypothesis for every operand of a connective. -/
@[induction_eliminator]
theorem Term.inductionOn {motive : Term → Prop} (var : ∀ x, motive (.var x))
    (const : ∀ v, motive (.const v)) (not : ∀ t, motive t → motive (.not t))
    (and : ∀ ts, (∀ t ∈ ts, motive t) → motive (.and ts))
    (or : ∀ ts, (∀ t ∈ ts, motive t) → motive (.or ts))
    (neg : ∀ t, motive t → motive (.neg t))
    (cmp : ∀ op l r, motive l → motive r → motive (.cmp op l r))
    (arith : ∀ op l r, motive l → motive r → motive (.arith op l r)) (t : Term) : motive t :=
  @Term.rec motive (fun ts => ∀ t ∈ ts, motive t) var const not and or neg cmp arith
    (fun _ hmem => absurd hmem List.not_mem_nil)
    (fun _ _ hhead hrest _ hmem => (List.mem_cons.mp hmem).elim (fun h => h ▸ hhead) (hrest _)) t

namespace Term

@[simp] theorem occurrencesAll_eq (ts : List Term) :
    occurrencesAll ts = ts.flatMap occurrences := by
  induction ts with
  | nil => simp [occurrencesAll]
  | cons t ts ih => simp [occurrencesAll, ih]

@[simp] theorem substituteAll_eq (ts : List Term) (id : Nat) (replacement : Term) :
    substituteAll ts id replacement = ts.map fun t => t.substitute id replacement := by
  induction ts with
  | nil => simp [substituteAll]
  | cons t ts ih => simp [substituteAll, ih]

theorem mentions_iff {t : Term} {id : Nat} :
    t.mentions id = true ↔ ∃ x ∈ t.occurrences, x.id = id := by
  simp [mentions]

theorem not_mentions_iff {t : Term} {id : Nat} :
    t.mentions id = false ↔ ∀ x ∈ t.occurrences, x.id ≠ id := by
  simp [mentions]

end Term

/-! ## Environments -/

/-- A meaning for every variable. -/
abbrev Environment := Var → Meaning

namespace Environment

/-- The environment with a new meaning for the variable numbered `id`. -/
def set (env : Environment) (id : Nat) (meaning : Meaning) : Environment :=
  fun x => if x.id = id then meaning else env x

@[simp] theorem set_of_eq (env : Environment) {id : Nat} (meaning : Meaning) {x : Var}
    (h : x.id = id) : env.set id meaning x = meaning := if_pos h

@[simp] theorem set_of_ne (env : Environment) {id : Nat} (meaning : Meaning) {x : Var}
    (h : x.id ≠ id) : env.set id meaning x = env x := if_neg h

end Environment

/-- The environment of an assignment: a variable without a value is unknown. -/
def Assignment.environment (assignment : Assignment) : Environment := fun x =>
  match assignment x.id with
  | some v => .known v
  | none => .unknown

namespace Assignment

theorem environment_of_some {assignment : Assignment} {x : Var} {v : Value}
    (h : assignment x.id = some v) : assignment.environment x = .known v := by
  simp [environment, h]

theorem environment_of_none {assignment : Assignment} {x : Var}
    (h : assignment x.id = none) : assignment.environment x = .unknown := by
  simp [environment, h]

theorem environment_congr {first second : Assignment} {x : Var}
    (h : first x.id = second x.id) : first.environment x = second.environment x := by
  simp [environment, h]

end Assignment

/-- The meaning of a connective over operands with the given meanings. -/
def Meaning.joinAll (deciding : Bool) (operands : List Meaning) : Meaning :=
  operands.foldr (Meaning.join deciding) (.known (.bool (!deciding)))

namespace Term

mutual

/-- The meaning of a term under an environment. -/
def meaning (env : Environment) : Term → Meaning
  | var x => env x
  | const v => .known v
  | not t => (meaning env t).not
  | and ts => .joinAll false (meanings env ts)
  | or ts => .joinAll true (meanings env ts)
  | neg t => (meaning env t).lift fun v => .ofResult v.negate
  | cmp op l r =>
      (meaning env l).lift₂ (fun a b => .ofResult ((op.apply a b).map .bool)) (meaning env r)
  | arith op l r =>
      (meaning env l).lift₂ (fun a b => .ofResult (op.apply a b)) (meaning env r)

/-- The meanings of several terms. -/
def meanings (env : Environment) : List Term → List Meaning
  | [] => []
  | t :: ts => meaning env t :: meanings env ts

end

@[simp] theorem meanings_eq (env : Environment) (ts : List Term) :
    meanings env ts = ts.map (meaning env) := by
  induction ts with
  | nil => simp [meanings]
  | cons t ts ih => simp [meanings, ih]

theorem evalAll_eq (assignment : Assignment) (deciding : Bool) (ts : List Term) :
    evalAll assignment deciding ts = .joinAll deciding (ts.map (eval assignment)) := by
  induction ts with
  | nil => rfl
  | cons t ts ih => simp [evalAll, ih, Meaning.joinAll]

/-- Evaluation under an assignment is meaning under its environment. -/
theorem eval_eq_meaning (assignment : Assignment) (t : Term) :
    t.eval assignment = t.meaning assignment.environment := by
  induction t with
  | var x => rfl
  | const v => simp [eval, meaning]
  | not t ih => simp only [eval, meaning, ih]
  | and ts ih => rw [eval, evalAll_eq, meaning, meanings_eq, List.map_congr_left ih]
  | or ts ih => rw [eval, evalAll_eq, meaning, meanings_eq, List.map_congr_left ih]
  | neg t ih => simp only [eval, meaning, ih]
  | cmp op l r ihl ihr => simp only [eval, meaning, ihl, ihr]
  | arith op l r ihl ihr => simp only [eval, meaning, ihl, ihr]

end Term

/-! ## Relations that terms keep -/

namespace Meaning

/-- A relation between meanings that the operations of terms keep. -/
structure Compatible (R : Meaning → Meaning → Prop) : Prop where
  known : ∀ v, R (.known v) (.known v)
  not : ∀ {a b}, R a b → R a.not b.not
  lift : ∀ (operation : Value → Except ValueError Value) {a b}, R a b →
    R (a.lift fun v => .ofResult (operation v)) (b.lift fun v => .ofResult (operation v))
  lift₂ : ∀ (operation : Value → Value → Except ValueError Value) {a b c d}, R a b → R c d →
    R (a.lift₂ (fun v w => .ofResult (operation v w)) c)
      (b.lift₂ (fun v w => .ofResult (operation v w)) d)
  join : ∀ (deciding : Bool) {a b c d}, R a b → R c d → R (a.join deciding c) (b.join deciding d)

namespace Compatible

variable {R : Meaning → Meaning → Prop}

theorem joinAll (hR : Compatible R) (deciding : Bool) {ts : List Term} {f g : Term → Meaning}
    (h : ∀ t ∈ ts, R (f t) (g t)) :
    R (.joinAll deciding (ts.map f)) (.joinAll deciding (ts.map g)) := by
  induction ts with
  | nil => exact hR.known _
  | cons t rest ih =>
      exact hR.join deciding (h t List.mem_cons_self)
        (ih fun u hu => h u (List.mem_cons_of_mem _ hu))

/-- A compatible relation between the meanings of the variables of a term holds between the
meanings of the term. -/
theorem meaning (hR : Compatible R) {env env' : Environment} {t : Term}
    (h : ∀ x ∈ t.occurrences, R (env x) (env' x)) : R (t.meaning env) (t.meaning env') := by
  induction t with
  | var x => exact h x (by simp [Term.occurrences])
  | const v => simpa [Term.meaning] using hR.known v
  | not t ih =>
      rw [Term.meaning, Term.meaning]
      exact hR.not (ih h)
  | and ts ih =>
      rw [Term.meaning, Term.meaning, Term.meanings_eq, Term.meanings_eq]
      refine hR.joinAll false fun t ht => ih t ht fun x hx => h x ?_
      simpa [Term.occurrences] using ⟨t, ht, hx⟩
  | or ts ih =>
      rw [Term.meaning, Term.meaning, Term.meanings_eq, Term.meanings_eq]
      refine hR.joinAll true fun t ht => ih t ht fun x hx => h x ?_
      simpa [Term.occurrences] using ⟨t, ht, hx⟩
  | neg t ih =>
      rw [Term.meaning, Term.meaning]
      exact hR.lift _ (ih h)
  | cmp op l r ihl ihr =>
      rw [Term.meaning, Term.meaning]
      exact hR.lift₂ (fun a b => (op.apply a b).map .bool)
        (ihl fun x hx => h x (List.mem_append_left _ hx))
        (ihr fun x hx => h x (List.mem_append_right _ hx))
  | arith op l r ihl ihr =>
      rw [Term.meaning, Term.meaning]
      exact hR.lift₂ op.apply (ihl fun x hx => h x (List.mem_append_left _ hx))
        (ihr fun x hx => h x (List.mem_append_right _ hx))

end Compatible

/-- Being equal is compatible. -/
theorem compatible_eq : Compatible (· = ·) where
  known _ := rfl
  not := by rintro a _ rfl; rfl
  lift := by rintro operation a _ rfl; rfl
  lift₂ := by rintro operation a _ c _ rfl rfl; rfl
  join := by rintro deciding a _ c _ rfl rfl; rfl

theorem ofResult_ne_unknown (result : Except ValueError Value) : ofResult result ≠ .unknown := by
  cases result <;> simp [ofResult]

/-- Being the same unless unknown is compatible: more values do not change what is settled. -/
theorem compatible_settled : Compatible fun a b => a = .unknown ∨ a = b where
  known _ := .inr rfl
  not := by
    rintro a b (rfl | rfl)
    · exact .inl rfl
    · exact .inr rfl
  lift := by
    rintro operation a b (rfl | rfl)
    · exact .inl rfl
    · exact .inr rfl
  lift₂ := by
    rintro operation a b c d (rfl | rfl) (rfl | rfl)
    · exact .inl rfl
    · cases c with
      | undefined => cases b <;> simp [Meaning.lift₂]
      | known w => simp [Meaning.lift₂]
      | unknown => simp [Meaning.lift₂]
    · cases a <;> simp [Meaning.lift₂]
    · exact .inr rfl
  join := by
    rintro deciding a b c d (rfl | rfl) (rfl | rfl)
    · left
      simp [Meaning.join]
    · by_cases hc : c = .known (.bool deciding)
      · right
        by_cases hb : b = .known (.bool deciding) <;> simp [Meaning.join, hb, hc]
      · left
        simp [Meaning.join, hc]
    · by_cases ha : a = .known (.bool deciding)
      · right
        simp [Meaning.join, ha]
      · left
        cases a <;> simp_all [Meaning.join]
    · exact .inr rfl

/-- Keeping values is compatible: a value does not depend on what is not a value. -/
theorem compatible_known : Compatible fun a b => ∀ v, a = .known v → b = .known v where
  known _ _ h := h
  not := by
    intro a b h v hnot
    cases a with
    | known w => rw [h w rfl, hnot]
    | unknown => simp [Meaning.not] at hnot
    | undefined => simp [Meaning.not] at hnot
  lift := by
    intro operation a b h v hlift
    cases a with
    | known w => rw [h w rfl, hlift]
    | unknown => simp [Meaning.lift] at hlift
    | undefined => simp [Meaning.lift] at hlift
  lift₂ := by
    intro operation a b c d h h' v hlift
    cases a <;> cases c <;> simp only [Meaning.lift₂, reduceCtorEq] at hlift
    rw [h _ rfl, h' _ rfl, Meaning.lift₂, hlift]
  join := by
    intro deciding a b c d h h' v hjoin
    by_cases ha : a = .known (.bool deciding)
    · have hb := h _ ha
      simpa [Meaning.join, ha, hb] using hjoin
    by_cases hc : c = .known (.bool deciding)
    · have hd := h' _ hc
      by_cases hb : b = .known (.bool deciding)
      · simpa [Meaning.join, ha, hc, hb] using hjoin
      · simpa [Meaning.join, ha, hc, hb, hd] using hjoin
    -- short of a deciding operand both operands are values
    unfold Meaning.join at hjoin
    rw [if_neg ha, if_neg hc] at hjoin
    split at hjoin
    · cases hjoin
    · cases hjoin
    · subst hjoin
      rw [h _ rfl, h' v rfl]
      unfold Meaning.join
      rw [if_neg ha, if_neg hc]
    · cases hjoin

/-- Not being unknown is compatible. -/
theorem compatible_ne_unknown : Compatible fun a _ => a ≠ .unknown where
  known _ := by simp
  not := by
    intro a _ h
    rcases a with (_ | _ | _) | _ | _ <;> simp_all [Meaning.not]
  lift := by
    intro operation a _ h
    cases a <;> simp_all [Meaning.lift, ofResult_ne_unknown]
  lift₂ := by
    intro operation a _ c _ h h'
    cases a <;> cases c <;> simp_all [Meaning.lift₂, ofResult_ne_unknown]
  join := by
    intro deciding a _ c _ h h'
    unfold Meaning.join
    split
    · exact h
    · split
      · exact h'
      · split <;> simp_all

end Meaning

namespace Term

variable {env env' : Environment} {t : Term}

/-- The meaning of a term depends on its own variables only. -/
theorem meaning_congr (h : ∀ x ∈ t.occurrences, env x = env' x) :
    t.meaning env = t.meaning env' :=
  Meaning.compatible_eq.meaning h

/-- A meaning other than unknown stays when unknown variables become known or undefined. -/
theorem meaning_eq_of_settled (h : ∀ x ∈ t.occurrences, env x = .unknown ∨ env x = env' x)
    (hsettled : t.meaning env ≠ .unknown) : t.meaning env' = t.meaning env :=
  ((Meaning.compatible_settled.meaning h).resolve_left hsettled).symm

/-- A value stays when variables that have none get one. -/
theorem meaning_eq_known {v : Value}
    (h : ∀ x ∈ t.occurrences, ∀ w, env x = .known w → env' x = .known w)
    (hknown : t.meaning env = .known v) : t.meaning env' = .known v :=
  Meaning.compatible_known.meaning h v hknown

/-- Without unknown variables a term is not unknown. -/
theorem meaning_ne_unknown (h : ∀ x ∈ t.occurrences, env x ≠ .unknown) :
    t.meaning env ≠ .unknown :=
  @Meaning.Compatible.meaning _ Meaning.compatible_ne_unknown env env t h

/-- Replacing a variable by a term is giving the variable the meaning of the term. -/
theorem meaning_substitute (env : Environment) (t : Term) (id : Nat) (replacement : Term) :
    (t.substitute id replacement).meaning env =
      t.meaning (env.set id (replacement.meaning env)) := by
  induction t with
  | var x =>
      by_cases hx : x.id = id <;> simp [substitute, meaning, hx]
  | const v => simp [substitute, meaning]
  | not t ih => simp only [substitute, meaning, ih]
  | and ts ih => simp [substitute, meaning, Function.comp_def, List.map_congr_left ih]
  | or ts ih => simp [substitute, meaning, Function.comp_def, List.map_congr_left ih]
  | neg t ih => simp only [substitute, meaning, ih]
  | cmp op l r ihl ihr => simp only [substitute, meaning, ihl, ihr]
  | arith op l r ihl ihr => simp only [substitute, meaning, ihl, ihr]

end Term

/-! ## Assignments with more values -/

/-- The second assignment gives every variable of the first the same value. -/
def Assignment.Extends (larger smaller : Assignment) : Prop :=
  ∀ id v, smaller id = some v → larger id = some v

namespace Assignment

theorem Extends.set {larger smaller : Assignment} (h : larger.Extends smaller) (id : Nat)
    (value : Value) : (larger.set id value).Extends (smaller.set id value) := by
  intro other v hother
  by_cases heq : other = id
  · simpa [Assignment.set, heq] using hother
  · simp only [Assignment.set, if_neg heq] at hother ⊢
    exact h other v hother

/-- Setting a variable to the value it has changes nothing. -/
theorem set_self {assignment : Assignment} {id : Nat} {v : Value} (h : assignment id = some v) :
    assignment.set id v = assignment := by
  funext other
  by_cases heq : other = id
  · simp [set, heq, h]
  · simp [set, heq]

end Assignment

namespace Term

variable {t : Term}

theorem eval_congr {first second : Assignment}
    (h : ∀ x ∈ t.occurrences, first x.id = second x.id) : t.eval first = t.eval second := by
  rw [eval_eq_meaning, eval_eq_meaning]
  exact meaning_congr fun x hx => Assignment.environment_congr (h x hx)

theorem eval_set_of_not_mentions {id : Nat} (h : t.mentions id = false)
    (assignment : Assignment) (value : Value) :
    t.eval (assignment.set id value) = t.eval assignment :=
  eval_congr fun x hx => by simp [Assignment.set, not_mentions_iff.mp h x hx]

/-- What is settled under an assignment stays so under one with more values. -/
theorem eval_of_extends {larger smaller : Assignment} (h : larger.Extends smaller)
    (hsettled : t.eval smaller ≠ .unknown) : t.eval larger = t.eval smaller := by
  rw [eval_eq_meaning] at hsettled
  rw [eval_eq_meaning, eval_eq_meaning]
  refine meaning_eq_of_settled (fun x _ => ?_) hsettled
  cases hx : smaller x.id with
  | none => exact .inl (Assignment.environment_of_none hx)
  | some v =>
      right
      rw [Assignment.environment_of_some hx, Assignment.environment_of_some (h x.id v hx)]

theorem eval_ne_unknown {assignment : Assignment}
    (h : ∀ x ∈ t.occurrences, ∃ v, assignment x.id = some v) : t.eval assignment ≠ .unknown := by
  rw [eval_eq_meaning]
  refine meaning_ne_unknown fun x hx => ?_
  obtain ⟨v, hv⟩ := h x hx
  simp [Assignment.environment_of_some hv]

end Term

/-! ## Connectives -/

namespace Meaning

/-- A connective has the value that decides it exactly if some operand has. -/
theorem joinAll_eq_deciding {deciding : Bool} {operands : List Meaning} :
    joinAll deciding operands = .known (.bool deciding) ↔
      .known (.bool deciding) ∈ operands := by
  induction operands with
  | nil => cases deciding <;> simp [joinAll]
  | cons m rest ih =>
      rw [List.mem_cons, ← ih]
      change m.join deciding (joinAll deciding rest) = _ ↔ _
      unfold join
      split
      · rename_i hm
        simp [hm]
      · rename_i hm
        split
        · rename_i hrest
          simp [hrest]
        · rename_i hrest
          have hneither : ¬ (Meaning.known (.bool deciding) = m ∨
              joinAll deciding rest = .known (.bool deciding)) :=
            not_or.mpr ⟨Ne.symm hm, hrest⟩
          refine iff_of_false ?_ hneither
          split
          · simp
          · simp
          · exact hrest
          · simp

/-- A connective has the value that does not decide it exactly if all operands have. -/
theorem joinAll_eq_not_deciding {deciding : Bool} {operands : List Meaning} :
    joinAll deciding operands = .known (.bool (!deciding)) ↔
      ∀ m ∈ operands, m = .known (.bool (!deciding)) := by
  induction operands with
  | nil => simp [joinAll]
  | cons m rest ih =>
      have hother : Meaning.known (.bool (!deciding)) ≠ .known (.bool deciding) := by simp
      rw [List.forall_mem_cons, ← ih]
      change m.join deciding (joinAll deciding rest) = _ ↔ _
      constructor
      · intro h
        unfold join at h
        split at h
        · rename_i hm
          exact absurd (h.symm.trans hm) hother
        · split at h
          · rename_i hrest
            exact absurd (h.symm.trans hrest) hother
          · rename_i hm hrest
            split at h
            · cases h
            · cases h
            · rename_i b _ _
              refine ⟨?_, h⟩
              cases b <;> cases deciding <;> simp_all
            · cases h
      · rintro ⟨rfl, hrest⟩
        rw [hrest]
        unfold join
        rw [if_neg hother]
        simp

end Meaning

namespace Term

theorem holds_and_iff {assignment : Assignment} {ts : List Term} :
    (Term.and ts).Holds assignment ↔ ∀ t ∈ ts, t.Holds assignment := by
  have h : Meaning.joinAll false (ts.map (eval assignment)) = .known (.bool (!false)) ↔
      ∀ m ∈ ts.map (eval assignment), m = .known (.bool (!false)) :=
    Meaning.joinAll_eq_not_deciding
  unfold Holds
  rw [eval, evalAll_eq]
  simpa using h

end Term

end BranchWitness
