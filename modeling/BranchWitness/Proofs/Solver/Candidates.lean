import BranchWitness.Proofs.Arithmetic
import BranchWitness.Proofs.Ascending
import BranchWitness.Proofs.Lists
import BranchWitness.Proofs.Meaning
import BranchWitness.Solver.Candidates
import Mathlib.Data.List.Nodup
import Mathlib.Data.List.Perm.Subperm

/-!
# Complete domains

A domain that calls itself complete leaves nothing out that matters.  Give the variable of the
slot any value of its sort: either some conjunct is refuted by that alone, or the domain holds a
value that no conjunct tells from it (`exists_candidate`).

The argument has three parts.

* A comparison with a boundary sees of an integer only on which side of the boundary it lies.  An
  integer lies, for any finite set of boundaries, like zero or like a neighbour of one of them
  (`exists_sameSide`).  A text that is no boundary is, for equations, like any other such text,
  and `freshText` is one (`freshText_not_mem`).
* A conjunct sees of the variable only what its atoms see, apart from occurrences as an operand of
  a connective.  There an integer or a text makes the connective undefined whatever it is, so the
  meanings agree up to `Alike`.
* A forced value is the only one that does not refute the equation it comes from.
-/

namespace BranchWitness.Solver

/-! ## Integers and their neighbours -/

theorem exists_checked_of_between {low high : Int64} {n : Int} (hlow : low.toInt ≤ n)
    (hhigh : n ≤ high.toInt) : ∃ k, checked n = some k :=
  ⟨_, if_pos ⟨Int.le_trans low.minValue_le_toInt hlow, Int.le_trans hhigh high.toInt_le⟩⟩

theorem mem_neighbours_iff {n m : Int64} :
    m ∈ neighbours n ↔
      m.toInt = n.toInt ∨ m.toInt = n.toInt - 1 ∨ m.toInt = n.toInt + 1 := by
  simp [neighbours, checked_eq_some_iff]

theorem ranks_nearerZero : Ranks nearerZero where
  asymm {a b} h := by
    simp only [nearerZero, Bool.or_eq_true, decide_eq_true_eq, Bool.and_eq_true, beq_iff_eq,
      Bool.or_eq_false_iff, decide_eq_false_iff_not, Bool.and_eq_false_iff,
      beq_eq_false_iff_ne] at h ⊢
    omega
  split {a b} h c := by
    simp only [nearerZero, Bool.or_eq_true, decide_eq_true_eq, Bool.and_eq_true,
      beq_iff_eq] at h ⊢
    omega

theorem eq_of_nearerZero_tie (n m : Int64) (hfirst : nearerZero n m = false)
    (hsecond : nearerZero m n = false) : n = m := by
  simp only [nearerZero, Bool.or_eq_false_iff, decide_eq_false_iff_not, Bool.and_eq_false_iff,
    beq_eq_false_iff_ne] at hfirst hsecond
  rw [← Int64.toInt_inj]
  omega

/-- Two integers that lie on the same side of a third. -/
def SameSide (n m bound : Int64) : Prop :=
  (n < bound ↔ m < bound) ∧ (bound < n ↔ bound < m)

theorem sameSide_iff {n m bound : Int64} :
    SameSide n m bound ↔
      (n.toInt < bound.toInt ↔ m.toInt < bound.toInt) ∧
        (bound.toInt < n.toInt ↔ bound.toInt < m.toInt) := by
  simp only [SameSide, Int64.lt_iff_toInt_lt]

/-- Every integer lies, for finitely many bounds, on the same sides as zero or as a neighbour of
one of them, and that one lies between zero and the integer. -/
theorem exists_sameSide (n : Int64) (bounds : List Int64) :
    ∃ m, (m = 0 ∨ ∃ bound ∈ bounds, m ∈ neighbours bound) ∧
      (∀ bound ∈ bounds, SameSide n m bound) ∧
      (0 ≤ m.toInt ∧ m.toInt ≤ n.toInt ∨ n.toInt ≤ m.toInt ∧ m.toInt ≤ 0) := by
  induction bounds with
  | nil =>
      refine ⟨0, .inl rfl, by simp, ?_⟩
      rw [Int64.toInt_zero]
      omega
  | cons bound rest ih =>
      obtain ⟨m, hm, hrest, hinner⟩ := ih
      by_cases hsame : SameSide n m bound
      · refine ⟨m, ?_, ?_, hinner⟩
        · exact hm.imp_right fun ⟨b, hb, hmem⟩ => ⟨b, List.mem_cons_of_mem _ hb, hmem⟩
        · exact List.forall_mem_cons.mpr ⟨hsame, hrest⟩
      -- the new bound separates `n` from `m`, so its neighbour on the side of `n` lies between
      obtain ⟨k, hk, hbetween⟩ : ∃ k ∈ neighbours bound, SameSide n k bound ∧
          (m.toInt ≤ k.toInt ∧ k.toInt ≤ n.toInt ∨ n.toInt ≤ k.toInt ∧ k.toInt ≤ m.toInt) := by
        rw [sameSide_iff] at hsame
        rcases Int.lt_trichotomy n.toInt bound.toInt with hlt | heq | hgt
        · obtain ⟨k, hk⟩ : ∃ k, checked (bound.toInt - 1) = some k :=
            exists_checked_of_between (Int.le_sub_one_of_lt hlt) (Int.sub_le_self _ (by decide))
          rw [checked_eq_some_iff] at hk
          exact ⟨k, mem_neighbours_iff.mpr (.inr (.inl hk)), sameSide_iff.mpr (by omega), by omega⟩
        · exact ⟨bound, mem_neighbours_iff.mpr (.inl rfl), sameSide_iff.mpr (by omega), by omega⟩
        · obtain ⟨k, hk⟩ : ∃ k, checked (bound.toInt + 1) = some k :=
            exists_checked_of_between (Int.le_add_one (Int.le_refl _)) (Int.add_one_le_of_lt hgt)
          rw [checked_eq_some_iff] at hk
          exact ⟨k, mem_neighbours_iff.mpr (.inr (.inr hk)), sameSide_iff.mpr (by omega), by omega⟩
      refine ⟨k, .inr ⟨bound, List.mem_cons_self, hk⟩, ?_, by omega⟩
      refine List.forall_mem_cons.mpr ⟨hbetween.1, fun other hother => ?_⟩
      have hother := sameSide_iff.mp (hrest other hother)
      rw [sameSide_iff]
      omega

/-! ## Values that are tried earlier -/

/-- The order of truth values and of integers: `true` comes before `false`, and an integer before
those that are farther from zero, and before its negative if it is itself negative. -/
def Earlier : Value → Value → Prop
  | .bool a, .bool b => a = true ∧ b = false
  | .int m, .int n =>
      m.toInt.natAbs < n.toInt.natAbs ∨ m.toInt.natAbs = n.toInt.natAbs ∧ m.toInt < n.toInt
  | _, _ => False

theorem earlier_int_iff {m n : Int64} :
    Earlier (.int m) (.int n) ↔ nearerZero m n = true := by
  simp [Earlier, nearerZero]

/-! ## Texts -/

theorem earlierText_irrefl (s : String) : earlierText s s = false := by
  simp [earlierText]

theorem eq_of_earlierText_tie (s t : String) (hfirst : earlierText s t = false)
    (hsecond : earlierText t s = false) : s = t :=
  name_eq_of_not_lt (by simpa [earlierText] using hfirst) (by simpa [earlierText] using hsecond)

theorem mem_withTexts_iff {s : String} {texts known : List String} :
    s ∈ withTexts texts known ↔ s ∈ texts ∨ s ∈ known := by
  refine ⟨mem_insertAllAscending, ?_⟩
  rintro (hnew | hknown)
  · exact mem_insertAllAscending_of_mem_left earlierText_irrefl eq_of_earlierText_tie hnew _
  · exact mem_insertAllAscending_of_mem _ hknown

theorem mem_textsOf_iff {s : String} {values : List Value} :
    s ∈ textsOf values ↔ Value.str s ∈ values := by
  rw [textsOf, List.mem_filterMap]
  constructor
  · rintro ⟨v, hv, heq⟩
    cases v with
    | str t =>
        cases heq
        exact hv
    | bool b => cases heq
    | int n => cases heq
  · exact fun hs => ⟨_, hs, rfl⟩

theorem numberedText_injective : Function.Injective fun n : Nat => s!"s{n}" := by
  intro n m h
  have hrepr : n.repr = m.repr := by simpa [toString] using h
  have hdigits : Nat.toDigits 10 n = Nat.toDigits 10 m := by
    rw [← Nat.toList_repr, ← Nat.toList_repr, hrepr]
  rw [← @Nat.ofDigitChars_ten_toDigits n, hdigits, Nat.ofDigitChars_ten_toDigits]

/-- Of one more numbered text than there are known ones, one is new. -/
theorem exists_number_not_mem (known : List String) : ∃ n ≤ known.length, s!"s{n}" ∉ known := by
  by_contra hnone
  have hsubset : ((List.range (known.length + 1)).map fun n => s!"s{n}") ⊆ known := by
    intro s hs
    obtain ⟨n, hn, rfl⟩ := List.mem_map.mp hs
    by_contra hnew
    exact hnone ⟨n, Nat.lt_succ_iff.mp (List.mem_range.mp hn), hnew⟩
  have hlength := (List.Nodup.subperm
    (List.nodup_range.map numberedText_injective) hsubset).length_le
  simp only [List.length_map, List.length_range] at hlength
  omega

/-- The search through `s0`, `s1`, … for a text that is not known goes past those before this
number and ends there. -/
structure FreshAt (known : List String) (number : Nat) : Prop where
  fresh : s!"s{number}" ∉ known
  passed : ∀ k < number, s!"s{k}" ∈ known

/-- The search for a fresh text ends, after at most as many steps as there are known texts, and
the fresh text is the one it ends at. -/
theorem exists_freshAt (known : List String) :
    ∃ number ≤ known.length, FreshAt known number ∧ freshText known = s!"s{number}" := by
  unfold freshText
  rw [List.find?_map]
  cases hfind : (List.range (known.length + 1)).find?
      ((fun s => decide (s ∉ known)) ∘ fun n => s!"s{n}") with
  | none =>
      obtain ⟨n, hn, hnew⟩ := exists_number_not_mem known
      have hknown := List.find?_eq_none.mp hfind n (List.mem_range.mpr (Nat.lt_succ_of_le hn))
      exact absurd (by simpa using hknown) hnew
  | some number =>
      obtain ⟨hfresh, hmem, hpassed⟩ := List.find?_range_eq_some.mp hfind
      refine ⟨number, Nat.lt_succ_iff.mp (List.mem_range.mp hmem), ⟨?_, fun k hk => ?_⟩, rfl⟩
      · simpa using hfresh
      · simpa using hpassed k hk

theorem freshText_not_mem (known : List String) : freshText known ∉ known := by
  obtain ⟨number, -, hends, heq⟩ := exists_freshAt known
  exact heq ▸ hends.fresh

/-! ## What a comparison sees -/

/-- No comparison with `bound` tells the values apart; for texts, no equation does. -/
def Interchangeable (v w bound : Value) : Prop :=
  ∀ op : CmpOp, (v.sort = .str → op.isOrdering = false) →
    op.apply v bound = op.apply w bound ∧ op.apply bound v = op.apply bound w

theorem Interchangeable.refl (v bound : Value) : Interchangeable v v bound :=
  fun _ _ => ⟨rfl, rfl⟩

theorem test_eq_of_sameSide {n m bound : Int64} (h : SameSide n m bound) (op : CmpOp) :
    op.test n bound = op.test m bound ∧ op.test bound n = op.test bound m := by
  obtain ⟨hless, hgreater⟩ := h
  have heq : n = bound ↔ m = bound := by
    rw [Int64.lt_iff_toInt_lt, Int64.lt_iff_toInt_lt] at hless hgreater
    rw [← Int64.toInt_inj, ← Int64.toInt_inj]
    omega
  have heq' : bound = n ↔ bound = m := by rw [eq_comm, heq, eq_comm]
  cases op <;> simp [CmpOp.test, hless, hgreater, heq, heq']

theorem interchangeable_int {n m : Int64} {bound : Value}
    (h : ∀ b, bound.toInt? = some b → SameSide n m b) :
    Interchangeable (.int n) (.int m) bound := by
  intro op _
  cases bound with
  | str s => cases op <;> simp [CmpOp.apply, Value.toInt?, Value.sort]
  | bool b => simpa [CmpOp.apply, Value.toInt?] using test_eq_of_sameSide (h _ rfl) op
  | int b => simpa [CmpOp.apply, Value.toInt?] using test_eq_of_sameSide (h _ rfl) op

theorem interchangeable_text {s t : String} {bound : Value}
    (h : ∀ u, bound = .str u → s ≠ u ∧ t ≠ u) : Interchangeable (.str s) (.str t) bound := by
  intro op hequation
  cases bound with
  | bool b => cases op <;> simp [CmpOp.apply, Value.toInt?, Value.sort]
  | int b => cases op <;> simp [CmpOp.apply, Value.toInt?, Value.sort]
  | str u =>
      obtain ⟨hs, ht⟩ := h u rfl
      cases op <;>
        simp_all [CmpOp.apply, CmpOp.test, CmpOp.isOrdering, Value.sort, hs.symm, ht.symm]

/-- Between values of one sort an equation is equality. -/
theorem eq_apply_of_sort_eq {v w : Value} (h : v.sort = w.sort) :
    CmpOp.eq.apply v w = .ok (decide (v = w)) := by
  cases v <;> cases w <;> simp_all [Value.sort, CmpOp.apply, Value.toInt?, CmpOp.test]
  rename_i a b
  cases a <;> cases b <;> decide

/-! ## What faces a variable -/

theorem exists_var_of_isVariable {id : Nat} {t : Term} (h : isVariable id t = true) :
    ∃ x, t = .var x ∧ x.id = id := by
  cases t with
  | var x => exact ⟨x, rfl, by simpa [isVariable] using h⟩
  | _ => simp [isVariable] at h

theorem facing_eq_some {id : Nat} {left right other : Term}
    (h : facing id left right = some other) :
    other.mentions id = false ∧
      ((∃ x, left = .var x ∧ x.id = id ∧ right = other) ∨
        ∃ x, right = .var x ∧ x.id = id ∧ left = other) := by
  unfold facing at h
  split at h
  · rename_i hleft
    obtain ⟨x, rfl, hx⟩ := exists_var_of_isVariable hleft
    split at h
    · cases h
    · rename_i hmentions
      cases h
      exact ⟨by simpa using hmentions, .inl ⟨x, rfl, hx, rfl⟩⟩
  · split at h
    · rename_i hright
      obtain ⟨x, rfl, hx⟩ := exists_var_of_isVariable hright
      split at h
      · cases h
      · rename_i hmentions
        cases h
        exact ⟨by simpa using hmentions, .inr ⟨x, rfl, hx, rfl⟩⟩
    · cases h

/-- A comparison of the variable with a term that has a value compares the two values. -/
theorem eval_cmp_of_facing {id : Nat} {left right other : Term}
    (h : facing id left right = some other) {assignment : Assignment} {v c : Value}
    (hv : assignment id = some v) (hc : other.eval assignment = .known c) (op : CmpOp) :
    (Term.cmp op left right).eval assignment = .ofResult ((op.apply v c).map .bool) ∨
      (Term.cmp op left right).eval assignment = .ofResult ((op.apply c v).map .bool) := by
  obtain ⟨-, ⟨x, rfl, rfl, rfl⟩ | ⟨x, rfl, rfl, rfl⟩⟩ := facing_eq_some h
  · left
    simp [Term.eval, hv, hc, Meaning.lift₂]
  · right
    simp [Term.eval, hv, hc, Meaning.lift₂]

theorem eval_cmp_eq_of_interchangeable {id : Nat} {left right other : Term}
    (h : facing id left right = some other) {first second : Assignment} {v w c : Value}
    (hv : first id = some v) (hw : second id = some w) (hc : other.eval first = .known c)
    (hc' : other.eval second = .known c) {op : CmpOp}
    (hsame : op.apply v c = op.apply w c ∧ op.apply c v = op.apply c w) :
    (Term.cmp op left right).eval first = (Term.cmp op left right).eval second := by
  obtain ⟨-, ⟨x, rfl, rfl, rfl⟩ | ⟨x, rfl, rfl, rfl⟩⟩ := facing_eq_some h
  · simp [Term.eval, hv, hw, hc, hc', Meaning.lift₂, hsame.1]
  · simp [Term.eval, hv, hw, hc, hc', Meaning.lift₂, hsame.2]

/-! ## Terms that do not tell values apart -/

/-- Equal, or both values that are no truth values: no connective tells the two apart. -/
def Alike (a b : Meaning) : Prop :=
  a = b ∨ ∃ v w, a = .known v ∧ b = .known w ∧ v.sort ≠ .bool ∧ w.sort ≠ .bool

theorem Alike.not_eq {a b : Meaning} (h : Alike a b) : a.not = b.not := by
  obtain rfl | ⟨v, w, rfl, rfl, hv, hw⟩ := h
  · rfl
  · cases v <;> cases w <;> simp_all [Value.sort, Meaning.not]

/-- What an operand that is no truth value makes of a connective. -/
theorem join_of_not_bool {v : Value} (hv : v.sort ≠ .bool) (deciding : Bool) (rest : Meaning) :
    (Meaning.known v).join deciding rest =
      if rest = .known (.bool deciding) then rest
      else if rest = .unknown then .unknown else .undefined := by
  cases v with
  | bool b => exact absurd rfl hv
  | int n => cases rest <;> simp [Meaning.join]
  | str s => cases rest <;> simp [Meaning.join]

theorem Alike.join_eq {a b : Meaning} (h : Alike a b) (deciding : Bool) (rest : Meaning) :
    a.join deciding rest = b.join deciding rest := by
  obtain rfl | ⟨v, w, rfl, rfl, hv, hw⟩ := h
  · rfl
  · rw [join_of_not_bool hv, join_of_not_bool hw]

theorem joinAll_eq_of_alike (deciding : Bool) {ts : List Term} {f g : Term → Meaning}
    (h : ∀ t ∈ ts, Alike (f t) (g t)) :
    Meaning.joinAll deciding (ts.map f) = Meaning.joinAll deciding (ts.map g) := by
  induction ts with
  | nil => rfl
  | cons t rest ih =>
      have hrest := ih fun u hu => h u (List.mem_cons_of_mem _ hu)
      simp only [Meaning.joinAll, List.map_cons, List.foldr_cons] at hrest ⊢
      rw [hrest, (h t List.mem_cons_self).join_eq]

@[simp] theorem atomsAll_eq (ts : List Term) : atomsAll ts = ts.flatMap atoms := by
  induction ts with
  | nil => simp [atomsAll]
  | cons t ts ih => simp [atomsAll, ih]

/-- A term whose atoms do not tell two values of a variable apart does not either, up to what is
no truth value. -/
theorem alike_eval {id : Nat} {v w : Value} {assignment : Assignment}
    (hv : assignment id = some v) (hvsort : v.sort ≠ .bool) (hwsort : w.sort ≠ .bool) {t : Term}
    (h : ∀ atom ∈ atoms t, atom.mentions id = true →
      atom.eval assignment = atom.eval (assignment.set id w)) :
    Alike (t.eval assignment) (t.eval (assignment.set id w)) := by
  -- an atom of its own either mentions the variable or does not see it
  have hatom : ∀ atom ∈ atoms t,
      atom.eval assignment = atom.eval (assignment.set id w) := by
    intro atom hmem
    cases hmentions : atom.mentions id with
    | true => exact h atom hmem hmentions
    | false => exact (Term.eval_set_of_not_mentions hmentions assignment w).symm
  clear h
  induction t with
  | var x =>
      by_cases hx : x.id = id
      · refine .inr ⟨v, w, ?_, ?_, hvsort, hwsort⟩
        · simp [Term.eval, hx, hv]
        · simp [Term.eval, hx, Assignment.set]
      · left
        simp [Term.eval, hx, Assignment.set]
  | const c => exact .inl (by simp [Term.eval])
  | not t ih =>
      left
      rw [Term.eval, Term.eval]
      exact (ih hatom).not_eq
  | and ts ih =>
      left
      rw [Term.eval, Term.eval, Term.evalAll_eq, Term.evalAll_eq]
      refine joinAll_eq_of_alike false fun t ht => ih t ht fun atom hmem => hatom atom ?_
      simpa [atoms] using ⟨t, ht, hmem⟩
  | or ts ih =>
      left
      rw [Term.eval, Term.eval, Term.evalAll_eq, Term.evalAll_eq]
      refine joinAll_eq_of_alike true fun t ht => ih t ht fun atom hmem => hatom atom ?_
      simpa [atoms] using ⟨t, ht, hmem⟩
  | neg t ih => exact .inl (hatom _ (by simp [atoms]))
  | cmp op l r ihl ihr => exact .inl (hatom _ (by simp [atoms]))
  | arith op l r ihl ihr => exact .inl (hatom _ (by simp [atoms]))

/-! ## Boundaries -/

@[simp] theorem Slot.target_of (conjuncts : List Term) (target : Var) :
    (Slot.of conjuncts target).target = target := rfl

theorem boundary_eq_some {target : Var} {assignment : Assignment} {atom : Term} {c : Value}
    (h : boundary target assignment atom = some c) :
    ∃ op left right other, atom = .cmp op left right ∧
      (target.sort = .str → op.isOrdering = false) ∧
      facing target.id left right = some other ∧ other.eval assignment = .known c := by
  cases atom with
  | cmp op left right =>
      simp only [boundary] at h
      split at h
      · cases h
      · rename_i hordering
        cases hfacing : facing target.id left right with
        | none => simp [hfacing] at h
        | some other =>
            simp only [hfacing] at h
            cases heval : other.eval assignment with
            | known d =>
                simp only [heval, Option.some_inj] at h
                subst h
                exact ⟨op, left, right, other, rfl, by simpa using hordering, hfacing, heval⟩
            | unknown => simp [heval] at h
            | undefined => simp [heval] at h
  | _ => simp [boundary] at h

/-- When the variable has boundaries, exchanging its value for one that none of them tells from
it is seen by no conjunct. -/
theorem alike_eval_of_boundaries {conjuncts : List Term} {target : Var}
    {assignment larger : Assignment} {bounds : List Value}
    (hbounds : boundaries (Slot.of conjuncts target) assignment = some bounds)
    (hextends : larger.Extends assignment) {v w : Value} (hv : larger target.id = some v)
    (hvsort : v.sort = target.sort) (hwsort : w.sort = target.sort)
    (hsort : target.sort ≠ .bool) (hsame : ∀ c ∈ bounds, Interchangeable v w c)
    {t : Term} (ht : t ∈ conjuncts) :
    Alike (t.eval larger) (t.eval (larger.set target.id w)) := by
  cases htarget : t.mentions target.id with
  | false => exact .inl (Term.eval_set_of_not_mentions htarget larger w).symm
  | true =>
      refine alike_eval hv (hvsort ▸ hsort) (hwsort ▸ hsort) fun atom hatom hmentions => ?_
      have hslot : atom ∈ (Slot.of conjuncts target).atoms := by
        simp only [Slot.of, atomsAll_eq, List.mem_filter, List.mem_flatMap]
        exact ⟨⟨t, ⟨ht, htarget⟩, hatom⟩, hmentions⟩
      obtain ⟨c, hc, hboundary⟩ := exists_mem_of_mapM hbounds hslot
      obtain ⟨op, left, right, other, rfl, hordering, hfacing, heval⟩ := boundary_eq_some hboundary
      rw [Slot.target_of] at hordering hfacing
      have hother : other.mentions target.id = false := (facing_eq_some hfacing).1
      have hlarger : other.eval larger = .known c := by
        rw [Term.eval_of_extends hextends (by simp [heval]), heval]
      refine eval_cmp_eq_of_interchangeable hfacing hv ?_ hlarger ?_ (hsame c hc op ?_)
      · simp [Assignment.set]
      · rw [Term.eval_set_of_not_mentions hother, hlarger]
      · rw [hvsort]
        exact hordering

/-! ## Forced values -/

/-- A forced value comes from an equation with a term that has it. -/
theorem forced_eq_to {target : Var} {assignment : Assignment} {conjuncts : List Term} {v : Value}
    (h : forced target assignment conjuncts = .to v) :
    v.sort = target.sort ∧ ∃ left right other, Term.cmp .eq left right ∈ conjuncts ∧
      facing target.id left right = some other ∧ other.eval assignment = .known v := by
  fun_induction forced target assignment conjuncts with
  | case1 => cases h
  | case2 left right rest hfacing ih =>
      obtain ⟨hsort, l, r, other, hmem, hother⟩ := ih h
      exact ⟨hsort, l, r, other, List.mem_cons_of_mem _ hmem, hother⟩
  | case3 left right rest other hfacing heval ih =>
      obtain ⟨hsort, l, r, other, hmem, hother⟩ := ih h
      exact ⟨hsort, l, r, other, List.mem_cons_of_mem _ hmem, hother⟩
  | case4 => cases h
  | case5 left right rest other hfacing w heval hsort =>
      cases h
      exact ⟨hsort, left, right, other, List.mem_cons_self, hfacing, heval⟩
  | case6 => cases h
  | case7 t rest hshape ih =>
      obtain ⟨hsort, l, r, other, hmem, hother⟩ := ih h
      exact ⟨hsort, l, r, other, List.mem_cons_of_mem _ hmem, hother⟩

/-- A term with a value other than true under an assignment. -/
def Refuted (assignment : Assignment) (t : Term) : Prop :=
  ∃ v, t.eval assignment = .known v ∧ v ≠ .bool true

theorem Refuted.of_alike {first second : Assignment} {t : Term}
    (h : Alike (t.eval first) (t.eval second)) (hrefuted : Refuted second t) :
    Refuted first t := by
  obtain ⟨v, hv, hfalse⟩ := hrefuted
  obtain heq | ⟨u, w, hu, _, husort, _⟩ := h
  · exact ⟨v, heq.trans hv, hfalse⟩
  · exact ⟨u, hu, fun htrue => husort (htrue ▸ rfl)⟩

theorem Refuted.not_holds {assignment : Assignment} {t : Term} (h : Refuted assignment t) :
    ¬ t.Holds assignment := by
  obtain ⟨v, hv, hfalse⟩ := h
  intro hholds
  rw [Term.Holds, hv] at hholds
  cases hholds
  exact hfalse rfl

/-- Any other value of the sort refutes the equation that forces a value. -/
theorem exists_refuted_of_forced {target : Var} {assignment larger : Assignment}
    {conjuncts : List Term} {v w : Value}
    (h : forced target assignment conjuncts = .to w) (hextends : larger.Extends assignment)
    (hv : larger target.id = some v) (hsort : v.sort = target.sort) (hne : v ≠ w) :
    ∃ t ∈ conjuncts, Refuted larger t := by
  obtain ⟨hwsort, left, right, other, hmem, hfacing, heval⟩ := forced_eq_to h
  have hlarger : other.eval larger = .known w := by
    rw [Term.eval_of_extends hextends (by simp [heval]), heval]
  have hvw : CmpOp.eq.apply v w = .ok false := by
    rw [eq_apply_of_sort_eq (hsort.trans hwsort.symm), decide_eq_false hne]
  have hwv : CmpOp.eq.apply w v = .ok false := by
    rw [eq_apply_of_sort_eq (hwsort.trans hsort.symm), decide_eq_false hne.symm]
  refine ⟨_, hmem, .bool false, ?_, by simp⟩
  rcases eval_cmp_of_facing hfacing hv hlarger .eq with hleft | hright
  · rw [hleft, hvw]
    rfl
  · rw [hright, hwv]
    rfl

/-! ## Domains -/

theorem mem_conjuncts_of {conjuncts : List Term} {target : Var} {t : Term} :
    t ∈ (Slot.of conjuncts target).conjuncts ↔
      t ∈ conjuncts ∧ t.mentions target.id = true := by
  simp [Slot.of]

theorem zero_mem_seeds (width : Nat) (conjuncts : List Term) :
    (0 : Int64) ∈ (Seeds.of width conjuncts).ints :=
  mem_insertAllAscending_of_mem _ List.mem_cons_self

theorem sort_of_mem_intDomain {seeds : Seeds} {slot : Slot} {assignment : Assignment} {v : Value}
    (h : v ∈ (intDomain seeds slot assignment).values) : v.sort = .int := by
  unfold intDomain at h
  split at h <;>
  · obtain ⟨n, -, rfl⟩ := List.mem_map.mp h
    rfl

theorem sort_of_mem_textDomain {seeds : Seeds} {slot : Slot} {assignment : Assignment} {v : Value}
    (h : v ∈ (textDomain seeds slot assignment).values) : v.sort = .str := by
  unfold textDomain at h
  split at h <;>
  · obtain ⟨s, -, rfl⟩ := List.mem_map.mp h
    rfl

theorem sort_of_mem_domain {seeds : Seeds} {slot : Slot} {assignment : Assignment} {v : Value}
    (h : v ∈ (domain seeds slot assignment).values) : v.sort = slot.target.sort := by
  unfold domain at h
  split at h
  · rename_i w hforced
    rw [List.mem_singleton.mp h]
    exact (forced_eq_to hforced).1
  · simp at h
  · split at h
    · rename_i hsort
      rw [hsort]
      rcases List.mem_cons.mp h with rfl | h
      · rfl
      · rw [List.mem_singleton.mp h]
        rfl
    · rename_i hsort
      rw [hsort]
      exact sort_of_mem_intDomain h
    · rename_i hsort
      rw [hsort]
      exact sort_of_mem_textDomain h

/-- Integers have a representative among the integers to try, and it is tried no later. -/
theorem exists_int_candidate {seeds : Seeds} (hzero : (0 : Int64) ∈ seeds.ints)
    (bounds : List Value) (n : Int64) :
    ∃ m ∈ withNeighbours (bounds.filterMap Value.toInt?) seeds.ints,
      (∀ c ∈ bounds, Interchangeable (.int n) (.int m) c) ∧
        (m = n ∨ Earlier (.int m) (.int n)) := by
  obtain ⟨m, hm, hsame, hinner⟩ := exists_sameSide n (bounds.filterMap Value.toInt?)
  refine ⟨m, ?_, fun c hc => interchangeable_int fun b hb => ?_, ?_⟩
  · obtain rfl | ⟨bound, hbound, hneighbour⟩ := hm
    · exact mem_insertAllAscending_of_mem _ hzero
    · exact mem_insertAllAscending_of_mem_left ranks_nearerZero.irrefl eq_of_nearerZero_tie
        (List.mem_flatMap.mpr ⟨bound, hbound, hneighbour⟩) _
  · exact hsame b (List.mem_filterMap.mpr ⟨c, hc, hb⟩)
  · rw [← Int64.toInt_inj]
    simp only [Earlier]
    omega

/-- Texts have a representative among the texts to try. -/
theorem exists_text_candidate (seeds : Seeds) (bounds : List Value) (s : String) :
    let known := withTexts (textsOf bounds) seeds.texts
    ∃ t ∈ known ++ [freshText known], ∀ c ∈ bounds, Interchangeable (.str s) (.str t) c := by
  intro known
  by_cases hs : s ∈ known
  · exact ⟨s, List.mem_append_left _ hs, fun c _ => .refl _ c⟩
  · refine ⟨freshText known, by simp, fun c hc => interchangeable_text fun u hu => ?_⟩
    have hmem : u ∈ known := mem_withTexts_iff.mpr (.inl (mem_textsOf_iff.mpr (hu ▸ hc)))
    exact ⟨fun heq => hs (heq ▸ hmem), fun heq => freshText_not_mem known (heq ▸ hmem)⟩

/-- **Complete domains.**  Let the assignment `larger` give the variable any value of its sort.
If the domain is complete, that refutes a conjunct, or the domain holds a value which no
conjunct tells from it.  Unless it is a text, that value comes no later in the order of values. -/
theorem exists_candidate {seeds : Seeds} (hzero : (0 : Int64) ∈ seeds.ints)
    {conjuncts : List Term} {target : Var} {assignment larger : Assignment}
    (hcomplete : (domain seeds (Slot.of conjuncts target) assignment).complete = true)
    (hextends : larger.Extends assignment) {v : Value} (hv : larger target.id = some v)
    (hsort : v.sort = target.sort) :
    (∃ t ∈ conjuncts, Refuted larger t) ∨
      ∃ w ∈ (domain seeds (Slot.of conjuncts target) assignment).values,
        (∀ t ∈ conjuncts, Alike (t.eval larger) (t.eval (larger.set target.id w))) ∧
          (v.sort = .str ∨ w = v ∨ Earlier w v) := by
  have hself : ∀ t ∈ conjuncts, Alike (t.eval larger) (t.eval (larger.set target.id v)) :=
    fun t _ => .inl (by rw [Assignment.set_self hv])
  unfold domain at hcomplete ⊢
  rw [Slot.target_of] at hcomplete ⊢
  cases hforced : forced target assignment (Slot.of conjuncts target).conjuncts with
  | «to» w =>
      by_cases heq : v = w
      · exact .inr ⟨v, by simp [heq], hself, .inr (.inl rfl)⟩
      · obtain ⟨t, ht, hrefuted⟩ := exists_refuted_of_forced hforced hextends hv hsort heq
        exact .inl ⟨t, (mem_conjuncts_of.mp ht).1, hrefuted⟩
  | toNothing => simp [hforced] at hcomplete
  | free =>
      simp only [hforced] at hcomplete ⊢
      right
      cases v with
      | bool b =>
          have htarget : target.sort = .bool := hsort.symm
          rw [htarget]
          exact ⟨.bool b, by cases b <;> simp, hself, .inr (.inl rfl)⟩
      | int n =>
          have htarget : target.sort = .int := hsort.symm
          simp only [htarget, intDomain] at hcomplete ⊢
          cases hbounds : boundaries (Slot.of conjuncts target) assignment with
          | none => simp [hbounds] at hcomplete
          | some bounds =>
              obtain ⟨m, hm, hsame, hearlier⟩ := exists_int_candidate hzero bounds n
              have hmsort : (Value.int m).sort = target.sort := htarget.symm
              refine ⟨.int m, List.mem_map_of_mem hm, fun t ht => ?_, ?_⟩
              · exact alike_eval_of_boundaries hbounds hextends hv hsort hmsort (by simp [htarget])
                  hsame ht
              · exact .inr (hearlier.imp_left (congrArg Value.int))
      | str s =>
          have htarget : target.sort = .str := hsort.symm
          simp only [htarget, textDomain] at hcomplete ⊢
          cases hbounds : boundaries (Slot.of conjuncts target) assignment with
          | none => simp [hbounds] at hcomplete
          | some bounds =>
              obtain ⟨t, ht, hsame⟩ := exists_text_candidate seeds bounds s
              have htsort : (Value.str t).sort = target.sort := htarget.symm
              refine ⟨.str t, List.mem_map_of_mem ht, fun u hu => ?_, .inl rfl⟩
              exact alike_eval_of_boundaries hbounds hextends hv hsort htsort (by simp [htarget])
                hsame hu

end BranchWitness.Solver
