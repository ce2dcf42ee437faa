import BranchWitness.Proofs.Failures

/-!
# Reassignments

A reassignment resolves its value once and then gives it to the targets one after another.  Each
target captures the value anew, in the store that the targets before it have left.

* When no target fails, all of them hold the value as it was captured in the store before if, and
  only if, the value is a variable or no target but the last occurs in it
  (`reassign_holds_iff`).  Otherwise a target that occurs in the value makes it grow: what is
  captured behind it has more nodes than the entry it reads (`Store.nodes_lt_current`), so the last
  target holds another term than the first.
* When a target fails, the targets before it keep what they were given.  No other statement that
  fails touches the store (`store_of_failed_statement`).
-/

namespace BranchWitness

namespace Term

/-! ## Parts of terms -/

/-- The operands of the outermost operator. -/
def operands : Term → List Term
  | var _ => []
  | const _ => []
  | not t => [t]
  | and ts => ts
  | or ts => ts
  | neg t => [t]
  | cmp _ l r => [l, r]
  | arith _ l r => [l, r]

mutual

/-- The number of nodes of a term. -/
def nodes : Term → Nat
  | var _ => 1
  | const _ => 1
  | not t => nodes t + 1
  | and ts => nodesAll ts + 1
  | or ts => nodesAll ts + 1
  | neg t => nodes t + 1
  | cmp _ l r => nodes l + nodes r + 1
  | arith _ l r => nodes l + nodes r + 1

/-- The number of nodes of several terms. -/
def nodesAll : List Term → Nat
  | [] => 0
  | t :: ts => nodes t + nodesAll ts

end

theorem nodes_le_nodesAll {t : Term} {ts : List Term} (h : t ∈ ts) : t.nodes ≤ nodesAll ts := by
  induction ts with
  | nil => exact absurd h List.not_mem_nil
  | cons u us ih =>
      rw [nodesAll]
      obtain rfl | h := List.mem_cons.mp h
      · omega
      · have := ih h
        omega

theorem nodes_lt_of_mem_operands {s t : Term} (h : s ∈ t.operands) : s.nodes < t.nodes := by
  cases t with
  | var x => exact absurd h List.not_mem_nil
  | const v => exact absurd h List.not_mem_nil
  | not t => simp_all [operands, nodes]
  | and ts => exact Nat.lt_succ_of_le (nodes_le_nodesAll h)
  | or ts => exact Nat.lt_succ_of_le (nodes_le_nodesAll h)
  | neg t => simp_all [operands, nodes]
  | cmp op l r =>
      rw [nodes]
      simp only [operands, List.mem_cons, List.not_mem_nil, or_false] at h
      rcases h with rfl | rfl <;> omega
  | arith op l r =>
      rw [nodes]
      simp only [operands, List.mem_cons, List.not_mem_nil, or_false] at h
      rcases h with rfl | rfl <;> omega

theorem one_le_nodes (t : Term) : 1 ≤ t.nodes := by
  cases t <;> simp [nodes]

/-- Induction over terms, with the hypothesis for every operand. -/
theorem operandsInductionOn {motive : Term → Prop}
    (step : ∀ t, (∀ s ∈ t.operands, motive s) → motive t) (t : Term) : motive t := by
  induction t with
  | var x => exact step _ (by simp [operands])
  | const v => exact step _ (by simp [operands])
  | not t ih => exact step _ (by simpa [operands] using ih)
  | and ts ih => exact step _ ih
  | or ts ih => exact step _ ih
  | neg t ih => exact step _ (by simpa [operands] using ih)
  | cmp op l r ihl ihr => exact step _ (by simpa [operands] using ⟨ihl, ihr⟩)
  | arith op l r ihl ihr => exact step _ (by simpa [operands] using ⟨ihl, ihr⟩)

/-- Whether a term is a variable. -/
def isVar : Term → Bool
  | var _ => true
  | _ => false

theorem operands_substitute {t : Term} (h : t.isVar = false) (id : Nat) (replacement : Term) :
    (t.substitute id replacement).operands =
      t.operands.map fun s => s.substitute id replacement := by
  cases t <;> simp_all [isVar, operands, substitute]

theorem isVar_substitute {t : Term} (h : t.isVar = false) (id : Nat) (replacement : Term) :
    (t.substitute id replacement).isVar = false := by
  cases t <;> simp_all [isVar, substitute]

theorem mem_occurrences_iff {t : Term} (h : t.isVar = false) {x : Var} :
    x ∈ t.occurrences ↔ ∃ s ∈ t.operands, x ∈ s.occurrences := by
  cases t <;> simp_all [isVar, operands, occurrences]

theorem nodes_le_substitute (t : Term) (id : Nat) (replacement : Term) :
    t.nodes ≤ (t.substitute id replacement).nodes := by
  have hall : ∀ ts : List Term, (∀ t ∈ ts, t.nodes ≤ (t.substitute id replacement).nodes) →
      nodesAll ts ≤ nodesAll (ts.map fun t => t.substitute id replacement) := by
    intro ts h
    induction ts with
    | nil => exact Nat.le_refl _
    | cons t ts ih =>
        rw [List.forall_mem_cons] at h
        exact Nat.add_le_add h.1 (ih h.2)
  induction t with
  | var x => exact one_le_nodes _
  | const v => exact Nat.le_refl _
  | not t ih => simpa [substitute, nodes] using ih
  | and ts ih => simpa [substitute, nodes] using hall ts ih
  | or ts ih => simpa [substitute, nodes] using hall ts ih
  | neg t ih => simpa [substitute, nodes] using ih
  | cmp op l r ihl ihr =>
      rw [substitute, nodes, nodes]
      omega
  | arith op l r ihl ihr =>
      rw [substitute, nodes, nodes]
      omega

/-- A variable with another number stays where it is. -/
theorem mem_occurrences_substitute_of_ne {t : Term} {x : Var} {id : Nat} (hx : x ∈ t.occurrences)
    (hid : x.id ≠ id) (replacement : Term) : x ∈ (t.substitute id replacement).occurrences := by
  induction t using operandsInductionOn with
  | step t ih =>
      by_cases hvar : t.isVar = true
      · cases t <;> simp_all [isVar, occurrences, substitute]
      · rw [Bool.not_eq_true] at hvar
        obtain ⟨s, hs, hx⟩ := (mem_occurrences_iff hvar).mp hx
        refine (mem_occurrences_iff (isVar_substitute hvar id replacement)).mpr ⟨_, ?_, ih s hs hx⟩
        rw [operands_substitute hvar]
        exact List.mem_map_of_mem hs

/-- The first term stands inside the second, which is another. -/
inductive Inside (s : Term) : Term → Prop where
  | operand {t : Term} (h : s ∈ t.operands) : Inside s t
  | deeper {t u : Term} (h : Inside s u) (hu : u ∈ t.operands) : Inside s t

theorem Inside.nodes_lt {s t : Term} (h : Inside s t) : s.nodes < t.nodes := by
  induction h with
  | operand h => exact nodes_lt_of_mem_operands h
  | deeper h hu ih => exact Nat.lt_trans ih (nodes_lt_of_mem_operands hu)

theorem isVar_of_mem_operands {s t : Term} (h : s ∈ t.operands) : t.isVar = false := by
  cases t <;> simp_all [operands, isVar]

theorem Inside.substitute {s t : Term} (h : Inside s t) (id : Nat) (replacement : Term) :
    Inside (s.substitute id replacement) (t.substitute id replacement) := by
  induction h with
  | operand h =>
      refine .operand ?_
      rw [operands_substitute (isVar_of_mem_operands h)]
      exact List.mem_map_of_mem h
  | deeper h hu ih =>
      refine .deeper ih ?_
      rw [operands_substitute (isVar_of_mem_operands hu)]
      exact List.mem_map_of_mem hu

/-- What replaces a variable stands inside the term, unless that is the variable. -/
theorem inside_substitute {t : Term} (hvar : t.isVar = false) {x : Var} (hx : x ∈ t.occurrences)
    (replacement : Term) : Inside replacement (t.substitute x.id replacement) := by
  induction t using operandsInductionOn with
  | step t ih =>
      obtain ⟨s, hs, hx⟩ := (mem_occurrences_iff hvar).mp hx
      have hmem : s.substitute x.id replacement ∈ (t.substitute x.id replacement).operands := by
        rw [operands_substitute hvar]
        exact List.mem_map_of_mem hs
      by_cases hs' : s.isVar = true
      · have hreplaced : s.substitute x.id replacement = replacement := by
          cases s <;> simp_all [isVar, occurrences, Term.substitute]
        rw [hreplaced] at hmem
        exact .operand hmem
      · exact .deeper (ih s hs (by simpa using hs') hx) hmem

end Term

namespace Store

open Exploration (assignEach)

variable {store next : Store} {t : Term} {x : Var} {handles : List Var}

/-! ## What is captured -/

/-- The term that the entry of a name holds. -/
def held? (store : Store) (name : String) : Option Term :=
  (store.binding? name).map Binding.value

theorem held?_of_assign (h : store.assign x t = .ok next) (name : String) :
    next.held? name = if name = x.name then some (store.current t) else store.held? name := by
  rw [held?, held?, binding?_of_assign h]
  split <;> rfl

theorem capture_eq (store : Store) (t : Term) (x : Var) :
    store.capture t x = ((store.held? x.name).map (t.substitute x.id)).getD t := by
  unfold capture held?
  cases store.binding? x.name <;> rfl

/-- A captured value depends on the entries of its own variables only. -/
theorem current_congr (h : ∀ v ∈ t.vars, store.held? v.name = next.held? v.name) :
    store.current t = next.current t := by
  have hfold : ∀ (vs : List Var) (u : Term), (∀ v ∈ vs, store.held? v.name = next.held? v.name) →
      vs.foldl store.capture u = vs.foldl next.capture u := by
    intro vs
    induction vs with
    | nil => exact fun u _ => rfl
    | cons v vs ih =>
        intro u hvs
        rw [List.forall_mem_cons] at hvs
        rw [List.foldl_cons, List.foldl_cons, capture_eq, capture_eq, hvs.1]
        exact ih _ hvs.2
  rw [current_eq_foldl, current_eq_foldl, hfold t.vars t h]

theorem current_var (store : Store) (v : Var) :
    store.current (.var v) = (store.held? v.name).getD (.var v) := by
  have hvars : (Term.var v).vars = [v] := rfl
  rw [current_eq_foldl, hvars, List.foldl_cons, List.foldl_nil, capture_eq]
  cases store.held? v.name <;> simp [Term.substitute]

theorem pairwise_vars (t : Term) : t.vars.Pairwise fun v w => v.id < w.id := by
  have htrans : ∀ u v w : Var, u.before v = true → v.before w = true → u.before w = true := by
    simp only [Var.before, decide_eq_true_eq]
    omega
  simpa [Term.vars, Var.before] using pairwise_insertAllAscending htrans t.occurrences .nil

theorem isVar_foldl_capture (hvar : t.isVar = false) (vs : List Var) :
    (vs.foldl store.capture t).isVar = false := by
  induction vs generalizing t with
  | nil => exact hvar
  | cons v vs ih =>
      refine ih ?_
      rw [capture_eq]
      cases store.held? v.name with
      | none => exact hvar
      | some e => exact Term.isVar_substitute hvar v.id e

theorem mem_occurrences_foldl_of_ne (hx : x ∈ t.occurrences) {vs : List Var}
    (hvs : ∀ v ∈ vs, x.id ≠ v.id) : x ∈ (vs.foldl store.capture t).occurrences := by
  induction vs generalizing t with
  | nil => exact hx
  | cons v vs ih =>
      rw [List.forall_mem_cons] at hvs
      refine ih ?_ hvs.2
      rw [capture_eq]
      cases store.held? v.name with
      | none => exact hx
      | some e => exact Term.mem_occurrences_substitute_of_ne hx hvs.1 e

theorem nodes_lt_foldl_capture {s : Term} (h : s.Inside t) (vs : List Var) :
    s.nodes < (vs.foldl store.capture t).nodes := by
  induction vs generalizing s t with
  | nil => exact h.nodes_lt
  | cons v vs ih =>
      rw [List.foldl_cons, capture_eq]
      cases store.held? v.name with
      | none => exact ih h
      | some e => exact Nat.lt_of_le_of_lt (s.nodes_le_substitute v.id e) (ih (h.substitute v.id e))

/-- A captured value has more nodes than each entry that it reads, unless the value is a
variable. -/
theorem nodes_lt_current (hvar : t.isVar = false) {v : Var} (hv : v ∈ t.vars) {e : Term}
    (he : store.held? v.name = some e) : e.nodes < (store.current t).nodes := by
  have hordered := pairwise_vars t
  obtain ⟨before, behind, hsplit⟩ := List.append_of_mem hv
  rw [hsplit, List.pairwise_append] at hordered
  -- the captures in front of `v` leave it where it is
  have hmem : v ∈ (before.foldl store.capture t).occurrences :=
    mem_occurrences_foldl_of_ne (Term.mem_occurrences_of_mem_vars hv) fun w hw =>
      Nat.ne_of_gt (hordered.2.2 w hw v List.mem_cons_self)
  have hinside := Term.inside_substitute (isVar_foldl_capture hvar before) hmem e
  rw [current_eq_foldl, hsplit, List.foldl_append, List.foldl_cons, capture_eq, he]
  exact nodes_lt_foldl_capture hinside behind

/-! ## Several targets -/

theorem assignEach_cons (h : assignEach t (x :: handles) store = (next, none)) :
    ∃ after, store.assign x t = .ok after ∧ assignEach t handles after = (next, none) := by
  rw [assignEach] at h
  split at h
  · cases h
  · rename_i after hassign
    exact ⟨after, hassign, h⟩

theorem held?_of_assignEach_of_ne (h : assignEach t handles store = (next, none)) {name : String}
    (hname : ∀ x ∈ handles, x.name ≠ name) : next.held? name = store.held? name := by
  induction handles generalizing store with
  | nil =>
      cases h
      rfl
  | cons x rest ih =>
      obtain ⟨after, hassign, h⟩ := assignEach_cons h
      rw [List.forall_mem_cons] at hname
      rw [ih h hname.2, held?_of_assign hassign, if_neg (Ne.symm hname.1)]

/-- An assignment to a variable that does not occur in the value leaves what is captured, and so
does every assignment of a variable. -/
theorem current_of_assign (h : store.assign x t = .ok next)
    (hkept : t.isVar = true ∨ ∀ v ∈ t.vars, v.name ≠ x.name) :
    next.current t = store.current t := by
  obtain hvar | hkept := hkept
  · obtain ⟨v, rfl⟩ : ∃ v, t = .var v := by
      cases t <;> simp_all [Term.isVar]
    rw [current_var next, held?_of_assign h]
    split
    · rfl
    · rw [current_var]
  · refine current_congr fun v hv => ?_
    rw [held?_of_assign h, if_neg (hkept v hv)]

/-- The entry of a variable that occurs in the value does not get smaller. -/
theorem exists_held?_of_assignEach (h : assignEach t handles store = (next, none))
    (hvar : t.isVar = false) {v : Var} (hv : v ∈ t.vars) {e : Term}
    (he : store.held? v.name = some e) :
    ∃ e', next.held? v.name = some e' ∧ e.nodes ≤ e'.nodes := by
  induction handles generalizing store e with
  | nil =>
      cases h
      exact ⟨e, he, Nat.le_refl _⟩
  | cons x rest ih =>
      obtain ⟨after, hassign, h⟩ := assignEach_cons h
      have hafter := held?_of_assign hassign v.name
      split at hafter
      · obtain ⟨e', he', hle⟩ := ih h hafter
        exact ⟨e', he', Nat.le_trans (Nat.le_of_lt (nodes_lt_current hvar hv he)) hle⟩
      · exact ih h (hafter.trans he)

theorem assignEach_append {before behind : List Var}
    (h : assignEach t (before ++ behind) store = (next, none)) :
    ∃ middle, assignEach t before store = (middle, none) ∧
      assignEach t behind middle = (next, none) := by
  induction before generalizing store with
  | nil => exact ⟨store, rfl, h⟩
  | cons x before ih =>
      obtain ⟨after, hassign, h⟩ := assignEach_cons h
      obtain ⟨middle, hbefore, hbehind⟩ := ih h
      refine ⟨middle, ?_, hbehind⟩
      rw [assignEach, hassign]
      exact hbefore

/-- Each target holds the value as it was captured in the store that the targets before it left,
unless a later target has its name. -/
theorem held?_of_assignEach {before behind : List Var}
    (h : assignEach t (before ++ x :: behind) store = (next, none))
    (hbehind : ∀ y ∈ behind, y.name ≠ x.name) :
    ∃ middle, assignEach t before store = (middle, none) ∧
      next.held? x.name = some (middle.current t) := by
  obtain ⟨middle, hbefore, h⟩ := assignEach_append h
  obtain ⟨after, hassign, h⟩ := assignEach_cons h
  refine ⟨middle, hbefore, ?_⟩
  rw [held?_of_assignEach_of_ne h hbehind, held?_of_assign hassign, if_pos rfl]

/-- Behind an entry that the value reads, some target gets a larger one. -/
theorem exists_larger_of_assignEach (h : assignEach t handles store = (next, none))
    (hne : handles ≠ []) (hvar : t.isVar = false) {v : Var} (hv : v ∈ t.vars) {e : Term}
    (he : store.held? v.name = some e) :
    ∃ y ∈ handles, ∃ e', next.held? y.name = some e' ∧ e.nodes < e'.nodes := by
  obtain ⟨front, y, rfl⟩ : ∃ front y, handles = front ++ [y] :=
    ⟨_, _, (List.dropLast_concat_getLast hne).symm⟩
  obtain ⟨middle, hfront, hlast⟩ := held?_of_assignEach h (by simp)
  obtain ⟨e', he', hle⟩ := exists_held?_of_assignEach hfront hvar hv he
  exact ⟨y, by simp, _, hlast, Nat.lt_of_le_of_lt hle (nodes_lt_current hvar hv he')⟩

theorem held?_of_kept (h : assignEach t handles store = (next, none))
    (hkept : t.isVar = true ∨ ∀ x ∈ handles.dropLast, ∀ v ∈ t.vars, v.name ≠ x.name) :
    ∀ x ∈ handles, next.held? x.name = some (store.current t) := by
  induction handles generalizing store with
  | nil => simp
  | cons x rest ih =>
      obtain ⟨after, hassign, h⟩ := assignEach_cons h
      have hrest : ∀ y ∈ rest, next.held? y.name = some (store.current t) := by
        intro y hy
        rw [List.dropLast_cons_of_ne_nil (List.ne_nil_of_mem hy), List.forall_mem_cons] at hkept
        rw [← current_of_assign hassign (hkept.imp_right And.left)]
        exact ih h (hkept.imp_right And.right) y hy
      refine List.forall_mem_cons.mpr ⟨?_, hrest⟩
      by_cases hlater : ∀ y ∈ rest, y.name ≠ x.name
      · rw [held?_of_assignEach_of_ne h hlater, held?_of_assign hassign, if_pos rfl]
      · simp only [not_forall, Classical.not_not] at hlater
        obtain ⟨y, hy, hname⟩ := hlater
        exact hname ▸ hrest y hy

theorem kept_of_held? (h : assignEach t handles store = (next, none)) (hvar : t.isVar = false)
    (hheld : ∀ x ∈ handles, next.held? x.name = some (store.current t)) :
    ∀ x ∈ handles.dropLast, ∀ v ∈ t.vars, v.name ≠ x.name := by
  induction handles generalizing store with
  | nil => simp
  | cons x rest ih =>
      obtain ⟨after, hassign, h⟩ := assignEach_cons h
      by_cases hrest : rest = []
      · simp [hrest]
      obtain ⟨-, hheld⟩ := List.forall_mem_cons.mp hheld
      have hx : ∀ v ∈ t.vars, v.name ≠ x.name := by
        intro v hv hname
        have hafter : after.held? v.name = some (store.current t) := by
          rw [held?_of_assign hassign, if_pos hname]
        obtain ⟨y, hy, e, he, hlarger⟩ := exists_larger_of_assignEach h hrest hvar hv hafter
        obtain rfl : store.current t = e := Option.some_inj.mp ((hheld y hy).symm.trans he)
        exact Nat.lt_irrefl _ hlarger
      rw [List.dropLast_cons_of_ne_nil hrest, List.forall_mem_cons]
      refine ⟨hx, ih h ?_⟩
      rwa [current_of_assign hassign (.inr hx)]

/-- The targets up to the first that fails were given their values. -/
theorem assignEach_eq_error {error : Error} (h : assignEach t handles store = (next, some error)) :
    ∃ before x behind, handles = before ++ x :: behind ∧
      assignEach t before store = (next, none) ∧ next.assign x t = .error error := by
  induction handles generalizing store with
  | nil => cases h
  | cons x rest ih =>
      rw [assignEach] at h
      split at h
      · rename_i hassign
        cases h
        exact ⟨[], x, rest, rfl, rfl, hassign⟩
      · rename_i after hassign
        obtain ⟨before, y, behind, rfl, hbefore, hy⟩ := ih h
        refine ⟨x :: before, y, behind, rfl, ?_, hy⟩
        rw [assignEach, hassign]
        exact hbefore

end Store

namespace Exploration

variable {state after : Exploration} {targets : List String} {value : Expr} {error : Error}

/-- **One value for several targets.**  A reassignment that succeeds resolves its targets and its
value once.  All targets then hold the value as it was captured in the store before if, and only
if, the value is a variable or no target but the last occurs in it.  In any case each target holds
the value as it was captured in the store that the targets before it left. -/
theorem reassign_holds_iff (h : state.reassign targets value = (after, none)) :
    ∃ handles t, targets.mapM state.lookup = .ok handles ∧
      value.resolve state.bindings = .ok t ∧
      ((∀ x ∈ handles, after.store.held? x.name = some (state.store.current t)) ↔
        t.isVar = true ∨ ∀ x ∈ handles.dropLast, ∀ v ∈ t.vars, v.name ≠ x.name) ∧
      ∀ before x behind, handles = before ++ x :: behind → (∀ y ∈ behind, y.name ≠ x.name) →
        ∃ middle, assignEach t before state.store = (middle, none) ∧
          after.store.held? x.name = some (middle.current t) := by
  unfold reassign at h
  split at h
  · cases h
  rename_i handles hlookup
  split at h
  · cases h
  rename_i t hresolve
  generalize heach : assignEach t handles state.store = result at h
  obtain ⟨store, error?⟩ := result
  cases h
  refine ⟨handles, t, hlookup, hresolve, ⟨fun hheld => ?_, Store.held?_of_kept heach⟩, ?_⟩
  · by_cases hvar : t.isVar = true
    · exact .inl hvar
    · exact .inr (Store.kept_of_held? heach (by simpa using hvar) hheld)
  · rintro before x behind rfl hbehind
    exact Store.held?_of_assignEach heach hbehind

/-- The state behind the declarations of `x` and `y` as `0` and of `s` as the empty text. -/
def declared : Exploration :=
  explore (fun _ _ => .unsat) false
    [.declaration 1 "x" "int" (some (.literal (.int 0))),
      .declaration 2 "y" "int" (some (.literal (.int 0))),
      .declaration 3 "s" "str" (some (.literal (.str "")))] (start none)

/-- The expression `x + 1`. -/
def successor : Expr :=
  .arithmetic "+" (.identifier "x") (.literal (.int 1))

/-- With `x` as the last target, `y` and `x` both get the value `0 + 1`. -/
theorem reassign_holds_iff_last_target :
    ∃ after, declared.reassign ["y", "x"] successor = (after, none) ∧
      after.store.held? "y" = some (.arith .add (.const (.int 0)) (.const (.int 1))) ∧
      after.store.held? "x" = some (.arith .add (.const (.int 0)) (.const (.int 1))) := by
  obtain ⟨after, h⟩ : ∃ after, declared.reassign ["y", "x"] successor = (after, none) := ⟨_, rfl⟩
  obtain ⟨handles, t, hlookup, hresolve, hiff, -⟩ := reassign_holds_iff h
  obtain rfl : [⟨1, "y", .int⟩, ⟨0, "x", .int⟩] = handles := Except.ok.inj hlookup
  obtain rfl : .arith .add (.var ⟨0, "x", .int⟩) (.const (.int 1)) = t := Except.ok.inj hresolve
  have hheld := hiff.mpr (.inr (by decide))
  exact ⟨after, h, hheld ⟨1, "y", .int⟩ (by simp), hheld ⟨0, "x", .int⟩ (by simp)⟩

/-- With `x` as the first target, `x` gets the value `0 + 1` and `y` the value `(0 + 1) + 1`. -/
theorem reassign_captures_first_target :
    ∃ after, declared.reassign ["x", "y"] successor = (after, none) ∧
      after.store.held? "x" = some (.arith .add (.const (.int 0)) (.const (.int 1))) ∧
      after.store.held? "y" = some (.arith .add
        (.arith .add (.const (.int 0)) (.const (.int 1))) (.const (.int 1))) :=
  ⟨_, rfl, rfl, rfl⟩

/-! ## Statements that fail -/

/-- A declaration that fails leaves the store and the diagnostics. -/
theorem declare_error {target annotation : String} {value : Option Expr}
    (h : state.declare target annotation value = (after, some error)) :
    after.store = state.store ∧ after.diagnostics = state.diagnostics := by
  unfold declare at h
  split at h
  · cases h
    exact ⟨rfl, rfl⟩
  split at h
  · cases h
    exact ⟨rfl, rfl⟩
  rename_i x bound hbind
  have hbound : bound.store = state.store ∧ bound.diagnostics = state.diagnostics := by
    obtain rfl | ⟨-, sort, rfl⟩ := eq_of_bind hbind
    · exact ⟨rfl, rfl⟩
    · exact ⟨rfl, rfl⟩
  split at h
  · cases h
  split at h
  · cases h
    exact hbound
  · cases h

/-- A reassignment stops halfway with a store: its targets and its value resolve, some targets, at
least one, get the value, which leads to the store, and the next target fails. -/
def StopsHalfway (state : Exploration) (targets : List String) (value : Expr) (error : Error)
    (store : Store) : Prop :=
  ∃ before x behind t, targets.mapM state.lookup = .ok (before ++ x :: behind) ∧ before ≠ [] ∧
    value.resolve state.bindings = .ok t ∧
    assignEach t before state.store = (store, none) ∧ store.assign x t = .error error

/-- A reassignment that fails leaves the diagnostics, and the store too unless it stops halfway. -/
theorem reassign_error (h : state.reassign targets value = (after, some error)) :
    (after.store = state.store ∨ state.StopsHalfway targets value error after.store) ∧
      after.diagnostics = state.diagnostics := by
  unfold reassign at h
  split at h
  · cases h
    exact ⟨.inl rfl, rfl⟩
  rename_i handles hlookup
  split at h
  · cases h
    exact ⟨.inl rfl, rfl⟩
  rename_i t hresolve
  generalize heach : assignEach t handles state.store = result at h
  obtain ⟨store, error?⟩ := result
  cases h
  refine ⟨?_, rfl⟩
  obtain ⟨before, x, behind, rfl, hbefore, hx⟩ := Store.assignEach_eq_error heach
  by_cases hnil : before = []
  · subst hnil
    cases hbefore
    exact .inl rfl
  · exact .inr ⟨before, x, behind, t, hlookup, hnil, hresolve, hbefore, hx⟩

variable {solver : Backend} {tracing : Bool} {stmt : Stmt}

/-- A statement that fails leaves the diagnostics, and the store too unless it is a reassignment
that stops halfway. -/
theorem perform_error (h : perform solver tracing stmt state = (after, some error)) :
    (after.store = state.store ∨ ∃ line targets value,
      stmt = .reassignment line targets value ∧
        state.StopsHalfway targets value error after.store) ∧
      after.diagnostics = state.diagnostics := by
  cases stmt with
  | declaration line target annotation value =>
      obtain ⟨hstore, hdiagnostics⟩ := declare_error h
      exact ⟨.inl hstore, hdiagnostics⟩
  | reassignment line targets value =>
      obtain ⟨hstore, hdiagnostics⟩ := reassign_error h
      exact ⟨hstore.imp_right fun hhalfway => ⟨line, targets, value, rfl, hhalfway⟩, hdiagnostics⟩
  | conditional line condition body orelse =>
      obtain ⟨_, -, heq⟩ | ⟨test, -, -, heq⟩ | ⟨test, -, -, heq⟩ :=
        perform_conditional solver tracing line condition body orelse state
      · cases heq.symm.trans h
        exact ⟨.inl rfl, rfl⟩
      · cases heq.symm.trans h
        cases tracing <;> exact ⟨.inl rfl, rfl⟩
      · cases heq.symm.trans h
  | loop line condition body =>
      obtain ⟨_, -, heq⟩ | ⟨test, -, -, heq⟩ | ⟨test, -, -, heq⟩ :=
        perform_loop solver tracing line condition body state
      · cases heq.symm.trans h
        exact ⟨.inl rfl, rfl⟩
      · cases heq.symm.trans h
        exact ⟨.inl rfl, rfl⟩
      · cases heq.symm.trans h
  | other line label => cases h

/-- **Failed statements.**  A statement that is reached and fails is reported at its line, and the
store afterwards is the store before; the exception is a reassignment that stops halfway, which
leaves the store in which it stopped. -/
theorem store_of_failed_statement {reached : Exploration}
    (hreach : state.reach stmt.line = some reached)
    (hfailed : (perform solver tracing stmt reached).2 = some error) :
    (∃ kind, (execute solver tracing stmt state).diagnostics =
      state.diagnostics ++ [⟨stmt.line, kind, error.message⟩]) ∧
      ((execute solver tracing stmt state).store = state.store ∨
        ∃ line targets value, stmt = .reassignment line targets value ∧
          state.StopsHalfway targets value error (execute solver tracing stmt state).store) := by
  obtain ⟨kind, hkind⟩ := Diagnostic.exists_of_not_fatal stmt.line (perform_not_fatal hfailed)
  rw [execute_eq_step, step_of_reach_eq_some hreach]
  obtain rfl := eq_of_reach hreach
  generalize hperform : perform solver tracing stmt _ = result at hfailed ⊢
  obtain ⟨after, error?⟩ := result
  cases hfailed
  obtain ⟨hstore, hdiagnostics⟩ := perform_error hperform
  rw [settle, fail, hkind]
  exact ⟨⟨kind, by rw [hdiagnostics]⟩, hstore⟩

/-- A declaration that names an unknown type is reported, and the store is as before. -/
theorem store_of_failed_statement_unknown_type :
    let stmt : Stmt := .declaration 4 "z" "real" (some successor)
    ∃ error, declared.reach stmt.line = some declared ∧
      (perform (fun _ _ => .unsat) true stmt declared).2 = some error ∧
      (execute (fun _ _ => .unsat) true stmt declared).store = declared.store := by
  intro stmt
  have hreach : declared.reach stmt.line = some declared := rfl
  obtain ⟨error, hfailed⟩ :
      ∃ error, (perform (fun _ _ => .unsat) true stmt declared).2 = some error := ⟨_, rfl⟩
  refine ⟨error, hreach, hfailed, ?_⟩
  obtain ⟨-, hstore | ⟨line, targets, value, hstmt, -⟩⟩ :=
    store_of_failed_statement hreach hfailed
  · exact hstore
  · exact absurd hstmt (by simp [stmt])

/-- The reassignment of `5` to `x` and the text `s` fails at `s`, and `x` keeps the value. -/
theorem store_changed_by_failed_reassignment :
    let stmt : Stmt := .reassignment 4 ["x", "s"] (.literal (.int 5))
    ∃ error, (perform (fun _ _ => .unsat) true stmt declared).2 = some error ∧
      declared.store.held? "x" = some (.const (.int 0)) ∧
      (execute (fun _ _ => .unsat) true stmt declared).store.held? "x" =
        some (.const (.int 5)) := by
  intro stmt
  exact ⟨_, rfl, rfl, rfl⟩

end Exploration

end BranchWitness
