import BranchWitness.Proofs.Reachability

/-!
# Exact stores

Assignments and tests can be read in two ways.  They build a store, in which nothing is computed:
an assignment files the term it captured, a test is filed as it stands (`Store.Follows`).  And they
run, as a program does, from values for the variables (`Block.run`), where a test has to come out
true at the moment it is reached (`Environment.Drives`).

The store is exact.  Given values for the variables without an entry, its constraints have a
solution exactly if the run passes every test and ends with values for the variables that have an
entry (`Store.Follows.solvable_iff`).  What the variables with an entry start with plays no part.

## Strategy

`Exact` says what a store has to do with the block it came from, whatever the run starts with.
Every instruction keeps it (`Exact.takes`), so it holds after a block (`Exact.follows`).  From there

* a run that completes gives a solution: the values at its end
  (`Exact.exists_solution_of_completes`); and
* a solution has the values at the end of the run, up to values that compare equal
  (`Exact.exists_equals_of_solution`).  A well-sorted test does not tell these apart, so the run
  passes it (`Exact.completes_of_solution`).
-/

namespace BranchWitness

/-! ## Well-sorted stores -/

namespace Store

/-- Every value in the store has the sort of its variable, and every test is a truth value. -/
structure Sorted (store : Store) : Prop where
  value : ∀ entry ∈ store.named, entry.2.value.WellSorted ∧ entry.2.value.sort = entry.2.target.sort
  test : ∀ t ∈ store.branch, t.WellSorted ∧ t.sort = .bool

variable {among : Var → Prop} {store next : Store}

/-- Capturing a variable keeps a term well-sorted and of its sort. -/
theorem Sorted.capture (h : store.Sorted) (hstore : WellFormed among store)
    (hamong : Coherent among) {t : Term} (ht : t.WellSorted) (hover : t.Over among) {x : Var}
    (hx : among x) : (store.capture t x).WellSorted ∧ (store.capture t x).sort = t.sort := by
  unfold Store.capture
  split
  · rename_i binding hbinding
    obtain ⟨hvalue, hsort⟩ := h.value _ (mem_named_of_binding? hbinding)
    have hsame : ∀ y ∈ t.occurrences, y.id = x.id → binding.value.sort = y.sort := by
      intro y hy hid
      rw [hamong.eq_of_id (hover y hy) hx hid, hsort, hstore.target_eq hamong hx hbinding]
    exact ⟨ht.substitute hvalue hsame, Term.sort_substitute hsame⟩
  · exact ⟨ht, rfl⟩

theorem Sorted.foldl_capture (h : store.Sorted) (hstore : WellFormed among store)
    (hamong : Coherent among) {xs : List Var} (hxs : ∀ x ∈ xs, among x) {t : Term}
    (ht : t.WellSorted) (hover : t.Over among) :
    (xs.foldl store.capture t).WellSorted ∧ (xs.foldl store.capture t).sort = t.sort := by
  induction xs generalizing t with
  | nil => exact ⟨ht, rfl⟩
  | cons x rest ih =>
      have hx : among x := hxs x List.mem_cons_self
      obtain ⟨hcaptured, hsort⟩ := h.capture hstore hamong ht hover hx
      have hrest := ih (fun y hy => hxs y (List.mem_cons_of_mem _ hy)) hcaptured
        (over_capture hstore.value hover x)
      exact ⟨hrest.1, hrest.2.trans hsort⟩

theorem Sorted.current (h : store.Sorted) (hstore : WellFormed among store)
    (hamong : Coherent among) {t : Term} (ht : t.WellSorted) (hover : t.Over among) :
    (store.current t).WellSorted ∧ (store.current t).sort = t.sort := by
  rw [current_eq_foldl]
  exact h.foldl_capture hstore hamong
    (fun x hx => hover x (Term.mem_occurrences_of_mem_vars hx)) ht hover

/-- Settling a variable is capturing it in every test. -/
theorem branch_settled (store : Store) (target : Var) :
    (store.settled target).branch = store.branch.map fun t => store.capture t target := by
  unfold settled capture
  cases store.binding? target.name with
  | none => exact (List.map_id' _).symm
  | some previous => exact store.branch_substituteInTests target.id previous.value

theorem Sorted.assign (h : store.Sorted) (hstore : WellFormed among store)
    (hamong : Coherent among) {target : Var} {value : Term} (htarget : among target)
    (hvalue : value.WellSorted) (hover : value.Over among)
    (hassign : store.assign target value = .ok next) : next.Sorted where
  value entry hentry := by
    obtain ⟨hsort, -, -⟩ := assign_eq_ok hassign
    rcases mem_named_of_assign hstore hassign hentry with rfl | ⟨hold, -⟩
    · obtain ⟨hcaptured, hkept⟩ := h.current hstore hamong hvalue hover
      exact ⟨hcaptured, hkept.trans hsort⟩
    · exact h.value entry hold
  test t ht := by
    obtain ⟨-, -, rfl⟩ := assign_eq_ok hassign
    change t ∈ (store.settled target).branch at ht
    rw [branch_settled] at ht
    obtain ⟨original, horiginal, rfl⟩ := List.mem_map.mp ht
    obtain ⟨hwell, hbool⟩ := h.test original horiginal
    obtain ⟨hcaptured, hkept⟩ :=
      h.capture hstore hamong hwell (hstore.test original horiginal) htarget
    exact ⟨hcaptured, hkept.trans hbool⟩

theorem Sorted.push (h : store.Sorted) {test : Term} {position : Nat} (htest : test.WellSorted)
    (hbool : test.sort = .bool) (hpush : store.push test = .ok (position, next)) : next.Sorted := by
  rw [push_eq_ok hpush]
  exact ⟨h.value, List.forall_mem_append.mpr ⟨h.test, by simpa using ⟨htest, hbool⟩⟩⟩

end Store

/-! ## Blocks -/

/-- An assignment, or a test that has to be true. -/
inductive Instruction where
  | assign (target : Var) (value : Term)
  | test (condition : Term)

namespace Instruction

/-- The variables of an instruction. -/
def vars : Instruction → List Var
  | assign target value => target :: value.occurrences
  | test condition => condition.occurrences

/-- The environment after an instruction.  A value that is undefined makes its target undefined. -/
def run (env : Environment) : Instruction → Environment
  | assign target value => env.set target.id (value.meaning env)
  | test _ => env

/-- The instruction is one that a run goes past. -/
def Passes (env : Environment) : Instruction → Prop
  | assign _ _ => True
  | test condition => condition.meaning env = .known (.bool true)

end Instruction

/-- Instructions one after another. -/
abbrev Block := List Instruction

/-- The variables of a block. -/
def Block.vars (block : Block) : List Var :=
  block.flatMap Instruction.vars

/-- The environment at the end of a block. -/
def Block.run (block : Block) (env : Environment) : Environment :=
  block.foldl Instruction.run env

/-- Every test of the block is true when the run reaches it. -/
def Environment.Drives (env : Environment) (block : Block) : Prop :=
  PassesEach Instruction.run Instruction.Passes env block

theorem Block.run_append (first second : Block) (env : Environment) :
    Block.run (first ++ second) env = second.run (first.run env) :=
  List.foldl_append

theorem Environment.drives_append_singleton {env : Environment} {block : Block}
    {instruction : Instruction} : env.Drives (block ++ [instruction]) ↔
      env.Drives block ∧ instruction.Passes (block.run env) :=
  passesEach_append_singleton

/-! ## Stores that follow a block -/

namespace Store

/-- No value in the store and no test mentions the variable numbered `id`. -/
def Silent (store : Store) (id : Nat) : Prop :=
  (∀ entry ∈ store.named, entry.2.value.mentions id = false) ∧
    ∀ t ∈ store.branch, t.mentions id = false

/-- The store after an instruction.  The terms are well-sorted, and a variable is assigned only if
it has an entry or the store says nothing about it. -/
inductive Takes : Store → Instruction → Store → Prop
  | assign {store next : Store} {target : Var} {value : Term} (hvalue : value.WellSorted)
      (htarget : (store.binding? target.name).isSome = true ∨ store.Silent target.id)
      (h : store.assign target value = .ok next) : Takes store (.assign target value) next
  | test {store next : Store} {condition : Term} {position : Nat}
      (hcondition : condition.WellSorted) (hbool : condition.sort = .bool)
      (h : store.push condition = .ok (position, next)) : Takes store (.test condition) next

/-- The store after a block. -/
inductive Follows : Store → Block → Store → Prop
  | nil {store : Store} : Follows store [] store
  | cons {store middle final : Store} {instruction : Instruction} {rest : Block} :
      Takes store instruction middle → Follows middle rest final →
        Follows store (instruction :: rest) final

/-- A store that follows a block was on its way at every point of the block. -/
theorem Follows.split {store final : Store} {first second : Block}
    (h : store.Follows (first ++ second) final) :
    ∃ middle, store.Follows first middle ∧ middle.Follows second final := by
  induction first generalizing store with
  | nil => exact ⟨store, .nil, h⟩
  | cons instruction rest ih =>
      cases h with
      | cons htakes hfollows =>
          obtain ⟨middle, hfirst, hsecond⟩ := ih hfollows
          exact ⟨middle, .cons htakes hfirst, hsecond⟩

/-- No value in the store mentions a variable that has an entry. -/
def Closed (store : Store) : Prop :=
  ∀ entry ∈ store.named, ∀ other ∈ store.named,
    entry.2.value.mentions other.2.target.id = false

theorem WellFormed.isClosed {among : Var → Prop} {store : Store} (h : WellFormed among store)
    (hamong : Coherent among) : store.Closed := by
  intro entry hentry other hother
  refine Term.not_mentions_iff.mpr fun x hx hid => ?_
  obtain ⟨htarget, hname⟩ := h.target other hother
  have hnone := h.closed entry hentry x hx
  rw [hamong.eq_of_id (h.value entry hentry x hx) htarget hid, hname] at hnone
  have hsome : (store.binding? other.1).isSome = true :=
    isSome_binding?_iff.mpr ⟨other, hother, rfl⟩
  simp [hnone] at hsome

/-- A variable that the store says nothing about can be assigned. -/
theorem admits_of_silent {among : Var → Prop} {store : Store} (h : WellFormed among store)
    (hamong : Coherent among) {target : Var} (htarget : among target)
    (hsilent : (store.binding? target.name).isSome = true ∨ store.Silent target.id) :
    store.admits target = true := by
  by_cases hsome : (store.binding? target.name).isSome = true
  · simp [admits, hsome]
  · obtain ⟨hvalues, htests⟩ := hsilent.resolve_left hsome
    refine Bool.or_eq_true_iff.mpr (.inr (List.all_eq_true.mpr fun t ht => ?_))
    rw [Bool.not_eq_true']
    rcases mem_assertions ht with ⟨entry, hentry, rfl⟩ | htest
    · refine Term.not_mentions_iff.mpr fun x hx hid => ?_
      rw [occurrences_term, List.mem_cons] at hx
      rcases hx with rfl | hvalue
      · -- the equation of another variable with this number would be one of this variable
        obtain ⟨hentryTarget, hname⟩ := h.target entry hentry
        refine hsome (isSome_binding?_iff.mpr ⟨entry, hentry, ?_⟩)
        rw [← hname, hamong.eq_of_id hentryTarget htarget hid]
      · exact Term.not_mentions_iff.mp (hvalues entry hentry) x hvalue hid
    · exact htests t htest

end Store

/-- The store says of the end of the block, from every start, what a run finds there. -/
structure Exact (among : Var → Prop) (block : Block) (store : Store) : Prop where
  wellFormed : store.WellFormed among
  sorted : store.Sorted
  free : ∀ env x, among x → store.binding? x.name = none → block.run env x = env x
  describes : ∀ env, store.Describes (block.run env)
  drives : ∀ env : Environment, env.Drives block ↔ store.Passes (block.run env)

namespace Exact

variable {among : Var → Prop} {block : Block} {store next : Store}

theorem start (capacity : Option Nat) : Exact among [] { capacity } where
  wellFormed := Store.wellFormed_empty capacity
  sorted := ⟨by simp, by simp⟩
  free _ _ _ _ := rfl
  describes env := by simp [Store.Describes]
  drives env := by simp [Store.Passes, Environment.Drives, PassesEach]

theorem assign (h : Exact among block store) (hamong : Coherent among) {target : Var}
    {value : Term} (htarget : among target) (hover : value.Over among) (hvalue : value.WellSorted)
    (hadmits : store.admits target = true) (hassign : store.assign target value = .ok next) :
    Exact among (block ++ [.assign target value]) next := by
  have hrun : ∀ env, Block.run (block ++ [.assign target value]) env =
      (block.run env).set target.id (value.meaning (block.run env)) :=
    fun env => Block.run_append block _ env
  have hothers : ∀ env x, among x → x ≠ target →
      Block.run (block ++ [.assign target value]) env x = block.run env x := by
    intro env x hx hne
    rw [hrun, Environment.set_of_ne]
    exact fun hid => hne (hamong.eq_of_id hx htarget hid)
  refine ⟨h.wellFormed.assign hamong htarget hover hadmits hassign,
    h.sorted.assign h.wellFormed hamong htarget hvalue hover hassign, fun env x hx hnone => ?_,
    fun env => ?_, fun env => ?_⟩
  · rw [Store.binding?_of_assign hassign] at hnone
    have hname : x.name ≠ target.name := by
      intro heq
      simp [heq] at hnone
    rw [if_neg hname] at hnone
    rw [hothers env x hx fun heq => hname (heq ▸ rfl), h.free env x hx hnone]
  · refine Store.Describes.assign h.wellFormed hamong (h.describes env) htarget hover hadmits
      hassign ?_ (hothers env)
    rw [hrun, Environment.set_of_eq _ _ rfl]
  · rw [Environment.drives_append_singleton, h.drives env,
      Store.passes_assign_iff h.wellFormed hamong (h.describes env) htarget hadmits hassign
        (hothers env)]
    exact and_iff_left trivial

theorem test (h : Exact among block store) {condition : Term} {position : Nat}
    (hover : condition.Over among) (hcondition : condition.WellSorted)
    (hbool : condition.sort = .bool) (hpush : store.push condition = .ok (position, next)) :
    Exact among (block ++ [.test condition]) next := by
  have hrun : ∀ env, Block.run (block ++ [.test condition]) env = block.run env :=
    fun env => Block.run_append block _ env
  have hnamed : next.named = store.named := by rw [Store.push_eq_ok hpush]
  refine ⟨h.wellFormed.push hover hpush, h.sorted.push hcondition hbool hpush,
    fun env x hx hnone => ?_, fun env => ?_, fun env => ?_⟩
  · rw [Store.binding?, hnamed] at hnone
    rw [hrun, h.free env x hx hnone]
  · rw [hrun, Store.Describes, hnamed]
    exact h.describes env
  · rw [Environment.drives_append_singleton, h.drives env, hrun, Store.passes_push_iff hpush]
    exact Iff.rfl

/-- Every instruction keeps a store exact. -/
theorem takes (h : Exact among block store) (hamong : Coherent among) {instruction : Instruction}
    (hvars : ∀ x ∈ instruction.vars, among x) (htakes : store.Takes instruction next) :
    Exact among (block ++ [instruction]) next := by
  cases htakes with
  | @assign _ target value hvalue hsilent hassign =>
      have htarget : among target := hvars target List.mem_cons_self
      have hover : value.Over among := fun x hx => hvars x (List.mem_cons_of_mem _ hx)
      exact h.assign hamong htarget hover hvalue
        (Store.admits_of_silent h.wellFormed hamong htarget hsilent) hassign
  | test hcondition hbool hpush => exact h.test hvars hcondition hbool hpush

/-- A store that follows a block is exact. -/
theorem follows (h : Exact among block store) (hamong : Coherent among) {rest : Block}
    {final : Store} (hvars : ∀ x ∈ rest.vars, among x) (hfollows : store.Follows rest final) :
    Exact among (block ++ rest) final := by
  induction hfollows generalizing block with
  | nil => simpa using h
  | @cons _ _ _ instruction rest htakes _ ih =>
      have hsplit : ∀ x ∈ instruction.vars ++ Block.vars rest, among x := hvars
      rw [List.forall_mem_append] at hsplit
      have hnext := ih (h.takes hamong hsplit.1 htakes) hsplit.2
      simpa using hnext

end Exact

theorem Store.Follows.exact {among : Var → Prop} {capacity : Option Nat} {block : Block}
    {final : Store} (h : Store.Follows { capacity } block final) (hamong : Coherent among)
    (hvars : ∀ x ∈ block.vars, among x) : Exact among block final :=
  (Exact.start capacity).follows hamong hvars h

/-! ## Solutions -/

/-- The variables that have no entry in the store. -/
def Store.inputs (store : Store) (vars : List Var) : List Var :=
  vars.filter fun x => (store.binding? x.name).isNone

theorem Store.mem_inputs {store : Store} {vars : List Var} {x : Var} :
    x ∈ store.inputs vars ↔ x ∈ vars ∧ store.binding? x.name = none := by
  simp [inputs]

/-- The values that an environment has for the given variables. -/
def Environment.assignment (env : Environment) (vars : List Var) : Assignment := fun id =>
  (vars.find? fun x => x.id == id).bind fun x =>
    match env x with
    | .known v => some v
    | _ => none

theorem Environment.assignment_of_mem {env : Environment} {vars : List Var}
    (hvars : Coherent (· ∈ vars)) {x : Var} (hx : x ∈ vars) {v : Value} (hv : env x = .known v) :
    env.assignment vars x.id = some v := by
  unfold assignment
  cases hfind : vars.find? fun y => y.id == x.id with
  | none => simpa using List.find?_eq_none.mp hfind x hx
  | some y =>
      have hid : y.id = x.id := by simpa using List.find?_some hfind
      rw [Option.bind_some, hvars.eq_of_id (List.mem_of_find?_eq_some hfind) hx hid, hv]

/-- The run passes every test and leaves every variable with an entry with a value. -/
def Environment.Completes (env : Environment) (block : Block) (store : Store) : Prop :=
  env.Drives block ∧ ∀ entry ∈ store.named, ∃ v, block.run env entry.2.target = .known v

/-- An assignment that extends the values given to some variables and makes every constraint
true. -/
structure Store.Solution (store : Store) (inputs : List Var) (valuation : Var → Value)
    (found : Assignment) : Prop where
  agrees : ∀ x ∈ inputs, found x.id = some (valuation x)
  holds : ∀ t ∈ store.assertions, t.Holds found

namespace Exact

variable {vars : List Var} {block : Block} {store : Store} {valuation : Var → Value}
  {env : Environment}

/-- The run leaves the variables without an entry with the values that they start with. -/
theorem run_of_mem_inputs (h : Exact (· ∈ vars) block store)
    (henv : ∀ x ∈ store.inputs vars, env x = .known (valuation x)) {x : Var} (hx : x ∈ vars)
    (hnone : store.binding? x.name = none) : block.run env x = .known (valuation x) := by
  rw [h.free env x hx hnone, henv x (Store.mem_inputs.mpr ⟨hx, hnone⟩)]

/-- A run from values of their sorts for the variables without an entry ends with such values for
all variables. -/
theorem sort_of_run (h : Exact (· ∈ vars) block store) (hvars : Coherent (· ∈ vars))
    (hsorts : ∀ x ∈ store.inputs vars, (valuation x).sort = x.sort)
    (henv : ∀ x ∈ store.inputs vars, env x = .known (valuation x)) {x : Var} (hx : x ∈ vars)
    {v : Value} (hv : block.run env x = .known v) : v.sort = x.sort := by
  have hinput : ∀ y ∈ vars, store.binding? y.name = none → ∀ w, block.run env y = .known w →
      w.sort = y.sort := by
    intro y hy hnone w hw
    rw [h.run_of_mem_inputs henv hy hnone, Meaning.known.injEq] at hw
    rw [← hw, hsorts y (Store.mem_inputs.mpr ⟨hy, hnone⟩)]
  cases hbinding : store.binding? x.name with
  | none => exact hinput x hx hbinding v hv
  | some binding =>
      have hentry := Store.mem_named_of_binding? hbinding
      obtain ⟨hvalue, hsort⟩ := h.sorted.value _ hentry
      have htarget := h.wellFormed.target_eq hvars hx hbinding
      have hmeaning : binding.value.meaning (block.run env) = .known v := by
        rw [h.describes env _ hentry, htarget, hv]
      rw [← htarget, ← hsort]
      exact hvalue.sort_of_meaning (fun y hy => hinput y (h.wellFormed.value _ hentry y hy)
        (h.wellFormed.closed _ hentry y hy)) hmeaning

/-- A solution has, up to values that compare equal, the values at the end of the run. -/
theorem exists_equals_of_solution (h : Exact (· ∈ vars) block store)
    (hvars : Coherent (· ∈ vars)) (henv : ∀ x ∈ store.inputs vars, env x = .known (valuation x))
    {found : Assignment} (hfound : store.Solution (store.inputs vars) valuation found) {x : Var}
    (hx : x ∈ vars) : ∃ v w, found.environment x = .known v ∧ block.run env x = .known w ∧
      v.Equals w := by
  have hinput : ∀ y ∈ vars, store.binding? y.name = none →
      found.environment y = .known (valuation y) := fun y hy hnone =>
    Assignment.environment_of_some (hfound.agrees y (Store.mem_inputs.mpr ⟨hy, hnone⟩))
  cases hbinding : store.binding? x.name with
  | none =>
      exact ⟨_, _, hinput x hx hbinding, h.run_of_mem_inputs henv hx hbinding, .refl _⟩
  | some binding =>
      have hentry := Store.mem_named_of_binding? hbinding
      obtain ⟨v, w, hv, hw, hequal⟩ := Binding.equals_of_holds
        (hfound.holds _ (List.mem_append_left _ (List.mem_map_of_mem hentry)))
      -- the value of the entry mentions only variables without one
      have hsame : binding.value.meaning (block.run env) =
          binding.value.meaning found.environment := by
        refine Term.meaning_congr fun y hy => ?_
        have hmem := h.wellFormed.value _ hentry y hy
        have hnone := h.wellFormed.closed _ hentry y hy
        rw [h.run_of_mem_inputs henv hmem hnone, hinput y hmem hnone]
      have htarget := h.wellFormed.target_eq hvars hx hbinding
      rw [← htarget]
      exact ⟨v, w, hv, by rw [← h.describes env _ hentry, hsame, hw], hequal⟩

/-- **A solution, a run.**  Where the constraints have a solution, the run completes. -/
theorem completes_of_solution (h : Exact (· ∈ vars) block store) (hvars : Coherent (· ∈ vars))
    (hsorts : ∀ x ∈ store.inputs vars, (valuation x).sort = x.sort)
    (henv : ∀ x ∈ store.inputs vars, env x = .known (valuation x)) {found : Assignment}
    (hfound : store.Solution (store.inputs vars) valuation found) : env.Completes block store := by
  have hvalues : ∀ x ∈ vars, ∃ v w, found.environment x = .known v ∧
      block.run env x = .known w ∧ v.Equals w :=
    fun x hx => h.exists_equals_of_solution hvars henv hfound hx
  refine ⟨(h.drives env).mpr fun t ht => ?_, fun entry hentry => ?_⟩
  · obtain ⟨hwell, hbool⟩ := h.sorted.test t ht
    have hmem : ∀ x ∈ t.occurrences, x ∈ vars := h.wellFormed.test t ht
    have htrue : t.meaning found.environment = .known (.bool true) := by
      rw [← Term.eval_eq_meaning]
      exact hfound.holds t (List.mem_append_right _ ht)
    have hrespects : ∀ x ∈ t.occurrences, ∀ v, block.run env x = .known v → v.sort = x.sort :=
      fun x hx v => h.sort_of_run hvars hsorts henv (hmem x hx)
    refine Term.truth_of_equals hwell hbool hrespects (fun v => ?_) true htrue
    refine hwell.meaning_of_equals (fun x hx u hu => ?_) hrespects
    obtain ⟨v, w, hv, hw, hequal⟩ := hvalues x (hmem x hx)
    rw [hu, Meaning.known.injEq] at hv
    exact ⟨w, hw, hv ▸ hequal⟩
  · obtain ⟨-, w, -, hw, -⟩ := hvalues _ (h.wellFormed.target entry hentry).1
    exact ⟨w, hw⟩

/-- The values at the end of a run that completes make every constraint true. -/
theorem holds_of_completes (h : Exact (· ∈ vars) block store) {found : Assignment}
    (hfound : ∀ x ∈ vars, found.environment x = block.run env x)
    (hcompletes : env.Completes block store) : ∀ t ∈ store.assertions, t.Holds found := by
  obtain ⟨hdrives, hdefined⟩ := hcompletes
  intro t ht
  rw [Term.Holds, Term.eval_eq_meaning]
  rcases Store.mem_assertions ht with ⟨entry, hentry, rfl⟩ | htest
  · obtain ⟨v, hv⟩ := hdefined entry hentry
    have htarget : found.environment entry.2.target = .known v := by
      rw [hfound _ (h.wellFormed.target entry hentry).1, hv]
    have hvalue : entry.2.value.meaning found.environment = .known v := by
      rw [← hv, ← h.describes env entry hentry]
      exact Term.meaning_congr fun x hx => hfound x (h.wellFormed.value entry hentry x hx)
    have hequal : CmpOp.eq.apply v v = .ok true := Value.Equals.refl v
    rw [Binding.term, Term.equals, Term.meaning, Term.meaning, htarget, hvalue, Meaning.lift₂,
      hequal]
    rfl
  · rw [← (h.drives env).mp hdrives t htest]
    exact Term.meaning_congr fun x hx => hfound x (h.wellFormed.test t htest x hx)

/-- **A run, a solution.**  Where the run completes, the values at its end are a solution, and one
that respects all sorts. -/
theorem exists_solution_of_completes (h : Exact (· ∈ vars) block store)
    (hvars : Coherent (· ∈ vars)) (hsorts : ∀ x ∈ store.inputs vars, (valuation x).sort = x.sort)
    (henv : ∀ x ∈ store.inputs vars, env x = .known (valuation x))
    (hcompletes : env.Completes block store) :
    ∃ found, store.Solution (store.inputs vars) valuation found ∧ Solver.Respects found vars := by
  have hknown : ∀ x ∈ vars, ∃ v, block.run env x = .known v := by
    intro x hx
    cases hbinding : store.binding? x.name with
    | none => exact ⟨_, h.run_of_mem_inputs henv hx hbinding⟩
    | some binding =>
        obtain ⟨v, hv⟩ := hcompletes.2 _ (Store.mem_named_of_binding? hbinding)
        rw [h.wellFormed.target_eq hvars hx hbinding] at hv
        exact ⟨v, hv⟩
  refine ⟨(block.run env).assignment vars, ⟨fun x hx => ?_, ?_⟩, fun x hx => ?_⟩
  · obtain ⟨hmem, hnone⟩ := Store.mem_inputs.mp hx
    exact Environment.assignment_of_mem hvars hmem (h.run_of_mem_inputs henv hmem hnone)
  · refine h.holds_of_completes (fun x hx => ?_) hcompletes
    obtain ⟨v, hv⟩ := hknown x hx
    rw [hv, Assignment.environment_of_some (Environment.assignment_of_mem hvars hx hv)]
  · obtain ⟨v, hv⟩ := hknown x hx
    exact ⟨v, Environment.assignment_of_mem hvars hx hv, h.sort_of_run hvars hsorts henv hx hv⟩

end Exact

/-- **Capturing is exact.**  At no point of a block does a value in the store mention a variable with
an entry.  At its end, values for the variables without an entry extend to a solution of the
constraints exactly if a run that starts with these values completes, whatever else it starts with.
It makes no difference whether the solution has to respect the sorts of the other variables too. -/
theorem Store.Follows.solvable_iff (capacity : Option Nat) (block : Block) (final : Store)
    (hvars : Coherent (· ∈ block.vars)) (hfollows : Store.Follows { capacity } block final) :
    (∀ first second, block = first ++ second → ∃ middle : Store,
      Store.Follows { capacity } first middle ∧ middle.Follows second final ∧ middle.Closed) ∧
    ∀ (valuation : Var → Value) (env : Environment),
      (∀ x ∈ final.inputs block.vars, (valuation x).sort = x.sort) →
      (∀ x ∈ final.inputs block.vars, env x = .known (valuation x)) →
      ((∃ found, final.Solution (final.inputs block.vars) valuation found) ↔
        env.Completes block final) ∧
      ((∃ found, final.Solution (final.inputs block.vars) valuation found ∧
        Solver.Respects found block.vars) ↔ env.Completes block final) := by
  refine ⟨fun first second hsplit => ?_, fun valuation env hsorts henv => ?_⟩
  · subst hsplit
    obtain ⟨middle, hfirst, hsecond⟩ := hfollows.split
    have hmem : ∀ x ∈ first.vars, x ∈ Block.vars (first ++ second) := by
      intro x hx
      rw [Block.vars, List.flatMap_append]
      exact List.mem_append_left _ hx
    have hmiddle := hfirst.exact hvars hmem
    exact ⟨middle, hfirst, hsecond, hmiddle.wellFormed.isClosed hvars⟩
  · have hexact := hfollows.exact hvars fun x hx => hx
    have hsolution := hexact.exists_solution_of_completes hvars hsorts henv
    constructor
    · constructor
      · rintro ⟨found, hfound⟩
        exact hexact.completes_of_solution hvars hsorts henv hfound
      · intro hcompletes
        obtain ⟨found, hfound, -⟩ := hsolution hcompletes
        exact ⟨found, hfound⟩
    · refine ⟨?_, hsolution⟩
      rintro ⟨found, hfound, -⟩
      exact hexact.completes_of_solution hvars hsorts henv hfound

/-- The block that overwrites `x` by its double between two tests of it and then copies it to `y`.
The first test ends up as one of `n`.  With `7` for `n` there is a solution, since a run completes
even if it starts without values for `x` and `y`. -/
theorem Store.Follows.solvable_iff_overwriting :
    let n : Var := ⟨0, "n", .int⟩
    let x : Var := ⟨1, "x", .int⟩
    let y : Var := ⟨2, "y", .int⟩
    let successor : Term := .arith .add (.var n) (.const (.int 1))
    let double : Term := .arith .mul (.var x) (.const (.int 2))
    let captured : Term := .arith .mul successor (.const (.int 2))
    let block : Block :=
      [.assign x successor, .test (.cmp .gt (.var x) (.const (.int 5))), .assign x double,
        .test (.cmp .lt (.var x) (.const (.int 20))), .assign y (.var x)]
    let final : Store :=
      { named := [("x", ⟨x, captured⟩), ("y", ⟨y, captured⟩)]
        branch := [.cmp .gt successor (.const (.int 5)), .cmp .lt (.var x) (.const (.int 20))] }
    let env : Environment := fun v => if v = n then .known (.int 7) else .undefined
    (Coherent (· ∈ block.vars) ∧ Store.Follows {} block final ∧ final.inputs block.vars = [n] ∧
      env.Completes block final) ∧
    ∃ found, final.Solution (final.inputs block.vars) (fun _ => .int 7) found ∧
      Solver.Respects found block.vars := by
  intro n x y successor double captured block final env
  have hvars : Coherent (· ∈ block.vars) := by
    have hid : ∀ a ∈ block.vars, ∀ b ∈ block.vars, a.id = b.id → a = b := by decide
    have hname : ∀ a ∈ block.vars, ∀ b ∈ block.vars, a.name = b.name → a = b := by decide
    exact ⟨fun ha hb => hid _ ha _ hb, fun ha hb => hname _ ha _ hb⟩
  have hsum : successor.WellSorted := .arith (.var n) (.const _) (.inl ⟨rfl, rfl⟩)
  have hproduct : double.WellSorted := .arith (.var x) (.const _) (.inl ⟨rfl, rfl⟩)
  have htest : ∀ op c, (Term.cmp op (.var x) (.const (.int c))).WellSorted :=
    fun op c => .cmp (.var x) (.const _) rfl (by simp [Term.sort, x])
  have hfollows : Store.Follows {} block final :=
    .cons (.assign hsum (.inr ⟨by decide, by decide⟩) rfl)
      (.cons (.test (htest _ _) rfl rfl)
        (.cons (.assign hproduct (.inl rfl) rfl)
          (.cons (.test (htest _ _) rfl rfl)
            (.cons (.assign (.var x) (.inr ⟨by decide, by decide⟩) rfl) .nil))))
  have hinputs : final.inputs block.vars = [n] := by decide
  have hcompletes : env.Completes block final := by
    refine ⟨⟨trivial, rfl, trivial, rfl, trivial, trivial⟩, ?_⟩
    simp only [final, List.forall_mem_cons]
    exact ⟨⟨.int 16, rfl⟩, ⟨.int 16, rfl⟩, by simp⟩
  refine ⟨⟨hvars, hfollows, hinputs, hcompletes⟩, ?_⟩
  refine (((Store.Follows.solvable_iff none block final hvars hfollows).2 (fun _ => .int 7) env
    ?_ ?_).2).mpr hcompletes
  · rw [hinputs]
    simp [n, Value.sort]
  · rw [hinputs]
    simp [n, env]

end BranchWitness
