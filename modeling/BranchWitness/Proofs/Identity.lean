import BranchWitness.Proofs.Statements

/-!
# The identity of variables

A name gets its variable when it is bound first, and keeps it.  The variables are numbered in the
order of binding, so their numbers are the numbers below the next one, each once.  All that an
exploration writes down, in its store, in the trace and in the questions to the solver, is about
variables that are bound (`Exploration.Identified`).

Names are never unbound, not even where the exploration goes back to an earlier store.  So what was
written down about fewer names stays right (`Identified.mono`), and the invariant has to be shown
for the moves of an exploration only (`Leads.identified`).
-/

namespace BranchWitness

/-! ## What is written down -/

/-- The constraints are about the given variables, and every entry is filed under the name of its
variable. -/
structure Store.About (among : Var → Prop) (store : Store) : Prop where
  keyed : ∀ entry ∈ store.named, entry.2.target.name = entry.1
  constraint : ∀ t ∈ store.assertions, t.Over among

namespace Store

variable {among larger : Var → Prop} {store next : Store}

theorem about_empty (capacity : Option Nat) : About among { capacity } where
  keyed := by simp
  constraint := by simp [assertions]

theorem About.mono (h : About among store) (hle : ∀ x, among x → larger x) :
    About larger store where
  keyed := h.keyed
  constraint t ht := (h.constraint t ht).mono hle

theorem About.term (h : About among store) {entry : String × Binding}
    (hentry : entry ∈ store.named) : entry.2.term.Over among :=
  h.constraint _ (List.mem_append_left _ (List.mem_map_of_mem hentry))

theorem About.value (h : About among store) {entry : String × Binding}
    (hentry : entry ∈ store.named) : entry.2.value.Over among := by
  intro x hx
  refine h.term hentry x ?_
  rw [occurrences_term]
  exact List.mem_cons_of_mem _ hx

theorem About.test (h : About among store) {t : Term} (ht : t ∈ store.branch) : t.Over among :=
  h.constraint t (List.mem_append_right _ ht)

theorem About.take (h : About among store) {test : Term} (htest : test.Over among) :
    About among (store.take test) where
  keyed := h.keyed
  constraint := by
    intro t ht
    rcases mem_assertions ht with ⟨entry, hentry, rfl⟩ | hbranch
    · exact h.term hentry
    · rcases List.mem_append.mp hbranch with hold | hnew
      · exact h.test hold
      · rw [List.mem_singleton.mp hnew]
        exact htest

/-- A test in which the previous value of a variable was put is about the same variables. -/
theorem About.settled (h : About among store) (target : Var) :
    ∀ t ∈ (store.settled target).branch, t.Over among := by
  intro t ht
  unfold Store.settled at ht
  split at ht
  · rename_i previous hprevious
    rw [branch_substituteInTests] at ht
    obtain ⟨original, horiginal, rfl⟩ := List.mem_map.mp ht
    intro x hx
    rcases Term.mem_occurrences_substitute hx with ⟨hkept, -⟩ | hnew
    · exact h.test horiginal x hkept
    · exact h.value (mem_named_of_binding? hprevious) x hnew
  · exact h.test ht

theorem About.assign (h : About among store) {target : Var} {value : Term}
    (htarget : among target) (hvalue : value.Over among)
    (hassign : store.assign target value = .ok next) : About among next := by
  obtain ⟨-, -, rfl⟩ := assign_eq_ok hassign
  have hcaptured : (store.current value).Over among :=
    over_current (fun entry hentry => h.value hentry) hvalue
  have hentries : ∀ entry ∈ ((store.settled target).bind target.name
      ⟨target, store.current value⟩).named,
      entry = (target.name, ⟨target, store.current value⟩) ∨ entry ∈ store.named := by
    intro entry hentry
    rw [← named_settled store target]
    exact mem_of_mem_putBinding hentry
  refine ⟨fun entry hentry => ?_, fun t ht => ?_⟩
  · rcases hentries entry hentry with rfl | hold
    · rfl
    · exact h.keyed entry hold
  · rcases mem_assertions ht with ⟨entry, hentry, rfl⟩ | hbranch
    · rcases hentries entry hentry with rfl | hold
      · intro x hx
        rw [occurrences_term] at hx
        rcases List.mem_cons.mp hx with rfl | hx
        · exact htarget
        · exact hcaptured x hx
      · exact h.term hold
    · exact h.settled target t hbranch

end Store

/-- The test and the stores of the snapshot are about the given variables. -/
structure Snapshot.About (among : Var → Prop) (snapshot : Snapshot) : Prop where
  test : snapshot.test.Over among
  beforeTrue : snapshot.beforeTrue.About among
  beforeFalse : ∀ store ∈ snapshot.beforeFalse, store.About among

theorem Snapshot.About.mono {among larger : Var → Prop} {snapshot : Snapshot}
    (h : snapshot.About among) (hle : ∀ x, among x → larger x) : snapshot.About larger where
  test := h.test.mono hle
  beforeTrue := h.beforeTrue.mono hle
  beforeFalse store hstore := (h.beforeFalse store hstore).mono hle

namespace Exploration

/-! ## The invariant -/

/-- Names stand for variables of these names, which are numbered in turn, and all that is written
down is about variables that are bound. -/
structure Identified (state : Exploration) : Prop where
  keyed : state.bindings.Keyed
  numbers : (state.bindings.entries.map fun entry => entry.2.id).Perm (List.range state.nextId)
  store : state.store.About state.bindings.Binds
  trace : ∀ snapshot ∈ state.trace, snapshot.About state.bindings.Binds
  asked : ∀ assertions ∈ state.asked, ∀ t ∈ assertions, t.Over state.bindings.Binds

theorem identified_start (capacity : Option Nat) : (start capacity).Identified where
  keyed := Bindings.numbered_empty.keyed
  numbers := .refl _
  store := Store.about_empty capacity
  trace := by simp [start]
  asked := by simp [start]

namespace Identified

variable {state : Exploration}

/-- Only what the findings rest on matters. -/
theorem of_findings {first second : Exploration} (h : first.Identified)
    (hfindings : second.findings = first.findings) : second.Identified := by
  have hkept : first.findings.Identified := ⟨h.keyed, h.numbers, h.store, h.trace, h.asked⟩
  rw [← hfindings] at hkept
  exact ⟨hkept.keyed, hkept.numbers, hkept.store, hkept.trace, hkept.asked⟩

/-- What was written down about fewer names stays right. -/
theorem mono (h : state.Identified) {bindings : Bindings} {next : Nat}
    (hkeyed : bindings.Keyed)
    (hnumbers : (bindings.entries.map fun entry => entry.2.id).Perm (List.range next))
    (hextends : bindings.Extends state.bindings) :
    Identified { state with bindings, nextId := next } where
  keyed := hkeyed
  numbers := hnumbers
  store := h.store.mono hextends.binds
  trace snapshot hsnapshot := (h.trace snapshot hsnapshot).mono hextends.binds
  asked assertions hassertions t ht := (h.asked assertions hassertions t ht).mono hextends.binds

/-- A new name gets the next number. -/
theorem insert (h : state.Identified) {name : String} (hnone : state.bindings.find? name = none)
    (sort : ValueSort) :
    Identified { state with
      bindings := state.bindings.insert name ⟨state.nextId, name, sort⟩
      nextId := state.nextId + 1 } := by
  refine h.mono ?_ ?_ (Bindings.extends_insert hnone _)
  · intro other x hx
    rw [NameMap.find?_insert] at hx
    split at hx
    · rename_i hother
      cases hx
      exact hother.symm
    · exact h.keyed other x hx
  · have hentries : (state.bindings.insert name ⟨state.nextId, name, sort⟩).entries.Perm
        ((name, ⟨state.nextId, name, sort⟩) :: state.bindings.entries) :=
      perm_insertEntry hnone _
    calc (state.bindings.insert name ⟨state.nextId, name, sort⟩).entries.map
          (fun entry => entry.2.id)
      _ |>.Perm (state.nextId :: state.bindings.entries.map fun entry => entry.2.id) :=
          hentries.map fun entry => entry.2.id
      _ |>.Perm (state.nextId :: List.range state.nextId) := h.numbers.cons state.nextId
      _ |>.Perm (List.range state.nextId ++ [state.nextId]) :=
          (List.perm_append_singleton _ _).symm
      _ |>.Perm (List.range (state.nextId + 1)) := by rw [List.range_succ]

theorem bind (h : state.Identified) {bound : Exploration} {name type : String} {x : Var}
    (hbind : state.bind name type = .ok (x, bound)) : bound.Identified := by
  obtain rfl | ⟨hnone, sort, rfl⟩ := eq_of_bind hbind
  · exact h
  · exact h.insert hnone sort

theorem setStore (h : state.Identified) {store : Store}
    (hstore : store.About state.bindings.Binds) :
    Identified { state with store } :=
  ⟨h.keyed, h.numbers, hstore, h.trace, h.asked⟩

theorem enterConditional (h : state.Identified) (tracing : Bool) (line : Line) {test : Term}
    (htest : test.Over state.bindings.Binds) :
    (state.enterConditional tracing line test).Identified := by
  cases tracing with
  | false => exact ⟨h.keyed, h.numbers, h.store, h.trace, h.asked⟩
  | true =>
      refine ⟨h.keyed, h.numbers, h.store, ?_, h.asked⟩
      refine List.forall_mem_append.mpr ⟨h.trace, fun snapshot hsnapshot => ?_⟩
      rw [List.mem_singleton.mp hsnapshot]
      exact ⟨htest, h.store, by simp⟩

theorem noteElse (h : state.Identified) (tracing : Bool) (position : Nat) :
    (state.noteElse tracing position).Identified := by
  cases tracing with
  | false => exact h
  | true =>
      refine ⟨h.keyed, h.numbers, h.store, fun snapshot hsnapshot => ?_, h.asked⟩
      obtain ⟨index, hindex⟩ := List.mem_iff_getElem?.mp hsnapshot
      change (state.trace.modify position _)[index]? = some snapshot at hindex
      rw [List.getElem?_modify] at hindex
      obtain ⟨original, horiginal, hmodified⟩ := Option.map_eq_some_iff.mp hindex
      have hold := h.trace original (List.mem_iff_getElem?.mpr ⟨index, horiginal⟩)
      -- the snapshot is an old one, or one in which the present store was noted
      split at hmodified
      · rw [← hmodified]
        refine ⟨hold.test, hold.beforeTrue, fun store hstore => ?_⟩
        cases hstore
        exact h.store
      · rw [← hmodified]
        exact hold

theorem check (h : state.Identified) (solver : Backend) (line : Line) :
    (state.check solver line).Identified := by
  have hasked : ∀ assertions ∈ state.asked ++ [state.store.assertions], ∀ t ∈ assertions,
      t.Over state.bindings.Binds := by
    refine List.forall_mem_append.mpr ⟨h.asked, fun assertions hassertions => ?_⟩
    rw [List.mem_singleton.mp hassertions]
    exact h.store.constraint
  unfold Exploration.check
  dsimp only
  split <;> exact ⟨h.keyed, h.numbers, h.store, h.trace, hasked⟩

end Identified

/-! ## Runs -/

variable {solver : Backend} {tracing : Bool} {first second : Exploration}

theorem Leads.identified (h : Leads solver tracing first second) (hfirst : first.Identified) :
    second.Identified ∧ second.bindings.Extends first.bindings := by
  induction h with
  | same h =>
      have hbindings := congrArg Exploration.bindings h
      exact ⟨hfirst.of_findings h, fun name x hx => hbindings ▸ hx⟩
  | trans _ _ ih ih' =>
      obtain ⟨hsecond, hextends⟩ := ih hfirst
      obtain ⟨hthird, hextends'⟩ := ih' hsecond
      exact ⟨hthird, hextends.trans hextends'⟩
  | bind h => exact ⟨hfirst.bind h, (keeps_of_bind h).1.bindings⟩
  | enter line h =>
      have htest := Expr.over_of_constraint hfirst.keyed h
      exact ⟨hfirst.enterConditional tracing line htest,
        (keeps_enterConditional tracing line _ _).bindings⟩
  | take _ htest ht ih =>
      obtain ⟨hsecond, hextends⟩ := ih hfirst
      have hover := (Expr.over_of_constraint hfirst.keyed htest).mono hextends.binds
      refine ⟨hsecond.setStore (hsecond.store.take ?_), hextends⟩
      rcases ht with rfl | rfl
      · exact hover
      · exact fun x hx => hover x (by simpa [Term.occurrences] using hx)
  | assign _ ht hx hassign ih =>
      obtain ⟨hsecond, hextends⟩ := ih hfirst
      have hresolves := Expr.resolves_of_resolve _ _ ht
      have hover := (hresolves.bound hfirst.keyed).mono hextends.binds
      have hstore := hsecond.store.assign (hsecond.keyed.binds hx) hover hassign
      exact ⟨hsecond.setStore hstore, hextends⟩
  | note state position =>
      have hkept := keeps_noteElse tracing position state
      exact ⟨hfirst.noteElse tracing position, hkept.bindings⟩
  | check state line =>
      refine ⟨hfirst.check solver line, ?_⟩
      rw [bindings_check]
      exact .refl _
  | back _ ih =>
      obtain ⟨hsecond, hextends⟩ := ih hfirst
      exact ⟨hsecond.setStore (hfirst.store.mono hextends.binds), hextends⟩

/-- One thing to do with an exploration from outside. -/
inductive Call where
  | bindParams (params : List Param)
  | explore (stmts : List Stmt)

/-- The state after a call. -/
def call (solver : Backend) (tracing : Bool) (state : Exploration) : Call → Exploration
  | .bindParams params => state.bindParams params
  | .explore stmts => explore solver tracing stmts state

/-- The state after calls in their order. -/
def callAll (solver : Backend) (tracing : Bool) (calls : List Call) (state : Exploration) :
    Exploration :=
  calls.foldl (call solver tracing) state

theorem Leads.callAll (solver : Backend) (tracing : Bool) (calls : List Call)
    (state : Exploration) : Leads solver tracing state (callAll solver tracing calls state) := by
  unfold Exploration.callAll
  induction calls generalizing state with
  | nil => exact .refl state
  | cons first rest ih =>
      have hfirst : Leads solver tracing state (call solver tracing state first) := by
        cases first with
        | bindParams params => exact Leads.bindParams state params
        | explore stmts => exact Leads.explore solver tracing stmts state
      exact hfirst.trans (ih _)

/-! ## Names that cannot be bound -/

/-- The two states have the same variables. -/
def SameVariables (first second : Exploration) : Prop :=
  second.bindings = first.bindings ∧ second.nextId = first.nextId

theorem sameVariables_fail (state : Exploration) (line : Line) (error : Error) :
    SameVariables state (state.fail line error) := by
  unfold fail
  split <;> exact ⟨rfl, rfl⟩

/-- Whether a name can be bound is up to the bindings. -/
theorem bind_eq_error_of_bindings {state other : Exploration} {name type : String} {error : Error}
    (h : state.bind name type = .error error) (hbindings : other.bindings = state.bindings) :
    other.bind name type = .error error := by
  unfold bind at h ⊢
  rw [hbindings]
  cases hsort : ValueSort.ofTag type with
  | error _ => simpa [hsort] using h
  | ok sort =>
      cases hfind : state.bindings.find? name with
      | none => simp [hsort, hfind] at h
      | some existing =>
          simp only [hsort, hfind] at h ⊢
          split at h
          · cases h
          · rename_i hne
            rw [if_neg hne]
            exact h

theorem sameVariables_bindParam {state : Exploration} {name type : String} {error : Error}
    (h : state.bind name type = .error error) :
    SameVariables state (state.bindParam ⟨name, type⟩) := by
  rw [bindParam, h]
  exact sameVariables_fail state 0 error

theorem sameVariables_declaration {state : Exploration} {name type : String} {error : Error}
    (h : state.bind name type = .error error) (solver : Backend) (tracing : Bool) (line : Line)
    (value : Option Expr) :
    SameVariables state (execute solver tracing (.declaration line name type value) state) := by
  rw [execute_eq_step]
  cases hreach : state.reach (Stmt.declaration line name type value).line with
  | none =>
      rw [step_of_reach_eq_none hreach]
      exact ⟨rfl, rfl⟩
  | some reached =>
      rw [step_of_reach_eq_some hreach, eq_of_reach hreach]
      generalize noteLine (Stmt.declaration line name type value).line state.frames = frames
      have hbind : Exploration.bind { state with frames } name type = .error error :=
        bind_eq_error_of_bindings h rfl
      rw [perform, declare, hbind]
      -- the value fails to resolve, or the name fails to be bound
      split
      · exact sameVariables_fail { state with frames } _ _
      · exact sameVariables_fail { state with frames } _ _

/-! ## Variables over whole runs -/

/-- **The identity of variables.**  After any calls, names stand for variables of these names, whose
numbers are those below the next one, each once; they keep standing for them whatever is called
later; every entry of the store is filed under the name of its variable; and the store, the trace
and the questions to the solver are about bound variables only.  A name that cannot be bound changes
no variables. -/
theorem variables_identified (solver : Backend) (tracing : Bool) (capacity : Option Nat)
    (calls : List Call) :
    let state := callAll solver tracing calls (start capacity)
    (∀ name x, state.bindings.find? name = some x → x.name = name) ∧
      (state.bindings.entries.map fun entry => entry.2.id).Perm (List.range state.nextId) ∧
      (∀ later name x, state.bindings.find? name = some x →
        (callAll solver tracing later state).bindings.find? name = some x) ∧
      (∀ any name type error, bind any name type = .error error →
        SameVariables any (any.bindParam ⟨name, type⟩) ∧ ∀ line value,
          SameVariables any (execute solver tracing (.declaration line name type value) any)) ∧
      (∀ entry ∈ state.store.named, entry.2.target.name = entry.1) ∧
      (∀ t ∈ state.store.assertions, t.Over state.bindings.Binds) ∧
      (∀ snapshot ∈ state.trace, snapshot.About state.bindings.Binds) ∧
      ∀ assertions ∈ state.asked, ∀ t ∈ assertions, t.Over state.bindings.Binds := by
  intro state
  have hstate : state.Identified :=
    ((Leads.callAll solver tracing calls (start capacity)).identified
      (identified_start capacity)).1
  refine ⟨hstate.keyed, hstate.numbers, ?_, ?_, hstate.store.keyed, hstate.store.constraint,
    hstate.trace, hstate.asked⟩
  · intro later
    exact ((Leads.callAll solver tracing later state).identified hstate).2
  · intro any name type error herror
    exact ⟨sameVariables_bindParam herror, sameVariables_declaration herror solver tracing⟩

end Exploration

end BranchWitness
