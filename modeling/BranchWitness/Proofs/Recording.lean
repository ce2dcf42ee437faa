import BranchWitness.Proofs.Faithful

/-!
# What a recorded exploration keeps true

The invariant of a recorded exploration (`Recorded.Sound`) has four parts.

* Names are bound to variables of these names with different numbers.
* The store is faithful to the path, as long as the trail is clean.
* The same held at every check, in the state in which it was made.
* The violations and the test cases found are those of the checks, in their order.

Everything that an exploration does is built from a few steps: changes that touch neither store nor
findings, checks, tests taken, ways taken back, and values given.  Each of them keeps the invariant
(`Sound.keeps`, `Sound.check`, `Sound.take`, `Sound.backTo`, `Sound.write`), so conditionals and
loops keep it if their bodies do, and statements keep it by induction (`preserves_executeAll`).
-/

namespace BranchWitness

/-! ## Numbers of variables -/

/-- Names are bound to variables of these names, with different numbers below the next one. -/
structure Bindings.Numbered (bindings : Bindings) (next : Nat) : Prop where
  keyed : bindings.Keyed
  below : ∀ name x, bindings.find? name = some x → x.id < next
  distinct : ∀ {first second x y}, bindings.find? first = some x →
    bindings.find? second = some y → x.id = y.id → first = second

namespace Bindings

variable {bindings : Bindings} {next : Nat}

theorem Numbered.coherent (h : bindings.Numbered next) : Coherent bindings.Binds := by
  have hname : ∀ {x y : Var}, bindings.Binds x → bindings.Binds y → x.name = y.name → x = y := by
    intro x y hx hy hname
    unfold Binds at hx hy
    rw [hname, hy, Option.some.injEq] at hx
    exact hx.symm
  exact ⟨fun hx hy hid => hname hx hy (h.distinct hx hy hid), hname⟩

theorem numbered_empty : Numbered .empty 0 where
  keyed name x h := by simp [NameMap.find?_empty] at h
  below name x h := by simp [NameMap.find?_empty] at h
  distinct h := by simp [NameMap.find?_empty] at h

theorem extends_insert {name : String} (h : bindings.find? name = none) (x : Var) :
    Bindings.Extends (bindings.insert name x) bindings := by
  intro other y hy
  rw [NameMap.find?_insert, if_neg, hy]
  rintro rfl
  rw [h] at hy
  cases hy

theorem Numbered.insert (h : bindings.Numbered next) {name : String}
    (hnone : bindings.find? name = none) (sort : ValueSort) :
    Bindings.Numbered (bindings.insert name ⟨next, name, sort⟩) (next + 1) := by
  have hcases : ∀ {other : String} {x : Var},
      NameMap.find? (bindings.insert name ⟨next, name, sort⟩) other = some x →
        (other = name ∧ x = ⟨next, name, sort⟩) ∨ bindings.find? other = some x := by
    intro other x hx
    rw [NameMap.find?_insert] at hx
    split at hx
    · rename_i hother
      cases hx
      exact .inl ⟨hother, rfl⟩
    · exact .inr hx
  refine ⟨fun other x hx => ?_, fun other x hx => ?_, ?_⟩
  · rcases hcases hx with ⟨rfl, rfl⟩ | hold
    · rfl
    · exact h.keyed other x hold
  · rcases hcases hx with ⟨rfl, rfl⟩ | hold
    · exact Nat.lt_succ_self next
    · exact Nat.lt_succ_of_lt (h.below other x hold)
  · intro first second x y hx hy hid
    rcases hcases hx with ⟨rfl, rfl⟩ | hxold
    · rcases hcases hy with ⟨rfl, rfl⟩ | hyold
      · rfl
      · have hlt := h.below second y hyold
        exact absurd hid (Nat.ne_of_gt hlt)
    · rcases hcases hy with ⟨rfl, rfl⟩ | hyold
      · have hlt := h.below first x hxold
        exact absurd hid (Nat.ne_of_lt hlt)
      · exact h.distinct hxold hyold hid

end Bindings

/-! ## Changes that touch neither store nor findings -/

namespace Exploration

/-- The second state has the store and the findings of the first and at least its variables. -/
structure Keeps (first second : Exploration) : Prop where
  numbered : first.bindings.Numbered first.nextId → second.bindings.Numbered second.nextId
  bindings : second.bindings.Extends first.bindings
  store : second.store = first.store
  testCases : second.testCases = first.testCases
  violations : second.violations = first.violations

theorem Keeps.trans {first second third : Exploration} (h : Keeps first second)
    (h' : Keeps second third) : Keeps first third where
  numbered := h'.numbered ∘ h.numbered
  bindings := h.bindings.trans h'.bindings
  store := h'.store.trans h.store
  testCases := h'.testCases.trans h.testCases
  violations := h'.violations.trans h.violations

theorem Keeps.refl (state : Exploration) : Keeps state state :=
  ⟨id, .refl _, rfl, rfl, rfl⟩

theorem keeps_fail (state : Exploration) (line : Line) (error : Error) :
    Keeps state (state.fail line error) := by
  unfold fail
  split
  · exact ⟨id, .refl _, rfl, rfl, rfl⟩
  · exact .refl state

theorem keeps_settle (line : Line) (state : Exploration) (failure : Option Error) :
    Keeps state (settle line (state, failure)) := by
  cases failure with
  | none => exact .refl state
  | some error => exact keeps_fail state line error

theorem keeps_enterConditional (tracing : Bool) (line : Line) (test : Term) (state : Exploration) :
    Keeps state (state.enterConditional tracing line test) := by
  unfold enterConditional
  dsimp only
  split <;> exact ⟨id, .refl _, rfl, rfl, rfl⟩

theorem keeps_noteElse (tracing : Bool) (position : Nat) (state : Exploration) :
    Keeps state (state.noteElse tracing position) := by
  unfold noteElse
  split
  · exact ⟨id, .refl _, rfl, rfl, rfl⟩
  · exact .refl state

theorem keeps_countLoop (state : Exploration) : Keeps state state.countLoop :=
  ⟨id, .refl _, rfl, rfl, rfl⟩

theorem keeps_countLoopCheck (state : Exploration) : Keeps state state.countLoopCheck :=
  ⟨id, .refl _, rfl, rfl, rfl⟩

theorem keeps_enterLoop (state : Exploration) : Keeps state state.enterLoop :=
  ⟨id, .refl _, rfl, rfl, rfl⟩

theorem keeps_leaveLoop (state : Exploration) : Keeps state state.leaveLoop :=
  ⟨id, .refl _, rfl, rfl, rfl⟩

theorem keeps_skip (state : Exploration) : Keeps state state.skip :=
  ⟨id, .refl _, rfl, rfl, rfl⟩

theorem keeps_of_reach {line : Line} {state reached : Exploration}
    (h : state.reach line = some reached) : Keeps state reached := by
  unfold reach at h
  split at h
  · cases h
    exact .refl state
  · split at h
    · cases h
    · cases h
      exact ⟨id, .refl _, rfl, rfl, rfl⟩

/-- Binding a name gives it a variable and changes nothing else. -/
theorem keeps_of_bind {state bound : Exploration} {name type : String} {x : Var}
    (h : state.bind name type = .ok (x, bound)) :
    Keeps state bound ∧ bound.bindings.find? name = some x := by
  unfold bind at h
  split at h
  · cases h
  · rename_i sort hsort
    split at h
    · rename_i existing hexisting
      split at h
      · cases h
        exact ⟨.refl state, hexisting⟩
      · cases h
    · rename_i hnone
      cases h
      refine ⟨⟨fun hnumbered => hnumbered.insert hnone sort, Bindings.extends_insert hnone _,
        rfl, rfl, rfl⟩, ?_⟩
      show NameMap.find? (state.bindings.insert name _) name = _
      rw [NameMap.find?_insert, if_pos rfl]

theorem keeps_bindParam (state : Exploration) (param : Param) :
    Keeps state (state.bindParam param) := by
  unfold bindParam
  split
  · exact keeps_fail state 0 _
  · rename_i x bound hbind
    have hkeeps := (keeps_of_bind hbind).1
    split
    · exact hkeeps
    · exact hkeeps.trans ⟨id, .refl _, rfl, rfl, rfl⟩

theorem keeps_bindParams (state : Exploration) (params : List Param) :
    Keeps state (state.bindParams params) := by
  unfold bindParams
  induction params generalizing state with
  | nil => exact .refl state
  | cons param rest ih => exact (keeps_bindParam state param).trans (ih _)

/-- A declaration without a value binds a name at most. -/
theorem keeps_declare_none (state : Exploration) (target annotation : String) :
    Keeps state (state.declare target annotation none).1 := by
  unfold declare
  rw [Option.mapM_none]
  cases hbind : state.bind target annotation with
  | error error => exact .refl state
  | ok result => exact (keeps_of_bind hbind).1

/-! ## Statements that give a value -/

/-- What a statement that gives a value does: it may bind names, and where it does not fail it
gives the value to the variables of its targets. -/
structure Writes (before : Exploration) (targets : List String) (value : Expr)
    (after : Exploration) (failure : Option Error) : Prop where
  numbered : before.bindings.Numbered before.nextId → after.bindings.Numbered after.nextId
  bindings : after.bindings.Extends before.bindings
  testCases : after.testCases = before.testCases
  violations : after.violations = before.violations
  assigned : failure = none → ∃ handles t, targets.mapM after.lookup = .ok handles ∧
    value.resolve before.bindings = .ok t ∧
    assignEach t handles before.store = (after.store, none)

theorem Writes.of_keeps {before after : Exploration} {targets : List String} {value : Expr}
    {error : Error} (h : Keeps before after) : Writes before targets value after (some error) where
  numbered := h.numbered
  bindings := h.bindings
  testCases := h.testCases
  violations := h.violations
  assigned hnone := by cases hnone

theorem lookup_eq_ok {state : Exploration} {name : String} {x : Var}
    (h : state.bindings.find? name = some x) : state.lookup name = .ok x := by
  simp [lookup, h]

theorem declare_some (state : Exploration) (target annotation : String) (value : Expr) :
    state.declare target annotation (some value) =
      match value.resolve state.bindings, state.bind target annotation with
      | .error error, _ => (state, some error)
      | .ok _, .error error => (state, some error)
      | .ok t, .ok (x, bound) =>
          match bound.store.assign x t with
          | .error error => (bound, some error)
          | .ok store => ({ bound with store }, none) := by
  unfold declare
  rw [Option.mapM_some]
  cases value.resolve state.bindings with
  | error error => rfl
  | ok t => cases state.bind target annotation <;> rfl

theorem writes_declare (state : Exploration) (target annotation : String) (value : Expr) :
    Writes state [target] value (state.declare target annotation (some value)).1
      (state.declare target annotation (some value)).2 := by
  rw [declare_some]
  split
  · exact .of_keeps (.refl state)
  · exact .of_keeps (.refl state)
  · rename_i t x bound hresolve hbind
    obtain ⟨hkeeps, hfind⟩ := keeps_of_bind hbind
    split
    · exact .of_keeps hkeeps
    · rename_i store hassign
      refine ⟨hkeeps.numbered, hkeeps.bindings, hkeeps.testCases, hkeeps.violations,
        fun _ => ⟨[x], t, ?_, hresolve, ?_⟩⟩
      · have hlookup : Exploration.lookup { bound with store } target = .ok x :=
          lookup_eq_ok hfind
        rw [List.mapM_cons, hlookup]
        rfl
      · rw [assignEach, ← hkeeps.store, hassign]
        rfl

theorem writes_reassign (state : Exploration) (targets : List String) (value : Expr) :
    Writes state targets value (state.reassign targets value).1
      (state.reassign targets value).2 := by
  unfold reassign
  cases hhandles : targets.mapM state.lookup with
  | error error => exact .of_keeps (.refl state)
  | ok handles =>
      cases hresolve : value.resolve state.bindings with
      | error error => exact .of_keeps (.refl state)
      | ok t =>
          refine ⟨id, .refl _, rfl, rfl, fun hnone => ⟨handles, t, hhandles, hresolve, ?_⟩⟩
          exact Prod.ext rfl hnone

theorem map_name_of_mapM_lookup {state : Exploration} (hkeyed : state.bindings.Keyed)
    {targets : List String} {handles : List Var} (h : targets.mapM state.lookup = .ok handles) :
    handles.map Var.name = targets ∧ ∀ x ∈ handles, state.bindings.Binds x := by
  induction targets generalizing handles with
  | nil =>
      cases h
      simp
  | cons target rest ih =>
      rw [List.mapM_cons] at h
      obtain ⟨x, hx, h⟩ := Expr.exists_of_bind_eq_ok h
      obtain ⟨others, hothers, h⟩ := Expr.exists_of_bind_eq_ok h
      cases h
      obtain ⟨hnames, hbinds⟩ := ih hothers
      have hfind : state.bindings.find? target = some x := by
        unfold lookup at hx
        split at hx
        · cases hx
          assumption
        · cases hx
      have hname : x.name = target := hkeyed target x hfind
      refine ⟨by rw [List.map_cons, hname, hnames], List.forall_mem_cons.mpr ⟨?_, hbinds⟩⟩
      rw [Bindings.Binds, hname, hfind]

/-! ## Checks -/

theorem bindings_check (solver : Backend) (line : Line) (state : Exploration) :
    (state.check solver line).bindings = state.bindings := by
  unfold check
  dsimp only
  split <;> rfl

theorem nextId_check (solver : Backend) (line : Line) (state : Exploration) :
    (state.check solver line).nextId = state.nextId := by
  unfold check
  dsimp only
  split <;> rfl

theorem store_check (solver : Backend) (line : Line) (state : Exploration) :
    (state.check solver line).store = state.store := by
  unfold check
  dsimp only
  split <;> rfl

theorem violations_check (solver : Backend) (line : Line) (trail : Trail) (state : Exploration) :
    (state.check solver line).violations =
      state.violations ++ [⟨line, trail, state⟩].filterMap (Checkpoint.violation? solver) := by
  unfold check
  cases hanswer : solver state.asked state.store.assertions <;>
    simp [Checkpoint.violation?, Checkpoint.answer, hanswer]

theorem testCases_check (solver : Backend) (line : Line) (trail : Trail) (state : Exploration) :
    (state.check solver line).testCases =
      state.testCases ++ [⟨line, trail, state⟩].filterMap (Checkpoint.testCase? solver) := by
  unfold check
  cases hanswer : solver state.asked state.store.assertions <;>
    simp [Checkpoint.testCase?, Checkpoint.answer, hanswer]

end Exploration

/-! ## The invariant -/

/-- The check was made in a state whose store is faithful to the path, if the trail is clean. -/
structure Checkpoint.Sound (check : Checkpoint) : Prop where
  coherent : Coherent check.state.bindings.Binds
  faithful : check.trail.clean = true →
    Faithful check.state.bindings check.state.store check.trail.path

namespace Recorded

/-- What a recorded exploration keeps true. -/
structure Sound (solver : Backend) (recorded : Recorded) : Prop where
  numbered : recorded.state.bindings.Numbered recorded.state.nextId
  faithful : recorded.trail.clean = true →
    Faithful recorded.state.bindings recorded.state.store recorded.trail.path
  checks : ∀ check ∈ recorded.checks, check.Sound
  violations : recorded.state.violations = recorded.checks.filterMap (·.violation? solver)
  testCases : recorded.state.testCases = recorded.checks.filterMap (·.testCase? solver)

variable {solver : Backend} {tracing : Bool} {recorded earlier : Recorded}

theorem sound_start (solver : Backend) (capacity : Option Nat) (params : List Param) :
    Sound solver { state := (Exploration.start capacity).bindParams params } := by
  have hkeeps := Exploration.keeps_bindParams (Exploration.start capacity) params
  refine ⟨hkeeps.numbered Bindings.numbered_empty, fun _ => ?_, by simp, ?_, ?_⟩
  · show Faithful _ ((Exploration.start capacity).bindParams params).store []
    rw [hkeeps.store]
    exact Faithful.start _ capacity
  · exact hkeeps.violations
  · exact hkeeps.testCases

theorem Sound.keeps (h : Sound solver recorded) {state : Exploration}
    (hkeeps : recorded.state.Keeps state) : Sound solver { recorded with state } where
  numbered := hkeeps.numbered h.numbered
  faithful hclean := by
    show Faithful state.bindings state.store recorded.trail.path
    rw [hkeeps.store]
    exact (h.faithful hclean).mono hkeeps.bindings
  checks := h.checks
  violations := hkeeps.violations.trans h.violations
  testCases := hkeeps.testCases.trans h.testCases

theorem Sound.update (h : Sound solver recorded) {change : Exploration → Exploration}
    (hkeeps : recorded.state.Keeps (change recorded.state)) :
    Sound solver (recorded.update change) :=
  h.keeps hkeeps

theorem Sound.check (h : Sound solver recorded) (line : Line) :
    Sound solver (recorded.check solver line) where
  numbered := by
    show Bindings.Numbered (recorded.state.check solver line).bindings
      (recorded.state.check solver line).nextId
    rw [Exploration.bindings_check, Exploration.nextId_check]
    exact h.numbered
  faithful hclean := by
    show Faithful (recorded.state.check solver line).bindings
      (recorded.state.check solver line).store recorded.trail.path
    rw [Exploration.bindings_check, Exploration.store_check]
    exact h.faithful hclean
  checks := List.forall_mem_append.mpr
    ⟨h.checks, by simpa using ⟨h.numbered.coherent, h.faithful⟩⟩
  violations := by
    show (recorded.state.check solver line).violations = _
    rw [Exploration.violations_check solver line recorded.trail, h.violations]
    exact List.filterMap_append.symm
  testCases := by
    show (recorded.state.check solver line).testCases = _
    rw [Exploration.testCases_check solver line recorded.trail, h.testCases]
    exact List.filterMap_append.symm

theorem Sound.backTo (h : Sound solver recorded) (hearlier : Sound solver earlier)
    (hextends : recorded.state.bindings.Extends earlier.state.bindings) :
    Sound solver (recorded.backTo earlier) where
  numbered := h.numbered
  faithful hclean := (hearlier.faithful hclean).mono hextends
  checks := h.checks
  violations := h.violations
  testCases := h.testCases

/-- Taking a test, whose constraint was made when fewer variables may have been bound. -/
theorem Sound.take (h : Sound solver recorded) {condition : Expr} {outcome : Bool} {test : Term}
    {store : Store} {position : Nat} (htest : test.Over recorded.state.bindings.Binds)
    (hmeaning : ∀ memory : Memory, memory.Sorted recorded.state.bindings →
      (test.meaning memory.environment = .known (.bool true) ↔
        condition.truth memory = some outcome))
    (hpush : recorded.state.store.push test = .ok (position, store)) :
    Sound solver (recorded.take store condition outcome) where
  numbered := h.numbered
  faithful hclean := (h.faithful hclean).take htest hmeaning hpush
  checks := h.checks
  violations := h.violations
  testCases := h.testCases

/-- Giving a value. -/
theorem Sound.write (h : Sound solver recorded) {line : Line} {targets : List String} {value : Expr}
    {run : Exploration → Exploration × Option Error} (hkinds : value.wellKinded = true)
    (hwrites : recorded.state.Writes targets value (run recorded.state).1
      (run recorded.state).2) :
    Sound solver (recorded.write line targets value run) := by
  unfold Recorded.write
  generalize run recorded.state = result at hwrites
  obtain ⟨after, failure⟩ := result
  have hnumbered := hwrites.numbered h.numbered
  have hafter : Sound solver { recorded with
      state := after
      trail := recorded.trail.write recorded.state targets value (after, failure) } := by
    refine ⟨hnumbered, fun hclean => ?_, h.checks, hwrites.violations.trans h.violations,
      hwrites.testCases.trans h.testCases⟩
    cases failure with
    | some error =>
        obtain ⟨hclean, hstore⟩ := Bool.and_eq_true_iff.mp hclean
        show Faithful after.bindings after.store recorded.trail.path
        rw [of_decide_eq_true hstore]
        exact (h.faithful hclean).mono hwrites.bindings
    | none =>
        obtain ⟨hclean, hfollow⟩ := Bool.and_eq_true_iff.mp hclean
        obtain ⟨handles, t, hhandles, hresolve, hassign⟩ := hwrites.assigned rfl
        obtain ⟨hnames, hbinds⟩ :=
          Exploration.map_name_of_mapM_lookup hnumbered.keyed hhandles
        have heach : recorded.state.store.admitsEach t (recorded.state.store.current t) handles =
            true := by
          simpa [Exploration.canFollow, hhandles, hresolve] using hfollow
        -- the value was resolved before the statement, where fewer names may be bound
        have hresolves := Expr.resolves_of_resolve recorded.state.bindings value hresolve
        have hkeyed := h.numbered.keyed
        have hmeaning : ∀ memory : Memory, memory.Sorted after.bindings →
            t.meaning memory.environment = .ofOption (value.value memory) := fun memory hsorted =>
          hresolves.meaning ((hsorted.of_extends hwrites.bindings).shown hkeyed) hkinds
        have hfaithful := ((h.faithful hclean).mono hwrites.bindings).assign hnumbered.coherent
          hbinds ((hresolves.bound hkeyed).mono hwrites.bindings.binds)
          (hresolves.wellSorted hkinds) hmeaning heach hassign
        rw [hnames] at hfaithful
        exact hfaithful
  exact hafter.keeps (Exploration.keeps_settle line after failure)

/-! ## Statements -/

/-- Running keeps the invariant and the variables. -/
def Preserves (solver : Backend) (run : Recorded → Recorded) : Prop :=
  ∀ recorded, Sound solver recorded → Sound solver (run recorded) ∧
    (run recorded).state.bindings.Extends recorded.state.bindings

theorem preserves_update {change : Exploration → Exploration}
    (h : ∀ state : Exploration, state.Keeps (change state)) :
    Preserves solver fun recorded => recorded.update change :=
  fun recorded hsound => ⟨hsound.keeps (h recorded.state), (h recorded.state).bindings⟩

theorem preserves_check (line : Line) : Preserves solver (Recorded.check solver line) := by
  intro recorded hsound
  refine ⟨hsound.check line, ?_⟩
  show Bindings.Extends (recorded.state.check solver line).bindings recorded.state.bindings
  rw [Exploration.bindings_check]
  exact .refl _

theorem preserves_step {line : Line} {run : Recorded → Recorded} (h : Preserves solver run) :
    Preserves solver (step line run) := by
  intro recorded hsound
  unfold step
  split
  · exact ⟨hsound.update (Exploration.keeps_skip _), .refl _⟩
  · rename_i reached hreach
    have hkeeps := Exploration.keeps_of_reach hreach
    obtain ⟨hdone, hextends⟩ := h _ (hsound.keeps hkeeps)
    exact ⟨hdone, hkeeps.bindings.trans hextends⟩

theorem preserves_write {line : Line} {targets : List String} {value : Expr}
    {run : Exploration → Exploration × Option Error} (hkinds : value.wellKinded = true)
    (hwrites : ∀ state : Exploration, state.Writes targets value (run state).1 (run state).2) :
    Preserves solver fun recorded => recorded.write line targets value run := by
  intro recorded hsound
  have hsettle := Exploration.keeps_settle line (run recorded.state).1 (run recorded.state).2
  exact ⟨hsound.write hkinds (hwrites recorded.state),
    (hwrites recorded.state).bindings.trans hsettle.bindings⟩

/-- A term stands for a test wherever the given variables are bound. -/
structure Tests (bindings : Bindings) (condition : Expr) (test : Term) : Prop where
  bound : test.Over bindings.Binds
  meaning : ∀ memory : Memory, memory.Sorted bindings →
    test.meaning memory.environment = .ofTruth (condition.truth memory)

theorem tests_of_constraint {bindings : Bindings} (hkeyed : bindings.Keyed) {condition : Expr}
    (hkinds : condition.wellKinded = true) {test : Term}
    (h : condition.constraint bindings = .ok test) : Tests bindings condition test :=
  ⟨Expr.over_of_constraint hkeyed h,
    fun _ hsorted => Expr.meaning_of_constraint (hsorted.shown hkeyed) hkinds h⟩

variable {condition : Expr} {test : Term}

theorem Tests.mono {larger smaller : Bindings} (h : Tests smaller condition test)
    (hextends : larger.Extends smaller) : Tests larger condition test :=
  ⟨h.bound.mono hextends.binds, fun memory hsorted =>
    h.meaning memory (hsorted.of_extends hextends)⟩

theorem Sound.take_true (h : Sound solver recorded)
    (htest : Tests recorded.state.bindings condition test) {store : Store} {position : Nat}
    (hpush : recorded.state.store.push test = .ok (position, store)) :
    Sound solver (recorded.take store condition true) := by
  refine h.take htest.bound (fun memory hsorted => ?_) hpush
  rw [htest.meaning memory hsorted, Meaning.ofTruth_eq_known_iff]

theorem Sound.take_false (h : Sound solver recorded)
    (htest : Tests recorded.state.bindings condition test) {store : Store} {position : Nat}
    (hpush : recorded.state.store.push (.not test) = .ok (position, store)) :
    Sound solver (recorded.take store condition false) := by
  have hover : Term.Over recorded.state.bindings.Binds (.not test) := by
    intro x hx
    exact htest.bound x (by simpa [Term.occurrences] using hx)
  refine h.take hover (fun memory hsorted => ?_) hpush
  rw [Term.meaning, htest.meaning memory hsorted, Meaning.not_ofTruth,
    Meaning.ofTruth_eq_known_iff]
  rcases condition.truth memory with _ | _ | _ <;> simp

theorem Sound.elseBranch (h : Sound solver recorded)
    (htest : Tests recorded.state.bindings condition test) {orelse : Recorded → Recorded}
    (horelse : Preserves solver orelse) (tracing : Bool) (line : Line) (position : Nat) :
    Sound solver (elseBranch solver tracing line condition test position orelse recorded) ∧
      (elseBranch solver tracing line condition test position orelse
        recorded).state.bindings.Extends recorded.state.bindings := by
  unfold Recorded.elseBranch
  split
  · rename_i error herror
    exact preserves_update (fun state => Exploration.keeps_fail state line error) recorded h
  · rename_i pushed store hpush
    have hkeeps := Exploration.keeps_noteElse tracing position
      (recorded.take store condition false).state
    have hnoted := (h.take_false htest hpush).keeps hkeeps
    obtain ⟨hchecked, hsame⟩ := preserves_check line _ hnoted
    obtain ⟨hdone, hextends⟩ := horelse _ hchecked
    exact ⟨hdone, (hkeeps.bindings.trans hsame).trans hextends⟩

theorem preserves_conditional {line : Line} {condition : Expr}
    (hkinds : condition.wellKinded = true) {body : Recorded → Recorded}
    (hbody : Preserves solver body) {orelse : Option (Recorded → Recorded)}
    (horelse : ∀ other ∈ orelse, Preserves solver other) :
    Preserves solver (conditional solver tracing line condition body orelse) := by
  intro recorded hsound
  unfold conditional
  split
  · rename_i error herror
    exact preserves_update (fun state => Exploration.keeps_fail state line error) recorded hsound
  · rename_i test hconstraint
    have htest := tests_of_constraint hsound.numbered.keyed hkinds hconstraint
    have hkeeps := Exploration.keeps_enterConditional tracing line test recorded.state
    have hentered := hsound.keeps hkeeps
    dsimp only
    split
    · rename_i error herror
      have hfail := Exploration.keeps_fail
        (recorded.state.enterConditional tracing line test) line error
      exact ⟨hentered.keeps hfail, hkeeps.bindings.trans hfail.bindings⟩
    · rename_i pushed store hpush
      -- the branch in which the test is true
      obtain ⟨hdone, hextends⟩ := hbody _ (hentered.take_true (htest.mono hkeeps.bindings) hpush)
      obtain ⟨hchecked, hsame⟩ := preserves_check line _ hdone
      have hgrown := (hkeeps.bindings.trans hextends).trans hsame
      have hback := hchecked.backTo hsound hgrown
      cases orelse with
      | none => exact ⟨hback, hgrown⟩
      | some other =>
          obtain ⟨helse, helseExtends⟩ := hback.elseBranch (htest.mono hgrown)
            (horelse other rfl) tracing line recorded.state.trace.length
          have hall := hgrown.trans helseExtends
          exact ⟨helse.backTo hsound hall, hall⟩

theorem preserves_unroll {line : Line} {condition : Expr} (hkinds : condition.wellKinded = true)
    {body : Recorded → Recorded} (hbody : Preserves solver body) :
    Preserves solver (unroll solver line condition body) := by
  intro recorded hsound
  unfold unroll
  split
  · rename_i error herror
    exact preserves_update (fun state => Exploration.keeps_fail state line error) recorded hsound
  · rename_i test hconstraint
    have htest := tests_of_constraint hsound.numbered.keyed hkinds hconstraint
    have hcounted := hsound.update (Exploration.keeps_countLoop _)
    dsimp only
    split
    · rename_i error herror
      exact preserves_update (fun state => Exploration.keeps_fail state line error) _ hcounted
    · rename_i pushed store hpush
      have htaken := (hcounted.take_true htest hpush).update (Exploration.keeps_countLoopCheck _)
      obtain ⟨hchecked, hsame⟩ := preserves_check line _ htaken
      obtain ⟨hdone, hextends⟩ := hbody _ (hchecked.update (Exploration.keeps_enterLoop _))
      have hgrown := Bindings.Extends.trans hsame hextends
      have hleft := hdone.update (Exploration.keeps_leaveLoop _)
      exact ⟨hleft.backTo hsound hgrown, hgrown⟩

mutual

/-- Every statement keeps the invariant. -/
theorem preserves_execute (solver : Backend) (tracing : Bool) :
    ∀ stmt : Stmt, stmt.wellKinded = true → Preserves solver (execute solver tracing stmt)
  | .declaration line target annotation (some value), hkinds => by
      refine preserves_step (preserves_write ?_ fun state =>
        state.writes_declare target annotation value)
      simpa [Stmt.wellKinded] using hkinds
  | .declaration line target annotation none, _ => by
      refine preserves_step (preserves_update fun state => ?_)
      exact (state.keeps_declare_none target annotation).trans
        (Exploration.keeps_settle line _ (state.declare target annotation none).2)
  | .reassignment line targets value, hkinds =>
      preserves_step (preserves_write hkinds fun state => state.writes_reassign targets value)
  | .conditional line test body [], hkinds => by
      simp only [Stmt.wellKinded, Bool.and_eq_true] at hkinds
      refine preserves_step (preserves_conditional hkinds.1.1
        (preserves_executeAll solver tracing body hkinds.1.2) ?_)
      simp
  | .conditional line test body (first :: rest), hkinds => by
      simp only [Stmt.wellKinded, Bool.and_eq_true] at hkinds
      refine preserves_step (preserves_conditional hkinds.1.1
        (preserves_executeAll solver tracing body hkinds.1.2) ?_)
      simpa using preserves_executeAll solver tracing (first :: rest) hkinds.2
  | .loop line test body, hkinds => by
      simp only [Stmt.wellKinded, Bool.and_eq_true] at hkinds
      exact preserves_step (preserves_unroll hkinds.1
        (preserves_executeAll solver tracing body hkinds.2))
  | .other line _, _ => preserves_step fun recorded hsound => ⟨hsound, .refl _⟩

/-- Every sequence of statements keeps the invariant. -/
theorem preserves_executeAll (solver : Backend) (tracing : Bool) :
    ∀ stmts : List Stmt, Stmt.wellKindedAll stmts = true →
      Preserves solver (executeAll solver tracing stmts)
  | [], _ => fun recorded hsound => ⟨hsound, .refl _⟩
  | stmt :: rest, hkinds => by
      simp only [Stmt.wellKindedAll, Bool.and_eq_true] at hkinds
      intro recorded hsound
      obtain ⟨hfirst, hextends⟩ := preserves_execute solver tracing stmt hkinds.1 recorded hsound
      obtain ⟨hdone, hextends'⟩ := preserves_executeAll solver tracing rest hkinds.2 _ hfirst
      exact ⟨hdone, hextends.trans hextends'⟩

end

end Recorded

end BranchWitness
