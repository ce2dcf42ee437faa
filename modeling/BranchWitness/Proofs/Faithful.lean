import BranchWitness.Proofs.Path

/-!
# Stores that are faithful to a path

A store is faithful to a path if, from every start, it says of the end of the path what an ordinary
run finds there: the variables with entries are those that the path gives values to, their entries
are their values, and the tests of the store are true exactly if the start drives the path
(`Faithful`).

Each thing that can happen to a path keeps this: a variable is declared (`Faithful.mono`), a test
is taken (`Faithful.take`), a value is given to variables (`Faithful.assign`).  Only the last needs
a condition, the one of `Exploration.canFollow`.
-/

namespace BranchWitness

/-! ## Bindings that grow -/

/-- What names stand for stays when further names are bound. -/
def Bindings.Extends (larger smaller : Bindings) : Prop :=
  ∀ name x, smaller.find? name = some x → larger.find? name = some x

namespace Bindings.Extends

theorem refl (bindings : Bindings) : bindings.Extends bindings :=
  fun _ _ h => h

theorem trans {first second third : Bindings} (h : second.Extends first)
    (h' : third.Extends second) : third.Extends first :=
  fun name x hx => h' name x (h name x hx)

theorem binds {larger smaller : Bindings} (h : larger.Extends smaller) (x : Var)
    (hx : smaller.Binds x) : larger.Binds x :=
  h x.name x hx

end Bindings.Extends

theorem Memory.Sorted.of_extends {larger smaller : Bindings} {memory : Memory}
    (h : memory.Sorted larger) (hextends : larger.Extends smaller) : memory.Sorted smaller :=
  fun name x v hfind => h name x v (hextends name x hfind)

theorem Memory.Sorted.write {bindings : Bindings} {memory : Memory} (h : memory.Sorted bindings)
    {targets : List String} {value : Option Value}
    (hvalue : ∀ name ∈ targets, ∀ x v, bindings.find? name = some x → value = some v →
      v.sort = x.sort) : (memory.write targets value).Sorted bindings := by
  intro name x v hfind hv
  by_cases hname : name ∈ targets
  · rw [Memory.write, if_pos hname] at hv
    exact hvalue name hname x v hfind hv
  · rw [Memory.write, if_neg hname] at hv
    exact h name x v hfind hv

/-! ## Faithful stores -/

/-- The store says of the end of the path what a run finds there. -/
structure Faithful (bindings : Bindings) (store : Store) (path : Path) : Prop where
  wellFormed : store.WellFormed bindings.Binds
  assigned : ∀ name, (store.binding? name).isSome = true ↔ name ∈ path.assigned
  sorted : ∀ start : Memory, start.Sorted bindings → (path.run start).Sorted bindings
  describes : ∀ start : Memory, start.Sorted bindings →
    store.Describes (path.run start).environment
  drives : ∀ start : Memory, start.Sorted bindings →
    (start.Drives path ↔ store.Passes (path.run start).environment)

namespace Faithful

variable {bindings : Bindings} {store next : Store} {path : Path}

theorem start (bindings : Bindings) (capacity : Option Nat) :
    Faithful bindings { capacity } [] where
  wellFormed := Store.wellFormed_empty capacity
  assigned name := by simp [Store.binding?, Path.assigned]
  sorted _ hstart := hstart
  describes start _ := by simp [Store.Describes]
  drives start _ := by simp [Store.Passes, Memory.Drives, PassesEach]

/-- A variable that the path gives a value to was bound before. -/
theorem exists_binds_of_mem_assigned (h : Faithful bindings store path) {name : String}
    (hname : name ∈ path.assigned) : ∃ x, bindings.find? name = some x := by
  obtain ⟨entry, hentry, hkey⟩ :=
    Store.isSome_binding?_iff.mp ((h.assigned name).mpr hname)
  obtain ⟨hbinds, hentryName⟩ := h.wellFormed.target entry hentry
  refine ⟨entry.2.target, ?_⟩
  rw [← hkey, ← hentryName]
  exact hbinds

/-- Declaring further variables changes nothing about the path so far. -/
theorem mono {larger : Bindings} (h : Faithful bindings store path)
    (hextends : larger.Extends bindings) : Faithful larger store path where
  wellFormed := h.wellFormed.mono hextends.binds
  assigned := h.assigned
  sorted := by
    intro start hstart name x v hfind hv
    by_cases hname : name ∈ path.assigned
    · obtain ⟨y, hy⟩ := h.exists_binds_of_mem_assigned hname
      have hsame : x = y := by
        have hlarger := hextends name y hy
        rw [hfind, Option.some.injEq] at hlarger
        exact hlarger
      rw [hsame]
      exact h.sorted start (hstart.of_extends hextends) name y v hy hv
    · rw [Path.run_of_not_mem_assigned hname] at hv
      exact hstart name x v hfind hv
  describes start hstart := h.describes start (hstart.of_extends hextends)
  drives start hstart := h.drives start (hstart.of_extends hextends)

/-- Taking a test. -/
theorem take (h : Faithful bindings store path) {condition : Expr} {outcome : Bool} {test : Term}
    {position : Nat} (htest : test.Over bindings.Binds)
    (hmeaning : ∀ memory : Memory, memory.Sorted bindings →
      (test.meaning memory.environment = .known (.bool true) ↔
        condition.truth memory = some outcome))
    (hpush : store.push test = .ok (position, next)) :
    Faithful bindings next (path ++ [.test condition outcome]) where
  wellFormed := h.wellFormed.push htest hpush
  assigned name := by
    have hnone : Path.assigned [.test condition outcome] = [] := rfl
    rw [Store.push_eq_ok hpush, Path.assigned_append, hnone, List.append_nil]
    exact h.assigned name
  sorted start hstart := by
    rw [Path.run_append]
    exact h.sorted start hstart
  describes start hstart := by
    rw [Path.run_append, Store.push_eq_ok hpush]
    exact h.describes start hstart
  drives start hstart := by
    rw [Path.run_append, Memory.drives_append_singleton, Store.passes_push_iff hpush,
      h.drives start hstart]
    exact and_congr_right fun _ => (hmeaning _ (h.sorted start hstart)).symm

/-- Giving a value to variables, where the store can follow. -/
theorem assign (h : Faithful bindings store path) (hcoherent : Coherent bindings.Binds)
    {handles : List Var} {value : Expr} {t captured : Term}
    (hbinds : ∀ x ∈ handles, bindings.Binds x) (ht : t.Over bindings.Binds)
    (hwellSorted : t.WellSorted)
    (hmeaning : ∀ memory : Memory, memory.Sorted bindings →
      t.meaning memory.environment = .ofOption (value.value memory))
    (heach : store.admitsEach t captured handles = true)
    (hassign : Exploration.assignEach t handles store = (next, none)) :
    Faithful bindings next (path ++ [.assign (handles.map Var.name) value]) := by
  have hmoves : ∀ start : Memory, start.Sorted bindings →
      next.Describes (Path.run (path ++ [.assign (handles.map Var.name) value]) start).environment ∧
        (next.Passes (Path.run (path ++ [.assign (handles.map Var.name) value]) start).environment ↔
          store.Passes (path.run start).environment) := by
    intro start hstart
    rw [Path.run_append]
    refine Store.describes_and_passes_of_assignEach h.wellFormed hcoherent
      (h.describes start hstart) hbinds ht heach hassign (fun x hx => ?_) fun x hx hmem => ?_
    · rw [hmeaning _ (h.sorted start hstart)]
      exact congrArg Meaning.ofOption (if_pos (List.mem_map_of_mem hx))
    · exact congrArg Meaning.ofOption
        (if_neg fun hin => hmem ((hcoherent.name_mem_iff hbinds hx).mp hin))
  refine ⟨h.wellFormed.assignEach hcoherent hbinds ht heach hassign, fun name => ?_,
    fun start hstart => ?_, fun start hstart => (hmoves start hstart).1, fun start hstart => ?_⟩
  · have htargets : Path.assigned [.assign (handles.map Var.name) value] =
        handles.map Var.name := by simp [Path.assigned, PathStep.targets]
    rw [Store.isSome_binding?_of_assignEach hassign, h.assigned, Path.assigned_append, htargets,
      List.mem_append, List.mem_map]
  · rw [Path.run_append]
    have hsorted := h.sorted start hstart
    refine hsorted.write fun name hname x v hfind hv => ?_
    obtain ⟨y, hy, rfl⟩ := List.mem_map.mp hname
    have hsame : y = x := by
      have hbound : bindings.find? y.name = some y := hbinds y hy
      rw [hfind, Option.some.injEq] at hbound
      exact hbound.symm
    have hknown : t.meaning (path.run start).environment = .known v := by
      rw [hmeaning _ hsorted, hv, Meaning.ofOption]
    rw [hwellSorted.sort_of_meaning (hsorted.environment ht) hknown,
      Store.sort_eq_of_assignEach hassign y hy, hsame]
  · rw [Memory.drives_append_singleton, (hmoves start hstart).2, h.drives start hstart]
    exact and_iff_left trivial

end Faithful

end BranchWitness
