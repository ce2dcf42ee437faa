/-!
# Lists read one by one

A function that can fail is applied to every element of a list, and the list of its results is
there if none of them failed (`List.mapM`).  All facts about this come from one: the results, each
as a success, are what the function gives on the list (`mapM_eq_some_iff`).
-/

namespace BranchWitness

variable {α β γ : Type} {f : α → Option β} {xs : List α} {ys : List β}

/-- The list is read if every element is, and then it is read as the list of what they are read
as. -/
theorem mapM_eq_some_iff : xs.mapM f = some ys ↔ xs.map f = ys.map some := by
  induction xs generalizing ys with
  | nil => cases ys <;> simp
  | cons x rest ih =>
      cases ys with
      | nil => simp [List.mapM_cons, Option.bind_eq_some_iff]
      | cons y others => simp [List.mapM_cons, Option.bind_eq_some_iff, ih]

theorem exists_mapM_eq_some (h : ∀ x ∈ xs, ∃ y, f x = some y) : ∃ ys, xs.mapM f = some ys := by
  induction xs with
  | nil => exact ⟨[], rfl⟩
  | cons x rest ih =>
      obtain ⟨⟨y, hy⟩, hrest⟩ := List.forall_mem_cons.mp h
      obtain ⟨ys, hys⟩ := ih hrest
      exact ⟨y :: ys, by simp [List.mapM_cons, hy, hys]⟩

/-- What comes out comes from some element. -/
theorem mem_iff_of_mapM (h : xs.mapM f = some ys) (y : β) : y ∈ ys ↔ ∃ x ∈ xs, f x = some y := by
  rw [← List.mem_map, mapM_eq_some_iff.mp h]
  simp

/-- Every element has something that comes out of it. -/
theorem exists_mem_of_mapM (h : xs.mapM f = some ys) {x : α} (hx : x ∈ xs) :
    ∃ y ∈ ys, f x = some y := by
  have hmem : f x ∈ ys.map some := mapM_eq_some_iff.mp h ▸ List.mem_map_of_mem hx
  obtain ⟨y, hy, heq⟩ := List.mem_map.mp hmem
  exact ⟨y, hy, heq.symm⟩

/-- What was written part by part is read part by part. -/
theorem mapM_map_eq_some {write : α → β} {read : β → Option γ} {parts : List α} (view : α → γ)
    (h : ∀ part ∈ parts, read (write part) = some (view part)) :
    (parts.map write).mapM read = some (parts.map view) := by
  rw [mapM_eq_some_iff, List.map_map, List.map_map]
  exact List.map_congr_left h

end BranchWitness
