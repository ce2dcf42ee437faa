/-!
# Maps from names, in the order of the names

Values of variables and handles of bound variables are both looked up by name and listed in the
order of the names.  A `NameMap` is the list of its entries, strictly ascending by name; the
order is part of the type, so two maps with the same entries are equal.
-/

namespace BranchWitness

variable {α : Type}

/-- Put `value` under `name` into a list of entries that ascends by name. -/
def insertEntry (name : String) (value : α) : List (String × α) → List (String × α)
  | [] => [(name, value)]
  | entry :: rest =>
      if name < entry.1 then (name, value) :: entry :: rest
      else if entry.1 < name then entry :: insertEntry name value rest
      else (name, value) :: rest

/-- Two names of which neither comes before the other are the same. -/
theorem name_eq_of_not_lt {first second : String} (hfirst : ¬ first < second)
    (hsecond : ¬ second < first) : first = second :=
  String.le_antisymm (String.not_lt.mp hsecond) (String.not_lt.mp hfirst)

/-- Insertion brings in no entry but the new one. -/
theorem mem_insertEntry {name : String} {value : α} {entries : List (String × α)}
    {entry : String × α} (h : entry ∈ insertEntry name value entries) :
    entry = (name, value) ∨ entry ∈ entries := by
  induction entries with
  | nil => simpa [insertEntry] using h
  | cons head rest ih =>
      simp only [insertEntry] at h
      split at h
      · simpa using h
      · split at h
        · rcases List.mem_cons.mp h with rfl | hrest
          · exact .inr List.mem_cons_self
          · rcases ih hrest with hnew | hold
            · exact .inl hnew
            · exact .inr (List.mem_cons_of_mem _ hold)
        · rcases List.mem_cons.mp h with rfl | hrest
          · exact .inl rfl
          · exact .inr (List.mem_cons_of_mem _ hrest)

/-- Insertion keeps the entries in ascending order of their names. -/
theorem pairwise_insertEntry {name : String} {value : α} {entries : List (String × α)}
    (h : entries.Pairwise (fun first second => first.1 < second.1)) :
    (insertEntry name value entries).Pairwise (fun first second => first.1 < second.1) := by
  induction entries with
  | nil => simp [insertEntry]
  | cons head rest ih =>
      obtain ⟨hhead, hrest⟩ := List.pairwise_cons.mp h
      simp only [insertEntry]
      split
      · rename_i hlt
        refine List.pairwise_cons.mpr ⟨fun entry hentry => ?_, h⟩
        rcases List.mem_cons.mp hentry with rfl | hmem
        · exact hlt
        · exact String.lt_trans hlt (hhead entry hmem)
      · split
        · rename_i hgt
          refine List.pairwise_cons.mpr ⟨fun entry hentry => ?_, ih hrest⟩
          rcases mem_insertEntry hentry with rfl | hmem
          · exact hgt
          · exact hhead entry hmem
        · rename_i hnotlt hnotgt
          have hname : head.1 = name := name_eq_of_not_lt hnotgt hnotlt
          refine List.pairwise_cons.mpr ⟨fun entry hentry => ?_, hrest⟩
          exact hname ▸ hhead entry hentry

/-- A finite map from names, its entries ascending by name. -/
structure NameMap (α : Type) where
  /-- The entries of the map. -/
  entries : List (String × α)
  /-- The names of the entries ascend, so each occurs once. -/
  ascending : entries.Pairwise (fun first second => first.1 < second.1)

namespace NameMap

/-- The map without entries. -/
def empty : NameMap α := ⟨[], .nil⟩

instance : Inhabited (NameMap α) := ⟨empty⟩

/-- Put `value` under `name`, in place of what was there. -/
def insert (map : NameMap α) (name : String) (value : α) : NameMap α :=
  ⟨insertEntry name value map.entries, pairwise_insertEntry map.ascending⟩

/-- The value under `name`. -/
def find? (map : NameMap α) (name : String) : Option α :=
  map.entries.lookup name

/-- The number of entries. -/
def size (map : NameMap α) : Nat :=
  map.entries.length

end NameMap

end BranchWitness
