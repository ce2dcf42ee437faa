import BranchWitness.Ascending
import BranchWitness.NameMap

/-!
# What is in an ascending list

Inserting in order loses nothing: what was there stays, and what is inserted is there afterwards,
or something that ties with it.  Nothing else comes in.  With an order in which smaller than
smaller is smaller, the list stays ascending.  In an order of ranks without ties it does not matter
in which order, or how often, elements are inserted (`insertAllAscending_congr`).

For a map from names this is the law of a map: a name that was just written has the value
written, and every other name has the value it had.
-/

namespace BranchWitness

variable {α : Type}

/-! ## Ascending lists -/

section Insertion

variable {before : α → α → Bool}

theorem mem_insertAscending {x y : α} {ys : List α} (h : y ∈ insertAscending before x ys) :
    y = x ∨ y ∈ ys := by
  induction ys with
  | nil => simpa [insertAscending] using h
  | cons head rest ih =>
      simp only [insertAscending] at h
      split at h
      · simpa using h
      · split at h
        · rcases List.mem_cons.mp h with rfl | hrest
          · exact .inr List.mem_cons_self
          · exact (ih hrest).imp_right (List.mem_cons_of_mem _)
        · exact .inr h

theorem mem_insertAscending_of_mem {x y : α} {ys : List α} (h : y ∈ ys) :
    y ∈ insertAscending before x ys := by
  induction ys with
  | nil => simp at h
  | cons head rest ih =>
      simp only [insertAscending]
      split
      · exact List.mem_cons_of_mem _ h
      · split
        · rcases List.mem_cons.mp h with rfl | hrest
          · exact List.mem_cons_self
          · exact List.mem_cons_of_mem _ (ih hrest)
        · exact h

/-- What is inserted ties with an element of the outcome. -/
theorem exists_tie_insertAscending (hirrefl : ∀ z, before z z = false) (x : α) (ys : List α) :
    ∃ y ∈ insertAscending before x ys, before x y = false ∧ before y x = false := by
  induction ys with
  | nil => exact ⟨x, by simp [insertAscending], hirrefl x, hirrefl x⟩
  | cons head rest ih =>
      simp only [insertAscending]
      split
      · exact ⟨x, List.mem_cons_self, hirrefl x, hirrefl x⟩
      · rename_i hnotBefore
        split
        · obtain ⟨y, hy, htie⟩ := ih
          exact ⟨y, List.mem_cons_of_mem _ hy, htie⟩
        · rename_i hnotAfter
          exact ⟨head, List.mem_cons_self, by simpa using hnotBefore, by simpa using hnotAfter⟩

theorem pairwise_insertAscending
    (htrans : ∀ a b c, before a b = true → before b c = true → before a c = true)
    (x : α) {ys : List α} (h : ys.Pairwise fun first second => before first second = true) :
    (insertAscending before x ys).Pairwise fun first second => before first second = true := by
  induction ys with
  | nil => simp [insertAscending]
  | cons head rest ih =>
      obtain ⟨hhead, hrest⟩ := List.pairwise_cons.mp h
      simp only [insertAscending]
      split
      · rename_i hbefore
        refine List.pairwise_cons.mpr ⟨fun y hy => ?_, h⟩
        rcases List.mem_cons.mp hy with rfl | hy
        · exact hbefore
        · exact htrans _ _ _ hbefore (hhead y hy)
      · split
        · rename_i hafter
          refine List.pairwise_cons.mpr ⟨fun y hy => ?_, ih hrest⟩
          rcases mem_insertAscending hy with rfl | hy
          · exact hafter
          · exact hhead y hy
        · exact h

theorem mem_insertAllAscending {xs ys : List α} {y : α}
    (h : y ∈ insertAllAscending before xs ys) : y ∈ xs ∨ y ∈ ys := by
  induction xs generalizing ys with
  | nil => exact .inr h
  | cons x rest ih =>
      rcases ih h with hrest | hinserted
      · exact .inl (List.mem_cons_of_mem _ hrest)
      · rcases mem_insertAscending hinserted with rfl | hy
        · exact .inl List.mem_cons_self
        · exact .inr hy

theorem mem_insertAllAscending_of_mem (xs : List α) {ys : List α} {y : α} (h : y ∈ ys) :
    y ∈ insertAllAscending before xs ys := by
  induction xs generalizing ys with
  | nil => exact h
  | cons x rest ih => exact ih (mem_insertAscending_of_mem h)

theorem exists_tie_insertAllAscending (hirrefl : ∀ z, before z z = false) {xs : List α} {x : α}
    (hx : x ∈ xs) (ys : List α) :
    ∃ y ∈ insertAllAscending before xs ys, before x y = false ∧ before y x = false := by
  induction xs generalizing ys with
  | nil => simp at hx
  | cons head rest ih =>
      rcases List.mem_cons.mp hx with rfl | hrest
      · obtain ⟨y, hy, htie⟩ := exists_tie_insertAscending hirrefl x ys
        exact ⟨y, mem_insertAllAscending_of_mem rest hy, htie⟩
      · exact ih hrest _

/-- In an order without ties everything inserted is there afterwards. -/
theorem mem_insertAllAscending_of_mem_left (hirrefl : ∀ z, before z z = false)
    (htie : ∀ a b, before a b = false → before b a = false → a = b) {xs : List α} {x : α}
    (hx : x ∈ xs) (ys : List α) : x ∈ insertAllAscending before xs ys := by
  obtain ⟨y, hy, hfirst, hsecond⟩ := exists_tie_insertAllAscending hirrefl hx ys
  exact htie x y hfirst hsecond ▸ hy

theorem pairwise_insertAllAscending
    (htrans : ∀ a b c, before a b = true → before b c = true → before a c = true)
    (xs : List α) {ys : List α} (h : ys.Pairwise fun first second => before first second = true) :
    (insertAllAscending before xs ys).Pairwise
      fun first second => before first second = true := by
  induction xs generalizing ys with
  | nil => exact h
  | cons x rest ih => exact ih (pairwise_insertAscending htrans x h)

end Insertion

/-! ## The order of insertion -/

/-- A comparison that puts the elements of a type in ranks: an element before another one is
before or behind any third, and ties are elements of one rank. -/
structure Ranks (before : α → α → Bool) : Prop where
  asymm : ∀ {a b}, before a b = true → before b a = false
  split : ∀ {a b}, before a b = true → ∀ c, before a c = true ∨ before c b = true

section Arrangement

variable {before : α → α → Bool}

theorem Ranks.irrefl (h : Ranks before) (a : α) : before a a = false := by
  cases hself : before a a with
  | false => rfl
  | true => exact hself.symm.trans (h.asymm hself)

theorem Ranks.trans (h : Ranks before) {a b c : α} (hab : before a b = true)
    (hbc : before b c = true) : before a c = true := by
  rcases h.split hbc a with hba | hac
  · rw [h.asymm hab] at hba
    cases hba
  · exact hac

theorem insertAscending_idem (h : Ranks before) (x : α) (ys : List α) :
    insertAscending before x (insertAscending before x ys) = insertAscending before x ys := by
  have hself := h.irrefl x
  induction ys with
  | nil => simp [insertAscending, hself]
  | cons y rest ih =>
      by_cases hfirst : before x y = true
      · simp [insertAscending, hfirst, hself]
      · by_cases hsecond : before y x = true
        · simp [insertAscending, hfirst, hsecond, ih]
        · simp [insertAscending, hfirst, hsecond]

/-- Two elements of different ranks can be inserted in either order, whatever the list is. -/
theorem insertAscending_comm (h : Ranks before) {x y : α} (hxy : before x y = true)
    (zs : List α) :
    insertAscending before x (insertAscending before y zs) =
      insertAscending before y (insertAscending before x zs) := by
  have hyx := h.asymm hxy
  induction zs with
  | nil => simp [insertAscending, hxy, hyx]
  | cons z rest ih =>
      by_cases hzx : before z x = true
      · -- both belong behind the head
        have hzy := h.trans hzx hxy
        simp [insertAscending, hzx, hzy, h.asymm hzx, h.asymm hzy, ih]
      · by_cases hxz : before x z = true
        · -- the smaller one belongs in front of the head
          by_cases hyz : before y z = true
          · simp [insertAscending, hxz, hyz, hxy, hyx]
          · by_cases hzy : before z y = true <;>
              simp [insertAscending, hxz, hyz, hzy, hxy, hyx]
        · -- the smaller one ties with the head
          have hzy := (h.split hxy z).resolve_left hxz
          simp [insertAscending, hzx, hxz, hzy, h.asymm hzy]

variable {xs ys : List α}

/-- Elements that are told apart by their ranks can be inserted in any order. -/
theorem insertAllAscending_perm (h : Ranks before)
    (htie : ∀ a ∈ xs, ∀ b ∈ xs, before a b = false → before b a = false → a = b)
    (hperm : xs.Perm ys) (zs : List α) :
    insertAllAscending before xs zs = insertAllAscending before ys zs := by
  refine hperm.foldl_eq' (fun a ha b hb list => ?_) zs
  by_cases hab : before a b = true
  · exact (insertAscending_comm h hab list).symm
  · by_cases hba : before b a = true
    · exact insertAscending_comm h hba list
    · rw [htie a ha b hb (by simpa using hab) (by simpa using hba)]

theorem insertAscending_of_mem (h : Ranks before)
    (htie : ∀ a ∈ xs, ∀ b ∈ xs, before a b = false → before b a = false → a = b) {x : α}
    (hx : x ∈ xs) (zs : List α) :
    insertAscending before x (insertAllAscending before xs zs) =
      insertAllAscending before xs zs := by
  obtain ⟨front, back, rfl⟩ := List.append_of_mem hx
  have hperm : (front ++ x :: back).Perm (front ++ back ++ [x]) := by
    rw [List.append_assoc]
    exact (List.perm_append_singleton x back).symm.append_left front
  rw [insertAllAscending_perm h htie hperm, insertAllAscending, List.foldl_append]
  exact insertAscending_idem h x _

/-- What was inserted before is not inserted again. -/
theorem insertAllAscending_of_subset (h : Ranks before)
    (htie : ∀ a ∈ xs, ∀ b ∈ xs, before a b = false → before b a = false → a = b)
    (hsubset : ∀ y ∈ ys, y ∈ xs) (zs : List α) :
    insertAllAscending before (xs ++ ys) zs = insertAllAscending before xs zs := by
  rw [insertAllAscending, List.foldl_append]
  change insertAllAscending before ys (insertAllAscending before xs zs) = _
  induction ys with
  | nil => rfl
  | cons y rest ih =>
      obtain ⟨hy, hrest⟩ := List.forall_mem_cons.mp hsubset
      rw [insertAllAscending, List.foldl_cons, insertAscending_of_mem h htie hy]
      exact ih hrest

/-- The outcome depends on what is inserted, and on neither the order nor the number of times. -/
theorem insertAllAscending_congr (h : Ranks before)
    (htie : ∀ a ∈ xs, ∀ b ∈ xs, before a b = false → before b a = false → a = b)
    (hsame : ∀ x, x ∈ xs ↔ x ∈ ys) (zs : List α) :
    insertAllAscending before xs zs = insertAllAscending before ys zs := by
  have htie' : ∀ a ∈ ys, ∀ b ∈ ys, before a b = false → before b a = false → a = b :=
    fun a ha b hb => htie a ((hsame a).mpr ha) b ((hsame b).mpr hb)
  have hboth : ∀ a ∈ xs ++ ys, ∀ b ∈ xs ++ ys,
      before a b = false → before b a = false → a = b := by
    simpa only [List.mem_append, ← hsame, or_self] using htie
  calc insertAllAscending before xs zs
      = insertAllAscending before (xs ++ ys) zs :=
        (insertAllAscending_of_subset h htie (fun y hy => (hsame y).mpr hy) zs).symm
    _ = insertAllAscending before (ys ++ xs) zs :=
        insertAllAscending_perm h hboth List.perm_append_comm zs
    _ = insertAllAscending before ys zs :=
        insertAllAscending_of_subset h htie' (fun x hx => (hsame x).mp hx) zs

end Arrangement

/-! ## Maps from names -/

/-- Looking a name up asks the first entry and then the others. -/
theorem lookup_cons_if (name : String) (entry : String × α) (rest : List (String × α)) :
    (entry :: rest).lookup name = if name = entry.1 then some entry.2 else rest.lookup name := by
  rw [List.lookup_cons]
  by_cases hname : name = entry.1
  · simp [hname]
  · rw [beq_eq_false_iff_ne.mpr hname, if_neg hname]

theorem lookup_insertEntry (name other : String) (value : α) (entries : List (String × α)) :
    (insertEntry name value entries).lookup other =
      if other = name then some value else entries.lookup other := by
  induction entries with
  | nil => simp [insertEntry, lookup_cons_if]
  | cons entry rest ih =>
      simp only [insertEntry]
      split
      · exact lookup_cons_if other (name, value) (entry :: rest)
      · rename_i hnotBefore
        split
        · rename_i hafter
          have hne : name ≠ entry.1 := fun heq => String.lt_irrefl _ (heq ▸ hafter)
          rw [lookup_cons_if, lookup_cons_if, ih]
          by_cases hother : other = name
          · simp [hother, hne]
          · simp [hother]
        · rename_i hnotAfter
          have hname : entry.1 = name := name_eq_of_not_lt hnotAfter hnotBefore
          rw [lookup_cons_if, lookup_cons_if, hname]
          by_cases hother : other = name <;> simp [hother]

/-- A new name adds one entry to those that are there. -/
theorem perm_insertEntry {name : String} {entries : List (String × α)}
    (h : entries.lookup name = none) (value : α) :
    (insertEntry name value entries).Perm ((name, value) :: entries) := by
  induction entries with
  | nil => rfl
  | cons entry rest ih =>
      rw [lookup_cons_if] at h
      split at h
      · cases h
      · rename_i hname
        simp only [insertEntry]
        split
        · rfl
        · rename_i hnotBefore
          split
          · exact ((ih h).cons entry).trans (.swap (name, value) entry rest)
          · rename_i hnotAfter
            exact absurd (name_eq_of_not_lt hnotBefore hnotAfter) hname

namespace NameMap

@[simp] theorem find?_empty (name : String) : (empty : NameMap α).find? name = none := rfl

theorem find?_insert (map : NameMap α) (name other : String) (value : α) :
    (map.insert name value).find? other =
      if other = name then some value else map.find? other :=
  lookup_insertEntry name other value map.entries

end NameMap

end BranchWitness
