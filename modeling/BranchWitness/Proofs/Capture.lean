import BranchWitness.Explore
import BranchWitness.Proofs.Ascending
import BranchWitness.Proofs.Resolution
import Mathlib.Data.List.Nodup

/-!
# Capturing and substituting

The store of a path stands for a point of an ordinary run: every equation gives a variable the
value it has there (`Store.Describes`), and every test speaks about the values that its variables
had when it was taken, rewritten in terms of the values they have now (`Store.Passes`).

## Strategy

Two facts make this work.  The values in the store mention no variable that has an equation itself
(`WellFormed.closed`), so the variables they do mention have kept the values they started with.
And replacing a variable by a term that means the same changes no meaning, so capturing the current
value of a term keeps its meaning (`meaning_current`) and replacing a variable in the tests by its
previous value keeps what they say.

An assignment therefore moves the store along with the run (`Describes.assign`,
`passes_assign_iff`), provided that the target has an equation already or no constraint speaks about
it (`Store.admits`).  Without that, a constraint about the value that the target started with is
read as one about its new value.
-/

namespace BranchWitness

/-! ## Variables told apart -/

/-- The variables are told apart by their numbers and by their names alike. -/
structure Coherent (among : Var → Prop) : Prop where
  eq_of_id : ∀ {x y}, among x → among y → x.id = y.id → x = y
  eq_of_name : ∀ {x y}, among x → among y → x.name = y.name → x = y

theorem Coherent.name_mem_iff {among : Var → Prop} (h : Coherent among) {vars : List Var}
    (hvars : ∀ x ∈ vars, among x) {x : Var} (hx : among x) :
    x.name ∈ vars.map Var.name ↔ x ∈ vars := by
  refine ⟨fun hmem => ?_, List.mem_map_of_mem⟩
  obtain ⟨y, hy, hname⟩ := List.mem_map.mp hmem
  rw [← h.eq_of_name (hvars y hy) hx hname]
  exact hy

namespace Term

theorem Over.mono {first second : Var → Prop} {t : Term} (h : t.Over first)
    (hle : ∀ x, first x → second x) : t.Over second :=
  fun x hx => hle x (h x hx)

theorem mem_occurrences_substitute {t replacement : Term} {id : Nat} {x : Var}
    (h : x ∈ (t.substitute id replacement).occurrences) :
    (x ∈ t.occurrences ∧ x.id ≠ id) ∨ x ∈ replacement.occurrences := by
  induction t with
  | var y =>
      by_cases hy : y.id = id
      · simp only [substitute, if_pos hy] at h
        exact .inr h
      · simp only [substitute, if_neg hy, occurrences, List.mem_singleton] at h
        subst h
        exact .inl ⟨by simp [occurrences], hy⟩
  | const v => simp [substitute, occurrences] at h
  | not t ih => exact ih (by simpa [substitute, occurrences] using h)
  | and ts ih =>
      simp only [substitute, substituteAll_eq, occurrences, occurrencesAll_eq, List.flatMap_map,
        List.mem_flatMap] at h ⊢
      obtain ⟨t, ht, hx⟩ := h
      exact (ih t ht hx).imp_left fun hkept => ⟨⟨t, ht, hkept.1⟩, hkept.2⟩
  | or ts ih =>
      simp only [substitute, substituteAll_eq, occurrences, occurrencesAll_eq, List.flatMap_map,
        List.mem_flatMap] at h ⊢
      obtain ⟨t, ht, hx⟩ := h
      exact (ih t ht hx).imp_left fun hkept => ⟨⟨t, ht, hkept.1⟩, hkept.2⟩
  | neg t ih => exact ih (by simpa [substitute, occurrences] using h)
  | cmp op l r ihl ihr =>
      simp only [substitute, occurrences, List.mem_append] at h ⊢
      rcases h with h | h
      · exact (ihl h).imp_left fun hkept => ⟨.inl hkept.1, hkept.2⟩
      · exact (ihr h).imp_left fun hkept => ⟨.inr hkept.1, hkept.2⟩
  | arith op l r ihl ihr =>
      simp only [substitute, occurrences, List.mem_append] at h ⊢
      rcases h with h | h
      · exact (ihl h).imp_left fun hkept => ⟨.inl hkept.1, hkept.2⟩
      · exact (ihr h).imp_left fun hkept => ⟨.inr hkept.1, hkept.2⟩

/-- Replacing a variable by a term that means the same changes no meaning. -/
theorem meaning_substitute_of_eq {among : Var → Prop} (hamong : Coherent among) {t : Term}
    (ht : t.Over among) {x : Var} (hx : among x) {replacement : Term} {env : Environment}
    (h : replacement.meaning env = env x) :
    (t.substitute x.id replacement).meaning env = t.meaning env := by
  rw [meaning_substitute, h]
  refine meaning_congr fun y hy => ?_
  by_cases hid : y.id = x.id
  · rw [Environment.set_of_eq _ _ hid, hamong.eq_of_id (ht y hy) hx hid]
  · exact Environment.set_of_ne _ _ hid

/-- A variable that is not mentioned can be replaced by anything. -/
theorem substitute_eq_self {t : Term} {id : Nat} (h : t.mentions id = false)
    (replacement : Term) : t.substitute id replacement = t := by
  rw [not_mentions_iff] at h
  have hall : ∀ ts : List Term, (∀ t ∈ ts, t.substitute id replacement = t) →
      (ts.map fun t => t.substitute id replacement) = ts :=
    fun ts hts => (List.map_congr_left hts).trans (List.map_id ts)
  induction t with
  | var x => simp [substitute, h x (by simp [occurrences])]
  | const v => simp [substitute]
  | not t ih => simpa [substitute] using ih h
  | and ts ih =>
      rw [substitute, substituteAll_eq, hall ts]
      exact fun t ht => ih t ht fun x hx => h x (by simpa [occurrences] using ⟨t, ht, hx⟩)
  | or ts ih =>
      rw [substitute, substituteAll_eq, hall ts]
      exact fun t ht => ih t ht fun x hx => h x (by simpa [occurrences] using ⟨t, ht, hx⟩)
  | neg t ih => simpa [substitute] using ih h
  | cmp op l r ihl ihr =>
      rw [substitute, ihl fun x hx => h x (List.mem_append_left _ hx),
        ihr fun x hx => h x (List.mem_append_right _ hx)]
  | arith op l r ihl ihr =>
      rw [substitute, ihl fun x hx => h x (List.mem_append_left _ hx),
        ihr fun x hx => h x (List.mem_append_right _ hx)]

theorem mem_vars_of_mem_occurrences {among : Var → Prop} (hamong : Coherent among) {t : Term}
    (ht : t.Over among) {x : Var} (hx : x ∈ t.occurrences) : x ∈ t.vars := by
  have hirrefl : ∀ z : Var, z.before z = false := fun z => by simp [Var.before]
  obtain ⟨y, hy, hfirst, hsecond⟩ := exists_tie_insertAllAscending hirrefl hx []
  have hmem : y ∈ t.occurrences := (mem_insertAllAscending hy).resolve_right List.not_mem_nil
  have hid : y.id = x.id := by
    simp only [Var.before, decide_eq_false_iff_not] at hfirst hsecond
    omega
  rw [← hamong.eq_of_id (ht y hmem) (ht x hx) hid]
  exact hy

theorem mem_occurrences_of_mem_vars {t : Term} {x : Var} (hx : x ∈ t.vars) : x ∈ t.occurrences :=
  (mem_insertAllAscending hx).resolve_right List.not_mem_nil

end Term

/-! ## Entries of the store -/

namespace Store

theorem lookup_putBinding (name other : String) (binding : Binding)
    (named : List (String × Binding)) :
    (putBinding name binding named).lookup other =
      if other = name then some binding else named.lookup other := by
  induction named with
  | nil => simp [putBinding, lookup_cons_if]
  | cons entry rest ih =>
      unfold putBinding
      split
      · rename_i hname
        rw [lookup_cons_if, lookup_cons_if, hname]
        split <;> rfl
      · rename_i hname
        rw [lookup_cons_if, lookup_cons_if, ih]
        by_cases hother : other = entry.1
        · rw [if_pos hother, if_pos hother, if_neg (hother ▸ hname)]
        · rw [if_neg hother, if_neg hother]

theorem binding?_bind (store : Store) (name other : String) (binding : Binding) :
    (store.bind name binding).binding? other =
      if other = name then some binding else store.binding? other :=
  lookup_putBinding name other binding store.named

theorem mem_of_mem_putBinding {name : String} {binding : Binding}
    {named : List (String × Binding)} {entry : String × Binding}
    (h : entry ∈ putBinding name binding named) : entry = (name, binding) ∨ entry ∈ named := by
  induction named with
  | nil => exact .inl (by simpa [putBinding] using h)
  | cons head rest ih =>
      unfold putBinding at h
      split at h
      · rcases List.mem_cons.mp h with hnew | hrest
        · exact .inl hnew
        · exact .inr (List.mem_cons_of_mem _ hrest)
      · rcases List.mem_cons.mp h with hhead | hrest
        · exact .inr (hhead ▸ List.mem_cons_self)
        · exact (ih hrest).imp_right (List.mem_cons_of_mem _)

theorem mem_names_putBinding {name other : String} {binding : Binding}
    {named : List (String × Binding)} (h : other ∈ (putBinding name binding named).map Prod.fst) :
    other = name ∨ other ∈ named.map Prod.fst := by
  obtain ⟨entry, hentry, rfl⟩ := List.mem_map.mp h
  rcases mem_of_mem_putBinding hentry with rfl | hold
  · exact .inl rfl
  · exact .inr (List.mem_map_of_mem hold)

theorem nodup_putBinding {name : String} {binding : Binding} {named : List (String × Binding)}
    (h : (named.map Prod.fst).Nodup) : ((putBinding name binding named).map Prod.fst).Nodup := by
  induction named with
  | nil => simp [putBinding]
  | cons head rest ih =>
      rw [List.map_cons, List.nodup_cons] at h
      unfold putBinding
      split
      · rename_i hname
        rw [List.map_cons, List.nodup_cons]
        exact ⟨hname ▸ h.1, h.2⟩
      · rename_i hname
        rw [List.map_cons, List.nodup_cons]
        refine ⟨fun hmem => ?_, ih h.2⟩
        rcases mem_names_putBinding hmem with heq | hold
        · exact hname heq
        · exact h.1 hold

theorem mem_of_lookup {name : String} {binding : Binding} {named : List (String × Binding)}
    (h : named.lookup name = some binding) : (name, binding) ∈ named := by
  induction named with
  | nil => simp at h
  | cons entry rest ih =>
      rw [lookup_cons_if] at h
      split at h
      · rename_i hname
        cases h
        rw [hname]
        exact List.mem_cons_self
      · exact List.mem_cons_of_mem _ (ih h)

/-- Where the names of the entries differ, the new one is the only one under its name. -/
theorem mem_putBinding {name : String} {binding : Binding} {named : List (String × Binding)}
    (hnames : (named.map Prod.fst).Nodup) {entry : String × Binding}
    (h : entry ∈ putBinding name binding named) :
    entry = (name, binding) ∨ (entry ∈ named ∧ entry.1 ≠ name) := by
  by_cases hname : entry.1 = name
  · have hnew : (name, binding) ∈ putBinding name binding named :=
      mem_of_lookup (by rw [lookup_putBinding, if_pos rfl])
    exact .inl (List.inj_on_of_nodup_map (nodup_putBinding hnames) h hnew hname)
  · have hold := (mem_of_mem_putBinding h).resolve_left fun heq => hname (heq ▸ rfl)
    exact .inr ⟨hold, hname⟩

theorem mem_named_of_binding? {store : Store} {name : String} {binding : Binding}
    (h : store.binding? name = some binding) : (name, binding) ∈ store.named :=
  mem_of_lookup h

theorem isSome_binding?_iff {store : Store} {name : String} :
    (store.binding? name).isSome = true ↔ ∃ entry ∈ store.named, entry.1 = name := by
  unfold binding?
  generalize store.named = named
  induction named with
  | nil => simp
  | cons entry rest ih =>
      rw [lookup_cons_if, List.exists_mem_cons_iff, ← ih]
      by_cases hname : name = entry.1
      · simp [hname]
      · simp [hname, Ne.symm hname]

theorem mem_assertions {store : Store} {t : Term} (h : t ∈ store.assertions) :
    (∃ entry ∈ store.named, t = entry.2.term) ∨ t ∈ store.branch := by
  rcases List.mem_append.mp h with hequation | htest
  · obtain ⟨entry, hentry, hterm⟩ := List.mem_map.mp hequation
    exact .inl ⟨entry, hentry, hterm.symm⟩
  · exact .inr htest

theorem occurrences_term (binding : Binding) :
    binding.term.occurrences = binding.target :: binding.value.occurrences := by
  simp [Binding.term, Term.equals, Term.occurrences]

/-! ## Stores that stand for a point of a run -/

/-- The shape of a store: every entry is filed under the name of its variable, at most one for a
name, and no value mentions a variable that has an entry. -/
structure WellFormed (among : Var → Prop) (store : Store) : Prop where
  names : (store.named.map Prod.fst).Nodup
  target : ∀ entry ∈ store.named, among entry.2.target ∧ entry.2.target.name = entry.1
  value : ∀ entry ∈ store.named, entry.2.value.Over among
  test : ∀ t ∈ store.branch, t.Over among
  closed : ∀ entry ∈ store.named, ∀ x ∈ entry.2.value.occurrences, store.binding? x.name = none

/-- Every variable with an entry has the value of the entry. -/
def Describes (store : Store) (env : Environment) : Prop :=
  ∀ entry ∈ store.named, entry.2.value.meaning env = env entry.2.target

/-- Every test is true. -/
def Passes (store : Store) (env : Environment) : Prop :=
  ∀ t ∈ store.branch, t.meaning env = .known (.bool true)

variable {among : Var → Prop} {store next : Store} {env env' : Environment}

theorem wellFormed_empty (capacity : Option Nat) : WellFormed among { capacity } where
  names := by simp
  target := by simp
  value := by simp
  test := by simp
  closed := by simp

theorem WellFormed.mono {larger : Var → Prop} (h : WellFormed among store)
    (hle : ∀ x, among x → larger x) : WellFormed larger store where
  names := h.names
  target entry hentry := ⟨hle _ (h.target entry hentry).1, (h.target entry hentry).2⟩
  value entry hentry := (h.value entry hentry).mono hle
  test t ht := (h.test t ht).mono hle
  closed := h.closed

/-- The entry of a variable is about that variable. -/
theorem WellFormed.target_eq (h : WellFormed among store) (hamong : Coherent among) {x : Var}
    (hx : among x) {binding : Binding} (hbinding : store.binding? x.name = some binding) :
    binding.target = x := by
  obtain ⟨htarget, hname⟩ := h.target _ (mem_named_of_binding? hbinding)
  exact hamong.eq_of_name htarget hx hname

/-! ## Capturing -/

/-- Put the value of a variable in its place, if it has one. -/
def capture (store : Store) (t : Term) (x : Var) : Term :=
  match store.binding? x.name with
  | some binding => t.substitute x.id binding.value
  | none => t

theorem current_eq_foldl (store : Store) (t : Term) :
    store.current t = t.vars.foldl store.capture t := rfl

theorem over_capture (h : ∀ entry ∈ store.named, entry.2.value.Over among) {t : Term}
    (ht : t.Over among) (x : Var) : (store.capture t x).Over among := by
  unfold capture
  split
  · rename_i binding hbinding
    intro y hy
    rcases Term.mem_occurrences_substitute hy with ⟨hkept, -⟩ | hnew
    · exact ht y hkept
    · exact h _ (mem_named_of_binding? hbinding) y hnew
  · exact ht

theorem meaning_capture (h : WellFormed among store) (hamong : Coherent among)
    (hdescribes : store.Describes env) {t : Term} (ht : t.Over among) {x : Var} (hx : among x) :
    (store.capture t x).meaning env = t.meaning env := by
  unfold capture
  split
  · rename_i binding hbinding
    refine Term.meaning_substitute_of_eq hamong ht hx ?_
    rw [hdescribes _ (mem_named_of_binding? hbinding), h.target_eq hamong hx hbinding]
  · rfl

/-- Capturing a variable leaves no occurrence of it, unless it stands for itself. -/
theorem mem_occurrences_capture (h : WellFormed among store) {t : Term} {x y : Var}
    (hy : y ∈ (store.capture t x).occurrences) :
    store.binding? y.name = none ∨ (y ∈ t.occurrences ∧ y ≠ x) := by
  unfold capture at hy
  split at hy
  · rename_i binding hbinding
    rcases Term.mem_occurrences_substitute hy with ⟨hkept, hid⟩ | hnew
    · exact .inr ⟨hkept, fun heq => hid (heq ▸ rfl)⟩
    · exact .inl (h.closed _ (mem_named_of_binding? hbinding) y hnew)
  · rename_i hnone
    by_cases heq : y = x
    · exact .inl (heq ▸ hnone)
    · exact .inr ⟨hy, heq⟩

theorem over_foldl_capture (h : ∀ entry ∈ store.named, entry.2.value.Over among)
    (xs : List Var) {t : Term} (ht : t.Over among) :
    (xs.foldl store.capture t).Over among := by
  induction xs generalizing t with
  | nil => exact ht
  | cons x rest ih => exact ih (over_capture h ht x)

theorem meaning_foldl_capture (h : WellFormed among store) (hamong : Coherent among)
    (hdescribes : store.Describes env) {xs : List Var} (hxs : ∀ x ∈ xs, among x) {t : Term}
    (ht : t.Over among) : (xs.foldl store.capture t).meaning env = t.meaning env := by
  induction xs generalizing t with
  | nil => rfl
  | cons x rest ih =>
      obtain ⟨hx, hrest⟩ := List.forall_mem_cons.mp hxs
      rw [List.foldl_cons, ih hrest (over_capture h.value ht x),
        meaning_capture h hamong hdescribes ht hx]

theorem mem_occurrences_foldl_capture (h : WellFormed among store) {xs : List Var} {t : Term}
    {y : Var} (hy : y ∈ (xs.foldl store.capture t).occurrences) :
    store.binding? y.name = none ∨ (y ∈ t.occurrences ∧ y ∉ xs) := by
  induction xs generalizing t with
  | nil => exact .inr ⟨hy, List.not_mem_nil⟩
  | cons x rest ih =>
      rcases ih hy with hnone | ⟨hcaptured, hrest⟩
      · exact .inl hnone
      · rcases mem_occurrences_capture h hcaptured with hnone | ⟨hmem, hne⟩
        · exact .inl hnone
        · exact .inr ⟨hmem, by simp [hne, hrest]⟩

theorem over_current (h : ∀ entry ∈ store.named, entry.2.value.Over among) {t : Term}
    (ht : t.Over among) : (store.current t).Over among := by
  rw [current_eq_foldl]
  exact over_foldl_capture h t.vars ht

/-- Capturing keeps the meaning. -/
theorem meaning_current (h : WellFormed among store) (hamong : Coherent among)
    (hdescribes : store.Describes env) {t : Term} (ht : t.Over among) :
    (store.current t).meaning env = t.meaning env := by
  rw [current_eq_foldl]
  exact meaning_foldl_capture h hamong hdescribes
    (fun x hx => ht x (Term.mem_occurrences_of_mem_vars hx)) ht

/-- What was captured mentions no variable with an entry. -/
theorem binding?_of_mem_current (h : WellFormed among store) (hamong : Coherent among) {t : Term}
    (ht : t.Over among) {y : Var} (hy : y ∈ (store.current t).occurrences) :
    store.binding? y.name = none := by
  rw [current_eq_foldl] at hy
  rcases mem_occurrences_foldl_capture h hy with hnone | ⟨hmem, hvars⟩
  · exact hnone
  · exact absurd (Term.mem_vars_of_mem_occurrences hamong ht hmem) hvars

/-! ## Replacing a variable in the tests -/

/-- A test that does not mention the variable is left alone, as replacing would leave it. -/
theorem branch_substituteInTests (store : Store) (id : Nat) (replacement : Term) :
    (store.substituteInTests id replacement).branch =
      store.branch.map fun test => test.substitute id replacement := by
  refine List.map_congr_left fun test _ => ?_
  split
  · rfl
  · rename_i hmentions
    exact (Term.substitute_eq_self (Bool.eq_false_iff.mpr hmentions) replacement).symm

/-! ## Assigning one variable -/

/-- Whether an assignment to the variable leaves what the constraints say: it has an entry, or no
constraint mentions it. -/
def admits (store : Store) (target : Var) : Bool :=
  (store.binding? target.name).isSome || store.assertions.all fun t => !t.mentions target.id

/-- The store with the previous value of a variable in its place in the tests. -/
def settled (store : Store) (target : Var) : Store :=
  match store.binding? target.name with
  | some previous => store.substituteInTests target.id previous.value
  | none => store

theorem named_settled (store : Store) (target : Var) :
    (store.settled target).named = store.named := by
  unfold settled
  split <;> rfl

theorem assign_eq_ok {target : Var} {value : Term} (h : store.assign target value = .ok next) :
    value.sort = target.sort ∧ (store.current value).mentions target.id = false ∧
      next = (store.settled target).bind target.name ⟨target, store.current value⟩ := by
  unfold assign at h
  split at h
  · cases h
  · rename_i equation hequation
    have hsort : target.sort = value.sort := by
      cases Operator.makes_of_build hequation with
      | cmp hsame _ => exact hsame
    dsimp only at h
    split at h
    · cases h
    · rename_i hmentions
      cases h
      exact ⟨hsort.symm, by simpa using hmentions, rfl⟩

section Assign

variable {target : Var} {value : Term}

theorem binding?_of_assign (h : store.assign target value = .ok next) (name : String) :
    next.binding? name =
      if name = target.name then some ⟨target, store.current value⟩ else store.binding? name := by
  obtain ⟨-, -, rfl⟩ := assign_eq_ok h
  rw [binding?_bind, binding?, binding?, named_settled]

theorem mem_named_of_assign (hstore : WellFormed among store)
    (h : store.assign target value = .ok next) {entry : String × Binding}
    (hentry : entry ∈ next.named) :
    entry = (target.name, ⟨target, store.current value⟩) ∨
      (entry ∈ store.named ∧ entry.1 ≠ target.name) := by
  obtain ⟨-, -, rfl⟩ := assign_eq_ok h
  have hput : entry ∈ putBinding target.name ⟨target, store.current value⟩ store.named := by
    rw [← named_settled store target]
    exact hentry
  exact mem_putBinding hstore.names hput

/-- The values in the store do not mention a variable that can be assigned. -/
theorem not_mentions_of_admits (hstore : WellFormed among store) (hamong : Coherent among)
    (htarget : among target) (hadmits : store.admits target = true) {entry : String × Binding}
    (hentry : entry ∈ store.named) : entry.2.value.mentions target.id = false := by
  unfold admits at hadmits
  rcases Bool.or_eq_true_iff.mp hadmits with hsome | hall
  · refine Term.not_mentions_iff.mpr fun x hx hid => ?_
    have hnone := hstore.closed entry hentry x hx
    rw [hamong.eq_of_id (hstore.value entry hentry x hx) htarget hid] at hnone
    simp [hnone] at hsome
  · have hterm : entry.2.term ∈ store.assertions :=
      List.mem_append_left _ (List.mem_map_of_mem hentry)
    have hmentions := List.all_eq_true.mp hall _ hterm
    rw [Bool.not_eq_true', Term.not_mentions_iff] at hmentions
    refine Term.not_mentions_iff.mpr fun x hx => hmentions x ?_
    simp [Binding.term, Term.equals, Term.occurrences, hx]

theorem not_mentions_test_of_admits (hadmits : store.admits target = true)
    (hnone : store.binding? target.name = none) {t : Term} (ht : t ∈ store.branch) :
    t.mentions target.id = false := by
  simp only [admits, hnone, Option.isSome_none, Bool.false_or] at hadmits
  have hmentions := List.all_eq_true.mp hadmits t (List.mem_append_right _ ht)
  simpa using hmentions

theorem meaning_eq_of_not_mentions {t : Term} (ht : t.Over among)
    (hmentions : t.mentions target.id = false)
    (hold : ∀ x, among x → x ≠ target → env' x = env x) : t.meaning env' = t.meaning env := by
  refine Term.meaning_congr fun x hx => hold x (ht x hx) fun heq => ?_
  exact Term.not_mentions_iff.mp hmentions x hx (heq ▸ rfl)

/-- An assignment keeps the shape of the store. -/
theorem WellFormed.assign (hstore : WellFormed among store) (hamong : Coherent among)
    (htarget : among target) (hvalue : value.Over among) (hadmits : store.admits target = true)
    (h : store.assign target value = .ok next) : WellFormed among next := by
  obtain ⟨-, hmentions, hnext⟩ := assign_eq_ok h
  have hcaptured : (store.current value).Over among := over_current hstore.value hvalue
  refine ⟨?_, fun entry hentry => ?_, fun entry hentry => ?_, fun t ht => ?_,
    fun entry hentry x hx => ?_⟩
  · rw [hnext]
    refine nodup_putBinding ?_
    rw [named_settled]
    exact hstore.names
  · rcases mem_named_of_assign hstore h hentry with rfl | ⟨hold, -⟩
    · exact ⟨htarget, rfl⟩
    · exact hstore.target entry hold
  · rcases mem_named_of_assign hstore h hentry with rfl | ⟨hold, -⟩
    · exact hcaptured
    · exact hstore.value entry hold
  · rw [hnext] at ht
    change t ∈ (store.settled target).branch at ht
    unfold settled at ht
    split at ht
    · rename_i previous hprevious
      rw [branch_substituteInTests] at ht
      obtain ⟨original, horiginal, rfl⟩ := List.mem_map.mp ht
      intro x hx
      rcases Term.mem_occurrences_substitute hx with ⟨hkept, -⟩ | hnew
      · exact hstore.test original horiginal x hkept
      · exact hstore.value _ (mem_named_of_binding? hprevious) x hnew
    · exact hstore.test t ht
  · -- neither the new value nor an old one mentions the target
    have hfree : store.binding? x.name = none ∧ x.id ≠ target.id ∧ among x := by
      rcases mem_named_of_assign hstore h hentry with rfl | ⟨hold, -⟩
      · exact ⟨binding?_of_mem_current hstore hamong hvalue hx,
          Term.not_mentions_iff.mp hmentions x hx, hcaptured x hx⟩
      · have hold' := not_mentions_of_admits hstore hamong htarget hadmits hold
        exact ⟨hstore.closed entry hold x hx, Term.not_mentions_iff.mp hold' x hx,
          hstore.value entry hold x hx⟩
    obtain ⟨hnone, hid, hx'⟩ := hfree
    rw [binding?_of_assign h, if_neg, hnone]
    exact fun hname => hid (by rw [hamong.eq_of_name hx' htarget hname])

/-- After an assignment the store describes the run after it. -/
theorem Describes.assign (hstore : WellFormed among store) (hamong : Coherent among)
    (hdescribes : store.Describes env) (htarget : among target) (hvalue : value.Over among)
    (hadmits : store.admits target = true) (h : store.assign target value = .ok next)
    (hnew : env' target = value.meaning env)
    (hold : ∀ x, among x → x ≠ target → env' x = env x) : next.Describes env' := by
  obtain ⟨-, hmentions, -⟩ := assign_eq_ok h
  intro entry hentry
  rcases mem_named_of_assign hstore h hentry with rfl | ⟨hkept, hname⟩
  · calc (store.current value).meaning env'
        = (store.current value).meaning env :=
          meaning_eq_of_not_mentions (over_current hstore.value hvalue) hmentions hold
      _ = value.meaning env := meaning_current hstore hamong hdescribes hvalue
      _ = env' target := hnew.symm
  · obtain ⟨hentryTarget, hentryName⟩ := hstore.target entry hkept
    have hne : entry.2.target ≠ target := fun heq => hname (by rw [← hentryName, heq])
    calc entry.2.value.meaning env'
        = entry.2.value.meaning env :=
          meaning_eq_of_not_mentions (hstore.value entry hkept)
            (not_mentions_of_admits hstore hamong htarget hadmits hkept) hold
      _ = env entry.2.target := hdescribes entry hkept
      _ = env' entry.2.target := (hold _ hentryTarget hne).symm

/-- The tests keep speaking about the values that they saw. -/
theorem passes_assign_iff (hstore : WellFormed among store) (hamong : Coherent among)
    (hdescribes : store.Describes env) (htarget : among target)
    (hadmits : store.admits target = true) (h : store.assign target value = .ok next)
    (hold : ∀ x, among x → x ≠ target → env' x = env x) :
    next.Passes env' ↔ store.Passes env := by
  obtain ⟨-, -, rfl⟩ := assign_eq_ok h
  change (∀ t ∈ (store.settled target).branch, t.meaning env' = .known (.bool true)) ↔
    ∀ t ∈ store.branch, t.meaning env = .known (.bool true)
  unfold settled
  split
  · rename_i previous hprevious
    have hmem := mem_named_of_binding? hprevious
    have hmentions : previous.value.mentions target.id = false :=
      not_mentions_of_admits hstore hamong htarget hadmits hmem
    have hvalue : previous.value.meaning env' = env target := by
      calc previous.value.meaning env'
          = previous.value.meaning env :=
            meaning_eq_of_not_mentions (hstore.value _ hmem) hmentions hold
        _ = env previous.target := hdescribes _ hmem
        _ = env target := by rw [hstore.target_eq hamong htarget hprevious]
    have hsame : ∀ t ∈ store.branch,
        (t.substitute target.id previous.value).meaning env' = t.meaning env := by
      intro t ht
      rw [Term.meaning_substitute, hvalue]
      refine Term.meaning_congr fun x hx => ?_
      by_cases hid : x.id = target.id
      · rw [Environment.set_of_eq _ _ hid, hamong.eq_of_id (hstore.test t ht x hx) htarget hid]
      · rw [Environment.set_of_ne _ _ hid]
        exact hold x (hstore.test t ht x hx) fun heq => hid (heq ▸ rfl)
    simp only [branch_substituteInTests, List.forall_mem_map]
    exact forall₂_congr fun t ht => by rw [hsame t ht]
  · rename_i hnone
    refine forall₂_congr fun t ht => ?_
    rw [meaning_eq_of_not_mentions (hstore.test t ht)
      (not_mentions_test_of_admits hadmits hnone ht) hold]

end Assign

/-! ## Assigning several variables -/

/-- Whether the value of a term can be given to the variables one after another: each time the
variable can be assigned, and what is captured is the same. -/
def admitsEach (value captured : Term) : List Var → Store → Bool
  | [], _ => true
  | target :: rest, store =>
      decide (store.current value = captured) && store.admits target &&
        match store.assign target value with
        | .ok next => admitsEach value captured rest next
        | .error _ => false

theorem admitsEach_cons {value captured : Term} {target : Var} {rest : List Var}
    (h : store.admitsEach value captured (target :: rest) = true) :
    store.current value = captured ∧ store.admits target = true ∧
      ∃ next, store.assign target value = .ok next ∧
        next.admitsEach value captured rest = true := by
  simp only [admitsEach, Bool.and_eq_true, decide_eq_true_eq] at h
  obtain ⟨⟨hcaptured, hadmits⟩, hrest⟩ := h
  cases hassign : store.assign target value with
  | error _ => simp [hassign] at hrest
  | ok after =>
      rw [hassign] at hrest
      exact ⟨hcaptured, hadmits, after, rfl, hrest⟩

section AssignEach

open Exploration (assignEach)

variable {value captured : Term} {targets : List Var}

theorem WellFormed.assignEach (hstore : WellFormed among store) (hamong : Coherent among)
    (htargets : ∀ x ∈ targets, among x) (hvalue : value.Over among)
    (heach : store.admitsEach value captured targets = true)
    (h : assignEach value targets store = (next, none)) : WellFormed among next := by
  induction targets generalizing store with
  | nil =>
      cases h
      exact hstore
  | cons target rest ih =>
      obtain ⟨-, hadmits, after, hassign, hrest⟩ := admitsEach_cons heach
      obtain ⟨htarget, htargets⟩ := List.forall_mem_cons.mp htargets
      rw [Exploration.assignEach, hassign] at h
      exact ih (hstore.assign hamong htarget hvalue hadmits hassign) htargets hrest h

theorem sort_eq_of_assignEach (h : assignEach value targets store = (next, none)) :
    ∀ x ∈ targets, value.sort = x.sort := by
  induction targets generalizing store with
  | nil => simp
  | cons target rest ih =>
      rw [Exploration.assignEach] at h
      split at h
      · cases h
      · rename_i after hassign
        exact List.forall_mem_cons.mpr ⟨(assign_eq_ok hassign).1, ih h⟩

theorem isSome_binding?_of_assignEach (h : assignEach value targets store = (next, none))
    (name : String) : (next.binding? name).isSome = true ↔
      (store.binding? name).isSome = true ∨ ∃ x ∈ targets, x.name = name := by
  induction targets generalizing store with
  | nil =>
      cases h
      simp
  | cons target rest ih =>
      rw [Exploration.assignEach] at h
      split at h
      · cases h
      · rename_i after hassign
        rw [ih h, binding?_of_assign hassign, List.exists_mem_cons_iff]
        by_cases hname : name = target.name
        · simp [hname]
        · simp [hname, Ne.symm hname]

/-- A term that is captured alike before and after a variable changes has kept its meaning. -/
theorem meaning_eq_of_current_eq (hstore : WellFormed among store) (hnext : WellFormed among next)
    (hamong : Coherent among) (hdescribes : store.Describes env)
    (hdescribes' : next.Describes env') (hvalue : value.Over among) {target : Var}
    (hmentions : (store.current value).mentions target.id = false)
    (hkept : ∀ x, among x → x ≠ target → env' x = env x)
    (hcurrent : next.current value = store.current value) :
    value.meaning env' = value.meaning env := by
  calc value.meaning env'
      = (next.current value).meaning env' :=
        (meaning_current hnext hamong hdescribes' hvalue).symm
    _ = (store.current value).meaning env' := by rw [hcurrent]
    _ = (store.current value).meaning env :=
        meaning_eq_of_not_mentions (over_current hstore.value hvalue) hmentions hkept
    _ = value.meaning env := meaning_current hstore hamong hdescribes hvalue

/-- An assignment to several variables moves the store along with the run, in which the value is
read once. -/
theorem describes_and_passes_of_assignEach (hstore : WellFormed among store)
    (hamong : Coherent among) (hdescribes : store.Describes env)
    (htargets : ∀ x ∈ targets, among x) (hvalue : value.Over among)
    (heach : store.admitsEach value captured targets = true)
    (h : assignEach value targets store = (next, none))
    (hnew : ∀ x ∈ targets, env' x = value.meaning env)
    (hold : ∀ x, among x → x ∉ targets → env' x = env x) :
    next.Describes env' ∧ (next.Passes env' ↔ store.Passes env) := by
  induction targets generalizing store env with
  | nil =>
      cases h
      have hsame : ∀ x, among x → env' x = env x := fun x hx => hold x hx List.not_mem_nil
      refine ⟨fun entry hentry => ?_, forall₂_congr fun t ht => ?_⟩
      · rw [hsame _ (hstore.target entry hentry).1, ← hdescribes entry hentry]
        exact Term.meaning_congr fun x hx => hsame x (hstore.value entry hentry x hx)
      · rw [Term.meaning_congr fun x hx => hsame x (hstore.test t ht x hx)]
  | cons target rest ih =>
      obtain ⟨hcaptured, hadmits, after, hassign, hrest⟩ := admitsEach_cons heach
      obtain ⟨htarget, htargets⟩ := List.forall_mem_cons.mp htargets
      rw [Exploration.assignEach, hassign] at h
      have hafter := hstore.assign hamong htarget hvalue hadmits hassign
      -- the run after the first of the assignments
      let between := env.set target.id (value.meaning env)
      have hbetween : between target = value.meaning env := Environment.set_of_eq _ _ rfl
      have hkept : ∀ x, among x → x ≠ target → between x = env x := fun x hx hne =>
        Environment.set_of_ne _ _ fun hid => hne (hamong.eq_of_id hx htarget hid)
      have hdescribes' : after.Describes between :=
        hdescribes.assign hstore hamong htarget hvalue hadmits hassign hbetween hkept
      have hpasses : after.Passes between ↔ store.Passes env :=
        passes_assign_iff hstore hamong hdescribes htarget hadmits hassign hkept
      have hvalue' : ∀ x ∈ rest, value.meaning between = value.meaning env := by
        intro x hx
        cases rest with
        | nil => simp at hx
        | cons second others =>
            obtain ⟨hcaptured', -⟩ := admitsEach_cons hrest
            obtain ⟨-, hmentions, -⟩ := assign_eq_ok hassign
            exact meaning_eq_of_current_eq hstore hafter hamong hdescribes hdescribes' hvalue
              hmentions hkept (hcaptured'.trans hcaptured.symm)
      have hnew' : ∀ x ∈ rest, env' x = value.meaning between := fun x hx =>
        (hnew x (List.mem_cons_of_mem _ hx)).trans (hvalue' x hx).symm
      have hold' : ∀ x, among x → x ∉ rest → env' x = between x := by
        intro x hx hmem
        by_cases heq : x = target
        · rw [heq, hbetween, hnew target List.mem_cons_self]
        · rw [hkept x hx heq, hold x hx (by simp [heq, hmem])]
      obtain ⟨hdone, hiff⟩ := ih hafter hdescribes' htargets hrest h hnew' hold'
      exact ⟨hdone, hiff.trans hpasses⟩

end AssignEach

/-! ## Taking a test -/

theorem push_eq_ok {test : Term} {position : Nat} (h : store.push test = .ok (position, next)) :
    next = { store with branch := store.branch ++ [test] } := by
  unfold push at h
  split at h
  · split at h
    · cases h
    · cases h
      rfl
  · cases h
    rfl

theorem WellFormed.push {test : Term} {position : Nat} (hstore : WellFormed among store)
    (htest : test.Over among) (h : store.push test = .ok (position, next)) :
    WellFormed among next := by
  rw [push_eq_ok h]
  refine ⟨hstore.names, hstore.target, hstore.value, ?_, hstore.closed⟩
  exact List.forall_mem_append.mpr ⟨hstore.test, by simpa using htest⟩

theorem passes_push_iff {test : Term} {position : Nat}
    (h : store.push test = .ok (position, next)) :
    next.Passes env ↔ store.Passes env ∧ test.meaning env = .known (.bool true) := by
  rw [push_eq_ok h]
  unfold Passes
  rw [List.forall_mem_append]
  simp

end Store

end BranchWitness
