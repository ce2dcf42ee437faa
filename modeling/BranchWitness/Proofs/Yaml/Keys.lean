import BranchWitness.Yaml.Read

/-!
# The keys of a document

The reader checks every key of a mapping against the keys before it.  So no mapping anywhere in a
document that was read has two equal keys (`Yaml.wellKeyed_of_parse`): an entry can be looked up
without asking in which order the entries stand.

The readers of values, items and entries call each other with less fuel; one statement about all
three (`ReadsWellKeyed`) goes up with the fuel.
-/

namespace BranchWitness.Yaml

/-- Whether a value is neither a collection nor behind a tag. -/
def isScalar : Yaml → Bool
  | seq _ | map _ | tagged _ _ => false
  | _ => true

/-- No two entries have equal keys. -/
def DistinctKeys (entries : List (Yaml × Yaml)) : Prop :=
  entries.Pairwise fun first second => same second.1 first.1 = false

/-- No mapping in the value has two equal keys. -/
inductive WellKeyed : Yaml → Prop
  | scalar {value : Yaml} (h : value.isScalar = true) : WellKeyed value
  | seq {items : List Yaml} (hitems : ∀ item ∈ items, WellKeyed item) : WellKeyed (.seq items)
  | map {entries : List (Yaml × Yaml)} (hdistinct : DistinctKeys entries)
      (hkeys : ∀ entry ∈ entries, WellKeyed entry.1)
      (hvalues : ∀ entry ∈ entries, WellKeyed entry.2) : WellKeyed (.map entries)
  | tagged (tag : String) {value : Yaml} (hvalue : WellKeyed value) : WellKeyed (.tagged tag value)

theorem WellKeyed.withTag {value : Yaml} (h : value.WellKeyed) (properties : Properties) :
    (Yaml.withTag properties value).WellKeyed := by
  unfold Yaml.withTag
  split
  · exact h
  · exact .tagged _ h

theorem WellKeyed.distinctKeys {entries : List (Yaml × Yaml)} (h : (Yaml.map entries).WellKeyed) :
    DistinctKeys entries := by
  cases h with
  | scalar hscalar => cases hscalar
  | map hdistinct _ _ => exact hdistinct

theorem WellKeyed.value {entries : List (Yaml × Yaml)} (h : (Yaml.map entries).WellKeyed)
    {entry : Yaml × Yaml} (hentry : entry ∈ entries) : entry.2.WellKeyed := by
  cases h with
  | scalar hscalar => cases hscalar
  | map _ _ hvalues => exact hvalues entry hentry

/-! ## Scalars -/

theorem isScalar_of_ofPlain? {cs : List Char} {value : Yaml} (h : ofPlain? cs = some value) :
    value.isScalar = true := by
  unfold ofPlain? at h
  dsimp only at h
  repeat' split at h
  all_goals cases h
  all_goals rfl

theorem isScalar_of_ofBareScalar {text : String} {plain : Bool} {value : Yaml}
    (h : ofBareScalar text plain = some value) : value.isScalar = true := by
  unfold ofBareScalar at h
  split at h
  · exact isScalar_of_ofPlain? h
  · cases h
    rfl

theorem isScalar_of_ofStandardTag {tag : TagText} {text : String} {value : Yaml}
    (h : ofStandardTag tag text = some value) : value.isScalar = true := by
  unfold ofStandardTag at h
  dsimp only at h
  split at h
  · obtain ⟨b, -, rfl⟩ := Option.map_eq_some_iff.mp h
    rfl
  split at h
  · split at h <;> cases h
    rfl
  split at h
  · obtain ⟨shown, -, rfl⟩ := Option.map_eq_some_iff.mp h
    rfl
  split at h
  · split at h <;> cases h
    rfl
  · cases h
    rfl

theorem wellKeyed_of_ofScalar {properties : Properties} {text : String} {plain : Bool}
    {value : Yaml} (h : ofScalar properties text plain = some value) : value.WellKeyed := by
  unfold ofScalar at h
  split at h
  · exact .scalar (isScalar_of_ofStandardTag h)
  · obtain ⟨bare, hbare, rfl⟩ := Option.map_eq_some_iff.mp h
    exact (WellKeyed.scalar (isScalar_of_ofBareScalar hbare)).withTag properties

/-! ## Collections -/

/-- What the readers return with the given fuel is well-keyed.  The keys of a mapping also differ
from those that were read before. -/
structure ReadsWellKeyed (references : References) (fuel : Nat) : Prop where
  node : ∀ {depth : Nat} {bare : Bool} {reading after : Reading} {value : Yaml},
    readNode references fuel depth bare reading = some (value, after) → value.WellKeyed
  nodes : ∀ {depth : Nat} {reading after : Reading} {items : List Yaml},
    readNodes references fuel depth reading = some (items, after) →
    ∀ item ∈ items, item.WellKeyed
  entries : ∀ {depth : Nat} {bareKeys : Bool} {keys : List Yaml} {reading after : Reading}
    {entries : List (Yaml × Yaml)},
    readEntries references fuel depth bareKeys keys reading = some (entries, after) →
    DistinctKeys entries ∧ (∀ entry ∈ entries, entry.1.WellKeyed ∧ entry.2.WellKeyed) ∧
      ∀ entry ∈ entries, ∀ key ∈ keys, same entry.1 key = false

namespace ReadsWellKeyed

variable {references : References} {fuel depth : Nat} {reading after : Reading}

theorem node_succ (ih : ReadsWellKeyed references fuel) {bare : Bool} {value : Yaml}
    (h : readNode references (fuel + 1) depth bare reading = some (value, after)) :
    value.WellKeyed := by
  unfold readNode at h
  dsimp only at h
  split at h
  · cases h
  · cases h
  · split at h
    · obtain ⟨target, -, h⟩ := Option.bind_eq_some_iff.mp h
      obtain ⟨⟨found, rest⟩, hfound, h⟩ := Option.bind_eq_some_iff.mp h
      cases h
      exact ih.node hfound
    · cases h
  · obtain ⟨found, hfound, h⟩ := Option.map_eq_some_iff.mp h
    cases h
    exact wellKeyed_of_ofScalar hfound
  · split at h
    · cases h
    · obtain ⟨⟨items, rest⟩, hitems, h⟩ := Option.bind_eq_some_iff.mp h
      cases h
      exact (WellKeyed.seq (ih.nodes hitems)).withTag _
  · split at h
    · cases h
    · obtain ⟨⟨entries, rest⟩, hentries, h⟩ := Option.bind_eq_some_iff.mp h
      cases h
      obtain ⟨hdistinct, hkeyed, -⟩ := ih.entries hentries
      exact (WellKeyed.map hdistinct (fun entry hentry => (hkeyed entry hentry).1)
        fun entry hentry => (hkeyed entry hentry).2).withTag _

theorem nodes_succ (ih : ReadsWellKeyed references fuel) {items : List Yaml}
    (h : readNodes references (fuel + 1) depth reading = some (items, after)) :
    ∀ item ∈ items, item.WellKeyed := by
  unfold readNodes at h
  split at h
  · cases h
    simp
  · obtain ⟨⟨item, rest⟩, hitem, h⟩ := Option.bind_eq_some_iff.mp h
    obtain ⟨⟨others, rest⟩, hothers, h⟩ := Option.bind_eq_some_iff.mp h
    cases h
    exact List.forall_mem_cons.mpr ⟨ih.node hitem, ih.nodes hothers⟩

theorem entries_succ (ih : ReadsWellKeyed references fuel) {bareKeys : Bool} {keys : List Yaml}
    {entries : List (Yaml × Yaml)}
    (h : readEntries references (fuel + 1) depth bareKeys keys reading = some (entries, after)) :
    DistinctKeys entries ∧ (∀ entry ∈ entries, entry.1.WellKeyed ∧ entry.2.WellKeyed) ∧
      ∀ entry ∈ entries, ∀ key ∈ keys, same entry.1 key = false := by
  unfold readEntries at h
  split at h
  · cases h
    exact ⟨.nil, by simp, by simp⟩
  · obtain ⟨⟨key, rest⟩, hkey, h⟩ := Option.bind_eq_some_iff.mp h
    dsimp only at h
    split at h
    · cases h
    rename_i hnew
    obtain ⟨⟨value, rest⟩, hvalue, h⟩ := Option.bind_eq_some_iff.mp h
    obtain ⟨⟨others, rest⟩, hothers, h⟩ := Option.bind_eq_some_iff.mp h
    cases h
    -- the rest was read with this key among those before it
    obtain ⟨hdistinct, hkeyed, hfresh⟩ := ih.entries hothers
    refine ⟨List.pairwise_cons.mpr ⟨fun entry hentry => ?_, hdistinct⟩,
      List.forall_mem_cons.mpr ⟨⟨ih.node hkey, ih.node hvalue⟩, hkeyed⟩,
      List.forall_mem_cons.mpr ⟨?_, fun entry hentry other hother => ?_⟩⟩
    · exact hfresh entry hentry key List.mem_cons_self
    · simpa using hnew
    · exact hfresh entry hentry other (List.mem_cons_of_mem _ hother)

end ReadsWellKeyed

theorem readsWellKeyed (references : References) (fuel : Nat) :
    ReadsWellKeyed references fuel := by
  induction fuel with
  | zero =>
      refine ⟨fun h => ?_, fun h => ?_, fun h => ?_⟩
      · simp [readNode] at h
      · simp [readNodes] at h
      · simp [readEntries] at h
  | succ fuel ih => exact ⟨ih.node_succ, ih.nodes_succ, ih.entries_succ⟩

/-- No mapping in a document has two equal keys. -/
theorem wellKeyed_of_parse {text : String} {document : Yaml} (h : parse text = some document) :
    document.WellKeyed := by
  obtain ⟨tokens, -, h⟩ := Option.bind_eq_some_iff.mp h
  obtain ⟨events, -, h⟩ := Option.bind_eq_some_iff.mp h
  obtain ⟨numbered, -, h⟩ := Option.bind_eq_some_iff.mp h
  dsimp only at h
  split at h
  · cases h
    exact .scalar rfl
  · obtain ⟨⟨value, rest⟩, hvalue, h⟩ := Option.bind_eq_some_iff.mp h
    cases h
    exact (readsWellKeyed _ _).node hvalue

end BranchWitness.Yaml
