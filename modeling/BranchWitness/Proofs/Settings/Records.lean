import BranchWitness.Proofs.Lists
import BranchWitness.Proofs.Settings.Fields

/-!
# Records that are laid over

Settings are read off a record, a mapping with names for keys, that other entries were laid over.
This module says what can be known of this without looking at the fields.

* What is laid over a record changes its fields where they stand; entries that name none of them
  come behind, in their order (`Yaml.merge_record`).
* The record is read exactly if no entry came behind, and then it is read off its changed fields
  (`Yaml.decodeRecord_merge`).  For an entry that came behind either has a name that cannot be set,
  or the name of a field that is there already, with a tag.
-/

namespace BranchWitness.Yaml

variable {entries : List (Yaml × Yaml)} {value : Yaml}

/-! ## Laying entries over a record -/

/-- A key is equal to a name if it is this name. -/
theorem same_str_iff {name : String} : same value (.str name) = true ↔ value = .str name := by
  cases value <;> simp [same]

/-- What is laid over a scalar takes its place. -/
theorem merge_of_isScalar {below : Yaml} (h : below.isScalar = true) (value : Yaml) :
    below.merge value = value := by
  cases below <;> cases value <;> first | rfl | cases h

theorem find?_cons (name : String) (entry : Yaml × Yaml) (rest : List (Yaml × Yaml)) :
    find? name (entry :: rest) = if isText name entry.1 then some entry.2 else find? name rest := by
  unfold find?
  rw [List.find?_cons]
  cases isText name entry.1 <;> rfl

/-- What becomes of a field when entries are laid over it. -/
def overlaid (entries : List (Yaml × Yaml)) (field : String × Yaml) : String × Yaml :=
  (field.1,
    match find? field.1 entries with
    | some value => field.2.merge value
    | none => field.2)

theorem overlaid_of_mem (h : DistinctKeys entries) {name : String}
    (hvalue : (.str name, value) ∈ entries) (old : Yaml) :
    overlaid entries (name, old) = (name, old.merge value) := by
  rw [overlaid, find?_eq_some h hvalue]

theorem overlaid_of_not_mem {name : String} (h : ∀ value, (.str name, value) ∉ entries)
    (old : Yaml) : overlaid entries (name, old) = (name, old) := by
  rw [overlaid, find?_eq_none h]

/-- Whether the entry names none of the fields. -/
def isForeign (fields : List (String × Yaml)) (entry : Yaml × Yaml) : Bool :=
  fields.all fun field => !isText field.1 entry.1

theorem isForeign_eq_false_iff {fields : List (String × Yaml)} {entry : Yaml × Yaml} :
    isForeign fields entry = false ↔ ∃ name ∈ fields.map Prod.fst, entry.1 = .str name := by
  simp [isForeign, isText_iff]

theorem overlaid_cons {entry : Yaml × Yaml} {rest : List (Yaml × Yaml)}
    (h : DistinctKeys (entry :: rest)) (field : String × Yaml) :
    overlaid (entry :: rest) field = overlaid rest (overlaid [entry] field) := by
  simp only [overlaid, find?_cons]
  cases hkey : isText field.1 entry.1 with
  | false => rfl
  | true =>
      -- no other entry has the name of this field
      have hnone : find? field.1 rest = none := by
        refine find?_eq_none fun value hvalue => ?_
        have hne := (List.pairwise_cons.mp h).1 _ hvalue
        rw [isText_iff.mp hkey] at hne
        simp [same] at hne
      simp [hnone]

theorem overlaid_singleton (entry : Yaml × Yaml) (field : String × Yaml) :
    overlaid [entry] field =
      if isText field.1 entry.1 then (field.1, field.2.merge entry.2) else field := by
  simp only [overlaid, find?_cons]
  cases isText field.1 entry.1 <;> rfl

/-- One entry is laid over the field that it names, and comes behind if it names none.  The entries
that came behind before have other keys. -/
theorem mergeEntries_cons {fields : List (String × Yaml)} {behind : List (Yaml × Yaml)}
    {entry : Yaml × Yaml} (hbehind : ∀ other ∈ behind, same entry.1 other.1 = false)
    (rest : List (Yaml × Yaml)) :
    mergeEntries (fields.map entryOf ++ behind) (entry :: rest) =
      mergeEntries ((fields.map (overlaid [entry])).map entryOf ++
        (behind ++ [entry].filter (isForeign fields))) rest := by
  obtain ⟨key, value⟩ := entry
  have hfield : ∀ field : String × Yaml, same key (entryOf field).1 = isText field.1 key := by
    intro field
    rw [Bool.eq_iff_iff, isText_iff]
    exact same_str_iff
  have hnone : behind.any (fun other => same key other.1) = false := by
    simpa [List.any_eq_false] using hbehind
  have hany : (fields.map entryOf ++ behind).any (fun other => same key other.1) =
      !isForeign fields (key, value) := by
    rw [List.any_append, hnone, Bool.or_false, List.any_map, isForeign, List.not_all_eq_any_not]
    simp [Function.comp_def, hfield]
  rw [mergeEntries, hany]
  congr 1
  cases hforeign : isForeign fields (key, value) with
  | true =>
      have hkept : ∀ field ∈ fields, overlaid [(key, value)] field = field := by
        intro field hmem
        have hother : isText field.1 key = false := by
          simpa using List.all_eq_true.mp hforeign field hmem
        rw [overlaid_singleton, hother]
        rfl
      simp [hforeign, List.map_congr_left hkept]
  | false =>
      have hbehind' : (behind.map fun other =>
          if same key other.1 then (other.1, other.2.merge value) else other) = behind := by
        refine (List.map_congr_left fun other hother => ?_).trans (List.map_id behind)
        rw [hbehind other hother]
        rfl
      have hlaid : ∀ field, entryOf (overlaid [(key, value)] field) =
          if same key (entryOf field).1 then
            ((entryOf field).1, (entryOf field).2.merge value) else entryOf field := by
        intro field
        rw [overlaid_singleton, hfield]
        cases isText field.1 key <;> rfl
      simp [hforeign, hbehind', hlaid]

/-- What is laid over a record changes its fields where they stand; entries that name none of them
come behind, in their order. -/
theorem mergeEntries_eq (hdistinct : DistinctKeys entries) (fields : List (String × Yaml))
    {behind : List (Yaml × Yaml)}
    (hbehind : ∀ entry ∈ entries, ∀ other ∈ behind, same entry.1 other.1 = false) :
    mergeEntries (fields.map entryOf ++ behind) entries =
      (fields.map (overlaid entries)).map entryOf ++
        (behind ++ entries.filter (isForeign fields)) := by
  induction entries generalizing fields behind with
  | nil =>
      have hkept : overlaid [] = id := rfl
      rw [mergeEntries, hkept, List.map_id, List.filter_nil, List.append_nil]
  | cons entry rest ih =>
      obtain ⟨hfirst, hrest⟩ := List.pairwise_cons.mp hdistinct
      rw [List.forall_mem_cons] at hbehind
      rw [mergeEntries_cons hbehind.1, ih hrest]
      · have hforeign : isForeign (fields.map (overlaid [entry])) = isForeign fields := by
          funext other
          simp [isForeign, overlaid, Function.comp_def]
        have hlaid : (fields.map (overlaid [entry])).map (overlaid rest) =
            fields.map (overlaid (entry :: rest)) := by
          rw [List.map_map]
          exact List.map_congr_left fun field _ => (overlaid_cons hdistinct field).symm
        rw [hforeign, hlaid, List.append_assoc, ← List.filter_append]
        rfl
      · intro later hlater other hother
        rcases List.mem_append.mp hother with hold | hnew
        · exact hbehind.2 later hlater other hold
        · rw [List.mem_singleton.mp (List.mem_filter.mp hnew).1]
          exact hfirst later hlater

theorem merge_record (hdistinct : DistinctKeys entries) (fields : List (String × Yaml)) :
    (record fields).merge (map entries) =
      map ((fields.map (overlaid entries)).map entryOf ++ entries.filter (isForeign fields)) := by
  have hmerged := mergeEntries_eq hdistinct fields (fun _ _ _ h => absurd h List.not_mem_nil)
  rw [List.append_nil, List.nil_append] at hmerged
  rw [record, merge, hmerged]

/-! ## Reading records -/

theorem mapM_fieldOf?_entryOf (given : List (String × Yaml)) :
    (given.map entryOf).mapM fieldOf? = some given := by
  rw [mapM_eq_some_iff, List.map_map]
  rfl

theorem fields_eq_ok_iff {given : List (String × Yaml)} : fields entries = .ok given ↔
    entries.mapM fieldOf? = some given ∧ (given.map Prod.fst).Nodup := by
  unfold fields
  cases entries.mapM fieldOf? with
  | none => simp
  | some found =>
      dsimp only
      split
      · rename_i hnodup
        rw [Except.ok.injEq, Option.some_inj]
        constructor
        · rintro rfl
          exact ⟨rfl, hnodup⟩
        · exact And.left
      · rename_i hdouble
        constructor
        · intro h
          cases h
        · rintro ⟨hfound, hnodup⟩
          cases hfound
          exact absurd hnodup hdouble

theorem fields_failsAs (entries : List (Yaml × Yaml)) :
    FailsAs SettingsError.IsMalformed (fields entries) := by
  unfold fields
  split
  · exact .malformed _
  · split
    · exact .ok _
    · exact .malformed _

section Steps

variable {σ : Type} {step : σ → String × Yaml → Except SettingsError σ}
  {given : List (String × Yaml)} {s s' : σ}

/-- All fields of a record that is read were set. -/
theorem exists_step_of_foldlM {field : String × Yaml} (hfield : field ∈ given)
    (hfold : given.foldlM step s = .ok s') : ∃ before after, step before field = .ok after := by
  induction given generalizing s with
  | nil => cases hfield
  | cons first rest ih =>
      rw [List.foldlM_cons] at hfold
      obtain ⟨next, hstep, hrest⟩ := SettingsError.exists_of_bind hfold
      rcases List.mem_cons.mp hfield with rfl | hmem
      · exact ⟨s, next, hstep⟩
      · exact ih hmem hrest

theorem decodeRecord_failsAs (h : ∀ s field, FailsAs SettingsError.IsMalformed (step s field))
    (default : σ) (value : Yaml) :
    FailsAs SettingsError.IsMalformed (value.decodeRecord step default) := by
  unfold decodeRecord
  split
  · exact (fields_failsAs _).bind fun given => .foldlM h given default
  · exact .ok _
  · exact .malformed _

theorem decodeRecord_map_eq_ok_iff : (map entries).decodeRecord step s = .ok s' ↔
    ∃ given, (entries.mapM fieldOf? = some given ∧ (given.map Prod.fst).Nodup) ∧
      given.foldlM step s = .ok s' := by
  simp only [← fields_eq_ok_iff]
  constructor
  · exact SettingsError.exists_of_bind
  · rintro ⟨given, hgiven, hfold⟩
    show (fields entries >>= fun given => given.foldlM step s) = .ok s'
    rw [hgiven]
    exact hfold

/-- **Records that are laid over.**  If only the fields of a record can be set, it is read from what
is laid over it exactly if all entries of this name its fields, and then from what becomes of the
fields. -/
theorem decodeRecord_merge {fields : List (String × Yaml)} (hnames : (fields.map Prod.fst).Nodup)
    (hstep : ∀ {s s' name value}, step s (name, value) = .ok s' → name ∈ fields.map Prod.fst)
    (hdistinct : DistinctKeys entries) :
    ((record fields).merge (map entries)).decodeRecord step s = .ok s' ↔
      (∀ entry ∈ entries, ∃ name ∈ fields.map Prod.fst, entry.1 = .str name) ∧
        (fields.map (overlaid entries)).foldlM step s = .ok s' := by
  have hsame : (fields.map (overlaid entries)).map Prod.fst = fields.map Prod.fst := by
    rw [List.map_map]
    rfl
  rw [merge_record hdistinct, decodeRecord_map_eq_ok_iff]
  constructor
  · rintro ⟨given, ⟨hread, hnodup⟩, hfold⟩
    rw [List.mapM_append, mapM_fieldOf?_entryOf, Option.bind_eq_bind, Option.bind_some,
      Option.bind_eq_some_iff] at hread
    obtain ⟨others, hothers, hgiven⟩ := hread
    cases hgiven
    -- what came behind would be a field for the second time
    have hnone : others = [] := by
      rw [List.eq_nil_iff_forall_not_mem]
      intro field hfield
      obtain ⟨before, after, hset⟩ :=
        exists_step_of_foldlM (List.mem_append_right _ hfield) hfold
      rw [List.map_append, hsame, List.nodup_append] at hnodup
      exact hnodup.2.2 _ (hstep hset) _ (List.mem_map_of_mem hfield) rfl
    rw [hnone] at hothers hfold
    rw [mapM_eq_some_iff, List.map_nil, List.map_eq_nil_iff, List.filter_eq_nil_iff] at hothers
    refine ⟨fun entry hentry => isForeign_eq_false_iff.mp ?_, by simpa using hfold⟩
    simpa using hothers entry hentry
  · rintro ⟨hknown, hfold⟩
    have hnone : entries.filter (isForeign fields) = [] := by
      rw [List.filter_eq_nil_iff]
      intro entry hentry
      rw [isForeign_eq_false_iff.mpr (hknown entry hentry)]
      simp
    rw [hnone, List.append_nil]
    exact ⟨_, ⟨mapM_fieldOf?_entryOf _, hsame ▸ hnames⟩, hfold⟩

end Steps

end BranchWitness.Yaml
