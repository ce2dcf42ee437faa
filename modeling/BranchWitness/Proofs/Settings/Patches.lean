import BranchWitness.Proofs.Settings.Records

/-!
# Patches of settings

A settings file changes some fields of a preset.  Which fields it mentions, and with which values,
is a *patch*: a value or none for every field.  A patch is described by a mapping if the mapping has
an entry for each field of the patch, with a value that spells it, and no further entries
(`Patch.DescribedBy`).  Nothing is said about the order of the entries, and the values may carry
tags.

Settings that a mapping describing a patch is laid over are read with the patch applied
(`Settings.decode_merge_of_describedBy`); a key that no field has keeps them from being read
(`Settings.decode_merge_ne_ok`).
-/

namespace BranchWitness

/-! ## Patches -/

/-- New values for some of the solver's settings. -/
structure SolverPatch where
  backend : Option BackendKind := none
  timeoutMs : Option UInt64 := none
  maxNodes : Option UInt64 := none
  intWindow : Option Int64 := none

/-- The solver's settings with the new values. -/
def SolverPatch.apply (patch : SolverPatch) (base : SolverSettings) : SolverSettings where
  backend := patch.backend.getD base.backend
  timeoutMs := patch.timeoutMs.getD base.timeoutMs
  maxNodes := patch.maxNodes.getD base.maxNodes
  intWindow := patch.intWindow.getD base.intWindow

/-- New values for some of the settings.  That there is no limit is a value too. -/
structure Patch where
  solver : Option SolverPatch := none
  maxPathConstraints : Option (Option UInt64) := none
  traceBranches : Option Bool := none
  parallelFunctions : Option Bool := none

/-- The settings with the new values. -/
def Patch.apply (patch : Patch) (base : Settings) : Settings where
  solver := patch.solver.elim base.solver fun solver => solver.apply base.solver
  maxPathConstraints := patch.maxPathConstraints.getD base.maxPathConstraints
  traceBranches := patch.traceBranches.getD base.traceBranches
  parallelFunctions := patch.parallelFunctions.getD base.parallelFunctions

/-! ## Mappings that describe patches -/

/-- The keys of the solver's settings. -/
def solverKeys : List String :=
  ["backend", "timeout_ms", "max_nodes", "int_window"]

/-- The keys of a settings file. -/
def settingsKeys : List String :=
  ["version", "preset", "solver", "max_path_constraints", "trace_branches", "parallel_functions"]

/-- The key is none of the given ones. -/
def Yaml.Unknown (keys : List String) (key : Yaml) : Prop :=
  ∀ name ∈ keys, key ≠ .str name

/-- Whether the mapping has an entry under the key, and with a value for what. -/
def Yaml.Mentions {α : Type} (entries : List (Yaml × Yaml)) (key : String)
    (spells : Yaml → α → Prop) : Option α → Prop
  | none => ∀ value, (.str key, value) ∉ entries
  | some a => ∃ value, (.str key, value) ∈ entries ∧ spells value a

/-- The value names the solver, by a text or by a tag before nothing. -/
def Yaml.SpellsBackend (value : Yaml) (backend : BackendKind) : Prop :=
  value = .str backend.name ∨ ∃ inner, value = .tagged backend.name inner ∧ inner.untag = .null

/-- The value is the limit; nothing stands for none. -/
def Yaml.SpellsLimit (value : Yaml) : Option UInt64 → Prop
  | none => value = .null
  | some limit => value.untag = .int limit.toNat

/-- The mapping has an entry for each field of the patch and no others. -/
structure SolverPatch.DescribedBy (patch : SolverPatch) (entries : List (Yaml × Yaml)) : Prop where
  known : ∀ entry ∈ entries, ∃ key ∈ solverKeys, entry.1 = .str key
  backend : Yaml.Mentions entries "backend" Yaml.SpellsBackend patch.backend
  timeoutMs : Yaml.Mentions entries "timeout_ms" (fun value n => value.untag = .int n.toNat)
    patch.timeoutMs
  maxNodes : Yaml.Mentions entries "max_nodes" (fun value n => value.untag = .int n.toNat)
    patch.maxNodes
  intWindow : Yaml.Mentions entries "int_window" (fun value n => value.untag = .int n.toInt)
    patch.intWindow

/-- The mapping has an entry for each field of the patch and no others, version and preset
apart. -/
structure Patch.DescribedBy (patch : Patch) (entries : List (Yaml × Yaml)) : Prop where
  known : ∀ entry ∈ entries, ∃ key ∈ settingsKeys, entry.1 = .str key
  solver : Yaml.Mentions entries "solver"
    (fun value solver => ∃ inner, value = .map inner ∧ solver.DescribedBy inner) patch.solver
  maxPathConstraints : Yaml.Mentions entries "max_path_constraints" Yaml.SpellsLimit
    patch.maxPathConstraints
  traceBranches : Yaml.Mentions entries "trace_branches" (fun value b => value.untag = .bool b)
    patch.traceBranches
  parallelFunctions : Yaml.Mentions entries "parallel_functions"
    (fun value b => value.untag = .bool b) patch.parallelFunctions

/-! ## Values that are laid over -/

namespace Yaml

theorem toLimit?_eq_some_iff {value : Yaml} {limit : Option UInt64} :
    value.toLimit? = some limit ↔ value.SpellsLimit limit := by
  by_cases hnull : value = .null
  · subst hnull
    cases limit with
    | none => exact iff_of_true rfl rfl
    | some n => exact iff_of_false (by simp [toLimit?]) (fun h => by cases h)
  · have hread : value.toLimit? = value.toUInt64?.map some := by
      cases value <;> first | rfl | exact absurd rfl hnull
    cases limit with
    | none => simp [hread, SpellsLimit, hnull]
    | some n => simp [hread, SpellsLimit, toUInt64?_eq_some_iff]

theorem spellsLimit_ofLimit (limit : Option UInt64) : (ofLimit limit).SpellsLimit limit := by
  cases limit <;> rfl

theorem isScalar_ofLimit (limit : Option UInt64) : (ofLimit limit).isScalar = true := by
  cases limit <;> rfl

namespace Mentions

variable {α : Type} {entries : List (Yaml × Yaml)} {key : String} {spells : Yaml → α → Prop}
  {given : Option α}

/-- A field that is laid over spells what the patch says, and what it was if that says nothing. -/
theorem overlaid (h : Mentions entries key spells given) (hdistinct : DistinctKeys entries)
    {old : Yaml} {a : α} (hold : spells old a) (hscalar : old.isScalar = true) :
    spells (Yaml.overlaid entries (key, old)).2 (given.getD a) := by
  cases given with
  | none =>
      rw [overlaid_of_not_mem h]
      exact hold
  | some b =>
      obtain ⟨value, hvalue, hspells⟩ := h
      rw [overlaid_of_mem hdistinct hvalue, merge_of_isScalar hscalar]
      exact hspells

theorem erase (h : Mentions entries key spells given) {other : String} (hne : key ≠ other) :
    Mentions (Yaml.erase other entries) key spells given := by
  cases given with
  | none => exact fun value hvalue => h value (mem_erase.mp hvalue).1
  | some b =>
      obtain ⟨value, hvalue, hspells⟩ := h
      refine ⟨value, mem_erase.mpr ⟨hvalue, ?_⟩, hspells⟩
      simpa using hne

end Mentions

end Yaml

/-! ## The solver's settings -/

namespace SolverSettings

variable {solver next base : SolverSettings} {key : String} {value : Yaml}
  {entries : List (Yaml × Yaml)}

/-- The ways to set a field. -/
theorem setField_eq_ok_iff : solver.setField (key, value) = .ok next ↔
    (key = "backend" ∧ ∃ backend, value.SpellsBackend backend ∧
      next = { solver with backend }) ∨
    (key = "timeout_ms" ∧ ∃ timeoutMs : UInt64, value.untag = .int timeoutMs.toNat ∧
      next = { solver with timeoutMs }) ∨
    (key = "max_nodes" ∧ ∃ maxNodes : UInt64, value.untag = .int maxNodes.toNat ∧
      next = { solver with maxNodes }) ∨
    (key = "int_window" ∧ ∃ intWindow : Int64, value.untag = .int intWindow.toInt ∧
      next = { solver with intWindow }) := by
  unfold setField
  dsimp only
  rw [SettingsError.ofField_eq_ok_iff]
  constructor
  · intro h
    split at h
    · obtain ⟨backend, hbackend, rfl⟩ := Option.map_eq_some_iff.mp h
      exact .inl ⟨rfl, backend, BackendKind.ofYaml?_eq_some_iff.mp hbackend, rfl⟩
    · obtain ⟨n, hn, rfl⟩ := Option.map_eq_some_iff.mp h
      exact .inr (.inl ⟨rfl, n, Yaml.toUInt64?_eq_some_iff.mp hn, rfl⟩)
    · obtain ⟨n, hn, rfl⟩ := Option.map_eq_some_iff.mp h
      exact .inr (.inr (.inl ⟨rfl, n, Yaml.toUInt64?_eq_some_iff.mp hn, rfl⟩))
    · obtain ⟨n, hn, rfl⟩ := Option.map_eq_some_iff.mp h
      exact .inr (.inr (.inr ⟨rfl, n, Yaml.toInt64?_eq_some_iff.mp hn, rfl⟩))
    · cases h
  · rintro (⟨rfl, a, ha, rfl⟩ | ⟨rfl, a, ha, rfl⟩ | ⟨rfl, a, ha, rfl⟩ | ⟨rfl, a, ha, rfl⟩)
    · exact Option.map_eq_some_iff.mpr ⟨a, BackendKind.ofYaml?_eq_some_iff.mpr ha, rfl⟩
    · exact Option.map_eq_some_iff.mpr ⟨a, Yaml.toUInt64?_eq_some_iff.mpr ha, rfl⟩
    · exact Option.map_eq_some_iff.mpr ⟨a, Yaml.toUInt64?_eq_some_iff.mpr ha, rfl⟩
    · exact Option.map_eq_some_iff.mpr ⟨a, Yaml.toInt64?_eq_some_iff.mpr ha, rfl⟩

theorem mem_solverKeys_of_setField (h : solver.setField (key, value) = .ok next) :
    key ∈ solverKeys := by
  rcases setField_eq_ok_iff.mp h with ⟨rfl, -⟩ | ⟨rfl, -⟩ | ⟨rfl, -⟩ | ⟨rfl, -⟩ <;> decide

theorem decode_failsAs (value : Yaml) : FailsAs SettingsError.IsMalformed (decode value) :=
  Yaml.decodeRecord_failsAs (fun _ _ => .ofField _ _) _ value

/-- The solver's settings are read from what is laid over them exactly if all keys of this are
known. -/
theorem decode_merge_eq_ok_iff (base : SolverSettings) (hdistinct : Yaml.DistinctKeys entries) :
    decode (base.toValue.merge (.map entries)) = .ok next ↔
      (∀ entry ∈ entries, ∃ key ∈ solverKeys, entry.1 = .str key) ∧
        (base.fields.map (Yaml.overlaid entries)).foldlM setField Preset.balanced.solver =
          .ok next :=
  Yaml.decodeRecord_merge (show solverKeys.Nodup by decide) mem_solverKeys_of_setField hdistinct

/-- Setting every field leaves nothing of what was there. -/
theorem foldlM_setField {backend timeoutMs maxNodes intWindow : Yaml}
    (hbackend : backend.SpellsBackend solver.backend)
    (htimeoutMs : timeoutMs.untag = .int solver.timeoutMs.toNat)
    (hmaxNodes : maxNodes.untag = .int solver.maxNodes.toNat)
    (hintWindow : intWindow.untag = .int solver.intWindow.toInt) (start : SolverSettings) :
    [("backend", backend), ("timeout_ms", timeoutMs), ("max_nodes", maxNodes),
      ("int_window", intWindow)].foldlM setField start = .ok solver := by
  have hfirst : ∀ s, setField s ("backend", backend) = .ok { s with backend := solver.backend } :=
    fun _ => setField_eq_ok_iff.mpr (.inl ⟨rfl, _, hbackend, rfl⟩)
  have hsecond : ∀ s, setField s ("timeout_ms", timeoutMs) =
      .ok { s with timeoutMs := solver.timeoutMs } :=
    fun _ => setField_eq_ok_iff.mpr (.inr (.inl ⟨rfl, _, htimeoutMs, rfl⟩))
  have hthird : ∀ s, setField s ("max_nodes", maxNodes) =
      .ok { s with maxNodes := solver.maxNodes } :=
    fun _ => setField_eq_ok_iff.mpr (.inr (.inr (.inl ⟨rfl, _, hmaxNodes, rfl⟩)))
  have hlast : ∀ s, setField s ("int_window", intWindow) =
      .ok { s with intWindow := solver.intWindow } :=
    fun _ => setField_eq_ok_iff.mpr (.inr (.inr (.inr ⟨rfl, _, hintWindow, rfl⟩)))
  simp only [List.foldlM_cons, List.foldlM_nil, hfirst, hsecond, hthird, hlast]
  rfl

/-- A mapping that describes a patch and is laid over settings applies it. -/
theorem decode_merge_of_describedBy {patch : SolverPatch} (hpatch : patch.DescribedBy entries)
    (hdistinct : Yaml.DistinctKeys entries) (base : SolverSettings) :
    decode (base.toValue.merge (.map entries)) = .ok (patch.apply base) := by
  rw [decode_merge_eq_ok_iff base hdistinct]
  exact ⟨hpatch.known, foldlM_setField (hpatch.backend.overlaid hdistinct (.inl rfl) rfl)
    (hpatch.timeoutMs.overlaid hdistinct rfl rfl) (hpatch.maxNodes.overlaid hdistinct rfl rfl)
    (hpatch.intWindow.overlaid hdistinct rfl rfl) _⟩

/-- Settings are read back from their value, which nothing is laid over. -/
theorem decode_toValue (solver : SolverSettings) : decode solver.toValue = .ok solver := by
  have hnothing : SolverPatch.DescribedBy {} [] :=
    ⟨by simp, by simp [Yaml.Mentions], by simp [Yaml.Mentions], by simp [Yaml.Mentions],
      by simp [Yaml.Mentions]⟩
  exact decode_merge_of_describedBy hnothing .nil solver

end SolverSettings

/-! ## The settings -/

namespace Settings

variable {settings next : Settings} {key : String} {value : Yaml} {entries : List (Yaml × Yaml)}

/-- The ways to set a field. -/
theorem setField_eq_ok_iff : settings.setField (key, value) = .ok next ↔
    (key = "solver" ∧ ∃ solver, SolverSettings.decode value = .ok solver ∧
      next = { settings with solver }) ∨
    (key = "max_path_constraints" ∧ ∃ maxPathConstraints, value.SpellsLimit maxPathConstraints ∧
      next = { settings with maxPathConstraints }) ∨
    (key = "trace_branches" ∧ ∃ traceBranches, value.untag = .bool traceBranches ∧
      next = { settings with traceBranches }) ∨
    (key = "parallel_functions" ∧ ∃ parallelFunctions, value.untag = .bool parallelFunctions ∧
      next = { settings with parallelFunctions }) := by
  unfold setField
  dsimp only
  constructor
  · intro h
    split at h
    · obtain ⟨solver, hsolver, rfl⟩ := SettingsError.map_eq_ok_iff.mp h
      exact .inl ⟨rfl, solver, hsolver, rfl⟩
    · obtain ⟨limit, hlimit, rfl⟩ := SettingsError.ofField_map_eq_ok_iff.mp h
      exact .inr (.inl ⟨rfl, limit, Yaml.toLimit?_eq_some_iff.mp hlimit, rfl⟩)
    · obtain ⟨b, hb, rfl⟩ := SettingsError.ofField_map_eq_ok_iff.mp h
      exact .inr (.inr (.inl ⟨rfl, b, Yaml.toBool?_eq_some_iff.mp hb, rfl⟩))
    · obtain ⟨b, hb, rfl⟩ := SettingsError.ofField_map_eq_ok_iff.mp h
      exact .inr (.inr (.inr ⟨rfl, b, Yaml.toBool?_eq_some_iff.mp hb, rfl⟩))
    · cases h
  · rintro (⟨rfl, a, ha, rfl⟩ | ⟨rfl, a, ha, rfl⟩ | ⟨rfl, a, ha, rfl⟩ | ⟨rfl, a, ha, rfl⟩)
    · exact SettingsError.map_eq_ok_iff.mpr ⟨a, ha, rfl⟩
    · exact SettingsError.ofField_map_eq_ok_iff.mpr ⟨a, Yaml.toLimit?_eq_some_iff.mpr ha, rfl⟩
    · exact SettingsError.ofField_map_eq_ok_iff.mpr ⟨a, Yaml.toBool?_eq_some_iff.mpr ha, rfl⟩
    · exact SettingsError.ofField_map_eq_ok_iff.mpr ⟨a, Yaml.toBool?_eq_some_iff.mpr ha, rfl⟩

/-- Only the keys behind version and preset can be set. -/
theorem mem_settingsKeys_of_setField (h : settings.setField (key, value) = .ok next) :
    key ∈ settingsKeys.drop 2 := by
  rcases setField_eq_ok_iff.mp h with ⟨rfl, -⟩ | ⟨rfl, -⟩ | ⟨rfl, -⟩ | ⟨rfl, -⟩ <;> decide

theorem setField_failsAs (settings : Settings) (field : String × Yaml) :
    FailsAs SettingsError.IsMalformed (settings.setField field) := by
  unfold setField
  dsimp only
  split
  · exact (SolverSettings.decode_failsAs _).map _
  · exact .ofField _ _
  · exact .ofField _ _
  · exact .ofField _ _
  · exact .malformed _

theorem decode_failsAs (value : Yaml) : FailsAs SettingsError.IsMalformed (decode value) :=
  Yaml.decodeRecord_failsAs setField_failsAs _ value

theorem mem_overrides {entry : Yaml × Yaml} : entry ∈ overrides entries ↔
    entry ∈ entries ∧ entry.1 ≠ .str "version" ∧ entry.1 ≠ .str "preset" := by
  rw [overrides, Yaml.mem_erase, Yaml.mem_erase, and_assoc]

theorem distinctKeys_overrides (h : Yaml.DistinctKeys entries) :
    Yaml.DistinctKeys (overrides entries) :=
  (h.erase _).erase _

theorem mentions_overrides {α : Type} {spells : Yaml → α → Prop} {given : Option α}
    (h : Yaml.Mentions entries key spells given) (hkey : key ∈ settingsKeys.drop 2) :
    Yaml.Mentions (overrides entries) key spells given := by
  have hversion : key ≠ "version" := by
    rintro rfl
    exact absurd hkey (by decide)
  have hpreset : key ≠ "preset" := by
    rintro rfl
    exact absurd hkey (by decide)
  exact (h.erase hversion).erase hpreset

/-- The keys of a file are known if those behind version and preset are. -/
theorem forall_mem_overrides_iff :
    (∀ entry ∈ overrides entries, ∃ key ∈ settingsKeys.drop 2, entry.1 = .str key) ↔
      ∀ entry ∈ entries, ∃ key ∈ settingsKeys, entry.1 = .str key := by
  have hkeys : settingsKeys = "version" :: "preset" :: settingsKeys.drop 2 := rfl
  constructor
  · intro h entry hentry
    by_cases hversion : entry.1 = .str "version"
    · exact ⟨_, by decide, hversion⟩
    by_cases hpreset : entry.1 = .str "preset"
    · exact ⟨_, by decide, hpreset⟩
    obtain ⟨key, hkey, heq⟩ := h entry (mem_overrides.mpr ⟨hentry, hversion, hpreset⟩)
    exact ⟨key, List.mem_of_mem_drop hkey, heq⟩
  · intro h entry hentry
    obtain ⟨hmem, hversion, hpreset⟩ := mem_overrides.mp hentry
    obtain ⟨key, hkey, heq⟩ := h entry hmem
    rw [hkeys, List.mem_cons, List.mem_cons] at hkey
    rcases hkey with rfl | rfl | hfield
    · exact absurd heq hversion
    · exact absurd heq hpreset
    · exact ⟨key, hfield, heq⟩

/-- Settings are read from a file that is laid over them exactly if all its keys are known. -/
theorem decode_merge_eq_ok_iff (base : Settings) (hdistinct : Yaml.DistinctKeys entries) :
    decode (base.toValue.merge (.map (overrides entries))) = .ok next ↔
      (∀ entry ∈ entries, ∃ key ∈ settingsKeys, entry.1 = .str key) ∧
        (base.fields.map (Yaml.overlaid (overrides entries))).foldlM setField
          Preset.balanced.settings = .ok next := by
  rw [← forall_mem_overrides_iff]
  exact Yaml.decodeRecord_merge (show (settingsKeys.drop 2).Nodup by decide)
    mem_settingsKeys_of_setField (distinctKeys_overrides hdistinct)

/-- Setting every field leaves nothing of what was there. -/
theorem foldlM_setField {solver maxPathConstraints traceBranches parallelFunctions : Yaml}
    (hsolver : SolverSettings.decode solver = .ok settings.solver)
    (hmaxPathConstraints : maxPathConstraints.SpellsLimit settings.maxPathConstraints)
    (htraceBranches : traceBranches.untag = .bool settings.traceBranches)
    (hparallelFunctions : parallelFunctions.untag = .bool settings.parallelFunctions)
    (start : Settings) :
    [("solver", solver), ("max_path_constraints", maxPathConstraints),
      ("trace_branches", traceBranches), ("parallel_functions", parallelFunctions)].foldlM
        setField start = .ok settings := by
  have hfirst : ∀ s, setField s ("solver", solver) = .ok { s with solver := settings.solver } :=
    fun _ => setField_eq_ok_iff.mpr (.inl ⟨rfl, _, hsolver, rfl⟩)
  have hsecond : ∀ s, setField s ("max_path_constraints", maxPathConstraints) =
      .ok { s with maxPathConstraints := settings.maxPathConstraints } :=
    fun _ => setField_eq_ok_iff.mpr (.inr (.inl ⟨rfl, _, hmaxPathConstraints, rfl⟩))
  have hthird : ∀ s, setField s ("trace_branches", traceBranches) =
      .ok { s with traceBranches := settings.traceBranches } :=
    fun _ => setField_eq_ok_iff.mpr (.inr (.inr (.inl ⟨rfl, _, htraceBranches, rfl⟩)))
  have hlast : ∀ s, setField s ("parallel_functions", parallelFunctions) =
      .ok { s with parallelFunctions := settings.parallelFunctions } :=
    fun _ => setField_eq_ok_iff.mpr (.inr (.inr (.inr ⟨rfl, _, hparallelFunctions, rfl⟩)))
  simp only [List.foldlM_cons, List.foldlM_nil, hfirst, hsecond, hthird, hlast]
  rfl

/-- A file that describes a patch and is laid over settings applies it. -/
theorem decode_merge_of_describedBy {patch : Patch} (hpatch : patch.DescribedBy entries)
    (hkeyed : (Yaml.map entries).WellKeyed) (base : Settings) :
    decode (base.toValue.merge (.map (overrides entries))) = .ok (patch.apply base) := by
  have hdistinct := distinctKeys_overrides hkeyed.distinctKeys
  have hsolver : SolverSettings.decode
      (Yaml.overlaid (overrides entries) ("solver", base.solver.toValue)).2 =
        .ok (patch.apply base).solver := by
    have hmentions := mentions_overrides hpatch.solver (by decide)
    unfold Patch.apply
    cases hgiven : patch.solver with
    | none =>
        rw [hgiven] at hmentions
        rw [Yaml.overlaid_of_not_mem hmentions]
        exact base.solver.decode_toValue
    | some solver =>
        rw [hgiven] at hmentions
        obtain ⟨_, hvalue, inner, rfl, hinner⟩ := hmentions
        rw [Yaml.overlaid_of_mem hdistinct hvalue]
        exact SolverSettings.decode_merge_of_describedBy hinner
          (hkeyed.value (mem_overrides.mp hvalue).1).distinctKeys base.solver
  rw [decode_merge_eq_ok_iff base hkeyed.distinctKeys]
  refine ⟨hpatch.known, foldlM_setField hsolver ?_ ?_ ?_ _⟩
  · exact (mentions_overrides hpatch.maxPathConstraints (by decide)).overlaid hdistinct
      (Yaml.spellsLimit_ofLimit _) (Yaml.isScalar_ofLimit _)
  · exact (mentions_overrides hpatch.traceBranches (by decide)).overlaid hdistinct rfl rfl
  · exact (mentions_overrides hpatch.parallelFunctions (by decide)).overlaid hdistinct rfl rfl

/-- A key of the file or of the solver's settings that no field has. -/
def HasUnknownKey (entries : List (Yaml × Yaml)) : Prop :=
  (∃ entry ∈ entries, entry.1.Unknown settingsKeys) ∨
    ∃ inner, (.str "solver", .map inner) ∈ entries ∧ ∃ entry ∈ inner, entry.1.Unknown solverKeys

/-- An unknown key is refused at both levels. -/
theorem decode_merge_ne_ok (h : HasUnknownKey entries) (hkeyed : (Yaml.map entries).WellKeyed)
    (base result : Settings) :
    decode (base.toValue.merge (.map (overrides entries))) ≠ .ok result := by
  rw [Ne, decode_merge_eq_ok_iff base hkeyed.distinctKeys]
  rintro ⟨hknown, hfold⟩
  rcases h with ⟨entry, hentry, hunknown⟩ | ⟨inner, hinner, entry, hentry, hunknown⟩
  · obtain ⟨key, hkey, heq⟩ := hknown entry hentry
    exact hunknown key hkey heq
  · have hvalue : (.str "solver", .map inner) ∈ overrides entries :=
      mem_overrides.mpr ⟨hinner, by simp, by simp⟩
    have hfield : ("solver", base.solver.toValue.merge (.map inner)) ∈
        base.fields.map (Yaml.overlaid (overrides entries)) := by
      rw [← Yaml.overlaid_of_mem (distinctKeys_overrides hkeyed.distinctKeys) hvalue]
      exact List.mem_map_of_mem List.mem_cons_self
    obtain ⟨before, after, hset⟩ := Yaml.exists_step_of_foldlM hfield hfold
    rcases setField_eq_ok_iff.mp hset with ⟨-, solver, hsolver, -⟩ | ⟨hkey, -⟩ | ⟨hkey, -⟩ |
      ⟨hkey, -⟩
    · rw [SolverSettings.decode_merge_eq_ok_iff _ (hkeyed.value hinner).distinctKeys] at hsolver
      obtain ⟨key, hkey, heq⟩ := hsolver.1 entry hentry
      exact hunknown key hkey heq
    all_goals exact absurd hkey (by decide)

end Settings

end BranchWitness
