import BranchWitness.Proofs.Settings.Patches
import BranchWitness.Proofs.Yaml.Scalars

/-!
# Settings files

What is read from a settings file, and from a file that was written.

* The settings read from a file are those of the preset with the patch that the file describes, as
  long as their numbers make sense (`Settings.parse_overlay`).  A key that no field has makes the
  file malformed.
* The text that `Settings.toYaml` writes is a document in block style with a line for every field,
  so its mapping describes a patch that leaves nothing to the preset.  Reading the text therefore
  gives the settings back if their numbers make sense, and if not, the failure of these numbers
  (`Settings.parse_toYaml`).
-/

namespace BranchWitness

/-- The version of the format that the mapping names is the present one. -/
def Yaml.NamesVersion (entries : List (Yaml × Yaml)) : Prop :=
  ∃ value, (.str "version", value) ∈ entries ∧ value.untag = .int settingsVersion

/-- The preset that the mapping names; the balanced one if it names none. -/
def Yaml.NamesPreset (entries : List (Yaml × Yaml)) (preset : Preset) : Prop :=
  ((∀ value, (.str "preset", value) ∉ entries) ∧ preset = .balanced) ∨
    ∃ name, (.str "preset", .str name) ∈ entries ∧ Preset.ofName name = .ok preset

namespace Settings

variable {patch : Patch} {entries : List (Yaml × Yaml)}

/-! ## Files over presets -/

theorem versionOf_eq (hdistinct : Yaml.DistinctKeys entries) (h : Yaml.NamesVersion entries) :
    versionOf entries = .ok settingsVersion := by
  obtain ⟨value, hvalue, huntag⟩ := h
  have hread : value.toUInt64? = some 1 := Yaml.toUInt64?_eq_some_iff.mpr huntag
  simp [versionOf, Yaml.find?_eq_some hdistinct hvalue, hread, settingsVersion]

theorem presetOf_eq (hdistinct : Yaml.DistinctKeys entries) {preset : Preset}
    (h : Yaml.NamesPreset entries preset) : presetOf entries = .ok preset := by
  rcases h with ⟨hnone, rfl⟩ | ⟨name, hname, hpreset⟩
  · simp [presetOf, Yaml.find?_eq_none hnone]
  · simp [presetOf, Yaml.find?_eq_some hdistinct hname, hpreset]

/-- The version and the preset choose the settings that the other entries are laid over. -/
theorem parse_eq {text : String} (hread : Yaml.parse text = some (.map entries))
    (hversion : Yaml.NamesVersion entries) {preset : Preset}
    (hpreset : Yaml.NamesPreset entries preset) :
    parse text = decode (preset.settings.toValue.merge (.map (overrides entries))) >>=
      fun settings => settings.validate >>= fun _ => .ok settings := by
  have hdistinct := (Yaml.wellKeyed_of_parse hread).distinctKeys
  rw [parse, hread]
  simp only [ofYaml, Yaml.untag]
  rw [versionOf_eq hdistinct hversion, presetOf_eq hdistinct hpreset]
  rfl

/-- Only a number that does not make sense keeps settings from being valid. -/
theorem validate_failsAs (settings : Settings) :
    FailsAs SettingsError.IsRange settings.validate := by
  have hrange : ∀ field value least greatest hint,
      FailsAs SettingsError.IsRange (inRange field value least greatest hint) := by
    intro field value least greatest hint
    unfold inRange
    split
    · exact .ok _
    · exact .error ⟨_, _, _, _, _, rfl⟩
  unfold validate
  refine (hrange _ _ _ _ _).bind fun _ => (hrange _ _ _ _ _).bind fun _ =>
    (hrange _ _ _ _ _).bind fun _ => ?_
  split
  · exact .ok _
  · exact hrange _ _ _ _ _

/-- Settings that are looked at last are read if they are valid, and otherwise their failure is. -/
theorem answer_of_validate {text : String} {settings : Settings}
    (h : parse text = settings.validate >>= fun _ => .ok settings) :
    (settings.validate = .ok () → parse text = .ok settings) ∧
    (∀ e, settings.validate = .error e → parse text = .error e ∧ e.IsRange) := by
  rw [h]
  refine ⟨fun hvalid => ?_, fun e he => ⟨?_, validate_failsAs settings e he⟩⟩
  · rw [hvalid]
    rfl
  · rw [he]
    rfl

/-- A file with a mapping that describes a patch gives the settings of the preset with the patch,
if they are valid. -/
theorem parse_of_describedBy {text : String} (hread : Yaml.parse text = some (.map entries))
    (hversion : Yaml.NamesVersion entries) {preset : Preset}
    (hpreset : Yaml.NamesPreset entries preset) (hpatch : patch.DescribedBy entries) :
    parse text = (patch.apply preset.settings).validate >>= fun _ =>
      .ok (patch.apply preset.settings) := by
  rw [parse_eq hread hversion hpreset,
    decode_merge_of_describedBy hpatch (Yaml.wellKeyed_of_parse hread)]
  rfl

/-- **Files are laid over presets.**  In a file that names the present version and a preset, or no
preset, each field that is mentioned has the value in the file, and every other field the value in
the preset, which is the balanced one if none is named.  These settings are what is read if they are
valid, and otherwise the failure is theirs and is one of range.  An unknown key at either level
makes the file malformed, whatever else is in it. -/
theorem parse_overlay {text : String} (hread : Yaml.parse text = some (.map entries))
    (hversion : Yaml.NamesVersion entries) {preset : Preset}
    (hpreset : Yaml.NamesPreset entries preset) :
    (∀ patch : Patch, patch.DescribedBy entries →
      ((patch.apply preset.settings).validate = .ok () →
        parse text = .ok (patch.apply preset.settings)) ∧
      (∀ e, (patch.apply preset.settings).validate = .error e →
        parse text = .error e ∧ e.IsRange)) ∧
    (HasUnknownKey entries → ∃ detail, parse text = .error (.malformed detail)) := by
  refine ⟨fun patch hpatch => ?_, fun hunknown => ?_⟩
  · exact answer_of_validate (parse_of_describedBy hread hversion hpreset hpatch)
  · obtain ⟨e, he, detail, rfl⟩ := (decode_failsAs _).exists_error
      (decode_merge_ne_ok hunknown (Yaml.wellKeyed_of_parse hread) preset.settings)
    refine ⟨detail, ?_⟩
    rw [parse_eq hread hversion hpreset, he]
    rfl

/-- A file over the fast preset, with its entries in no special order. -/
def fastFile : Yaml.Document where
  members :=
    [.single ⟨.ofName "trace_branches" (by decide), .ofBool true⟩,
      .block (.ofName "solver" (by decide)) [⟨.ofName "max_nodes" (by decide), .ofUInt64 7⟩]
        (by decide) (by decide),
      .single ⟨.ofName "preset" (by decide), .ofKey (.ofName "fast" (by decide))⟩,
      .single ⟨.ofName "version" (by decide), .ofUInt64 1⟩]
  ne_nil := by simp
  distinct := by decide

/-- A file with a key that the solver's settings do not have. -/
def seededFile : Yaml.Document where
  members :=
    [.single ⟨.ofName "version" (by decide), .ofUInt64 1⟩,
      .block (.ofName "solver" (by decide)) [⟨.ofName "seed" (by decide), .ofUInt64 3⟩]
        (by decide) (by decide)]
  ne_nil := by simp
  distinct := by decide

theorem entries_fastFile : fastFile.entries =
    [(.str "trace_branches", .bool true), (.str "solver", .map [(.str "max_nodes", .int 7)]),
      (.str "preset", .str "fast"), (.str "version", .int 1)] :=
  rfl

theorem entries_seededFile : seededFile.entries =
    [(.str "version", .int 1), (.str "solver", .map [(.str "seed", .int 3)])] :=
  rfl

theorem describedBy_fastFile :
    Patch.DescribedBy { solver := some { maxNodes := some 7 }, traceBranches := some true }
      fastFile.entries := by
  have hsolver : SolverPatch.DescribedBy { maxNodes := some 7 } [(.str "max_nodes", .int 7)] :=
    { known := by simp [solverKeys]
      backend := by simp [Yaml.Mentions]
      timeoutMs := by simp [Yaml.Mentions]
      maxNodes := ⟨.int 7, by simp, rfl⟩
      intWindow := by simp [Yaml.Mentions] }
  rw [entries_fastFile]
  exact
    { known := by simp [settingsKeys]
      solver := ⟨.map [(.str "max_nodes", .int 7)], by simp, _, rfl, hsolver⟩
      maxPathConstraints := by simp [Yaml.Mentions]
      traceBranches := ⟨.bool true, by simp, rfl⟩
      parallelFunctions := by simp [Yaml.Mentions] }

/-- Two fields over the fast preset, one of them the solver's, and a key that the solver's settings
do not have. -/
theorem parse_overlay_fast :
    parse "trace_branches: true\nsolver:\n  max_nodes: 7\npreset: fast\nversion: 1\n" =
        .ok ⟨⟨.bounded, 200, 7, 4⟩, none, true, true⟩ ∧
      ∃ detail, parse "version: 1\nsolver:\n  seed: 3\n" = .error (.malformed detail) := by
  constructor
  · have hrender : fastFile.render =
        "trace_branches: true\nsolver:\n  max_nodes: 7\npreset: fast\nversion: 1\n".toList := by
      decide
    have hread := fastFile.parse_render
    rw [hrender, String.ofList_toList] at hread
    have hversion : Yaml.NamesVersion fastFile.entries :=
      ⟨.int 1, by simp [entries_fastFile], rfl⟩
    have hname : Preset.ofName "fast" = .ok .fast :=
      if_pos (by rw [← String.toList_inj, String.toList_map]; decide)
    have hpreset : Yaml.NamesPreset fastFile.entries .fast :=
      .inr ⟨"fast", by simp [entries_fastFile], hname⟩
    exact ((parse_overlay hread hversion hpreset).1 _ describedBy_fastFile).1 rfl
  · have hrender : seededFile.render = "version: 1\nsolver:\n  seed: 3\n".toList := by decide
    have hread := seededFile.parse_render
    rw [hrender, String.ofList_toList] at hread
    have hversion : Yaml.NamesVersion seededFile.entries :=
      ⟨.int 1, by simp [entries_seededFile], rfl⟩
    have hpreset : Yaml.NamesPreset seededFile.entries .balanced :=
      .inl ⟨by simp [entries_seededFile], rfl⟩
    have hunknown : HasUnknownKey seededFile.entries :=
      .inr ⟨[(.str "seed", .int 3)], by simp [entries_seededFile], (.str "seed", .int 3), by simp,
        by simp [Yaml.Unknown, solverKeys]⟩
    exact (parse_overlay hread hversion hpreset).2 hunknown

end Settings

/-! ## Files written -/

/-- The solver's name as a word. -/
def BackendKind.leaf : BackendKind → Yaml.Leaf
  | bounded => .ofKey (.ofName "bounded" (by decide))
  | z3 => .ofKey (.ofName "z3" (by decide))

theorem BackendKind.text_leaf (backend : BackendKind) : backend.leaf.text = backend.name := by
  cases backend <;> rfl

theorem BackendKind.value_leaf (backend : BackendKind) :
    backend.leaf.value = .str backend.name := by
  cases backend <;> rfl

/-- The limit on a path as a word; nothing stands for none. -/
def limitLeaf : Option UInt64 → Yaml.Leaf
  | none => .null
  | some limit => .ofUInt64 limit

theorem spellsLimit_limitLeaf (limit : Option UInt64) :
    (limitLeaf limit).value.SpellsLimit limit := by
  cases limit <;> rfl

namespace SolverSettings

variable (solver : SolverSettings)

/-- The lines of the solver's settings. -/
def lines : List Yaml.Line :=
  [⟨.ofName "backend" (by decide), solver.backend.leaf⟩,
    ⟨.ofName "timeout_ms" (by decide), .ofUInt64 solver.timeoutMs⟩,
    ⟨.ofName "max_nodes" (by decide), .ofUInt64 solver.maxNodes⟩,
    ⟨.ofName "int_window" (by decide), .ofInt64 solver.intWindow⟩]

/-- The patch with a value for every field. -/
def patch : SolverPatch where
  backend := some solver.backend
  timeoutMs := some solver.timeoutMs
  maxNodes := some solver.maxNodes
  intWindow := some solver.intWindow

theorem entries_lines : solver.lines.map Yaml.Line.entry =
    [(.str "backend", .str solver.backend.name),
      (.str "timeout_ms", .int solver.timeoutMs.toNat),
      (.str "max_nodes", .int solver.maxNodes.toNat),
      (.str "int_window", .int solver.intWindow.toInt)] := by
  simp [lines, Yaml.Line.entry, BackendKind.value_leaf]

theorem describedBy_lines : solver.patch.DescribedBy (solver.lines.map Yaml.Line.entry) := by
  rw [entries_lines]
  exact
    { known := by simp [solverKeys]
      backend := ⟨.str solver.backend.name, by simp, .inl rfl⟩
      timeoutMs := ⟨.int solver.timeoutMs.toNat, by simp, rfl⟩
      maxNodes := ⟨.int solver.maxNodes.toNat, by simp, rfl⟩
      intWindow := ⟨.int solver.intWindow.toInt, by simp, rfl⟩ }

end SolverSettings

namespace Settings

variable (settings : Settings)

/-- The settings file as a document. -/
def document : Yaml.Document where
  members :=
    [.single ⟨.ofName "version" (by decide), .ofUInt64 1⟩,
      .block (.ofName "solver" (by decide)) settings.solver.lines (by simp [SolverSettings.lines])
        (show solverKeys.Nodup by decide),
      .single ⟨.ofName "max_path_constraints" (by decide), limitLeaf settings.maxPathConstraints⟩,
      .single ⟨.ofName "trace_branches" (by decide), .ofBool settings.traceBranches⟩,
      .single ⟨.ofName "parallel_functions" (by decide), .ofBool settings.parallelFunctions⟩]
  ne_nil := by simp
  distinct := show ["version", "solver", "max_path_constraints", "trace_branches",
    "parallel_functions"].Nodup by decide

/-- The written text is that of the document. -/
theorem toYaml_eq_render : settings.toYaml = String.ofList settings.document.render := by
  rw [← String.toList_inj, String.toList_ofList]
  -- line by line the same characters, once it is known how the limit is written
  cases hlimit : settings.maxPathConstraints <;>
    simp [hlimit, toYaml, yamlLines, settingsVersion, document, SolverSettings.lines,
      Yaml.Document.render, Yaml.Member.render, Yaml.Line.render, limitLeaf, Yaml.Leaf.null,
      BackendKind.text_leaf]

/-- The patch with a value for every field. -/
def patch : Patch where
  solver := some settings.solver.patch
  maxPathConstraints := some settings.maxPathConstraints
  traceBranches := some settings.traceBranches
  parallelFunctions := some settings.parallelFunctions

theorem apply_patch (base : Settings) : settings.patch.apply base = settings := rfl

theorem entries_document : settings.document.entries =
    [(.str "version", .int settingsVersion),
      (.str "solver", .map (settings.solver.lines.map Yaml.Line.entry)),
      (.str "max_path_constraints", (limitLeaf settings.maxPathConstraints).value),
      (.str "trace_branches", .bool settings.traceBranches),
      (.str "parallel_functions", .bool settings.parallelFunctions)] := by
  simp [Yaml.Document.entries, document, Yaml.Member.entry, Yaml.Line.entry, settingsVersion]

theorem describedBy_document : settings.patch.DescribedBy settings.document.entries := by
  rw [entries_document]
  exact
    { known := by simp [settingsKeys]
      solver := ⟨.map (settings.solver.lines.map Yaml.Line.entry), by simp, _, rfl,
        settings.solver.describedBy_lines⟩
      maxPathConstraints := ⟨(limitLeaf settings.maxPathConstraints).value, by simp,
        spellsLimit_limitLeaf settings.maxPathConstraints⟩
      traceBranches := ⟨.bool settings.traceBranches, by simp, rfl⟩
      parallelFunctions := ⟨.bool settings.parallelFunctions, by simp, rfl⟩ }

/-- **Written settings are read back.**  Settings that are valid are read from the text that
describes them; for others the text is refused with their own failure, which is one of range. -/
theorem parse_toYaml :
    (settings.validate = .ok () → parse settings.toYaml = .ok settings) ∧
    (∀ e, settings.validate = .error e → parse settings.toYaml = .error e ∧ e.IsRange) := by
  have hread := settings.document.parse_render
  rw [← toYaml_eq_render] at hread
  have hversion : Yaml.NamesVersion settings.document.entries :=
    ⟨.int settingsVersion, by simp [entries_document], rfl⟩
  have hpreset : Yaml.NamesPreset settings.document.entries .balanced :=
    .inl ⟨by simp [entries_document], rfl⟩
  have hparse := parse_of_describedBy hread hversion hpreset settings.describedBy_document
  rw [apply_patch] at hparse
  exact answer_of_validate hparse

/-- Settings at the edge of what is valid, and a window below it. -/
theorem parse_toYaml_window :
    parse (toYaml ⟨⟨.z3, 1, 600000, 1024⟩, some 5, true, false⟩) =
        .ok ⟨⟨.z3, 1, 600000, 1024⟩, some 5, true, false⟩ ∧
      parse (toYaml ⟨⟨.bounded, 1, 1, -3⟩, none, false, true⟩) =
        .error (.range "solver.int_window" "-3" "0" "1024"
          "Large windows slow down every integer search") :=
  ⟨(parse_toYaml _).1 rfl, ((parse_toYaml _).2 _ rfl).1⟩

end Settings

end BranchWitness
