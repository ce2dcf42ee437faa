import BranchWitness.Settings
import BranchWitness.Yaml.Read

/-!
# Settings files

A settings file is a YAML mapping.  It names the version of its format, may name a preset, and
overrides fields of that preset.  The version is looked at first, then the preset, then the
fields, and last whether the numbers make sense.

The fields are read in three steps: the preset is written as a value (`Settings.toValue`), what the
file says is laid over it (`Yaml.merge`), and the result is read strictly, each field once and none
that is unknown (`Settings.decode`).  Only a mapping without a tag is laid over another.  One with a
tag takes its place, and the fields it leaves out are those of the balanced preset.  Other values
may carry tags, which do not count.

`Settings.toYaml` writes every field, so that reading the text back needs no preset.
-/

namespace BranchWitness

namespace SettingsError

/-- The failure of a field that is unknown or has a value of the wrong kind. -/
def field (key : String) : SettingsError :=
  .malformed ("invalid field " ++ Text.quoted key)

/-- What was made of a field, if its value was of the right kind. -/
def ofField {α : Type} (key : String) : Option α → Except SettingsError α
  | some a => .ok a
  | none => .error (.field key)

end SettingsError

namespace Yaml

/-! ## Mappings -/

/-- The entry of a field. -/
def entryOf (field : String × Yaml) : Yaml × Yaml :=
  (str field.1, field.2)

/-- The mapping with the given fields. -/
def record (fields : List (String × Yaml)) : Yaml :=
  map (fields.map entryOf)

/-- Whether the value is the given text. -/
def isText (text : String) : Yaml → Bool
  | str s => s = text
  | _ => false

/-- The value of a key in a list of entries. -/
def find? (key : String) (entries : List (Yaml × Yaml)) : Option Yaml :=
  (entries.find? fun entry => isText key entry.1).map Prod.snd

/-- The entries under other keys. -/
def erase (key : String) (entries : List (Yaml × Yaml)) : List (Yaml × Yaml) :=
  entries.filter fun entry => !isText key entry.1

/-- Change the entries of a mapping, which may be behind tags. -/
def onEntries (change : List (Yaml × Yaml) → List (Yaml × Yaml)) : Yaml → Yaml
  | tagged tag value => tagged tag (onEntries change value)
  | map entries => map (change entries)
  | value => value

mutual

/-- Lay the second value over the first.  A mapping is laid over a mapping entry by entry; any other
value takes the place of the one below it. -/
def merge : Yaml → Yaml → Yaml
  | map below, map entries => map (mergeEntries below entries)
  | _, value => value

/-- Lay entries over those below.  An entry is laid over the one with its key, and comes behind the
others if there is none. -/
def mergeEntries : List (Yaml × Yaml) → List (Yaml × Yaml) → List (Yaml × Yaml)
  | below, [] => below
  | below, (key, value) :: rest =>
      let laid :=
        if below.any fun entry => same key entry.1 then
          below.map fun entry =>
            if same key entry.1 then (entry.1, merge entry.2 value) else entry
        else below ++ [(key, value)]
      mergeEntries laid rest

end

/-! ## Values of fields -/

/-- A natural number of 64 bits. -/
def toUInt64? (value : Yaml) : Option UInt64 :=
  match value.untag with
  | int n => if 0 ≤ n ∧ n < UInt64.size then some (UInt64.ofNat n.toNat) else none
  | _ => none

/-- An integer of 64 bits. -/
def toInt64? (value : Yaml) : Option Int64 :=
  match value.untag with
  | int n => checked n
  | _ => none

/-- A truth value. -/
def toBool? (value : Yaml) : Option Bool :=
  match value.untag with
  | bool b => some b
  | _ => none

/-- A limit; nothing stands for none. -/
def toLimit? : Yaml → Option (Option UInt64)
  | null => some none
  | value => value.toUInt64?.map some

/-- The limit as a value. -/
def ofLimit : Option UInt64 → Yaml
  | none => null
  | some limit => int limit.toNat

/-! ## Records -/

/-- The field of an entry, if its key is a name.  Tags before the name do not count. -/
def fieldOf? (entry : Yaml × Yaml) : Option (String × Yaml) :=
  match entry.1.untag with
  | str name => some (name, entry.2)
  | _ => none

/-- The fields of a mapping with their values; no field may come twice. -/
def fields (entries : List (Yaml × Yaml)) : Except SettingsError (List (String × Yaml)) :=
  match entries.mapM fieldOf? with
  | none => .error (.malformed "a key is not a name")
  | some fields =>
      if (fields.map Prod.fst).Nodup then .ok fields else .error (.malformed "duplicate field")

/-- Read the fields of a mapping in turn.  A field that is not there stays as it is in the default;
nothing stands for a mapping without fields. -/
def decodeRecord {α : Type} (setField : α → String × Yaml → Except SettingsError α) (default : α)
    (value : Yaml) : Except SettingsError α :=
  match value.untag with
  | map entries => do
      let given ← fields entries
      given.foldlM setField default
  | null => .ok default
  | _ => .error (.malformed "not a mapping")

end Yaml

/-- The solver with the given name. -/
def BackendKind.ofName? (name : String) : Option BackendKind :=
  if name = BackendKind.bounded.name then some .bounded
  else if name = BackendKind.z3.name then some .z3
  else none

/-- The solver that a text names, or the tag of a value that is nothing. -/
def BackendKind.ofYaml? : Yaml → Option BackendKind
  | .str name => ofName? name
  | .tagged tag value =>
      match value.untag with
      | .null => ofName? tag
      | _ => none
  | _ => none

/-! ## Settings as values -/

namespace SolverSettings

/-- The fields of the solver's settings with their values. -/
def fields (solver : SolverSettings) : List (String × Yaml) :=
  [("backend", .str solver.backend.name), ("timeout_ms", .int solver.timeoutMs.toNat),
    ("max_nodes", .int solver.maxNodes.toNat), ("int_window", .int solver.intWindow.toInt)]

/-- The solver's settings as a value. -/
def toValue (solver : SolverSettings) : Yaml :=
  .record solver.fields

/-- Set one field of the solver's settings. -/
def setField (solver : SolverSettings) (field : String × Yaml) :
    Except SettingsError SolverSettings :=
  let (key, value) := field
  SettingsError.ofField key <| match key with
    | "backend" => (BackendKind.ofYaml? value).map fun backend => { solver with backend }
    | "timeout_ms" => value.toUInt64?.map fun timeoutMs => { solver with timeoutMs }
    | "max_nodes" => value.toUInt64?.map fun maxNodes => { solver with maxNodes }
    | "int_window" => value.toInt64?.map fun intWindow => { solver with intWindow }
    | _ => none

/-- The solver's settings that a value describes. -/
def decode (value : Yaml) : Except SettingsError SolverSettings :=
  value.decodeRecord setField Preset.balanced.solver

end SolverSettings

namespace Settings

/-- The fields of the settings with their values. -/
def fields (settings : Settings) : List (String × Yaml) :=
  [("solver", settings.solver.toValue),
    ("max_path_constraints", .ofLimit settings.maxPathConstraints),
    ("trace_branches", .bool settings.traceBranches),
    ("parallel_functions", .bool settings.parallelFunctions)]

/-- The settings as a value. -/
def toValue (settings : Settings) : Yaml :=
  .record settings.fields

/-- Set one field. -/
def setField (settings : Settings) (field : String × Yaml) : Except SettingsError Settings :=
  let (key, value) := field
  match key with
  | "solver" => (SolverSettings.decode value).map fun solver => { settings with solver }
  | "max_path_constraints" =>
      SettingsError.ofField key (value.toLimit?.map fun maxPathConstraints =>
        { settings with maxPathConstraints })
  | "trace_branches" =>
      SettingsError.ofField key (value.toBool?.map fun traceBranches =>
        { settings with traceBranches })
  | "parallel_functions" =>
      SettingsError.ofField key (value.toBool?.map fun parallelFunctions =>
        { settings with parallelFunctions })
  | _ => .error (.field key)

/-- The settings that a value describes. -/
def decode (value : Yaml) : Except SettingsError Settings :=
  value.decodeRecord setField Preset.balanced.settings

/-! ## Reading -/

/-- The version a file names; one beyond 32 bits counts as the greatest. -/
def versionOf (entries : List (Yaml × Yaml)) : Except SettingsError Nat :=
  match (Yaml.find? "version" entries).bind Yaml.toUInt64? with
  | some version => .ok (min version.toNat 4294967295)
  | none => .error .missingVersion

/-- The preset a file names; the balanced one if it names none. -/
def presetOf (entries : List (Yaml × Yaml)) : Except SettingsError Preset :=
  match Yaml.find? "preset" entries with
  | some (.str name) => Preset.ofName name
  | some other => .error (.unknownPreset other.describe)
  | none => .ok .balanced

/-- The entries of a file apart from version and preset. -/
def overrides (entries : List (Yaml × Yaml)) : List (Yaml × Yaml) :=
  Yaml.erase "preset" (Yaml.erase "version" entries)

/-- The settings that a document describes. -/
def ofYaml (document : Yaml) : Except SettingsError Settings :=
  match document.untag with
  | .map entries => do
      let version ← versionOf entries
      if version ≠ settingsVersion then .error (.unsupportedVersion version)
      else do
        let preset ← presetOf entries
        let settings ← decode (preset.settings.toValue.merge (document.onEntries overrides))
        settings.validate
        .ok settings
  | _ => .error .missingVersion

/-- The settings that the text of a settings file describes. -/
def parse (text : String) : Except SettingsError Settings :=
  match Yaml.parse text with
  | some document => ofYaml document
  | none => .error (.malformed "invalid document")

/-! ## Writing -/

/-- The lines of the settings file that describes the settings. -/
def yamlLines (settings : Settings) : List String :=
  let shown (b : Bool) : String := if b then "true" else "false"
  let limit := match settings.maxPathConstraints with
    | none => "null"
    | some limit => toString limit.toNat
  ["version: " ++ toString settingsVersion,
    "solver:",
    "  backend: " ++ settings.solver.backend.name,
    "  timeout_ms: " ++ toString settings.solver.timeoutMs.toNat,
    "  max_nodes: " ++ toString settings.solver.maxNodes.toNat,
    "  int_window: " ++ toString settings.solver.intWindow.toInt,
    "max_path_constraints: " ++ limit,
    "trace_branches: " ++ shown settings.traceBranches,
    "parallel_functions: " ++ shown settings.parallelFunctions]

/-- The settings file that describes the settings. -/
def toYaml (settings : Settings) : String :=
  String.join (settings.yamlLines.map fun line => line ++ "\n")

end Settings

end BranchWitness
