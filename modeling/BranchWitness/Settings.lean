import BranchWitness.Explore
import BranchWitness.Solver

/-!
# Settings of an analysis

The settings choose the solver, bound its work on one check, and say what to record.  Three
presets give complete settings; a settings file starts from one of them.

The numbers have the widths they have in a settings file.  `Settings.validate` says which of them
make sense.
-/

namespace BranchWitness

/-- Why settings cannot be had. -/
inductive SettingsError where
  | range (field value least greatest hint : String)
  | missingVersion
  | unsupportedVersion (found : Nat)
  | unknownPreset (shown : String)
  | unreadable (reason : String)
  | malformed (detail : String)
  deriving DecidableEq

/-- The version of the settings file. -/
def settingsVersion : Nat := 1

/-- The wording of a failure. -/
def SettingsError.message : SettingsError → String
  | range field value least greatest hint =>
      "Invalid range for field '" ++ field ++ "': " ++ value ++ " not in " ++ least ++ "..="
        ++ greatest ++ ". " ++ hint
  | missingVersion =>
      "Missing 'version' field in configuration file. "
        ++ "Add 'version: 1' to the top of your YAML file."
  | unsupportedVersion found =>
      s!"Unsupported configuration version {found}. Supported versions: {settingsVersion}"
  | unknownPreset shown =>
      "Unknown preset '" ++ shown ++ "'. Valid presets: fast, balanced, thorough"
  | unreadable reason => "IO error: " ++ reason
  | malformed detail => "YAML parsing error: " ++ detail

/-- The solvers that can be chosen. -/
inductive BackendKind where
  | bounded
  | z3
  deriving DecidableEq

/-- The name of a solver. -/
def BackendKind.name : BackendKind → String
  | bounded => "bounded"
  | z3 => "z3"

/-- The settings of the solver. -/
structure SolverSettings where
  /-- The solver to use. -/
  backend : BackendKind
  /-- The time for one check, in milliseconds. -/
  timeoutMs : UInt64
  /-- The number of values that may be tried in one check. -/
  maxNodes : UInt64
  /-- Every integer up to this distance from zero is tried. -/
  intWindow : Int64
  deriving DecidableEq

/-- The settings of an analysis. -/
structure Settings where
  /-- The settings of the solver. -/
  solver : SolverSettings
  /-- The greatest number of tests on a path, if there is one. -/
  maxPathConstraints : Option UInt64
  /-- Whether the stores around conditionals are recorded. -/
  traceBranches : Bool
  /-- Whether the functions of a module may be analysed at the same time.  The reports are the
  same either way. -/
  parallelFunctions : Bool
  deriving DecidableEq

/-! ## Presets -/

/-- Complete settings for common purposes. -/
inductive Preset where
  | fast
  | balanced
  | thorough
  deriving DecidableEq

namespace Preset

/-- The preset with the given name, in upper or lower case. -/
def ofName (name : String) : Except SettingsError Preset :=
  let lower := name.map Char.toLower
  if lower = "fast" then .ok fast
  else if lower = "balanced" then .ok balanced
  else if lower = "thorough" then .ok thorough
  else .error (.unknownPreset name)

/-- The settings of the solver in a preset. -/
def solver : Preset → SolverSettings
  | fast => ⟨.bounded, 200, 10000, 4⟩
  | balanced => ⟨.bounded, 2000, 200000, 8⟩
  | thorough => ⟨.bounded, 30000, 5000000, 32⟩

/-- The settings of a preset. -/
def settings (preset : Preset) : Settings :=
  ⟨preset.solver, none, false, true⟩

end Preset

/-! ## Validation -/

/-- A number between two bounds, or the failure that says it is not. -/
def inRange (field : String) (value least greatest : Int) (hint : String) :
    Except SettingsError Unit :=
  if least ≤ value ∧ value ≤ greatest then .ok ()
  else .error (.range field (toString value) (toString least) (toString greatest) hint)

namespace Settings

/-- Whether the numbers make sense, looked at in the order of the fields. -/
def validate (settings : Settings) : Except SettingsError Unit := do
  inRange "solver.timeout_ms" settings.solver.timeoutMs.toNat 1 600000
    "Each check needs a non-zero budget of at most ten minutes"
  inRange "solver.max_nodes" settings.solver.maxNodes.toNat 1 1000000000
    "The bounded search must be allowed to visit at least one node"
  inRange "solver.int_window" settings.solver.intWindow.toInt 0 1024
    "Large windows slow down every integer search"
  match settings.maxPathConstraints with
  | none => .ok ()
  | some limit =>
      inRange "max_path_constraints" limit.toNat 1 100000 "Omit the field for an unbounded path"

/-! ## Use -/

/-- The limits of one check.  Without time no value is tried; otherwise the time is taken to
suffice, and a check ends by the number of values alone. -/
def limits (settings : Settings) : Solver.Limits :=
  { nodes := if settings.solver.timeoutMs = 0 then 0 else settings.solver.maxNodes.toNat
    width := settings.solver.intWindow.toInt.toNat }

/-- The bounded solver within the limits of the settings. -/
def boundedBackend (settings : Settings) : Backend :=
  fun _ assertions => Solver.check settings.limits assertions

/-- The solver of the settings, if it is there. -/
def backend (settings : Settings) : Except Error Backend :=
  match settings.solver.backend with
  | .bounded => .ok settings.boundedBackend
  | .z3 =>
      .error (.solverUnavailable
        "z3 backend requested but symbex-engine was built without the `z3` feature")

/-- The exploration of a function under the settings, with a given solver. -/
def explore (settings : Settings) (solver : Backend) (function : Function) : Exploration :=
  Exploration.explore solver settings.traceBranches function.body
    ((Exploration.start (settings.maxPathConstraints.map UInt64.toNat)).bindParams function.params)

/-- The report on a function, with a given solver. -/
def analyzeWith (settings : Settings) (solver : Backend) (function : Function) : Report :=
  (settings.explore solver function).report function.name

/-- The report on a function. -/
def analyze (settings : Settings) (function : Function) : Except Error Report :=
  settings.backend.map fun solver => settings.analyzeWith solver function

/-- The reports on the functions of a module, in their order. -/
def analyzeModule (settings : Settings) (program : Module) : Except Error (List Report) :=
  settings.backend.map fun solver => program.functions.map (settings.analyzeWith solver)

end Settings

end BranchWitness
