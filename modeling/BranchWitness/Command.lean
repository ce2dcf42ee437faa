import BranchWitness.Program.Json
import BranchWitness.Report.Json
import BranchWitness.Settings.Yaml

/-!
# The command line

A command is run on the texts of the files it names, and gives an exit code and what to print.
Which files there are to read is said by a function from names to texts, so that a run is a
function of its arguments alone.

The settings are loaded before the program is read, and the program is read before the solver is
chosen.  Arguments or a program that cannot be read end with exit code 2, any other failure
with 1.
-/

namespace BranchWitness

/-- The forms of the output of an analysis. -/
inductive Format where
  | text
  | json
  deriving DecidableEq

/-- The form with the given name. -/
def Format.ofName? (name : String) : Option Format :=
  if name = "text" then some .text else if name = "json" then some .json else none

/-- What an analysis is asked to do. -/
structure AnalyzeOptions where
  /-- The file that holds the program. -/
  tree : String
  /-- The settings file, which takes precedence over the preset. -/
  config : Option String := none
  /-- The name of the preset. -/
  preset : String := "balanced"
  /-- The only function to analyse. -/
  function : Option String := none
  /-- The form of the output. -/
  format : Format := .text

/-- What the program can be asked to do. -/
inductive Command where
  | analyze (options : AnalyzeOptions)
  | config (preset : String)
  | usage

/-- What a run leaves. -/
structure Outcome where
  /-- The exit code. -/
  exitCode : UInt8
  /-- What is printed as output. -/
  output : String
  /-- What is printed as the failure. -/
  failure : String

/-- Why a command fails. -/
inductive CommandError where
  | settings (error : SettingsError)
  | settingsFile (file : String) (error : SettingsError)
  | program (file : String) (reason : String)
  | noFunction (name file : String)
  | analysis (error : Error)
  | badArguments

namespace CommandError

/-- The wording of a failure.  A settings file that cannot be read gives its reason twice: once
in the failure and once as what caused it. -/
def message : CommandError → String
  | settings error => error.message
  | settingsFile file error =>
      let cause := match error with
        | .unreadable reason => ": " ++ reason
        | _ => ""
      "loading config " ++ file ++ ": " ++ error.message ++ cause
  | program file reason => "reading " ++ file ++ ": " ++ reason
  | noFunction name file => "no function named '" ++ name ++ "' in " ++ file
  | analysis error => error.message
  | badArguments => "invalid arguments"

/-- The exit code of a failure. -/
def exitCode : CommandError → UInt8
  | badArguments => 2
  | analysis (.parseFailure _) => 2
  | _ => 1

/-- What a failed run leaves. -/
def outcome (error : CommandError) : Outcome :=
  ⟨error.exitCode, "", "error: " ++ error.message ++ "\n"⟩

end CommandError

/-- The lines that show a report. -/
def Report.lines (report : Report) : List String :=
  report.summary :: report.testCases.map (fun test => "  test   " ++ test.render)
    ++ report.violations.map (fun violation => "  unsat  " ++ violation.render)
    ++ report.diagnostics.map (fun diagnostic => "  diag   " ++ diagnostic.render)

/-- The output of an analysis. -/
def Format.render (reports : List Report) : Format → String
  | text => String.join ((reports.flatMap Report.lines).map fun line => line ++ "\n")
  | json => (Json.array (reports.map Report.toJson)).pretty ++ "\n"

namespace Command

/-- How files are read: the text of a file, or the reason that there is none. -/
abbrev Files := String → Except String String

/-- The settings an analysis runs under. -/
def loadSettings (files : Files) (options : AnalyzeOptions) : Except CommandError Settings :=
  match options.config with
  | none => ((Preset.ofName options.preset).map Preset.settings).mapError .settings
  | some file =>
      match files file with
      | .error reason => .error (.settingsFile file (.unreadable reason))
      | .ok text => (Settings.parse text).mapError (.settingsFile file)

/-- The program to analyse, cut down to the one function if one is named. -/
def loadProgram (files : Files) (options : AnalyzeOptions) : Except CommandError Module := do
  let text ← (files options.tree).mapError (.program options.tree)
  let program ← (Module.load text).mapError .analysis
  match options.function with
  | none => .ok program
  | some name =>
      let functions := program.functions.filter fun function => function.name = name
      if functions.isEmpty then .error (.noFunction name options.tree) else .ok ⟨functions⟩

/-- The output of an analysis, or why there is none. -/
def analyzeFiles (files : Files) (options : AnalyzeOptions) : Except CommandError String := do
  let settings ← loadSettings files options
  let program ← loadProgram files options
  let reports ← (settings.analyzeModule program).mapError .analysis
  .ok (options.format.render reports)

/-- The output of a command, or why there is none. -/
def output (files : Files) : Command → Except CommandError String
  | analyze options => analyzeFiles files options
  | config preset =>
      ((Preset.ofName preset).map fun preset => preset.settings.toYaml).mapError .settings
  | usage => .error .badArguments

/-- Run a command. -/
def run (files : Files) (command : Command) : Outcome :=
  match command.output files with
  | .ok output => ⟨0, output, ""⟩
  | .error error => error.outcome

/-! ## Arguments -/

/-- Split an option from a value that is joined to it by an equals sign. -/
def splitOption (argument : String) : String × Option String :=
  let name := argument.toList.takeWhile (· ≠ '=')
  match argument.toList.dropWhile (· ≠ '=') with
  | _ :: value => (String.ofList name, some (String.ofList value))
  | [] => (argument, none)

/-- Whether an argument only raises the verbosity. -/
def isVerbosity (argument : String) : Bool :=
  argument = "--verbose"
    || (argument.length ≥ 2 && argument.toList.head? = some '-'
      && (argument.toList.drop 1).all (· = 'v'))

/-- The options of an analysis, read from the arguments one after the other; `tree` is the file
seen so far. -/
def analyzeOptions? (tree : Option String) (options : AnalyzeOptions) :
    List String → Option AnalyzeOptions
  | [] => tree.map fun tree => { options with tree }
  | argument :: rest =>
      if isVerbosity argument then analyzeOptions? tree options rest
      else
        let set (name : String) (value : String) : Option AnalyzeOptions :=
          match name with
          | "--config" | "-c" => some { options with config := some value }
          | "--preset" | "-p" => some { options with preset := value }
          | "--function" | "-f" => some { options with function := some value }
          | "--format" => (Format.ofName? value).map fun format => { options with format }
          | _ => none
        match splitOption argument, rest with
        | (name, some value), rest =>
            if name.toList.head? = some '-' then
              (set name value).bind fun options => analyzeOptions? tree options rest
            else none
        | (name, none), [] =>
            if name.toList.head? = some '-' ∨ tree.isSome then none
            else some { options with tree := name }
        | (name, none), value :: rest =>
            if name.toList.head? = some '-' then
              (set name value).bind fun options => analyzeOptions? tree options rest
            else if tree.isSome then none
            else analyzeOptions? (some name) options (value :: rest)

/-- The preset among the arguments of the settings command. -/
def configPreset? (preset : String) : List String → Option String
  | [] => some preset
  | argument :: rest =>
      if isVerbosity argument then configPreset? preset rest
      else
        match splitOption argument, rest with
        | ("--preset", some value), rest => configPreset? value rest
        | ("--preset", none), value :: rest => configPreset? value rest
        | ("-p", none), value :: rest => configPreset? value rest
        | _, _ => none

/-- The command that the arguments spell. -/
def ofArguments (arguments : List String) : Command :=
  match arguments.dropWhile isVerbosity with
  | "analyze" :: rest =>
      match analyzeOptions? none { tree := "" } rest with
      | some options => analyze options
      | none => usage
  | "config" :: rest =>
      match configPreset? "balanced" rest with
      | some preset => config preset
      | none => usage
  | _ => usage

end Command

end BranchWitness
