import BranchWitness.Command

/-!
# The program

Reads the files that the arguments name, runs the command, and prints what it leaves.
-/

namespace BranchWitness

/-- The reason a file cannot be read. -/
def fileFailure (error : IO.Error) : String :=
  match error with
  | .noFileOrDirectory .. => "No such file or directory (os error 2)"
  | error => toString error

/-- The text of a file, or the reason that there is none. -/
def readText (file : String) : IO (Except String String) := do
  try
    return .ok (← IO.FS.readFile file)
  catch error =>
    return .error (fileFailure error)

/-- The files a command reads. -/
def Command.fileNames : Command → List String
  | analyze options => options.tree :: options.config.toList
  | _ => []

end BranchWitness

open BranchWitness in
/-- Run the command that the arguments spell. -/
def main (arguments : List String) : IO UInt32 := do
  let command := Command.ofArguments arguments
  let contents ← command.fileNames.mapM fun file => do return (file, ← readText file)
  let files : Command.Files := fun file =>
    (contents.lookup file).getD (.error "No such file or directory (os error 2)")
  let outcome := command.run files
  IO.print outcome.output
  IO.eprint outcome.failure
  return outcome.exitCode.toUInt32
