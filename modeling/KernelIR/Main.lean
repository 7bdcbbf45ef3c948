import KernelIR.CommandLine.Run

/-!
# The command

`translate`, `symbols` and `binary` over the files of the machine.
-/

namespace KernelIR.CommandLine

/-- The code of the machine for a part of a name that should be a folder and is not. -/
def notAFolderCode : UInt32 := 20

/-- What an error of the machine says about a file. -/
def FileCause.ofIO : IO.Error → FileCause
  | .noFileOrDirectory .. => .missing
  | .inappropriateType _ code _ => if code = notAFolderCode then .notAFolder else .isFolder
  | e => .other (toString e)

/-- Runs an action on a file and keeps its error.  A folder is noticed only by `onFolder`. -/
def attempt {α : Type} (onFolder : FileAction) (name : String) (action : IO α) :
    IO (Except FileError α) := do
  try return .ok (← action)
  catch e =>
    let cause := FileCause.ofIO e
    return .error ⟨if cause = .isFolder then onFolder else .access, name, cause⟩

/-- The console of the machine. -/
def machine : Console IO where
  read name := attempt .read name (IO.FS.readFile name)
  create name := attempt .access name (IO.FS.writeFile name "")
  append name text := IO.FS.withFile name .append fun h => h.putStr text
  print := IO.print

end KernelIR.CommandLine

open KernelIR.CommandLine in
/-- Runs the command on its arguments. -/
def main (args : List String) : IO UInt32 := do
  match ← run machine args with
  | .ok _ => return 0
  | .error f =>
    IO.eprint f.message
    return 1
