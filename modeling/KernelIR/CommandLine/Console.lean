/-!
# Consoles

What a command may do to the outside: read a file, create one, add to it, and print.  The commands
are written against any monad that offers this.
-/

namespace KernelIR.CommandLine

/-- What went wrong with a file. -/
inductive FileCause
  | missing
  | notAFolder
  | isFolder
  | nameTooLong
  | invalidName
  | other (detail : String)
deriving DecidableEq, Repr

/-- The wording of a cause. -/
def FileCause.message : FileCause → String
  | missing => "no such file or directory"
  | notAFolder => "not a directory"
  | isFolder => "is a directory"
  | nameTooLong => "file name too long"
  | invalidName => "invalid argument"
  | other detail => detail

/-- What a file was wanted for. -/
inductive FileAction
  | access
  | read
deriving DecidableEq, Repr

/-- The name of an action. -/
def FileAction.name : FileAction → String
  | access => "open"
  | read => "read"

/-- Why a file could not be used. -/
structure FileError where
  action : FileAction
  name : String
  cause : FileCause
deriving DecidableEq, Repr

/-- The wording of a file error. -/
def FileError.message (e : FileError) : String :=
  e.action.name ++ " " ++ e.name ++ ": " ++ e.cause.message

/-- What a command may do to the outside. -/
structure Console (m : Type → Type) where
  /-- reads the text of a file -/
  read : String → m (Except FileError String)
  /-- makes a file empty, and makes it if it is not there -/
  create : String → m (Except FileError Unit)
  /-- adds to the end of a file -/
  append : (name text : String) → m Unit
  print : String → m Unit

end KernelIR.CommandLine
