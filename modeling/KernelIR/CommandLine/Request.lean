import KernelIR.Text.Joined

/-!
# Requests on the command line

The arguments name a command, its flags and its files.  A flag starts with one dash or two; its
value follows behind `=` or a space, or as the next argument.  Behind `--`, which needs a command
before it, there are only files.
-/

namespace KernelIR.CommandLine

/-- What is asked for. -/
inductive Command
  | translate
  | symbols
  | binary
deriving DecidableEq, Repr

/-- The name of a command. -/
def Command.name : Command → String
  | translate => "translate"
  | symbols => "symbols"
  | binary => "binary"

/-- The command with the given name. -/
def Command.ofName? (s : String) : Option Command :=
  [translate, symbols, binary].find? (·.name = s)

/-- A command with its flags and files. -/
structure Request where
  command : Option Command := none
  topics : String := ""
  output : String := ""
  moduleName : String := ""
  registerStem : String := ""
  files : List String := []
deriving DecidableEq, Repr

/-- What is wrong with the arguments. -/
inductive UsageError
  | noSuchFlag (arg : String)
  | valueMissing (arg : String)
  | unexpectedArgument (arg : String)
deriving DecidableEq, Repr

/-- The wording of a usage error. -/
def UsageError.message : UsageError → String
  | noSuchFlag arg => "parse flag: " ++ arg ++ ": no such flag"
  | valueMissing arg => "parse flag: " ++ arg ++ ": flag value is required"
  | unexpectedArgument arg => "no args expected, got " ++ arg

/-! ### Flags -/

/-- Whether an argument is a flag. -/
def isFlag (arg : String) : Bool :=
  arg.toList.head? = some '-' ∧ arg ≠ "-" ∧ arg ≠ "--"

/-- The name of a flag, and its value if one is attached. -/
def splitFlag (arg : String) : String × Option String :=
  let cs := arg.toList.drop 1
  let cs := if cs.head? = some '-' then cs.drop 1 else cs
  let isPart (c : Char) : Bool := c != '=' && c != ' '
  let name := String.ofList (cs.takeWhile isPart)
  match cs.dropWhile isPart with
  | _ :: value => (name, some (String.ofList value))
  | [] => (name, none)

namespace Request

/-- How a flag with the given name is set; there is none for a name that the command does not
know. -/
def setter? (r : Request) (name : String) : Option (String → Request) :=
  if name = "verbose" ∨ name = "v" then some fun v => { r with topics := v }
  else if r.command ≠ some .translate then none
  else if name = "output" ∨ name = "o" then some fun v => { r with output := v }
  else if name = "name" then some fun v => { r with moduleName := v }
  else if name = "regprefix" then some fun v => { r with registerStem := v }
  else none

/-- Reads an argument that is no flag: first the command, then files. -/
def addWord (r : Request) (arg : String) : Except UsageError Request :=
  match r.command with
  | some _ => .ok { r with files := r.files ++ [arg] }
  | none =>
    match Command.ofName? arg with
    | some c => .ok { r with command := some c }
    | none => .error (.unexpectedArgument arg)

/-- Reads arguments one after the other.  A request that fails is given as far as it was read. -/
def read (r : Request) : List String → Except (Option Command × UsageError) Request
  | [] => .ok r
  | arg :: rest =>
    if arg = "--" ∧ r.command.isSome then .ok { r with files := r.files ++ rest }
    else if isFlag arg then
      let (name, value) := splitFlag arg
      match r.setter? name with
      | none => .error (r.command, .noSuchFlag arg)
      | some set =>
        match value with
        | some v => read (set v) rest
        | none =>
          match rest with
          | v :: rest => read (set v) rest
          | [] => .error (r.command, .valueMissing arg)
    else
      match r.addWord arg with
      | .ok r => read r rest
      | .error e => .error (r.command, e)

end Request

end KernelIR.CommandLine
