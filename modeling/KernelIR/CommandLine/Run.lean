import KernelIR.CommandLine.Console
import KernelIR.CommandLine.Request
import KernelIR.Compile
import KernelIR.Container.Listing

/-!
# Running commands

`translate` writes the assembly text of every file, `symbols` lists its symbol table, and `binary`
would write its container.  The files are taken in order; what was written before a failure stays.
-/

namespace KernelIR.CommandLine

open Lowering (Options)

/-! ### Failures -/

/-- Why a file could not be compiled. -/
inductive InputError
  | unreadable (e : FileError)
  | rejected (e : CompileError)
deriving DecidableEq, Repr

/-- The wording of an input error. -/
def InputError.message : InputError → String
  | unreadable e => "read file: " ++ e.message
  | rejected e => e.message

/-- Why a command failed. -/
inductive CommandError
  | usage (e : UsageError)
  | output (e : FileError)
  | input (name : String) (e : InputError)
  | layout (name : String) (e : Container.LayoutError)
  | write (e : Container.WriteError)
deriving DecidableEq, Repr

/-- The wording of a command error. -/
def CommandError.message : CommandError → String
  | usage e => e.message
  | output e => "create output: " ++ e.message
  | input name e => "translate " ++ name ++ ": " ++ e.message
  | layout name e => "symbol table " ++ name ++ ": " ++ e.message
  | write e => "binary output is not supported yet: " ++ e.message

/-- A failure of a command, or of what comes before the command. -/
structure Failure where
  command : Option Command
  error : CommandError
deriving DecidableEq, Repr

/-- The report about a failure. -/
def Failure.message (f : Failure) : String :=
  "error: " ++ (f.command.map fun c => c.name ++ ": ").getD "" ++ f.error.message ++ "\n"

/-! ### Commands -/

section

variable {m : Type → Type} [Monad m]

/-- Reads a file and compiles it. -/
def compileFile (c : Console m) (o : Options) (name : String) :
    m (Except InputError Virtual.Module) := do
  match ← c.read name with
  | .error e => return .error (.unreadable e)
  | .ok text => return (compile o name text).mapError .rejected

/-- Compiles a file for a command. -/
def input (c : Console m) (o : Options) (name : String) : ExceptT CommandError m Virtual.Module :=
  ExceptT.mk do return (← compileFile c o name).mapError (.input name)

/-- Creates the output file of a request, if it asks for one. -/
def createOutput (c : Console m) (r : Request) : ExceptT CommandError m Unit :=
  if r.output = "" then pure ()
  else ExceptT.mk do return (← c.create r.output).mapError .output

/-- Writes the assembly text of every file. -/
def runTranslate (c : Console m) (r : Request) : ExceptT CommandError m Unit := do
  let o : Options := { moduleName := r.moduleName, registerStem := r.registerStem }
  createOutput c r
  r.files.forM fun name => do
    let text := (← input c o name).assembly
    if r.output = "" then c.print text else c.append r.output text

/-- Lists the symbol table of every file. -/
def runSymbols (c : Console m) (r : Request) : ExceptT CommandError m Unit :=
  r.files.forM fun name => do
    let v ← input c {} name
    match Container.SymbolTable.ofModule v with
    | .ok t => c.print (t.listing v.name)
    | .error e => throw (.layout name e)

/-- Writes the container of every file, which is not supported. -/
def runBinary (c : Console m) (r : Request) : ExceptT CommandError m Unit :=
  r.files.forM fun name => do
    let v ← input c {} name
    match Container.write v with
    | .ok _ => pure ()
    | .error e => throw (.write e)

/-- Runs the command of a request.  Without one there is nothing to do. -/
def runRequest (c : Console m) (r : Request) : ExceptT CommandError m Unit :=
  match r.command with
  | some .translate => runTranslate c r
  | some .symbols => runSymbols c r
  | some .binary => runBinary c r
  | none => pure ()

/-- Reads the arguments and runs the command. -/
def run (c : Console m) (args : List String) : m (Except Failure Unit) :=
  match Request.read {} args with
  | .error (command, e) => return .error ⟨command, .usage e⟩
  | .ok r => do return (← ExceptT.run (runRequest c r)).mapError (⟨r.command, ·⟩)

end

end KernelIR.CommandLine
