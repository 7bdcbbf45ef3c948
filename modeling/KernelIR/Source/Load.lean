import KernelIR.Source.Description
import KernelIR.Source.Module

/-!
# Loading a source module

A described module is loaded in order: first its globals, then its kernels, and of every kernel its
linkage, parameters, registers and blocks.  The first flaw ends the loading.  A loaded kernel is
linked.
-/

namespace KernelIR.Source

/-! ### Flaws -/

/-- What is wrong with a described global. -/
inductive GlobalError
  | unknownType (text : String)
  | unknownAttribute (text : String)
deriving DecidableEq, Repr

/-- The wording of a global's flaw. -/
def GlobalError.message : GlobalError → String
  | unknownType s => "unknown type: " ++ Text.quote s.toList
  | unknownAttribute s => "unknown attribute: " ++ Text.quote s.toList

/-- What is wrong with a described kernel. -/
inductive KernelError
  | unknownLinkage (text : String)
  | paramType (name text : String)
  | registerType (name text : String)
  | line (label : String) (e : ParseError)
deriving DecidableEq, Repr

/-- The wording of a kernel's flaw. -/
def KernelError.message : KernelError → String
  | unknownLinkage s => "unknown linkage: " ++ Text.quote s.toList
  | paramType name s => "param " ++ name ++ ": unknown type: " ++ Text.quote s.toList
  | registerType name s => "register " ++ name ++ ": unknown type: " ++ Text.quote s.toList
  | line label e => "block " ++ label ++ ": " ++ e.message

/-- Why a module could not be loaded. -/
inductive LoadError
  | document (path : String) (fault : Document.Fault)
  | global (name : String) (e : GlobalError)
  | kernel (name : String) (e : KernelError)
deriving DecidableEq, Repr

/-- The report about a module that could not be loaded. -/
def LoadError.message : LoadError → String
  | document path fault => "decode " ++ path ++ ": " ++ fault.message
  | global name e => "global " ++ name ++ ": " ++ e.message
  | kernel name e => "kernel " ++ name ++ ": " ++ e.message

/-! ### Globals -/

/-- Loads a global. -/
def GlobalDescription.load (d : GlobalDescription) : Except GlobalError Global :=
  match DataType.ofName? d.type with
  | none => .error (.unknownType d.type)
  | some type =>
    match Attribute.ofName? d.linkage with
    | none => .error (.unknownAttribute d.linkage)
    | some linkage => .ok { name := d.name, type, linkage, init := d.init }

/-! ### Kernels -/

/-- Declares a parameter. -/
def Kernel.loadParam (k : Kernel) (d : VariableDescription) : Except KernelError Kernel :=
  match DataType.ofName? d.type with
  | none => .error (.paramType d.name d.type)
  | some type => .ok { k with scope := k.scope.addParam d.name type }

/-- Declares a register. -/
def Kernel.loadRegister (k : Kernel) (d : VariableDescription) : Except KernelError Kernel :=
  match DataType.ofName? d.type with
  | none => .error (.registerType d.name d.type)
  | some type => .ok { k with scope := k.scope.addRegister d.name type }

/-- Reads a line and appends its instruction to a block. -/
def Kernel.loadLine (index : Nat) (k : Kernel) (line : String) : Except KernelError Kernel :=
  match k.parse line with
  | (.error e, _) => .error (.line (k.graph.label (.block index)) e)
  | (.ok i, k) => .ok { k with graph := k.graph.addInstruction index i }

/-- Adds a block and reads its lines. -/
def Kernel.loadBlock (k : Kernel) (d : BlockDescription) : Except KernelError Kernel :=
  let index := k.graph.blocks.length
  d.code.foldlM (Kernel.loadLine index) { k with graph := k.graph.addBlock d.label }

/-- Loads a kernel. -/
def KernelDescription.load (d : KernelDescription) : Except KernelError Kernel := do
  let some linkage := Attribute.ofName? d.linkage | .error (.unknownLinkage d.linkage)
  let k : Kernel := { name := d.name, linkage }
  let k ← d.params.foldlM Kernel.loadParam k
  let k ← d.registers.foldlM Kernel.loadRegister k
  let k ← d.blocks.foldlM Kernel.loadBlock k
  return { k with graph := k.graph.link }

/-! ### Modules -/

/-- Loads the globals and kernels of a description. -/
def Description.load (d : Description) (path : String) : Except LoadError Module := do
  let globals ← d.globals.mapM fun g => g.load.mapError (.global g.name)
  let kernels ← d.kernels.mapM fun k => k.load.mapError (.kernel k.name)
  return { path, globals, kernels }

/-- Loads the module that a text describes. -/
def Module.load (path text : String) : Except LoadError Module := do
  let d ← (Description.ofText text).mapError (.document path)
  d.load path

end KernelIR.Source
