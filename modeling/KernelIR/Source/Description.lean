import KernelIR.Document.Value

/-!
# Descriptions of source modules

The shape of a document that describes a module: its globals and its kernels, where types,
attributes and instructions are still texts.  Every field may be missing.
-/

namespace KernelIR.Source

open Document (Fault Field Node Reading Tree textField listField recordItem)

/-- A parameter or register as described. -/
structure VariableDescription where
  name : String
  type : String
deriving DecidableEq, Repr

/-- A block as described. -/
structure BlockDescription where
  label : String
  code : List String
deriving DecidableEq, Repr

/-- A kernel as described. -/
structure KernelDescription where
  name : String
  linkage : String
  params : List VariableDescription
  registers : List VariableDescription
  blocks : List BlockDescription
deriving DecidableEq, Repr

/-- A global as described. -/
structure GlobalDescription where
  name : String
  type : String
  linkage : String
  init : List UInt8
deriving DecidableEq, Repr

/-- A module as described. -/
structure Description where
  globals : List GlobalDescription := []
  kernels : List KernelDescription := []
deriving DecidableEq, Repr

/-- Reads a parameter or register. -/
def VariableDescription.ofFields (fs : List Field) : Reading VariableDescription := do
  return { name := ← textField fs "name", type := ← textField fs "type" }

/-- Reads a block. -/
def BlockDescription.ofFields (fs : List Field) : Reading BlockDescription := do
  return { label := ← textField fs "label", code := ← listField Node.asText fs "code" }

/-- Reads a kernel. -/
def KernelDescription.ofFields (fs : List Field) : Reading KernelDescription := do
  return {
    name := ← textField fs "name"
    linkage := ← textField fs "linkage"
    params := ← listField (recordItem VariableDescription.ofFields) fs "params"
    registers := ← listField (recordItem VariableDescription.ofFields) fs "registers"
    blocks := ← listField (recordItem BlockDescription.ofFields) fs "blocks" }

/-- Reads a global. -/
def GlobalDescription.ofFields (fs : List Field) : Reading GlobalDescription := do
  return {
    name := ← textField fs "name"
    type := ← textField fs "type"
    linkage := ← textField fs "attribute"
    init := ← listField Node.asByte fs "init" }

/-- Reads a module. -/
def Description.ofFields (fs : List Field) : Reading Description := do
  return {
    globals := ← listField (recordItem GlobalDescription.ofFields) fs "globals"
    kernels := ← listField (recordItem KernelDescription.ofFields) fs "kernels" }

/-- Reads the description that a text holds.  An empty document describes an empty module. -/
def Description.ofText (text : String) : Except Fault Description :=
  match Tree.ofText? text with
  | none => .error .illFormed
  | some t => (t.read (recordItem Description.ofFields)).map (·.getD {})

end KernelIR.Source
