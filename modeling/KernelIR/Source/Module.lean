import KernelIR.Source.Graph
import KernelIR.Source.Parser.Line

/-!
# Source modules

A module is a path, its global variables and its kernels.  A kernel is a scope of declarations and a
flow graph.
-/

namespace KernelIR.Source

/-- A global variable. -/
structure Global where
  name : String
  type : DataType
  linkage : Attribute
  /-- the bytes it starts with; none for an uninitialized variable -/
  init : List UInt8 := []
deriving DecidableEq, Repr, Inhabited

/-- A kernel. -/
structure Kernel where
  name : String
  linkage : Attribute
  scope : Scope := {}
  graph : Graph := {}
deriving DecidableEq, Repr, Inhabited

namespace Kernel

/-- Reads an instruction line in the scope of the kernel. -/
def parse (k : Kernel) (line : String) : Except ParseError Instruction × Kernel :=
  let (result, scope) := k.scope.parse line
  (result, { k with scope })

end Kernel

/-- A source module. -/
structure Module where
  path : String
  globals : List Global := []
  kernels : List Kernel := []
deriving DecidableEq, Repr, Inhabited

/-- The place of the first kernel with the given name. -/
def Module.findKernel? (m : Module) (name : String) : Option Nat :=
  m.kernels.findIdx? (·.name = name)

end KernelIR.Source
