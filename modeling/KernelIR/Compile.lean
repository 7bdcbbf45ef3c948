import KernelIR.Lowering.Module
import KernelIR.Source.Load
import KernelIR.Virtual.Assembly

/-!
# From a description to a virtual module

A text is loaded as a source module, which is lowered.
-/

namespace KernelIR

/-- Why a text could not be compiled. -/
inductive CompileError
  | load (e : Source.LoadError)
  | lower (f : Lowering.Fault)
deriving DecidableEq, Repr

/-- The report about a text that could not be compiled. -/
def CompileError.message : CompileError → String
  | load e => "load: " ++ e.message
  | lower f => "translate: " ++ f.message

/-- Compiles the module that a text describes. -/
def compile (o : Lowering.Options) (path text : String) : Except CompileError Virtual.Module := do
  let m ← (Source.Module.load path text).mapError .load
  (Lowering.lower o m).mapError .lower

/-- Compiles the module that a text describes and writes it out. -/
def assemble (o : Lowering.Options) (path text : String) : Except CompileError String :=
  (compile o path text).map Virtual.Module.assembly

end KernelIR
