import KernelIR.Lowering.Kernel

/-!
# Lowering modules

A module is lowered in one pass, the globals first and then the kernels.  The first fault ends it.
-/

namespace KernelIR.Lowering

/-- Lowers a global.  Its bytes become an array of its type. -/
def lowerGlobal (g : Source.Global) : Except Cause Virtual.Global := do
  let t ← lowerType g.type
  return {
    name := g.name
    type := some t
    linkage := lowerLinkage g.linkage
    init := if g.init.isEmpty then none else some (.array (some t) g.init) }

/-- Lowers the globals of a module. -/
def lowerGlobals (gs : List Source.Global) : Except Fault (List Virtual.Global) :=
  gs.mapM fun g => (lowerGlobal g).mapError fun c => { path := [.global g.name], cause := c }

/-- Lowers the kernels of a module. -/
def lowerKernels (o : Options) (globals : List Virtual.Global) (ks : List Source.Kernel) :
    Except Fault (List Virtual.Function) :=
  ks.mapM fun k => (lowerKernel o globals k).mapError (Fault.within (.kernel k.name))

/-- The name of the result of lowering a module. -/
def Options.resultName (o : Options) (m : Source.Module) : String :=
  if o.moduleName = "" then m.path else o.moduleName

/-- Lowers a module.  Its constants are what the globals start with. -/
def lower (o : Options) (m : Source.Module) : Except Fault Virtual.Module := do
  let globals ← lowerGlobals m.globals
  let functions ← lowerKernels o globals m.kernels
  let constants := (globals.map (·.init)).filter Option.isSome
  return { name := o.resultName m, globals, constants, functions }

end KernelIR.Lowering
