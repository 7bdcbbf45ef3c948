import KernelIR.Lowering.Instruction
import KernelIR.Source.Module
import KernelIR.Source.Sequence

/-!
# Lowering kernels

A kernel becomes a function in two steps.  First it is opened: its parameters, registers and blocks
are declared, the blocks in the order of the executable sequence between an entry and an exit.  Then
the blocks are lowered one after the other.
-/

namespace KernelIR.Lowering

/-- How a module is lowered. -/
structure Options where
  /-- the name of the result; if empty, the path of the source -/
  moduleName : String := ""
  /-- how the names of registers begin; if empty, with `r` -/
  registerStem : String := ""
deriving DecidableEq, Repr, Inhabited

/-- How the names of registers begin. -/
def Options.stem (o : Options) : String :=
  if o.registerStem = "" then "r" else o.registerStem

/-- A kernel whose declarations are lowered: what its instructions may refer to, and the nodes that
become blocks, with the numbers of those. -/
structure Opening where
  scope : Scope
  frame : Frame
  body : List (Nat × Source.Node)
deriving Repr

/-! ### Declarations -/

/-- Lowers the parameters. -/
def lowerParams (ps : List Source.Param) : Except Fault (List Virtual.Argument) :=
  ps.mapM fun p =>
    match lowerType p.type with
    | .ok t => .ok { type := some t, name := p.name }
    | .error c => .error { path := [.param p.name], cause := c }

/-- Lowers a register behind those that are declared already. -/
def lowerRegister (stem : String) (known : List (UInt32 × Virtual.Register)) (r : Source.Register) :
    Except Fault (List (UInt32 × Virtual.Register)) :=
  let name := stem ++ Text.decimal r.id.toNat
  if (known.lookup r.id).isSome then .error { cause := .duplicateRegister name }
  else
    match lowerType r.type with
    | .error c => .error { path := [.register r.name], cause := c }
    | .ok t =>
      let id := known.length
      .ok (known ++ [(r.id, { key := id, id, type := some t, name })])

/-- Lowers the registers. -/
def lowerRegisters (stem : String) (rs : List Source.Register) :
    Except Fault (List (UInt32 × Virtual.Register)) :=
  rs.foldlM (lowerRegister stem) []

/-- Declares a block behind those that are declared already.  Entry and exit have the first two
numbers, and no block may take their names. -/
def declareBlock (known : List (String × Nat)) (label : String) :
    Except Fault (List (String × Nat)) :=
  if label = "entry" ∨ label = "exit" ∨ (known.lookup label).isSome then
    .error { cause := .redeclaredBlock label }
  else .ok (known ++ [(label, known.length + 2)])

/-- The nodes of a graph that become blocks: the executable sequence without its ends. -/
def bodyNodes (g : Source.Graph) : List Source.Node :=
  g.sequence.tail.dropLast

/-- Lowers the declarations of a kernel. -/
def openKernel (o : Options) (globals : List Virtual.Global) (k : Source.Kernel) :
    Except Fault Opening := do
  let arguments ← lowerParams k.scope.params
  let registers ← lowerRegisters o.stem k.scope.registers
  let nodes := bodyNodes k.graph
  let blocks ← (nodes.map k.graph.label).foldlM declareBlock []
  return {
    scope := { stem := o.stem, globals, arguments, registers, blocks }
    frame := { registers := registers.map Prod.snd }
    body := (blocks.map Prod.snd).zip nodes }

/-! ### Blocks -/

/-- Lowers an instruction and says where its faults are. -/
def lowerInstruction (s : Scope) (block : Nat) (i : Source.Instruction) : Lower Virtual.Instr :=
  within (.instruction i.text) (s.instruction block i)

/-- Lowers the block of a node. -/
def lowerBlock (g : Source.Graph) (s : Scope) (block : Nat) (n : Source.Node) :
    Lower Virtual.Block := do
  let code ← within (.block (g.label n)) ((g.code n).mapM (lowerInstruction s block))
  return { id := block, name := g.label n, code }

/-- The function that results from a kernel with the given blocks. -/
def assembleFunction (k : Source.Kernel) (arguments : List Virtual.Argument)
    (registers : List Virtual.Register) (blocks : List Virtual.Block) : Virtual.Function :=
  { name := k.name
    linkage := lowerLinkage k.linkage
    arguments
    registers
    blocks := { id := 0, name := "entry" } :: blocks ++ [{ id := 1, name := "exit" }] }

/-- Lowers a kernel. -/
def lowerKernel (o : Options) (globals : List Virtual.Global) (k : Source.Kernel) :
    Except Fault Virtual.Function := do
  let opening ← openKernel o globals k
  let lowering := opening.body.mapM fun (block, n) => lowerBlock k.graph opening.scope block n
  let (blocks, frame) ← lowering opening.frame
  return assembleFunction k opening.scope.arguments frame.registers blocks

end KernelIR.Lowering
