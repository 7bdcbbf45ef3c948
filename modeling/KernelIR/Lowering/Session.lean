import KernelIR.Lowering.Module

/-!
# Sessions

A session lowers modules one after the other.  It builds the module and the function at hand piece
by piece, and keeps tables of what the instructions of a kernel may refer to.  The tables are
emptied before every kernel and at the end of every module, also where a fault ends it.
-/

namespace KernelIR.Lowering

open Virtual (Register)

/-- A session of lowering. -/
structure Session where
  options : Options := {}
  /-- the module at hand -/
  result : Virtual.Module := { name := "" }
  /-- the function at hand -/
  function : Virtual.Function := { name := "", linkage := .hidden }
  /-- the number of the block at hand -/
  block : Nat := 0
  /-- the declared registers by their source numbers -/
  registers : List (UInt32 × Register) := []
  /-- the registers that stand for special registers, by `specialKey` -/
  specials : List (UInt32 × Register) := []
  /-- the numbers of the blocks by their labels -/
  blocks : List (String × Nat) := []
  nextInstr : Nat := 0
deriving Repr

/-- Work in a session.  What it has done stays done where it fails. -/
abbrev Work := EStateM Fault Session

namespace Session

/-- What the instructions of the kernel at hand may refer to. -/
def scope (s : Session) : Scope :=
  { stem := s.options.stem
    globals := s.result.globals
    arguments := s.function.arguments
    registers := s.registers
    blocks := s.blocks }

/-- What grows in the function at hand. -/
def frame (s : Session) : Frame :=
  { registers := s.function.registers, specials := s.specials, nextInstr := s.nextInstr }

/-- Puts back what has grown. -/
def setFrame (s : Session) (fr : Frame) : Session :=
  { s with
    function := { s.function with registers := fr.registers }
    specials := fr.specials
    nextInstr := fr.nextInstr }

/-- Forgets the kernel at hand. -/
def clear (s : Session) : Session :=
  { options := s.options, result := s.result }

/-- Forgets the module at hand. -/
def close (s : Session) : Session :=
  { options := s.options }

end Session

/-- Takes a step of lowering in the function at hand. -/
def step {α : Type} (m : Session → Lower α) : Work α := fun s =>
  match m s s.frame with
  | .ok (a, fr) => .ok a (s.setFrame fr)
  | .error e => .error e s

/-- Says where the faults of some work are. -/
def located {α : Type} (p : Place) (w : Work α) : Work α :=
  w.adaptExcept (Fault.within p)

/-! ### Declarations -/

/-- Adds a global to the module. -/
def addGlobal (g : Source.Global) : Work Unit := do
  let v ← ofExcept ((lowerGlobal g).mapError fun c => { path := [.global g.name], cause := c })
  modify fun s => { s with
    result := { s.result with
      globals := s.result.globals ++ [v]
      constants := s.result.constants ++ [v.init].filter Option.isSome } }

/-- Adds a parameter to the function. -/
def addParam (p : Source.Param) : Work Unit := do
  let t ← ofExcept ((lowerType p.type).mapError fun c => { path := [.param p.name], cause := c })
  modify fun s => { s with
    function := { s.function with
      arguments := s.function.arguments ++ [{ type := some t, name := p.name }] } }

/-- Adds a register to the function, under its number. -/
def addRegister (r : Source.Register) : Work Unit := do
  let s ← get
  let name := s.options.stem ++ Text.decimal r.id.toNat
  if (s.registers.lookup r.id).isSome then throw { cause := .duplicateRegister name }
  else
    let t ← ofExcept ((lowerType r.type).mapError fun c =>
      { path := [.register r.name], cause := c })
    let x ← step fun _ => newRegister t name
    modify fun s => { s with registers := s.registers ++ [(r.id, x)] }

/-- Adds an empty block to the function, in front of its exit. -/
def addBlock (label : String) : Work Unit := do
  let s ← get
  let bs := s.function.blocks
  let b : Virtual.Block := { id := bs.length, name := label }
  if bs.any (·.name = label) then throw { cause := .redeclaredBlock label }
  else
    set { s with
      function := { s.function with blocks := bs.dropLast ++ b :: bs.getLast?.toList }
      blocks := s.blocks ++ [(label, b.id)] }

/-! ### Instructions -/

/-- Adds an instruction to the block at hand. -/
def addInstruction (i : Source.Instruction) : Work Unit := do
  let x ← step fun s => lowerInstruction s.scope s.block i
  modify fun s => { s with
    function := { s.function with
      blocks := s.function.blocks.map fun b =>
        if b.id = s.block then { b with code := b.code ++ [x] } else b } }

/-- Adds the instructions of a node to its block. -/
def fillBlock (g : Source.Graph) (n : Source.Node) : Work Unit := do
  modify fun s => { s with block := (s.blocks.lookup (g.label n)).getD 0 }
  located (.block (g.label n)) ((g.code n).forM addInstruction)

/-! ### Modules -/

/-- Adds the function of a kernel to the module. -/
def addKernel (k : Source.Kernel) : Work Unit :=
  located (.kernel k.name) do
    modify fun s => { s.clear with function := assembleFunction k [] [] [] }
    k.scope.params.forM addParam
    k.scope.registers.forM addRegister
    (bodyNodes k.graph).forM fun n => addBlock (k.graph.label n)
    (bodyNodes k.graph).forM (fillBlock k.graph)
    modify fun s => { s with
      result := { s.result with functions := s.result.functions ++ [s.function] } }

/-- Builds the image of a module. -/
def buildModule (m : Source.Module) : Work Virtual.Module := do
  modify fun s => { s with result := { name := s.options.resultName m } }
  m.globals.forM addGlobal
  m.kernels.forM addKernel
  return (← get).result

/-- Lowers a module and forgets it. -/
def lowerNext (m : Source.Module) : Work Virtual.Module :=
  try buildModule m finally modify Session.close

namespace Session

/-- Lowers a module in a session: the outcome, and the session that goes on. -/
def lower (s : Session) (m : Source.Module) : Except Fault Virtual.Module × Session :=
  match lowerNext m s with
  | .ok result s' => (.ok result, s')
  | .error e s' => (.error e, s')

/-- The session after it has lowered some modules, whatever came of them. -/
def after (s : Session) (ms : List Source.Module) : Session :=
  ms.foldl (fun s m => (s.lower m).2) s

end Session

end KernelIR.Lowering
