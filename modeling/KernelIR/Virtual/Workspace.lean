import KernelIR.Virtual.Module

/-!
# Building a module step by step

A workspace holds everything that was ever made for a module: functions, blocks, registers,
arguments, globals and instructions, each known by its place in a list that only grows.  What
belongs to what is told by places, so an instruction may be listed in several blocks, and a block or
function outlives its removal.

An operation either changes the workspace or is refused with a defect; `Edit` keeps the workspace in
both cases.  `Workspace.module` is what the workspace amounts to.
-/

namespace KernelIR.Virtual

/-- A function in a workspace. -/
structure FunctionRecord where
  name : String
  linkage : Linkage
  /-- whether the module still holds it -/
  listed : Bool := true
  /-- its blocks in layout order -/
  blocks : List Nat := []
  nextBlock : Nat := 0
  nextInstr : Nat := 0
  registers : List Nat := []
  arguments : List Nat := []
deriving DecidableEq, Repr, Inhabited

/-- A block in a workspace. -/
structure BlockRecord where
  id : Nat
  name : String
  /-- the function that holds it -/
  owner : Option Nat
  code : List Nat := []
deriving DecidableEq, Repr, Inhabited

/-- A global in a workspace. -/
structure GlobalRecord where
  value : Global
  /-- whether the module still holds it -/
  listed : Bool := true
deriving DecidableEq, Repr, Inhabited

/-- All that was made for a module. -/
structure Workspace where
  name : String
  functions : List FunctionRecord := []
  blocks : List BlockRecord := []
  registers : List Register := []
  arguments : List Argument := []
  globals : List GlobalRecord := []
  instrs : List Instr := []
  /-- the functions of the module in order -/
  functionList : List Nat := []
  /-- the globals of the module in order -/
  globalList : List Nat := []
  /-- the constants of the module, of which one may be left unset -/
  constants : List (Option Constant) := []
deriving DecidableEq, Repr, Inhabited

/-- An operation on a workspace, which may be refused. -/
abbrev Edit := ExceptT Defect (StateM Workspace)

namespace Workspace

/-! ### Views -/

/-- The function at a place. -/
def function (w : Workspace) (f : Nat) : FunctionRecord := w.functions.getD f default

/-- The block at a place. -/
def block (w : Workspace) (b : Nat) : BlockRecord := w.blocks.getD b default

/-- The register at a place. -/
def register (w : Workspace) (r : Nat) : Register := w.registers.getD r default

/-- The argument at a place. -/
def argument (w : Workspace) (a : Nat) : Argument := w.arguments.getD a default

/-- The global at a place. -/
def global (w : Workspace) (g : Nat) : GlobalRecord := w.globals.getD g default

/-- The instruction at a place. -/
def instr (w : Workspace) (i : Nat) : Instr := w.instrs.getD i default

/-- What a block amounts to. -/
def blockTree (w : Workspace) (b : Nat) : Block :=
  let r := w.block b
  { id := r.id, name := r.name, code := r.code.map w.instr }

/-- What a function amounts to. -/
def functionTree (w : Workspace) (f : Nat) : Function :=
  let r := w.function f
  { name := r.name
    linkage := r.linkage
    arguments := r.arguments.map w.argument
    registers := r.registers.map w.register
    blocks := r.blocks.map w.blockTree }

/-- What the workspace amounts to. -/
def module (w : Workspace) : Module :=
  { name := w.name
    globals := w.globalList.map fun g => (w.global g).value
    constants := w.constants
    functions := w.functionList.map w.functionTree }

/-! ### Lookups -/

/-- The first function of the module with the given name. -/
def findFunction? (w : Workspace) (name : String) : Option Nat :=
  w.functionList.find? fun f => (w.function f).name = name

/-- The first global of the module with the given name. -/
def findGlobal? (w : Workspace) (name : String) : Option Nat :=
  w.globalList.find? fun g => (w.global g).value.name = name

/-- The block of a function with the given number. -/
def findBlock? (w : Workspace) (f : Nat) (id : Int) : Option Nat :=
  (w.function f).blocks.find? fun b => ((w.block b).id : Int) = id

/-- The first block of a function with the given name. -/
def findBlockNamed? (w : Workspace) (f : Nat) (name : String) : Option Nat :=
  (w.function f).blocks.find? fun b => (w.block b).name = name

/-- The register of a function with the given number. -/
def findRegister? (w : Workspace) (f : Nat) (id : Int) : Option Nat :=
  if 0 ≤ id then (w.function f).registers[id.toNat]? else none

/-- The first argument of a function with the given name. -/
def findArgument? (w : Workspace) (f : Nat) (name : String) : Option Nat :=
  (w.function f).arguments.find? fun a => (w.argument a).name = name

/-! ### Changes at a place -/

/-- Changes the function at a place. -/
def changeFunction (w : Workspace) (f : Nat) (h : FunctionRecord → FunctionRecord) : Workspace :=
  { w with functions := w.functions.modify f h }

/-- Changes the block at a place. -/
def changeBlock (w : Workspace) (b : Nat) (h : BlockRecord → BlockRecord) : Workspace :=
  { w with blocks := w.blocks.modify b h }

/-- Changes the global at a place. -/
def changeGlobal (w : Workspace) (g : Nat) (h : GlobalRecord → GlobalRecord) : Workspace :=
  { w with globals := w.globals.modify g h }

/-- Changes the instruction at a place. -/
def changeInstr (w : Workspace) (i : Nat) (h : Instr → Instr) : Workspace :=
  { w with instrs := w.instrs.modify i h }

/-- Makes a block for a function, which does not list it yet. -/
def makeBlock (w : Workspace) (f : Nat) (name : String) : Nat × Workspace :=
  let record : BlockRecord := { id := (w.function f).nextBlock, name, owner := some f }
  let grown := { w with blocks := w.blocks ++ [record] }
  (w.blocks.length, grown.changeFunction f fun r => { r with nextBlock := r.nextBlock + 1 })

end Workspace

namespace Edit

open Workspace

/-! ### Symbols of the module -/

/-- Adds a function with an entry and an exit block. -/
def newFunction (name : String) (linkage : Linkage) : Edit Nat := do
  let w ← get
  let f := w.functions.length
  let w := { w with functions := w.functions ++ [({ name, linkage } : FunctionRecord)] }
  let (entry, w) := w.makeBlock f "entry"
  let (exit, w) := w.makeBlock f "exit"
  let w := w.changeFunction f fun r => { r with blocks := [entry, exit] }
  set { w with functionList := w.functionList ++ [f] }
  return f

/-- Takes a function out of the module.  Tells whether the module held it. -/
def removeFunction (f : Nat) : Edit Bool := do
  let w ← get
  if f ∈ w.functionList then
    let w := w.changeFunction f fun r => { r with listed := false }
    set { w with functionList := w.functionList.erase f }
    return true
  else return false

/-- Changes the linkage of a function. -/
def setLinkage (f : Nat) (linkage : Linkage) : Edit Unit :=
  modify fun w => w.changeFunction f fun r => { r with linkage }

/-- Adds a global. -/
def newGlobal (name : String) (type : Option ValueType) (linkage : Linkage) : Edit Nat := do
  let w ← get
  let g := w.globals.length
  set { w with
    globals := w.globals ++ [({ value := { name, type, linkage } } : GlobalRecord)]
    globalList := w.globalList ++ [g] }
  return g

/-- Takes a global out of the module.  Tells whether the module held it. -/
def removeGlobal (g : Nat) : Edit Bool := do
  let w ← get
  if g ∈ w.globalList then
    let w := w.changeGlobal g fun r => { r with listed := false }
    set { w with globalList := w.globalList.erase g }
    return true
  else return false

/-- Sets what a global starts with. -/
def setInit (g : Nat) (c : Option Constant) : Edit Unit :=
  modify fun w => w.changeGlobal g fun r => { r with value := { r.value with init := c } }

/-- Adds a constant, or the place of one that is left unset. -/
def addConstant (c : Option Constant) : Edit Unit :=
  modify fun w => { w with constants := w.constants ++ [c] }

/-! ### Parts of a function -/

/-- Adds a block right before another one, or before the exit.  Nothing stands before the entry. -/
def newBlock (f : Nat) (before : Option Nat) (name : String) : Edit Nat := do
  let w ← get
  let r := w.function f
  let position ← match before with
    | none => pure (r.blocks.length - 1)
    | some b =>
      match r.blocks.idxOf? b with
      | some position => pure position
      | none => throw (.foreignBlock name (w.block b).name r.name)
  if position = 0 then throw (.beforeEntry name)
  let (b, w) := w.makeBlock f name
  set (w.changeFunction f fun r => { r with blocks := r.blocks.insertIdx position b })
  return b

/-- Removes a block and drops the operands of its instructions.  Entry and exit stay.  Tells whether
the block was removed. -/
def removeBlock (f b : Nat) : Edit Bool := do
  let w ← get
  let blocks := (w.function f).blocks
  match blocks.idxOf? b with
  | none => return false
  | some position =>
    if position = 0 ∨ position + 1 = blocks.length then return false
    let w := (w.block b).code.foldl (fun w i => w.changeInstr i Instr.clear) w
    let w := w.changeBlock b fun r => { r with owner := none, code := [] }
    set (w.changeFunction f fun r => { r with blocks := r.blocks.eraseIdx position })
    return true

/-- Adds a register. -/
def newRegister (f : Nat) (type : Option ValueType) (name : String) : Edit Nat := do
  let w ← get
  let key := w.registers.length
  let id := (w.function f).registers.length
  let w := { w with registers := w.registers ++ [(⟨key, id, type, name⟩ : Register)] }
  set (w.changeFunction f fun r => { r with registers := r.registers ++ [key] })
  return key

/-- Adds an argument. -/
def newArgument (f : Nat) (type : Option ValueType) (name : String) : Edit Nat := do
  let w ← get
  let a := w.arguments.length
  let w := { w with arguments := w.arguments ++ [(⟨type, name⟩ : Argument)] }
  set (w.changeFunction f fun r => { r with arguments := r.arguments ++ [a] })
  return a

/-! ### Instructions -/

/-- Makes an instruction for a block, which does not list it yet.  It takes the next number of the
function that holds the block. -/
def newInstr (op : Opcode) (block : Option Nat) : Edit Nat := do
  let w ← get
  let owner := block.bind fun b => (w.block b).owner
  let id := (owner.map fun f => (w.function f).nextInstr).getD 0
  let i ← Instr.make op id (block.map fun b => (w.block b).id)
  let grown := { w with instrs := w.instrs ++ [i] }
  set (match owner with
    | some f => grown.changeFunction f fun r => { r with nextInstr := r.nextInstr + 1 }
    | none => grown)
  return w.instrs.length

/-- Makes a copy of an instruction, with its number and block. -/
def cloneInstr (i : Nat) : Edit Nat := do
  let w ← get
  set { w with instrs := w.instrs ++ [(w.instr i).clone] }
  return w.instrs.length

/-- Changes an instruction, unless the change is refused. -/
def changeInstr (i : Nat) (change : Instr → Except Defect Instr) : Edit Unit := do
  let w ← get
  match change (w.instr i) with
  | .ok x => set (w.changeInstr i fun _ => x)
  | .error e => throw e

/-- Lists an instruction at the end of a block. -/
def appendInstr (i b : Nat) : Edit Unit :=
  modify fun w =>
    (w.changeInstr i fun x => { x with block := some (w.block b).id }).changeBlock b fun r =>
      { r with code := r.code ++ [i] }

/-- Lists an instruction at a position of a block. -/
def insertInstr (i b : Nat) (position : Int) : Edit Unit := do
  let w ← get
  let r := w.block b
  if position < 0 ∨ r.code.length < position then
    throw (.badPosition r.name position r.code.length)
  set ((w.changeInstr i fun x => { x with block := some r.id }).changeBlock b fun r =>
    { r with code := r.code.insertIdx position.toNat i })

/-- Takes an instruction out of a block and drops its operands.  Tells whether the block listed
it. -/
def eraseInstr (i b : Nat) : Edit Bool := do
  let w ← get
  if i ∈ (w.block b).code then
    let w := w.changeBlock b fun r => { r with code := r.code.erase i }
    set (w.changeInstr i fun x => { x.clear with block := none })
    return true
  else return false

end Edit

end KernelIR.Virtual
