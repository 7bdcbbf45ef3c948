import KernelIR.Lowering.Selection
import KernelIR.Virtual.Module

/-!
# The scope of a function

What the instructions of a kernel may refer to while they are lowered.  The scope is fixed; the
frame grows with registers that are made on the way: one for every special register and lane in use,
and one for every result that nobody wants.
-/

namespace KernelIR.Lowering

open Virtual (Register)

/-- What the instructions of a kernel may refer to. -/
structure Scope where
  /-- how the names of registers begin -/
  stem : String
  globals : List Virtual.Global
  arguments : List Virtual.Argument
  /-- the declared registers by their source numbers -/
  registers : List (UInt32 × Register)
  /-- the numbers of the blocks by their labels -/
  blocks : List (String × Nat)
deriving Repr

/-- What grows while instructions are lowered. -/
structure Frame where
  registers : List Register
  /-- the registers that stand for special registers, by `specialKey` -/
  specials : List (UInt32 × Register) := []
  nextInstr : Nat := 0
deriving Repr

/-- A step of lowering. -/
abbrev Lower := StateT Frame (Except Fault)

/-- Fails with a cause. -/
def fail {α : Type} (c : Cause) : Lower α :=
  throw { cause := c }

/-- Takes over the outcome of a step that needs no frame. -/
def orFail {α : Type} : Except Cause α → Lower α
  | .ok x => pure x
  | .error c => fail c

/-- Takes over the outcome of an operation on the virtual representation. -/
def orDefect {α : Type} : Except Virtual.Defect α → Lower α
  | .ok x => pure x
  | .error d => fail (.defect d)

/-- Says where the faults of a step are. -/
def within {α : Type} (p : Place) (m : Lower α) : Lower α :=
  fun s => (m s).mapError (Fault.within p)

/-- Makes a register. -/
def newRegister (type : Virtual.ValueType) (name : String) : Lower Register := do
  let s ← get
  let id := s.registers.length
  let r : Register := { key := id, id, type := some type, name }
  set { s with registers := s.registers ++ [r] }
  return r

/-- Makes an instruction of a block. -/
def newInstr (op : Virtual.Opcode) (block : Nat) : Lower Virtual.Instr := do
  let s ← get
  let i ← orDefect (Virtual.Instr.make op s.nextInstr (some block))
  set { s with nextInstr := s.nextInstr + 1 }
  return i

/-- What tells special registers and their lanes apart. -/
def specialKey (r : Source.Special) (lane : Source.Lane) : UInt32 :=
  r.code.toUInt32 <<< 4 ||| lane.code.toUInt32

/-- The name of the register for a special register and lane; the first lane is not mentioned. -/
def specialName (r : Source.Special) (lane : Source.Lane) : String :=
  r.name ++ if r.isVector ∧ lane ≠ .x then "_" ++ lane.name else ""

/-- The register that stands for a special register and lane, made at its first use. -/
def specialRegister (r : Source.Special) (lane : Source.Lane) : Lower Register := do
  match (← get).specials.lookup (specialKey r lane) with
  | some x => return x
  | none =>
    let x ← newRegister .i32 (specialName r lane)
    modify fun s => { s with specials := (specialKey r lane, x) :: s.specials }
    return x

end KernelIR.Lowering
