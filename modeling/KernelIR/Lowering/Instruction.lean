import KernelIR.Lowering.Operand

/-!
# Lowering instructions

An instruction is lowered by its plan: the virtual instruction is made, its operands are lowered in
the order `d`, `a`, `b`, `c`, and the image of the guard is set.
-/

namespace KernelIR.Lowering

open Virtual (Instr)

namespace Scope

/-- Lowers the operand in a role. -/
def inRole (s : Scope) (role : Role) (x : Option Source.Operand) : Lower Virtual.Operand :=
  within (.operand role) (s.slot x)

/-- Lowers and sets the operands `d` and `a`. -/
def setUnary (s : Scope) (i : Source.Instruction) (x : Instr) : Lower Instr := do
  let d ← s.inRole .d i.d
  let a ← s.inRole .a i.a
  orDefect (x.setDestination (some d) >>= (·.setA (some a)))

/-- Lowers and sets the operands `d`, `a` and `b`. -/
def setBinary (s : Scope) (i : Source.Instruction) (x : Instr) : Lower Instr := do
  let x ← s.setUnary i x
  let b ← s.inRole .b i.b
  orDefect (x.setB (some b))

/-- Lowers and sets the operand `c`, if it is there. -/
def setThird (s : Scope) (i : Source.Instruction) (x : Instr) : Lower Instr :=
  match i.c with
  | none => pure x
  | some c => do
    let c ← s.inRole .c (some c)
    orDefect (x.setC (some c))

/-- Lowers and sets the target of a branch, which must be a block. -/
def setTarget (s : Scope) (i : Source.Instruction) (x : Instr) : Lower Instr := do
  let t ← within .target (s.slot i.d)
  if t.isBlock then orDefect (x.setTarget (some t)) else fail (.notABlock t)

/-- Makes the instruction of a plan and lowers its operands. -/
def follow (s : Scope) (block : Nat) (i : Source.Instruction) : Plan → Lower Instr
  | .bare op => newInstr op block
  | .fence level => do return { ← newInstr .membar block with level }
  | .branch modifier => do s.setTarget i { ← newInstr .bra block with modifier }
  | .unary op => do s.setUnary i (← newInstr op block)
  | .binary op => do s.setBinary i (← newInstr op block)
  | .compare comparison => do s.setBinary i { ← newInstr .setp block with comparison }
  | .atomic atomic => do
    let x ← s.setBinary i { ← newInstr .atom block with atomic }
    s.setThird i x
  | .complement => do
    let x ← s.setUnary i (← newInstr .xor block)
    let t ← orFail (lowerType i.type)
    orDefect (x.setB (some (.immediate (allOnes t) (some t))))

/-- Lowers an instruction of a block. -/
def instruction (s : Scope) (block : Nat) (i : Source.Instruction) : Lower Instr := do
  let guard ← within .guard (orFail (s.guard i.guard))
  let p ← orFail (plan i.toMnemonic)
  return (← s.follow block i p).setGuard guard

end Scope

end KernelIR.Lowering
