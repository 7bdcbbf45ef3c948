import KernelIR.Virtual.Opcode
import KernelIR.Virtual.Operand

/-!
# Defects

An operation that would break a rule of the virtual representation is refused with a defect.  It
tells of a mistake in what asked for the operation, not in a module.
-/

namespace KernelIR.Virtual

/-- The operands that only some shapes have, as they are called in reports. -/
inductive Slot
  | b
  | c
  | target
  | unconditional
  | returned
  | argument
  | phiSource
  | psiSource
deriving DecidableEq, Repr

/-- The name of a slot. -/
def Slot.name : Slot → String
  | b => "b"
  | c => "c"
  | target => "target"
  | unconditional => "unconditional"
  | returned => "return"
  | argument => "argument"
  | phiSource => "phi source"
  | psiSource => "psi source"

/-- A refused operation. -/
inductive Defect
  | invalidOpcode (code : UInt8)
  | noDestination (op : Opcode)
  | noFirst (op : Opcode)
  | noSlot (op : Opcode) (slot : Slot)
  | notRegister (op : Opcode) (x : Operand)
  | notAddress (op : Opcode) (slot : Option Operand)
  | notBlock (op : Opcode) (x : Operand)
  | badPosition (block : String) (position : Int) (length : Nat)
  | foreignBlock (name block function : String)
  | beforeEntry (name : String)
deriving DecidableEq, Repr

/-- What a defect says. -/
def Defect.text : Defect → String
  | invalidOpcode code => "new instruction: invalid opcode " ++ Text.decimal code.toNat
  | noDestination op => op.name ++ " has no d operand"
  | noFirst op => op.name ++ " has no a operand"
  | noSlot op s => op.name ++ " (" ++ op.shape.name ++ ") has no " ++ s.name ++ " operand"
  | notRegister op x => op.name ++ " destination must be a register, got " ++ x.text
  | notAddress op x => op.name ++ ": branch target is not an address: " ++ slotText x
  | notBlock op x => op.name ++ ": branch target is not a basic block: " ++ x.text
  | badPosition b p n =>
    "insert into " ++ b ++ ": position " ++ Text.decimalInt p ++ " out of range [0, "
      ++ Text.decimal n ++ "]"
  | foreignBlock name b f => "new block " ++ name ++ ": position block " ++ b ++ " is not in " ++ f
  | beforeEntry name => "new block " ++ name ++ ": cannot insert before the entry block"

/-- The report about a defect. -/
def Defect.message (d : Defect) : String :=
  "invariant violation: " ++ d.text

end KernelIR.Virtual
