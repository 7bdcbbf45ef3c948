import KernelIR.Source.Instruction
import KernelIR.Text.Quoted
import KernelIR.Virtual.Defect

/-!
# What can go wrong in lowering

A fault is a cause and the path that led to it, from the outside in.  Its kind tells whether the
module breaks a rule of the source language (`malformed`) or uses a form that has no lowering
(`unsupported`).
-/

namespace KernelIR.Lowering

/-- The operands of a source instruction. -/
inductive Role
  | d
  | a
  | b
  | c
deriving DecidableEq, Repr

/-- The name of an operand. -/
def Role.name : Role → String
  | d => "d"
  | a => "a"
  | b => "b"
  | c => "c"

/-- A place inside a module. -/
inductive Place
  | global (name : String)
  | kernel (name : String)
  | param (name : String)
  | register (name : String)
  | block (label : String)
  | instruction (text : String)
  | guard
  | target
  | operand (role : Role)
deriving DecidableEq, Repr

/-- The wording of a place. -/
def Place.text : Place → String
  | global name => "global " ++ name
  | kernel name => "kernel " ++ name
  | param name => "param " ++ name
  | register name => "register " ++ name
  | block label => "block " ++ label
  | instruction s => "instruction " ++ Text.quote s.toList
  | guard => "guard"
  | target => "target"
  | operand role => role.name

/-- What is wrong. -/
inductive Cause
  | badType (type : Source.DataType)
  | duplicateRegister (name : String)
  | redeclaredBlock (label : String)
  | undeclaredRegister (name : String)
  | undeclaredArgument (name : String)
  | undeclaredGlobal (name : String)
  | undeclaredBlock (label : String)
  | notABlock (target : Virtual.Operand)
  | badLevel (level : Source.FenceLevel)
  | badComparison (comparison : Source.Comparison)
  | badAtomic (operation : Source.AtomicOp)
  | addressWithOffset (operand : Source.Operand)
  | noConversion (type : Source.DataType)
  | noOperandRule (slot : Option Source.Operand)
  | noInstructionRule
  | defect (d : Virtual.Defect)
deriving DecidableEq, Repr

/-- The kind of a fault. -/
inductive Kind
  | malformed
  | unsupported
  | defective
deriving DecidableEq, Repr

namespace Cause

/-- The kind of a cause. -/
def kind : Cause → Kind
  | badType _ | duplicateRegister _ | redeclaredBlock _ | undeclaredRegister _
  | undeclaredArgument _ | undeclaredGlobal _ | undeclaredBlock _ | notABlock _ | badLevel _
  | badComparison _ | badAtomic _ => .malformed
  | addressWithOffset _ | noConversion _ | noOperandRule _ | noInstructionRule => .unsupported
  | defect _ => .defective

/-- The wording of a cause. -/
def text : Cause → String
  | badType t => "translated type name '' of " ++ t.name ++ " is not a valid type"
  | duplicateRegister name => "added duplicate virtual register '" ++ name ++ "'"
  | redeclaredBlock label => "basic block " ++ label ++ " redeclared in this function"
  | undeclaredRegister name => "PTX register " ++ name ++ " used without declaration"
  | undeclaredArgument name => "argument " ++ name ++ " was not declared in this function"
  | undeclaredGlobal name => "global variable " ++ name ++ " used without declaration"
  | undeclaredBlock label => "basic block " ++ label ++ " was not declared in this function"
  | notABlock x => "branch target is not a block: " ++ x.text
  | badLevel l => "membar level " ++ l.name
  | badComparison c => "comparison " ++ Text.decimal c.code.toNat
  | badAtomic a => "atomic operation " ++ Text.decimal a.code.toNat
  | addressWithOffset x => "address with offset: " ++ x.text
  | noConversion t => "conversion of " ++ t.name
  | noOperandRule x => "no translation implemented for operand " ++ Source.slotText x
  | noInstructionRule => "no translation implemented for instruction"
  | defect d => d.message

end Cause

/-- The wording of a kind. -/
def Kind.text : Kind → String
  | malformed => "malformed input"
  | unsupported => "unsupported input"
  | defective => "defect"

/-- A fault: where it is, from the outside in, and what it is. -/
structure Fault where
  path : List Place := []
  cause : Cause
deriving DecidableEq, Repr

namespace Fault

/-- The kind of a fault. -/
def kind (f : Fault) : Kind := f.cause.kind

/-- The same fault, seen from further outside. -/
def within (p : Place) (f : Fault) : Fault := { f with path := p :: f.path }

/-- The report about a fault. -/
def message (f : Fault) : String :=
  Text.joined ": " (f.path.map Place.text ++ [f.cause.text, f.kind.text])

end Fault

end KernelIR.Lowering
