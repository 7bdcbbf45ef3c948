import KernelIR.Source.Modifier
import KernelIR.Source.Opcode
import KernelIR.Source.Operand
import KernelIR.Source.Tag
import KernelIR.Text.Joined

/-!
# Source instructions

An instruction is a guard, a mnemonic (an opcode with its suffixes) and up to four operands.
`Instruction.text` writes it as one line: the guard unless it always holds, the opcode with its
suffixes in a fixed order, and the operands that are there.
-/

namespace KernelIR.Source

/-- The condition under which an instruction runs. -/
inductive Guard
  /-- it always runs -/
  | always
  /-- it never runs -/
  | never
  /-- it runs when the predicate register holds -/
  | straight (r : RegisterUse)
  /-- it runs when the predicate register does not hold -/
  | inverse (r : RegisterUse)
  /-- a code that names no condition, with its register -/
  | unknown (code : UInt8) (r : RegisterUse)
deriving DecidableEq, Repr

instance : Inhabited Guard := ⟨.always⟩

/-- A guard as it stands before an instruction. -/
def Guard.text : Guard → String
  | straight r => "@" ++ r.text ++ " "
  | inverse r => "@!" ++ r.text ++ " "
  | never => "@!pt "
  | always | unknown .. => ""

/-- An opcode with its suffixes. -/
structure Mnemonic where
  opcode : Opcode := default
  type : DataType := .missing
  /-- the type that a conversion reads -/
  sourceType : DataType := .missing
  modifiers : Modifiers := .empty
  space : Space := .generic
  comparison : Comparison := .none
  atomic : AtomicOp := .none
  level : FenceLevel := .none
  uniform : Bool := false
deriving DecidableEq, Repr, Inhabited

/-- The suffixes of a mnemonic, in the order in which they are written. -/
def Mnemonic.suffixes (m : Mnemonic) : List String :=
  ([m.comparison.name, m.atomic.name, m.level.name] ++ (if m.uniform then ["uni"] else []) ++
    m.modifiers.names ++ [m.space.name] ++
    (if m.type = .missing then [] else [m.type.name]) ++
    (if m.sourceType = .missing then [] else [m.sourceType.name])).filter (· ≠ "")

/-- The spelling of a mnemonic. -/
def Mnemonic.text (m : Mnemonic) : String :=
  m.opcode.name ++ Text.concat (m.suffixes.map ("." ++ ·))

/-- The type of the `j`-th operand.  Predicates and the source of a conversion are the exceptions to
the type of the instruction. -/
def Mnemonic.operandType (m : Mnemonic) (j : Nat) : DataType :=
  if j = 0 ∧ m.opcode = .setp then .pred
  else if j = 1 ∧ m.sourceType ≠ .missing then m.sourceType
  else if j = 3 ∧ m.opcode = .selp then .pred
  else m.type

/-- A source instruction. -/
structure Instruction extends Mnemonic where
  guard : Guard := .always
  d : Option Operand := none
  a : Option Operand := none
  b : Option Operand := none
  c : Option Operand := none
deriving DecidableEq, Repr, Inhabited

namespace Instruction

/-- The four operand slots in order. -/
def slots (i : Instruction) : List (Option Operand) :=
  [i.d, i.a, i.b, i.c]

/-- The operands that are there, in order. -/
def operands (i : Instruction) : List Operand :=
  i.slots.filterMap id

/-- An instruction as a line of source. -/
def text (i : Instruction) : String :=
  i.guard.text ++ i.toMnemonic.text ++
    if i.operands.isEmpty then "" else " " ++ Text.joined ", " (i.operands.map Operand.text)

end Instruction

end KernelIR.Source
