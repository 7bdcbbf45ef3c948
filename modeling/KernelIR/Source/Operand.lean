import KernelIR.Source.DataType
import KernelIR.Source.Special
import KernelIR.Text.Numeral

/-!
# Operands of source instructions

An operand has a type, taken from its instruction, and a form: a register, a memory cell at a
register plus an offset, a literal, a symbol, a label, a special register, or `_` for a result that
nobody wants.  `Operand.text` writes an operand the way a line of source spells it.
-/

namespace KernelIR.Source

/-- A mention of a register: the number its kernel gave to the name, and the name.  A mention made
by hand may have no name and is then spelled by its number. -/
structure RegisterUse where
  id : UInt32
  name : String
deriving DecidableEq, Repr, Inhabited

/-- The spelling of a register. -/
def RegisterUse.text (r : RegisterUse) : String :=
  if r.name = "" then "%r" ++ Text.decimal r.id.toNat else r.name

/-- What an operand denotes. -/
inductive Form
  /-- a register -/
  | register (r : RegisterUse)
  /-- the memory cell at a register plus an offset -/
  | indirect (r : RegisterUse) (offset : Int)
  /-- a literal, as the bits it stands for -/
  | immediate (bits : BitVec 64)
  /-- a parameter, a global or a block, plus an offset -/
  | address (name : String) (offset : Int) (isParam : Bool)
  /-- a block of the kernel -/
  | label (name : String)
  /-- a special register or one of its lanes -/
  | special (r : Special) (lane : Lane)
  /-- a result that nobody wants -/
  | sink
  /-- a code that names no form -/
  | unknown (code : UInt8)
deriving DecidableEq, Repr

instance : Inhabited Form := ⟨.sink⟩

/-- An operand: the type of the value and what denotes it. -/
structure Operand where
  type : DataType
  form : Form
deriving DecidableEq, Repr, Inhabited

/-- An offset behind an address: nothing for zero, else the number with its sign. -/
def offsetText (offset : Int) : String :=
  if 0 < offset then "+" ++ Text.decimalInt offset
  else if offset < 0 then Text.decimalInt offset
  else ""

/-- Bits in upper-case hexadecimal, with zeros in front up to `width` digits. -/
def bitsText (width : Nat) (bits : BitVec 64) : String :=
  String.ofList ((Text.hexPadded width bits.toNat).map Char.toUpper)

/-- A literal of the given type: float types show their bits, signed types a signed number and all
others an unsigned one. -/
def literalText (type : DataType) (bits : BitVec 64) : String :=
  match type with
  | .float .double => "0d" ++ bitsText 16 bits
  | .float _ => "0f" ++ bitsText 8 bits
  | .signed _ => Text.decimalInt bits.toInt
  | _ => Text.decimal bits.toNat

/-- The spelling of an operand. -/
def Operand.text (x : Operand) : String :=
  match x.form with
  | .register r => r.text
  | .indirect r offset => "[" ++ r.text ++ offsetText offset ++ "]"
  | .immediate bits => literalText x.type bits
  | .address name offset _ =>
    if offset = 0 then name else "[" ++ name ++ offsetText offset ++ "]"
  | .label name => name
  | .special r lane => "%" ++ r.name ++ if r.isVector then "." ++ lane.name else ""
  | .sink => "_"
  | .unknown _ => "<invalid>"

/-- The spelling of a slot that may hold no operand. -/
def slotText (x : Option Operand) : String :=
  x.elim "<invalid>" Operand.text

/-- The name that an operand mentions, empty if it mentions none. -/
def Operand.mentioned (x : Operand) : String :=
  match x.form with
  | .register r | .indirect r _ => r.name
  | .address name _ _ | .label name => name
  | .immediate _ | .special .. | .sink | .unknown _ => ""

end KernelIR.Source
