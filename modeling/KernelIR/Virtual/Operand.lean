import KernelIR.Floating.Shortest
import KernelIR.Text.Numeral
import KernelIR.Virtual.ValueType

/-!
# Operands of virtual instructions

An operand names a register, memory behind a register, a literal, the address of a symbol, an
argument, or a predicate.  Registers and symbols carry a key, so that two with the same contents can
be told apart; texts do not show it.
-/

namespace KernelIR.Virtual

/-- A virtual register. -/
structure Register where
  key : Nat
  /-- its number within the function -/
  id : Nat
  type : Option ValueType
  name : String
deriving DecidableEq, Repr, Inhabited

/-- The text of a register: its name, or its number if it has none. -/
def Register.text (r : Register) : String :=
  "%" ++ if r.name = "" then Text.decimal r.id else r.name

/-- The text of an optional register. -/
def registerText : Option Register → String
  | some r => r.text
  | none => "%?"

/-- An argument of a function. -/
structure Argument where
  type : Option ValueType
  name : String
deriving DecidableEq, Repr, Inhabited

/-- Something that has an address. -/
inductive Symbol
  | block (key : Nat) (name : String)
  | function (key : Nat) (name : String)
  | global (key : Nat) (name : String)
deriving DecidableEq, Repr, Inhabited

/-- The name of a symbol. -/
def Symbol.name : Symbol → String
  | block _ name => name
  | function _ name => name
  | global _ name => name

/-- How a predicate reads its register, or that it reads none. -/
inductive Sense
  | straight
  | inverse
  | always
  | never
  | unknown (code : UInt8)
deriving DecidableEq, Repr, Inhabited

/-- The sense with the given code. -/
def Sense.ofCode (code : UInt8) : Sense :=
  [straight, inverse, always, never][code.toNat]?.getD (unknown code)

/-- A condition on a register. -/
structure Predicate where
  register : Option Register := none
  sense : Sense
deriving DecidableEq, Repr, Inhabited

namespace Predicate

/-- The predicate that holds. -/
def always : Predicate := { sense := .always }

/-- The predicate that does not hold. -/
def never : Predicate := { sense := .never }

/-- Whether a predicate holds whatever the registers. -/
def isAlways (p : Predicate) : Bool := p.sense == .always

/-- Whether a predicate fails whatever the registers. -/
def isNever (p : Predicate) : Bool := p.sense == .never

/-- The text of a predicate. -/
def text (p : Predicate) : String :=
  match p.sense with
  | .always => "@pt"
  | .never => "@!pt"
  | .inverse => "@!" ++ registerText p.register
  | .straight | .unknown _ => "@" ++ registerText p.register

end Predicate

/-- An operand. -/
inductive Operand
  | register (r : Option Register)
  /-- The memory at a distance from the address in a register. -/
  | indirect (base : Option Register) (offset : Int)
  | immediate (value : BitVec 64) (type : Option ValueType)
  | address (target : Option Symbol)
  | argument (a : Argument)
  | predicate (p : Predicate)
deriving DecidableEq, Repr, Inhabited

/-- The text of a distance behind a register. -/
def offsetText (offset : Int) : String :=
  if 0 < offset then "+" ++ Text.decimalInt offset
  else if offset < 0 then Text.decimalInt offset
  else ""

/-- The text of a literal.  Its type says how many of the bits count and how they are read: floats
by their bits, integers as signed numbers, a single bit as itself. -/
def immediateText (value : BitVec 64) : Option ValueType → String
  | none => Text.decimal value.toNat
  | some t =>
    match t.kind with
    | .float =>
      if t.bits = 32 then Floating.render .binary32 (value.setWidth 32).toNat
      else Floating.render .binary64 value.toNat
    | .integer =>
      if 64 ≤ t.bits then Text.decimalInt value.toInt
      else if t.bits = 1 then Text.decimal (value.setWidth 1).toNat
      else Text.decimalInt (value.setWidth t.bits.toNat).toInt

namespace Operand

/-- The number of an operand's kind. -/
def kindCode : Operand → Nat
  | register _ => 1
  | indirect .. => 2
  | immediate .. => 3
  | address _ => 4
  | argument _ => 5
  | predicate _ => 6

/-- The text of an operand. -/
def text : Operand → String
  | register r => registerText r
  | indirect base offset => "[" ++ registerText base ++ offsetText offset ++ "]"
  | immediate value type => immediateText value type
  | address none => "@?"
  | address (some s) => "@" ++ s.name
  | argument a => "$" ++ a.name
  | predicate p => p.text

/-- Whether an operand is a register. -/
def isRegister : Operand → Bool
  | register _ => true
  | _ => false

/-- Whether an operand is the address of a block. -/
def isBlock : Operand → Bool
  | address (some (.block ..)) => true
  | _ => false

end Operand

/-- The text of a slot that may be unset. -/
def slotText : Option Operand → String
  | some x => x.text
  | none => "_"

end KernelIR.Virtual
