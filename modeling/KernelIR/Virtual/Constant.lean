import KernelIR.Floating.Literal
import KernelIR.Floating.Shortest
import KernelIR.Text.Joined
import KernelIR.Text.Quoted
import KernelIR.Virtual.ValueType

/-!
# Constants

A constant is an integer, a float or the bytes of an array.  A float constant has a text only if its
type says how wide it is, single or double.
-/

namespace KernelIR.Virtual

/-- A constant. -/
inductive Constant
  | integer (type : Option ValueType) (value : BitVec 64)
  /-- A float by the bits of the double. -/
  | float (type : Option ValueType) (bits : BitVec 64)
  /-- Memory that holds elements of one type. -/
  | array (elem : Option ValueType) (data : List UInt8)
deriving DecidableEq, Repr, Inhabited

/-- Why a constant has no text. -/
inductive ConstantFault
  | untyped
  | oddWidth
deriving DecidableEq, Repr

/-- The wording of a fault. -/
def ConstantFault.message : ConstantFault → String
  | untyped => "runtime error: invalid memory address or nil pointer dereference"
  | oddWidth => "strconv: illegal AppendFloat/FormatFloat bitSize"

/-- The two hexadecimal digits of a byte. -/
def byteText (b : UInt8) : String :=
  String.ofList (Text.hexPadded 2 b.toNat)

namespace Constant

/-- The type of a constant; that of an array is the type of its elements. -/
def type : Constant → Option ValueType
  | integer t _ => t
  | float t _ => t
  | array t _ => t

/-- The number of whole elements in the data of an array.  Data of no type, or of a type without
width, counts bytes. -/
def elements (elem : Option ValueType) (data : List UInt8) : Int :=
  match elem with
  | none => data.length
  | some t => if t.bytes = 0 then data.length else (data.length : Int).tdiv t.bytes

/-- The digits of a float constant at the width of its type. -/
def floatText (type : Option ValueType) (bits : Nat) : Except ConstantFault String :=
  match type with
  | none => .error .untyped
  | some t =>
    if t.bits = 32 then .ok (Floating.render .binary32 (Floating.toSingle bits))
    else if t.bits = 64 then .ok (Floating.render .binary64 bits)
    else .error .oddWidth

/-- The text of a constant: its type and its value. -/
def text : Constant → Except ConstantFault String
  | integer t v => .ok (typeText t ++ " " ++ Text.decimal v.toNat)
  | float t bits => (floatText t bits.toNat).map (typeText t ++ " " ++ ·)
  | array t data =>
    .ok ("[" ++ Text.decimalInt (elements t data) ++ " x " ++ typeText t ++ "] \x7b"
      ++ Text.joined " " (data.map byteText) ++ "\x7d")

/-- The text of a constant in a listing, where a fault is written in its place. -/
def display (c : Constant) : String :=
  match c.text with
  | .ok s => s
  | .error e => "%!v(PANIC=String method: " ++ e.message ++ ")"

end Constant

end KernelIR.Virtual
