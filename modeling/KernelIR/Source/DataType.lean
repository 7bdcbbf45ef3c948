/-!
# Data types of source kernels

A source type is a predicate, or a class (untyped bits, signed, unsigned, float) with a width.  An
instruction may carry no type at all, and a module built by hand may carry a code that names no
type; such a code is kept, because it prints and behaves like no type that exists.
-/

namespace KernelIR.Source

/-- The widths of integer types. -/
inductive Width
  | w8
  | w16
  | w32
  | w64
deriving DecidableEq, Repr, Inhabited

/-- The number of bytes of a width. -/
def Width.bytes : Width → Nat
  | w8 => 1
  | w16 => 2
  | w32 => 4
  | w64 => 8

/-- The formats of float types. -/
inductive FloatWidth
  | half
  | single
  | double
deriving DecidableEq, Repr, Inhabited

/-- The number of bytes of a float format. -/
def FloatWidth.bytes : FloatWidth → Nat
  | half => 2
  | single => 4
  | double => 8

/-- A source data type.  `missing` is the type of an instruction that names none, and `unknown` a
code beyond the known types. -/
inductive DataType
  | missing
  | pred
  | bits (w : Width)
  | signed (w : Width)
  | unsigned (w : Width)
  | float (w : FloatWidth)
  | unknown (code : UInt8)
deriving DecidableEq, Repr

namespace DataType

instance : Inhabited DataType := ⟨missing⟩

/-- The types that have a name, in the order of their codes, which start at one. -/
def named : List DataType :=
  [pred, bits .w8, bits .w16, bits .w32, bits .w64, signed .w8, signed .w16, signed .w32,
   signed .w64, unsigned .w8, unsigned .w16, unsigned .w32, unsigned .w64, float .half,
   float .single, float .double]

/-- The type with the given code. -/
def ofCode (code : UInt8) : DataType :=
  (missing :: named)[code.toNat]?.getD (unknown code)

/-- The code of a type. -/
def code : DataType → UInt8
  | unknown c => c
  | t => UInt8.ofNat ((missing :: named).idxOf t)

/-- The spelling of a type. -/
def name : DataType → String
  | missing | unknown _ => "invalid"
  | pred => "pred"
  | bits .w8 => "b8"
  | bits .w16 => "b16"
  | bits .w32 => "b32"
  | bits .w64 => "b64"
  | signed .w8 => "s8"
  | signed .w16 => "s16"
  | signed .w32 => "s32"
  | signed .w64 => "s64"
  | unsigned .w8 => "u8"
  | unsigned .w16 => "u16"
  | unsigned .w32 => "u32"
  | unsigned .w64 => "u64"
  | float .half => "f16"
  | float .single => "f32"
  | float .double => "f64"

/-- The type with the given spelling. -/
def ofName? (s : String) : Option DataType :=
  named.find? (·.name = s)

/-- Whether the type is a float type. -/
def isFloat : DataType → Bool
  | float _ => true
  | _ => false

/-- Whether the type is a signed integer type. -/
def isSigned : DataType → Bool
  | signed _ => true
  | _ => false

/-- Whether the type is an integer type; untyped bits count as integers, predicates do not. -/
def isInt : DataType → Bool
  | bits _ | signed _ | unsigned _ => true
  | _ => false

/-- The number of bytes a value takes in memory; zero for no type. -/
def bytes : DataType → Nat
  | pred => 1
  | bits w | signed w | unsigned w => w.bytes
  | float w => w.bytes
  | missing | unknown _ => 0

end DataType

end KernelIR.Source
