/-!
# Types of virtual values

A value type is a class and a width in bits.  Seven of them are predefined; others can be made by
hand.  Where a type is optional, none is written `void`.
-/

namespace KernelIR.Virtual

/-- The class of a value type. -/
inductive TypeKind
  | integer
  | float
deriving DecidableEq, Repr, Inhabited

/-- The type of a virtual value. -/
structure ValueType where
  name : String
  kind : TypeKind
  /-- the width in bits -/
  bits : Int
deriving DecidableEq, Repr, Inhabited

namespace ValueType

/-- The one-bit integers, which serve as predicates. -/
def i1 : ValueType := ⟨"i1", .integer, 1⟩

/-- The integers of 8 bits. -/
def i8 : ValueType := ⟨"i8", .integer, 8⟩

/-- The integers of 16 bits. -/
def i16 : ValueType := ⟨"i16", .integer, 16⟩

/-- The integers of 32 bits. -/
def i32 : ValueType := ⟨"i32", .integer, 32⟩

/-- The integers of 64 bits. -/
def i64 : ValueType := ⟨"i64", .integer, 64⟩

/-- The single floats. -/
def f32 : ValueType := ⟨"f32", .float, 32⟩

/-- The double floats. -/
def f64 : ValueType := ⟨"f64", .float, 64⟩

/-- The predefined types. -/
def predefined : List ValueType := [i1, i8, i16, i32, i64, f32, f64]

/-- The predefined type with the given name. -/
def ofName? (name : String) : Option ValueType :=
  predefined.find? (·.name = name)

/-- Whether the values are floats. -/
def isFloat (t : ValueType) : Bool := t.kind == .float

/-- The number of bytes that a value occupies; a predicate occupies a whole one. -/
def bytes (t : ValueType) : Int := (t.bits + 7).tdiv 8

end ValueType

/-- The text of an optional type. -/
def typeText : Option ValueType → String
  | some t => t.name
  | none => "void"

end KernelIR.Virtual
