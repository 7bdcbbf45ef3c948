/-!
# Tags of virtual instructions and symbols

The closed vocabularies that qualify an instruction (comparison, atomic operation, branch modifier,
fence level) or a symbol (linkage).  A code beyond the vocabulary is kept.
-/

namespace KernelIR.Virtual

/-! ### Comparisons -/

/-- The relation that a comparison tests.  The plain orders are signed, those of the second group
unsigned, and those of the third hold of unordered floats too. -/
inductive Comparison
  | eq
  | ne
  | lt
  | le
  | gt
  | ge
  | ult
  | ule
  | ugt
  | uge
  | equ
  | neu
  | ltu
  | leu
  | gtu
  | geu
  | num
  | nan
  | invalid (code : UInt8)
deriving DecidableEq, Repr

namespace Comparison

instance : Inhabited Comparison := ⟨invalid 0⟩

/-- The comparisons in the order of their codes, which start at one. -/
def named : List Comparison :=
  [eq, ne, lt, le, gt, ge, ult, ule, ugt, uge, equ, neu, ltu, leu, gtu, geu, num, nan]

/-- The comparison with the given code. -/
def ofCode (code : UInt8) : Comparison :=
  (invalid 0 :: named)[code.toNat]?.getD (invalid code)

/-- The spelling of a comparison. -/
def name : Comparison → String
  | eq => "eq"
  | ne => "ne"
  | lt => "lt"
  | le => "le"
  | gt => "gt"
  | ge => "ge"
  | ult => "ult"
  | ule => "ule"
  | ugt => "ugt"
  | uge => "uge"
  | equ => "equ"
  | neu => "neu"
  | ltu => "ltu"
  | leu => "leu"
  | gtu => "gtu"
  | geu => "geu"
  | num => "num"
  | nan => "nan"
  | invalid _ => "invalid"

end Comparison

/-! ### Atomic operations -/

/-- The operation of an atomic instruction. -/
inductive AtomicOp
  | and
  | or
  | xor
  | cas
  | exch
  | add
  | inc
  | dec
  | min
  | max
  | invalid (code : UInt8)
deriving DecidableEq, Repr

namespace AtomicOp

instance : Inhabited AtomicOp := ⟨invalid 0⟩

/-- The operations in the order of their codes, which start at one. -/
def named : List AtomicOp :=
  [.and, .or, .xor, .cas, .exch, .add, .inc, .dec, .min, .max]

/-- The operation with the given code. -/
def ofCode (code : UInt8) : AtomicOp :=
  (invalid 0 :: named)[code.toNat]?.getD (invalid code)

/-- The spelling of an operation. -/
def name : AtomicOp → String
  | .and => "and"
  | .or => "or"
  | .xor => "xor"
  | .cas => "cas"
  | .exch => "exch"
  | .add => "add"
  | .inc => "inc"
  | .dec => "dec"
  | .min => "min"
  | .max => "max"
  | invalid _ => "invalid"

end AtomicOp

/-! ### Branch modifiers -/

/-- What is known about a branch. -/
inductive BranchModifier
  | none
  | uniform
  | unknown (code : UInt8)
deriving DecidableEq, Repr

namespace BranchModifier

instance : Inhabited BranchModifier := ⟨none⟩

/-- The modifier with the given code. -/
def ofCode (code : UInt8) : BranchModifier :=
  if code = 0 then none else if code = 1 then uniform else unknown code

/-- The spelling of a modifier. -/
def name : BranchModifier → String
  | uniform => "uni"
  | none | unknown _ => ""

end BranchModifier

/-! ### Fence levels -/

/-- How far a memory fence reaches. -/
inductive FenceLevel
  | cta
  | gl
  | sys
  | invalid (code : UInt8)
deriving DecidableEq, Repr

namespace FenceLevel

instance : Inhabited FenceLevel := ⟨invalid 0⟩

/-- The level with the given code. -/
def ofCode (code : UInt8) : FenceLevel :=
  [invalid 0, cta, gl, sys][code.toNat]?.getD (invalid code)

/-- The spelling of a level. -/
def name : FenceLevel → String
  | cta => "cta"
  | gl => "gl"
  | sys => "sys"
  | invalid _ => "invalid"

end FenceLevel

/-! ### Linkage -/

/-- Whether a symbol is visible outside its module. -/
inductive Linkage
  | external
  | hidden
  | invalid (code : UInt8)
deriving DecidableEq, Repr

namespace Linkage

instance : Inhabited Linkage := ⟨external⟩

/-- The linkage with the given code. -/
def ofCode (code : UInt8) : Linkage :=
  if code = 0 then external else if code = 1 then hidden else invalid code

/-- The code of a linkage. -/
def code : Linkage → UInt8
  | external => 0
  | hidden => 1
  | invalid c => c

/-- The spelling of a linkage. -/
def name : Linkage → String
  | external => "external"
  | hidden => "private"
  | invalid _ => "invalid"

end Linkage

end KernelIR.Virtual
