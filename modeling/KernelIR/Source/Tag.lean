/-!
# Tags of source instructions and declarations

The closed vocabularies that qualify an instruction (address space, comparison, atomic operation,
fence level) or a declaration (attribute).  Each has a neutral member for "not given", whose name is
empty, and a member for a code beyond the vocabulary, whose name is `invalid`.
-/

namespace KernelIR.Source

/-! ### Address spaces -/

/-- The address space of a memory access. -/
inductive Space
  | generic
  | global
  | shared
  | perThread
  | param
  | const
  | unknown (code : UInt8)
deriving DecidableEq, Repr

namespace Space

instance : Inhabited Space := ⟨generic⟩

/-- The spaces that have a name, in the order of their codes, which start at one. -/
def named : List Space := [global, shared, perThread, param, const]

/-- The space with the given code. -/
def ofCode (code : UInt8) : Space :=
  (generic :: named)[code.toNat]?.getD (unknown code)

/-- The spelling of a space. -/
def name : Space → String
  | generic => ""
  | global => "global"
  | shared => "shared"
  | perThread => "local"
  | param => "param"
  | const => "const"
  | unknown _ => "invalid"

/-- The space with the given spelling. -/
def ofName? (s : String) : Option Space :=
  named.find? (·.name = s)

end Space

/-! ### Comparisons -/

/-- The comparison of a predicate-setting instruction.  The plain orders follow the sign of the
instruction's type, `lo` to `hs` are unsigned, and those with a final `u` hold of unordered
floats. -/
inductive Comparison
  | none
  | eq
  | ne
  | lt
  | le
  | gt
  | ge
  | lo
  | ls
  | hi
  | hs
  | equ
  | neu
  | ltu
  | leu
  | gtu
  | geu
  | num
  | nan
  | unknown (code : UInt8)
deriving DecidableEq, Repr

namespace Comparison

instance : Inhabited Comparison := ⟨none⟩

/-- The comparisons that have a name, in the order of their codes, which start at one. -/
def named : List Comparison :=
  [eq, ne, lt, le, gt, ge, lo, ls, hi, hs, equ, neu, ltu, leu, gtu, geu, num, nan]

/-- The comparison with the given code. -/
def ofCode (code : UInt8) : Comparison :=
  (none :: named)[code.toNat]?.getD (unknown code)

/-- The code of a comparison. -/
def code : Comparison → UInt8
  | unknown c => c
  | c => UInt8.ofNat ((none :: named).idxOf c)

/-- The spelling of a comparison. -/
def name : Comparison → String
  | none => ""
  | eq => "eq"
  | ne => "ne"
  | lt => "lt"
  | le => "le"
  | gt => "gt"
  | ge => "ge"
  | lo => "lo"
  | ls => "ls"
  | hi => "hi"
  | hs => "hs"
  | equ => "equ"
  | neu => "neu"
  | ltu => "ltu"
  | leu => "leu"
  | gtu => "gtu"
  | geu => "geu"
  | num => "num"
  | nan => "nan"
  | unknown _ => "invalid"

/-- The comparison with the given spelling. -/
def ofName? (s : String) : Option Comparison :=
  named.find? (·.name = s)

end Comparison

/-! ### Atomic operations -/

/-- The operation of an atomic instruction. -/
inductive AtomicOp
  | none
  | and
  | or
  | xor
  | cas
  | exch
  | add
  | inc
  | dec
  | min
  | max
  | unknown (code : UInt8)
deriving DecidableEq, Repr

namespace AtomicOp

instance : Inhabited AtomicOp := ⟨none⟩

/-- The operations that have a name, in the order of their codes, which start at one. -/
def named : List AtomicOp :=
  [.and, .or, .xor, .cas, .exch, .add, .inc, .dec, .min, .max]

/-- The operation with the given code. -/
def ofCode (code : UInt8) : AtomicOp :=
  (none :: named)[code.toNat]?.getD (unknown code)

/-- The code of an operation. -/
def code : AtomicOp → UInt8
  | unknown c => c
  | a => UInt8.ofNat ((none :: named).idxOf a)

/-- The spelling of an operation. -/
def name : AtomicOp → String
  | none => ""
  | .and => "and"
  | .or => "or"
  | .xor => "xor"
  | .cas => "cas"
  | .exch => "exch"
  | .add => "add"
  | .inc => "inc"
  | .dec => "dec"
  | .min => "min"
  | .max => "max"
  | unknown _ => "invalid"

/-- The operation with the given spelling. -/
def ofName? (s : String) : Option AtomicOp :=
  named.find? (·.name = s)

end AtomicOp

/-! ### Fence levels -/

/-- The level of a memory fence. -/
inductive FenceLevel
  | none
  | cta
  | gl
  | sys
  | unknown (code : UInt8)
deriving DecidableEq, Repr

namespace FenceLevel

instance : Inhabited FenceLevel := ⟨none⟩

/-- The levels that have a name, in the order of their codes, which start at one. -/
def named : List FenceLevel := [cta, gl, sys]

/-- The level with the given code. -/
def ofCode (code : UInt8) : FenceLevel :=
  (none :: named)[code.toNat]?.getD (unknown code)

/-- The spelling of a level. -/
def name : FenceLevel → String
  | none => ""
  | cta => "cta"
  | gl => "gl"
  | sys => "sys"
  | unknown _ => "invalid"

/-- The level with the given spelling. -/
def ofName? (s : String) : Option FenceLevel :=
  named.find? (·.name = s)

end FenceLevel

/-! ### Attributes -/

/-- The linking attribute of a global or a kernel. -/
inductive Attribute
  | none
  | external
  | visible
  | unknown (code : UInt8)
deriving DecidableEq, Repr

namespace Attribute

instance : Inhabited Attribute := ⟨none⟩

/-- The attribute with the given code. -/
def ofCode (code : UInt8) : Attribute :=
  [none, external, visible][code.toNat]?.getD (unknown code)

/-- The code of an attribute. -/
def code : Attribute → UInt8
  | none => 0
  | external => 1
  | visible => 2
  | unknown c => c

/-- The spelling of an attribute. -/
def name : Attribute → String
  | external => "extern"
  | visible => "visible"
  | none | unknown _ => ""

/-- The attribute with the given spelling, with or without a leading dot. -/
def ofName? (s : String) : Option Attribute :=
  if s = "" ∨ s = "none" then some none
  else if s = "extern" ∨ s = ".extern" then some external
  else if s = "visible" ∨ s = ".visible" then some visible
  else Option.none

end Attribute

end KernelIR.Source
