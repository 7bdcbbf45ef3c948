/-!
# Virtual opcodes

An opcode says what an instruction does, and its shape says which operands it has.
-/

namespace KernelIR.Virtual

/-! ### Shapes -/

/-- Which operands an instruction has besides its guard. -/
inductive Shape
  /-- none -/
  | bare
  /-- a destination and `a` -/
  | unary
  /-- a destination, `a` and `b` -/
  | binary
  /-- as `binary` -/
  | comparison
  /-- as `binary`, and possibly `c` -/
  | atomic
  /-- an address and `a` -/
  | store
  /-- a target -/
  | branch
  /-- a target, returns and arguments -/
  | call
  /-- a destination and sources by predecessor block -/
  | phi
  /-- a destination and sources by predicate -/
  | psi
  | invalid
deriving DecidableEq, Repr, Inhabited

namespace Shape

/-- The spelling of a shape. -/
def name : Shape → String
  | bare => "bare"
  | unary => "unary"
  | binary => "binary"
  | comparison => "comparison"
  | atomic => "atomic"
  | store => "store"
  | branch => "branch"
  | call => "call"
  | phi => "phi"
  | psi => "psi"
  | invalid => "invalid"

/-- The number of operands that are read behind the guard, apart from lists of operands. -/
def fixedReads : Shape → Nat
  | unary | branch | call => 1
  | binary | comparison | store => 2
  | atomic => 3
  | bare | phi | psi | invalid => 0

/-- Whether there is a destination. -/
def hasDestination : Shape → Bool
  | unary | binary | comparison | atomic | phi | psi => true
  | bare | store | branch | call | invalid => false

end Shape

/-! ### Opcodes -/

/-- What a virtual instruction does. -/
inductive Opcode
  | add
  | and
  | ashr
  | atom
  | bar
  | bitcast
  | bra
  | call
  | fdiv
  | fmul
  | fpext
  | fptosi
  | fptoui
  | fptrunc
  | frem
  | launch
  | ld
  | lshr
  | membar
  | mul
  | or
  | ret
  | setp
  | sext
  | sdiv
  | shl
  | sitofp
  | srem
  | st
  | sub
  | trunc
  | udiv
  | uitofp
  | urem
  | xor
  | zext
  | phi
  | psi
  | invalid (code : UInt8)
deriving DecidableEq, Repr

namespace Opcode

instance : Inhabited Opcode := ⟨invalid 0⟩

/-- The opcodes in the order of their codes, which start at one. -/
def named : List Opcode :=
  [.add, .and, .ashr, .atom, .bar, .bitcast, .bra, .call, .fdiv, .fmul, .fpext, .fptosi, .fptoui,
    .fptrunc, .frem, .launch, .ld, .lshr, .membar, .mul, .or, .ret, .setp, .sext, .sdiv, .shl,
    .sitofp, .srem, .st, .sub, .trunc, .udiv, .uitofp, .urem, .xor, .zext, .phi, .psi]

/-- The opcode with the given code. -/
def ofCode (code : UInt8) : Opcode :=
  (invalid 0 :: named)[code.toNat]?.getD (invalid code)

/-- The code of an opcode. -/
def code : Opcode → UInt8
  | invalid c => c
  | op => UInt8.ofNat ((invalid 0 :: named).idxOf op)

/-- The spelling of an opcode. -/
def name : Opcode → String
  | .add => "add"
  | .and => "and"
  | .ashr => "ashr"
  | .atom => "atom"
  | .bar => "bar"
  | .bitcast => "bitcast"
  | .bra => "bra"
  | .call => "call"
  | .fdiv => "fdiv"
  | .fmul => "fmul"
  | .fpext => "fpext"
  | .fptosi => "fptosi"
  | .fptoui => "fptoui"
  | .fptrunc => "fptrunc"
  | .frem => "frem"
  | .launch => "launch"
  | .ld => "ld"
  | .lshr => "lshr"
  | .membar => "membar"
  | .mul => "mul"
  | .or => "or"
  | .ret => "ret"
  | .setp => "setp"
  | .sext => "sext"
  | .sdiv => "sdiv"
  | .shl => "shl"
  | .sitofp => "sitofp"
  | .srem => "srem"
  | .st => "st"
  | .sub => "sub"
  | .trunc => "trunc"
  | .udiv => "udiv"
  | .uitofp => "uitofp"
  | .urem => "urem"
  | .xor => "xor"
  | .zext => "zext"
  | .phi => "phi"
  | .psi => "psi"
  | invalid _ => "invalid"

/-- The shape that an opcode gives to its instructions. -/
def shape : Opcode → Shape
  | .add | .and | .ashr | .fdiv | .fmul | .frem | .lshr | .mul | .or | .sdiv | .shl | .srem | .sub
  | .udiv | .urem | .xor => .binary
  | .bitcast | .fpext | .fptosi | .fptoui | .fptrunc | .ld | .sext | .sitofp | .trunc | .uitofp
  | .zext => .unary
  | .bar | .launch | .membar | .ret => .bare
  | .atom => .atomic
  | .bra => .branch
  | .call => .call
  | .setp => .comparison
  | .st => .store
  | .phi => .phi
  | .psi => .psi
  | invalid _ => .invalid

end Opcode

end KernelIR.Virtual
