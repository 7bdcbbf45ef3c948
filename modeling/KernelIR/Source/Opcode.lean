/-!
# Opcodes of source instructions
-/

namespace KernelIR.Source

/-- The operation of a source instruction; `unknown` is a code that names none. -/
inductive Opcode
  | add
  | and
  | atom
  | bar
  | bra
  | call
  | cvt
  | div
  | exit
  | ld
  | ldu
  | mad
  | membar
  | mov
  | mul
  | not
  | or
  | rem
  | ret
  | selp
  | setp
  | shl
  | shr
  | st
  | sub
  | xor
  | unknown (code : UInt8)
deriving DecidableEq, Repr

namespace Opcode

instance : Inhabited Opcode := ⟨unknown 0⟩

/-- The opcodes that have a name, in the order of their codes, which start at one. -/
def named : List Opcode :=
  [.add, .and, .atom, .bar, .bra, .call, .cvt, .div, .exit, .ld, .ldu, .mad, .membar, .mov, .mul,
   .not, .or, .rem, .ret, .selp, .setp, .shl, .shr, .st, .sub, .xor]

/-- The opcode with the given code. -/
def ofCode (code : UInt8) : Opcode :=
  (unknown 0 :: named)[code.toNat]?.getD (unknown code)

/-- The spelling of an opcode. -/
def name : Opcode → String
  | .add => "add"
  | .and => "and"
  | .atom => "atom"
  | .bar => "bar"
  | .bra => "bra"
  | .call => "call"
  | .cvt => "cvt"
  | .div => "div"
  | .exit => "exit"
  | .ld => "ld"
  | .ldu => "ldu"
  | .mad => "mad"
  | .membar => "membar"
  | .mov => "mov"
  | .mul => "mul"
  | .not => "not"
  | .or => "or"
  | .rem => "rem"
  | .ret => "ret"
  | .selp => "selp"
  | .setp => "setp"
  | .shl => "shl"
  | .shr => "shr"
  | .st => "st"
  | .sub => "sub"
  | .xor => "xor"
  | unknown _ => "invalid"

/-- The opcode with the given spelling. -/
def ofName? (s : String) : Option Opcode :=
  named.find? (·.name = s)

/-- Whether a bare identifier among the operands names a label. -/
def takesLabel : Opcode → Bool
  | bra | call => true
  | _ => false

end Opcode

end KernelIR.Source
