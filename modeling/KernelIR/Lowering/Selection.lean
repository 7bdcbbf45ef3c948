import KernelIR.Lowering.Fault
import KernelIR.Virtual.Tag

/-!
# Selection

What a source instruction becomes, as far as its mnemonic alone decides: the type of a value, the
opcode, the tags, and which of the operands are taken over (`Plan`).
-/

namespace KernelIR.Lowering

open Source (DataType)
open Virtual (ValueType)

/-! ### Types and linkage -/

/-- The integer type of a width. -/
def integerType : Source.Width → ValueType
  | .w8 => .i8
  | .w16 => .i16
  | .w32 => .i32
  | .w64 => .i64

/-- The value type of the same class and width.  Half floats have none. -/
def valueType? : DataType → Option ValueType
  | .pred => some .i1
  | .bits w | .signed w | .unsigned w => some (integerType w)
  | .float .single => some .f32
  | .float .double => some .f64
  | .float .half | .missing | .unknown _ => none

/-- The value type of the same class and width. -/
def lowerType (t : DataType) : Except Cause ValueType :=
  match valueType? t with
  | some v => .ok v
  | none => .error (.badType t)

/-- External symbols stay external; all others become hidden. -/
def lowerLinkage (a : Source.Attribute) : Virtual.Linkage :=
  if a = .external then .external else .hidden

/-! ### Tags -/

/-- The order that a plain comparison tests: unsigned if the type is a whole number without sign. -/
def bySignedness (t : DataType) (signed unsigned : Virtual.Comparison) : Virtual.Comparison :=
  if t.isInt ∧ !t.isSigned then unsigned else signed

/-- The relation that a comparison of values of a type tests. -/
def lowerComparison (c : Source.Comparison) (t : DataType) : Except Cause Virtual.Comparison :=
  match c with
  | .eq => .ok .eq
  | .ne => .ok .ne
  | .lt => .ok (bySignedness t .lt .ult)
  | .le => .ok (bySignedness t .le .ule)
  | .gt => .ok (bySignedness t .gt .ugt)
  | .ge => .ok (bySignedness t .ge .uge)
  | .lo => .ok .ult
  | .ls => .ok .ule
  | .hi => .ok .ugt
  | .hs => .ok .uge
  | .equ => .ok .equ
  | .neu => .ok .neu
  | .ltu => .ok .ltu
  | .leu => .ok .leu
  | .gtu => .ok .gtu
  | .geu => .ok .geu
  | .num => .ok .num
  | .nan => .ok .nan
  | .none | .unknown _ => .error (.badComparison c)

/-- The operation of an atomic instruction. -/
def lowerAtomic (a : Source.AtomicOp) : Except Cause Virtual.AtomicOp :=
  match a with
  | .and => .ok .and
  | .or => .ok .or
  | .xor => .ok .xor
  | .cas => .ok .cas
  | .exch => .ok .exch
  | .add => .ok .add
  | .inc => .ok .inc
  | .dec => .ok .dec
  | .min => .ok .min
  | .max => .ok .max
  | .none | .unknown _ => .error (.badAtomic a)

/-- The level of a fence. -/
def lowerLevel (l : Source.FenceLevel) : Except Cause Virtual.FenceLevel :=
  match l with
  | .cta => .ok .cta
  | .gl => .ok .gl
  | .sys => .ok .sys
  | .none | .unknown _ => .error (.badLevel l)

/-! ### Opcodes -/

/-- One of three opcodes by the class of a type: float, signed, or neither. -/
def byClass (t : DataType) (float signed unsigned : Virtual.Opcode) : Virtual.Opcode :=
  if t.isFloat then float else if t.isSigned then signed else unsigned

/-- The conversion to an integer type of `dstBytes` bytes: truncation from a larger type, a bit cast
from one of equal size, and `extend` from a smaller one. -/
def integerConversion (src : DataType) (dstBytes : Nat) (extend : Virtual.Opcode) :
    Virtual.Opcode :=
  if dstBytes < src.bytes then .trunc
  else if src.bytes = dstBytes then .bitcast
  else extend

/-- The conversion to `dst` from `src`, both whole numbers or floats. -/
def conversionOf (dst src : DataType) : Virtual.Opcode :=
  if dst.isFloat then
    if src.isFloat then
      if src.bytes = dst.bytes then .bitcast
      else if src.bytes < dst.bytes then .fpext
      else .fptrunc
    else if src.isSigned then .sitofp
    else .uitofp
  else if dst.isSigned then
    if src.isFloat then .fptosi
    else integerConversion src dst.bytes (if src.isSigned then .sext else .zext)
  else
    if src.isFloat then .fptoui
    else integerConversion src dst.bytes .zext

/-- Whether values of a type can be converted. -/
def convertible (t : DataType) : Bool := t.isFloat || t.isInt

/-- The conversion to `dst` from `src`. -/
def conversion (dst src : DataType) : Except Cause Virtual.Opcode :=
  if !convertible dst then .error (.noConversion dst)
  else if !convertible src then .error (.noConversion src)
  else .ok (conversionOf dst src)

/-! ### Plans -/

/-- What an instruction becomes. -/
inductive Plan
  /-- an instruction without operands -/
  | bare (op : Virtual.Opcode)
  | fence (level : Virtual.FenceLevel)
  | branch (modifier : Virtual.BranchModifier)
  /-- an instruction with the operands `d` and `a` -/
  | unary (op : Virtual.Opcode)
  /-- an instruction with the operands `d`, `a` and `b` -/
  | binary (op : Virtual.Opcode)
  | compare (comparison : Virtual.Comparison)
  /-- an instruction with the operands `d`, `a`, `b` and possibly `c` -/
  | atomic (operation : Virtual.AtomicOp)
  /-- an exclusive or of the operand `a` with all ones -/
  | complement
deriving DecidableEq, Repr

/-- What an instruction becomes, as its mnemonic decides. -/
def plan (m : Source.Mnemonic) : Except Cause Plan :=
  match m.opcode with
  | .bra => .ok (.branch (if m.uniform then .uniform else .none))
  | .ret | .exit => .ok (.bare .ret)
  | .bar => .ok (.bare .bar)
  | .membar => (lowerLevel m.level).map .fence
  | .setp => (lowerComparison m.comparison m.type).map .compare
  | .atom => (lowerAtomic m.atomic).map .atomic
  | .shr => .ok (.binary (if m.type.isSigned then .ashr else .lshr))
  | .not => .ok .complement
  | .add => .ok (.binary .add)
  | .and => .ok (.binary .and)
  | .or => .ok (.binary .or)
  | .shl => .ok (.binary .shl)
  | .sub => .ok (.binary .sub)
  | .xor => .ok (.binary .xor)
  | .mul => .ok (.binary (if m.type.isFloat then .fmul else .mul))
  | .div => .ok (.binary (byClass m.type .fdiv .sdiv .udiv))
  | .rem => .ok (.binary (byClass m.type .frem .srem .urem))
  | .ld | .ldu => .ok (.unary .ld)
  | .mov => .ok (.unary .bitcast)
  | .st => .ok (.unary .st)
  | .cvt =>
    if m.modifiers = .empty then (conversion m.type m.sourceType).map .unary
    else .error .noInstructionRule
  | _ => .error .noInstructionRule

/-- The literal whose bits at the width of a type are all ones. -/
def allOnes (t : ValueType) : BitVec 64 :=
  if 64 ≤ t.bits then BitVec.allOnes 64 else BitVec.ofNat 64 (Nat.pow 2 t.bits.toNat - 1)

end KernelIR.Lowering
