import KernelIR.Lowering.Scope

/-!
# Lowering operands

The image of a source operand: a declared register becomes its virtual register, a literal keeps its
bits, a symbol becomes an argument, a global or a block, a special register the register that stands
for it, and `_` a register of its own.
-/

namespace KernelIR.Lowering

open Virtual (Operand Predicate)

namespace Scope

/-- The virtual register of a declared source register. -/
def register (s : Scope) (r : Source.RegisterUse) : Except Cause Virtual.Register :=
  match s.registers.lookup r.id with
  | some x => .ok x
  | none =>
    .error (.undeclaredRegister
      (if r.name = "" then s.stem ++ Text.decimal r.id.toNat else r.name))

/-- The address of a block. -/
def blockAddress (label : String) (id : Nat) : Operand :=
  .address (some (.block id label))

/-- What a symbol refers to: a parameter if it is marked as one, else a global, else a block. -/
def symbol (s : Scope) (name : String) (isParam : Bool) : Except Cause Operand :=
  if isParam then
    match s.arguments.find? (·.name = name) with
    | some a => .ok (.argument a)
    | none => .error (.undeclaredArgument name)
  else
    match s.globals.findIdx? (·.name = name) with
    | some j => .ok (.address (some (.global j name)))
    | none =>
      match s.blocks.lookup name with
      | some id => .ok (blockAddress name id)
      | none => .error (.undeclaredGlobal name)

/-- The block that a label refers to. -/
def label (s : Scope) (name : String) : Except Cause Operand :=
  match s.blocks.lookup name with
  | some id => .ok (blockAddress name id)
  | none => .error (.undeclaredBlock name)

/-- The type of a literal; one without a type counts as 64 bits. -/
def literalType (t : Source.DataType) : Except Cause Virtual.ValueType :=
  if t = .missing then .ok .i64 else lowerType t

/-- The image of an operand. -/
def operand (s : Scope) (x : Source.Operand) : Lower Operand :=
  match x.form with
  | .register r => do return .register (some (← orFail (s.register r)))
  | .indirect r offset => do return .indirect (some (← orFail (s.register r))) offset
  | .immediate bits => do return .immediate bits (some (← orFail (literalType x.type)))
  | .address name offset isParam =>
    if offset ≠ 0 then fail (.addressWithOffset x) else orFail (s.symbol name isParam)
  | .label name => orFail (s.label name)
  | .special r lane => do return .register (some (← specialRegister r lane))
  | .sink => do return .register (some (← newRegister .i64 ""))
  | .unknown _ => fail (.noOperandRule (some x))

/-- The image of an operand that must be there. -/
def slot (s : Scope) : Option Source.Operand → Lower Operand
  | some x => s.operand x
  | none => fail (.noOperandRule none)

/-- The image of a guard. -/
def guard (s : Scope) : Source.Guard → Except Cause Predicate
  | .always => .ok .always
  | .never => .ok .never
  | .straight r | .unknown _ r => (s.register r).map fun x => ⟨some x, .straight⟩
  | .inverse r => (s.register r).map fun x => ⟨some x, .inverse⟩

end Scope

end KernelIR.Lowering
