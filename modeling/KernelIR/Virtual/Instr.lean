import KernelIR.Text.Joined
import KernelIR.Virtual.Defect
import KernelIR.Virtual.Tag

/-!
# Virtual instructions

One record serves all opcodes.  The shape of the opcode decides which of its slots are in use:

* `unary`: the destination and the first slot (`a`),
* `binary`, `comparison`: also the second slot (`b`),
* `atomic`: also the third slot (`c`), if set,
* `store`: the first slot (the address) and the second (`a`),
* `branch`: the first slot (the target),
* `call`: the first slot (the target), the returns and the extra operands (the arguments),
* `phi`, `psi`: the destination and the extra operands (the sources), each with the block or
  predicate that selects it.

The guard is always in use and the first of the reads.  A setter refuses a slot that the shape
lacks.
-/

namespace KernelIR.Virtual

/-- A virtual instruction. -/
structure Instr where
  opcode : Opcode
  comparison : Comparison := default
  atomic : AtomicOp := default
  modifier : BranchModifier := default
  level : FenceLevel := default
  /-- its number within the function -/
  id : Nat := 0
  /-- the number of the block that it belongs to -/
  block : Option Nat := none
  guard : Predicate := .always
  destination : Option Operand := none
  first : Option Operand := none
  second : Option Operand := none
  third : Option Operand := none
  returns : List (Option Operand) := []
  extra : List (Option Operand) := []
  /-- the block of each source of a `phi` -/
  sourceBlocks : List Int := []
  /-- the predicate of each source of a `psi` -/
  sourcePredicates : List Predicate := []
deriving DecidableEq, Repr, Inhabited

namespace Instr

/-- The shape of an instruction. -/
def shape (i : Instr) : Shape := i.opcode.shape

/-- Makes an instruction without operands.  The opcode must be a valid one. -/
def make (op : Opcode) (id : Nat) (block : Option Nat) : Except Defect Instr :=
  if op.shape = .invalid then .error (.invalidOpcode op.code) else .ok { opcode := op, id, block }

/-- Drops all operands. -/
def clear (i : Instr) : Instr :=
  { i with
    guard := .always, destination := none, first := none, second := none, third := none
    returns := [], extra := [], sourceBlocks := [], sourcePredicates := [] }

/-- As many entries as asked for: the first ones of a list, and default ones behind them if it is
too short. -/
def copied {α : Type} [Inhabited α] (n : Nat) (xs : List α) : List α :=
  (xs ++ List.replicate n default).take n

/-- A copy with all operands, the number and the block.  Only a `phi` or `psi` has something copied
that selects its sources, one entry for each source. -/
def clone (i : Instr) : Instr :=
  { i with
    sourceBlocks := if i.shape = .phi then copied i.extra.length i.sourceBlocks else []
    sourcePredicates := if i.shape = .psi then copied i.extra.length i.sourcePredicates else [] }

/-! ### Reads and writes -/

/-- The slots that are read behind the guard, apart from lists of operands.  An unset `c` of an
atomic is none of them. -/
def fixedReads (i : Instr) : List (Option Operand) :=
  let slots := [i.first, i.second, i.third].take i.shape.fixedReads
  if i.shape = .atomic ∧ i.third = none then slots.take 2 else slots

/-- The operands that are read behind the guard. -/
def operandsRead (i : Instr) : List (Option Operand) :=
  i.fixedReads ++ i.extra

/-- The operands that are read, the guard first. -/
def reads (i : Instr) : List (Option Operand) :=
  some (.predicate i.guard) :: i.operandsRead

/-- The operands that are written. -/
def writes (i : Instr) : List (Option Operand) :=
  if i.shape = .call then i.returns
  else if i.shape.hasDestination then [i.destination]
  else []

/-! ### Slots -/

/-- Refuses a shape that is none of the given ones. -/
def need (i : Instr) (slot : Slot) (shapes : List Shape) : Except Defect Unit :=
  if i.shape ∈ shapes then .ok () else .error (.noSlot i.opcode slot)

/-- The destination; that of a store is its address. -/
def getDestination (i : Instr) : Except Defect (Option Operand) :=
  if i.shape = .store then .ok i.first
  else if i.shape.hasDestination then .ok i.destination
  else .error (.noDestination i.opcode)

/-- Sets the destination; that of a store is its address.  The destination of a `phi` or `psi` must
be a register. -/
def setDestination (i : Instr) (x : Option Operand) : Except Defect Instr :=
  match i.shape with
  | .store => .ok { i with first := x }
  | .phi | .psi =>
    match x with
    | some x =>
      if x.isRegister then .ok { i with destination := some x }
      else .error (.notRegister i.opcode x)
    | none => .ok { i with destination := none }
  | .unary | .binary | .comparison | .atomic => .ok { i with destination := x }
  | .bare | .branch | .call | .invalid => .error (.noDestination i.opcode)

/-- The operand `a`. -/
def getA (i : Instr) : Except Defect (Option Operand) :=
  match i.shape with
  | .unary | .binary | .comparison | .atomic => .ok i.first
  | .store => .ok i.second
  | .bare | .branch | .call | .phi | .psi | .invalid => .error (.noFirst i.opcode)

/-- Sets the operand `a`. -/
def setA (i : Instr) (x : Option Operand) : Except Defect Instr :=
  match i.shape with
  | .unary | .binary | .comparison | .atomic => .ok { i with first := x }
  | .store => .ok { i with second := x }
  | .bare | .branch | .call | .phi | .psi | .invalid => .error (.noFirst i.opcode)

/-- The operand `b`. -/
def getB (i : Instr) : Except Defect (Option Operand) := do
  i.need .b [.binary, .comparison, .atomic]
  return i.second

/-- Sets the operand `b`. -/
def setB (i : Instr) (x : Option Operand) : Except Defect Instr := do
  i.need .b [.binary, .comparison, .atomic]
  return { i with second := x }

/-- The operand `c`. -/
def getC (i : Instr) : Except Defect (Option Operand) := do
  i.need .c [.atomic]
  return i.third

/-- Sets the operand `c`. -/
def setC (i : Instr) (x : Option Operand) : Except Defect Instr := do
  i.need .c [.atomic]
  return { i with third := x }

/-- The target of a branch or call. -/
def getTarget (i : Instr) : Except Defect (Option Operand) := do
  i.need .target [.branch, .call]
  return i.first

/-- Sets the target of a branch or call. -/
def setTarget (i : Instr) (x : Option Operand) : Except Defect Instr := do
  i.need .target [.branch, .call]
  return { i with first := x }

/-- The key of the block that a branch goes to. -/
def targetBlock (i : Instr) : Except Defect Nat := do
  i.need .target [.branch]
  match i.first with
  | some (.address (some (.block key _))) => return key
  | some (.address t) => throw (.notBlock i.opcode (.address t))
  | x => throw (.notAddress i.opcode x)

/-- Whether a branch is always taken. -/
def isUnconditional (i : Instr) : Except Defect Bool := do
  i.need .unconditional [.branch]
  return i.guard.isAlways

/-- Sets the guard. -/
def setGuard (i : Instr) (p : Predicate) : Instr :=
  { i with guard := p }

/-! ### Calls -/

/-- Adds an operand that a call returns into. -/
def addReturn (i : Instr) (x : Option Operand) : Except Defect Instr := do
  i.need .returned [.call]
  return { i with returns := i.returns ++ [x] }

/-- Adds an argument of a call. -/
def addArgument (i : Instr) (x : Option Operand) : Except Defect Instr := do
  i.need .argument [.call]
  return { i with extra := i.extra ++ [x] }

/-- The operands that a call returns into. -/
def getReturns (i : Instr) : Except Defect (List (Option Operand)) := do
  i.need .returned [.call]
  return i.returns

/-- The arguments of a call. -/
def getArguments (i : Instr) : Except Defect (List (Option Operand)) := do
  i.need .argument [.call]
  return i.extra

/-! ### Sources of `phi` and `psi` -/

/-- Adds a source that is selected by the predecessor block. -/
def addPhiSource (i : Instr) (r : Option Register) (block : Int) : Except Defect Instr := do
  i.need .phiSource [.phi]
  return { i with
    extra := i.extra ++ [some (.register r)], sourceBlocks := i.sourceBlocks ++ [block] }

/-- Removes the first source that is selected by the block, if there is one. -/
def removePhiSource (i : Instr) (block : Int) : Except Defect Instr := do
  i.need .phiSource [.phi]
  match i.sourceBlocks.idxOf? block with
  | some j =>
    return { i with extra := i.extra.eraseIdx j, sourceBlocks := i.sourceBlocks.eraseIdx j }
  | none => return i

/-- Adds a source that is selected by a predicate. -/
def addPsiSource (i : Instr) (p : Predicate) (r : Option Register) : Except Defect Instr := do
  i.need .psiSource [.psi]
  return { i with
    extra := i.extra ++ [some (.register r)], sourcePredicates := i.sourcePredicates ++ [p] }

/-- Removes the first source that is selected by the predicate, if there is one. -/
def removePsiSource (i : Instr) (p : Predicate) : Except Defect Instr := do
  i.need .psiSource [.psi]
  match i.sourcePredicates.idxOf? p with
  | some j =>
    return { i with extra := i.extra.eraseIdx j, sourcePredicates := i.sourcePredicates.eraseIdx j }
  | none => return i

/-! ### Classes -/

/-- Whether the instruction reads memory. -/
def isLoad (i : Instr) : Bool := i.opcode = .ld ∨ i.opcode = .atom

/-- Whether the instruction writes memory. -/
def isStore (i : Instr) : Bool := i.opcode = .st ∨ i.opcode = .atom

/-- Whether the instruction transfers control to a target. -/
def isBranch (i : Instr) : Bool := i.opcode = .bra ∨ i.opcode = .call

/-- Whether the instruction calls a function. -/
def isCall (i : Instr) : Bool := i.opcode = .call

/-- Whether the instruction has one operand. -/
def isUnary (i : Instr) : Bool := i.shape = .unary

/-- Whether the instruction has at least two operands and a destination. -/
def isBinary (i : Instr) : Bool :=
  i.shape = .binary ∨ i.shape = .comparison ∨ i.shape = .atomic

/-! ### Texts -/

/-- The opcode with its tags. -/
def mnemonic (i : Instr) : String :=
  i.opcode.name ++
    match i.opcode with
    | .setp => "." ++ i.comparison.name
    | .atom => "." ++ i.atomic.name
    | .membar => "." ++ i.level.name
    | .bra => if i.modifier = .none then "" else "." ++ i.modifier.name
    | _ => ""

/-- The text of an instruction: the guard unless it always holds, the mnemonic, what is written and
what is read. -/
def text (i : Instr) : String :=
  let guard := if i.guard.isAlways then "" else i.guard.text ++ " "
  let operands := (i.writes ++ i.operandsRead).map slotText
  guard ++ i.mnemonic ++ if operands.isEmpty then "" else " " ++ Text.joined ", " operands

end Instr

end KernelIR.Virtual
