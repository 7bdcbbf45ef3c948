import KernelIR.Source.Instruction
import KernelIR.Source.LineError
import KernelIR.Text.Joined

/-!
# Reading a mnemonic

A mnemonic is an opcode and suffixes, all joined by points.  A suffix is tried in turn as the tag
that the opcode takes (one comparison, atomic operation or fence level), as `uni`, as an address
space, as a type and as a modifier.  Of two address spaces the later counts; of types there may be
two.
-/

namespace KernelIR.Source

/-- A mnemonic that is being read: what its suffixes said so far, and the types among them. -/
structure MnemonicDraft where
  mnemonic : Mnemonic
  types : List DataType := []

namespace MnemonicDraft

/-- The tag that a suffix spells, if the opcode takes one of that kind and has none yet. -/
def tag? (m : Mnemonic) (s : String) : Option Mnemonic :=
  if m.opcode = .setp ∧ m.comparison = .none then
    (Comparison.ofName? s).map ({ m with comparison := · })
  else if m.opcode = .atom ∧ m.atomic = .none then
    (AtomicOp.ofName? s).map ({ m with atomic := · })
  else if m.opcode = .membar ∧ m.level = .none then
    (FenceLevel.ofName? s).map ({ m with level := · })
  else none

/-- Marks a branch, return or call as uniform. -/
def uniform? (m : Mnemonic) (s : String) : Option Mnemonic :=
  if s = "uni" ∧ (m.opcode = .bra ∨ m.opcode = .ret ∨ m.opcode = .call) then
    some { m with uniform := true }
  else none

/-- The address space that a suffix spells. -/
def space? (m : Mnemonic) (s : String) : Option Mnemonic :=
  (Space.ofName? s).map ({ m with space := · })

/-- The modifier that a suffix spells. -/
def modifier? (m : Mnemonic) (s : String) : Option Mnemonic :=
  (Modifiers.ofName? s).map fun n => { m with modifiers := m.modifiers.union n }

/-- Takes one suffix in. -/
def add (draft : MnemonicDraft) (suffix : List Char) : Except LineError MnemonicDraft :=
  let s := String.ofList suffix
  let m := draft.mnemonic
  match (tag? m s).or ((uniform? m s).or (space? m s)) with
  | some m => .ok { draft with mnemonic := m }
  | none =>
    match DataType.ofName? s with
    | some t => .ok { draft with types := draft.types ++ [t] }
    | none =>
      match modifier? m s with
      | some m => .ok { draft with mnemonic := m }
      | none => .error (.unknownSuffix m.opcode suffix)

/-- The finished mnemonic: the first type is its own, the second the one it converts from. -/
def finish (draft : MnemonicDraft) : Except LineError Mnemonic :=
  let m := draft.mnemonic
  match draft.types with
  | [] => .ok m
  | [t] => .ok { m with type := t }
  | [t, s] => .ok { m with type := t, sourceType := s }
  | ts => .error (.tooManyTypes m.opcode ts)

end MnemonicDraft

/-- Reads a mnemonic. -/
def mnemonic? (cs : List Char) : Except LineError Mnemonic :=
  match Text.splitAt '.' cs with
  | [] => .error .opcodeExpected
  | name :: suffixes =>
    match Opcode.ofName? (String.ofList name) with
    | none => .error (.unknownOpcode name)
    | some op => do
      let draft ← suffixes.foldlM MnemonicDraft.add { mnemonic := { opcode := op } }
      draft.finish

end KernelIR.Source
