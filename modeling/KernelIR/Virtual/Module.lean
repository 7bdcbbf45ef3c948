import KernelIR.Virtual.Constant
import KernelIR.Virtual.Instr

/-!
# Virtual modules

A module holds globals, constants and functions; a function holds arguments, registers and blocks,
of which the first is its entry and the last its exit; a block holds instructions.
-/

namespace KernelIR.Virtual

/-- A block of instructions. -/
structure Block where
  /-- its number within the function -/
  id : Nat
  name : String
  code : List Instr := []
deriving DecidableEq, Repr, Inhabited

/-- A function. -/
structure Function where
  name : String
  linkage : Linkage
  arguments : List Argument := []
  registers : List Register := []
  blocks : List Block := []
deriving DecidableEq, Repr, Inhabited

/-- A global variable. -/
structure Global where
  name : String
  type : Option ValueType
  linkage : Linkage
  init : Option Constant := none
deriving DecidableEq, Repr, Inhabited

/-- A virtual module. -/
structure Module where
  name : String
  globals : List Global := []
  /-- its constants, of which one may be left unset -/
  constants : List (Option Constant) := []
  functions : List Function := []
deriving DecidableEq, Repr, Inhabited

/-- The number of bytes that a global occupies: the size of its type, or that of a larger array
which it starts with.  A global without a type has no size. -/
def Global.size? (g : Global) : Option Int :=
  g.type.map fun t =>
    match g.init with
    | some (.array _ data) => max t.bytes data.length
    | _ => t.bytes

/-- The name of the block where a function starts. -/
def Function.entryName (f : Function) : String :=
  (f.blocks.head?.map Block.name).getD ""

/-- The name of the block where a function ends. -/
def Function.exitName (f : Function) : String :=
  (f.blocks.getLast?.map Block.name).getD ""

/-- The number of instructions in the blocks of a function. -/
def Function.length (f : Function) : Nat :=
  f.blocks.foldr (fun b n => b.code.length + n) 0

/-- All instructions of a function in layout order. -/
def Function.code (f : Function) : List Instr :=
  f.blocks.flatMap Block.code

theorem Function.length_eq (f : Function) : f.length = f.code.length := by
  unfold length code
  induction f.blocks with
  | nil => rfl
  | cons b bs ih => rw [List.foldr_cons, List.flatMap_cons, List.length_append, ih]

end KernelIR.Virtual
