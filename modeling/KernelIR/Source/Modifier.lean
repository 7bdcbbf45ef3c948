/-!
# Instruction modifiers

Rounding, saturation and the like: flags of an instruction that its mnemonic lists in a fixed order.
A set of modifiers is a word whose bit `j` stands for the `j`-th name; bits beyond the names print
as nothing but still tell two sets apart.
-/

namespace KernelIR.Source

/-- A set of modifiers. -/
structure Modifiers where
  word : BitVec 32
deriving DecidableEq, Repr

namespace Modifiers

/-- No modifier. -/
def empty : Modifiers := ⟨0⟩

instance : Inhabited Modifiers := ⟨empty⟩

/-- The names of the modifiers, in the order of their bits. -/
def allNames : List String :=
  ["rn", "rz", "rm", "rp", "rni", "rzi", "rmi", "rpi", "sat", "ftz", "approx", "full", "lo", "hi",
   "wide", "volatile", "sync", "aligned"]

/-- The set that holds only the modifier with bit `j`. -/
def single (j : Nat) : Modifiers := ⟨BitVec.ofNat 32 (Nat.pow 2 j)⟩

/-- Everything that is in one of two sets. -/
def union (m n : Modifiers) : Modifiers := ⟨m.word ||| n.word⟩

/-- The names of the modifiers in a set, in their fixed order. -/
def names (m : Modifiers) : List String :=
  allNames.zipIdx.filterMap fun (name, j) => if m.word.getLsbD j then some name else none

/-- The set that holds the modifier with the given name. -/
def ofName? (s : String) : Option Modifiers :=
  (allNames.findIdx? (· = s)).map single

end Modifiers

end KernelIR.Source
