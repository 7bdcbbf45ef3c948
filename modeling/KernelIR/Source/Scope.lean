import KernelIR.Source.DataType

/-!
# The scope of a kernel

What the lines of a kernel may refer to: its parameters, its declared registers, and a number for
every register name met so far.  A name that was never declared still gets a number, so that its use
can be reported later.  `Scope.intern` keeps the number of a known name and otherwise gives the
successor of the largest number in use, be it given to a name or carried by a record that was
declared by hand.
-/

namespace KernelIR.Source

/-- A parameter of a kernel. -/
structure Param where
  name : String
  type : DataType
deriving DecidableEq, Repr, Inhabited

/-- A declared register. -/
structure Register where
  id : UInt32
  type : DataType
  name : String
deriving DecidableEq, Repr, Inhabited

/-- What the lines of a kernel may refer to. -/
structure Scope where
  params : List Param := []
  registers : List Register := []
  /-- the names met so far, the latest first, with their numbers -/
  names : List (String × UInt32) := []
  /-- the number that was given last -/
  lastId : UInt32 := 0
deriving DecidableEq, Repr, Inhabited

namespace Scope

/-- The number of a known name. -/
def idOf? (s : Scope) (name : String) : Option UInt32 :=
  s.names.lookup name

/-- The number of a name; a new name gets a new number. -/
def intern (s : Scope) (name : String) : UInt32 × Scope :=
  match s.idOf? name with
  | some id => (id, s)
  | none =>
    let id := s.registers.foldl (fun last r => max last r.id) s.lastId + 1
    (id, { s with names := (name, id) :: s.names, lastId := id })

/-- Whether a name is a parameter. -/
def isParam (s : Scope) (name : String) : Bool :=
  s.params.any (·.name = name)

/-- Declares a parameter. -/
def addParam (s : Scope) (name : String) (type : DataType) : Scope :=
  { s with params := s.params ++ [⟨name, type⟩] }

/-- Declares a register under a name that lines may use. -/
def addRegister (s : Scope) (name : String) (type : DataType) : Scope :=
  let (id, s) := s.intern name
  { s with registers := s.registers ++ [⟨id, type, name⟩] }

/-- Declares a register by its bare record, whose name stays unknown to the lines. -/
def addRecord (s : Scope) (r : Register) : Scope :=
  { s with registers := s.registers ++ [r] }

end Scope

end KernelIR.Source
