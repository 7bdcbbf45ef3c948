/-!
# Special registers

The read-only registers that describe the running thread.  Four of them are vectors, whose lanes are
named `x`, `y`, `z` and `w`.
-/

namespace KernelIR.Source

/-- A special register. -/
inductive Special
  | tid
  | ntid
  | laneid
  | warpid
  | nwarpid
  | warpsize
  | ctaid
  | nctaid
  | smid
  | nsmid
  | gridid
  | clock
  | clock64
  | unknown (code : UInt8)
deriving DecidableEq, Repr

namespace Special

instance : Inhabited Special := ⟨tid⟩

/-- The registers that have a name, in the order of their codes, which start at zero. -/
def named : List Special :=
  [tid, ntid, laneid, warpid, nwarpid, warpsize, ctaid, nctaid, smid, nsmid, gridid, clock, clock64]

/-- The register with the given code. -/
def ofCode (code : UInt8) : Special :=
  named[code.toNat]?.getD (unknown code)

/-- The code of a register. -/
def code : Special → UInt8
  | unknown c => c
  | r => UInt8.ofNat (named.idxOf r)

/-- The spelling of a register, without the percent sign. -/
def name : Special → String
  | tid => "tid"
  | ntid => "ntid"
  | laneid => "laneid"
  | warpid => "warpid"
  | nwarpid => "nwarpid"
  | warpsize => "warpsize"
  | ctaid => "ctaid"
  | nctaid => "nctaid"
  | smid => "smid"
  | nsmid => "nsmid"
  | gridid => "gridid"
  | clock => "clock"
  | clock64 => "clock64"
  | unknown _ => "invalid"

/-- The register with the given spelling. -/
def ofName? (s : String) : Option Special :=
  named.find? (·.name = s)

/-- Whether the register has lanes. -/
def isVector : Special → Bool
  | tid | ntid | ctaid | nctaid => true
  | _ => false

end Special

/-- A lane of a vector register. -/
inductive Lane
  | x
  | y
  | z
  | w
  | unknown (code : UInt8)
deriving DecidableEq, Repr

namespace Lane

instance : Inhabited Lane := ⟨x⟩

/-- The lane with the given code. -/
def ofCode (code : UInt8) : Lane :=
  [x, y, z, w][code.toNat]?.getD (unknown code)

/-- The code of a lane. -/
def code : Lane → UInt8
  | x => 0
  | y => 1
  | z => 2
  | w => 3
  | unknown c => c

/-- The spelling of a lane. -/
def name : Lane → String
  | x => "x"
  | y => "y"
  | z => "z"
  | w => "w"
  | unknown _ => "invalid"

/-- The lane that a line of source may name; the fourth is out of reach there. -/
def ofName? (s : String) : Option Lane :=
  [x, y, z].find? (·.name = s)

end Lane

end KernelIR.Source
