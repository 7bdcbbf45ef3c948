import KernelIR.Text.Joined
import KernelIR.Text.Utf8

/-!
# Places of files

A name leads from the root or from the working folder to a file, one part after the other: each part
is looked up in the folder that those before it lead to, so `a/../b` needs a folder `a`.  Little is
known about the folders above the working folder, but they are there.
-/

namespace KernelIR.CommandLine

/-- A place in the tree of folders. -/
structure Location where
  /-- whether the parts count from the root -/
  fromRoot : Bool := false
  /-- otherwise, how many folders above the working folder they count from -/
  above : Nat := 0
  parts : List String := []
deriving DecidableEq, Repr

namespace Location

/-- The folder that holds a place; the root holds itself. -/
def parent (l : Location) : Location :=
  if !l.parts.isEmpty then { l with parts := l.parts.dropLast }
  else if l.fromRoot then l
  else { l with above := l.above + 1 }

/-- The place that a part of a name leads to. -/
def child (l : Location) (part : String) : Location :=
  if part = "" ∨ part = "." then l
  else if part = ".." then l.parent
  else { l with parts := l.parts ++ [part] }

/-- Whether a place lies in a folder, at any depth. -/
def isBelow (l folder : Location) : Bool :=
  l.fromRoot == folder.fromRoot && l.above == folder.above &&
    folder.parts.length < l.parts.length && l.parts.take folder.parts.length == folder.parts

/-- Where a name begins. -/
def startOf (name : String) : Location :=
  { fromRoot := name.toList.head? = some '/' }

/-- The parts of a name. -/
def partsOf (name : String) : List String :=
  (Text.splitAt '/' name.toList).map String.ofList

/-- The place of a name whose folders are all there. -/
def ofName (name : String) : Location :=
  (partsOf name).foldl child (startOf name)

end Location

/-- The number of bytes a part of a name may have. -/
def maxPartSize : Nat := 255

/-- The number of bytes a name may have. -/
def maxNameSize : Nat := 4095

end KernelIR.CommandLine
