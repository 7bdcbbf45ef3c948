import KernelIR.CommandLine.Console
import KernelIR.CommandLine.Location

/-!
# Files in memory

A world holds files in memory and what was printed.  A folder is there if a file lies in it; so are
the working folder, those above it, the root and the folders that every machine has.
`World.console` offers to commands what a machine offers them.
-/

namespace KernelIR.CommandLine

/-- Files in memory and what was printed. -/
structure World where
  files : List (Location × String) := []
  printed : String := ""
deriving Repr, Inhabited

/-- A device in the place of a file.  There is nothing to read from it. -/
inductive Device
  /-- drops what is written -/
  | sink
  /-- prints what is written -/
  | screen
deriving DecidableEq, Repr

/-- What stands at a place. -/
inductive Resident
  | file (text : String)
  | folder
  | device (d : Device)
  | nothing
deriving DecidableEq, Repr

/-- The folders that every machine has below its root. -/
def commonFolders : List String :=
  ["bin", "dev", "etc", "home", "lib", "opt", "proc", "root", "run", "sbin", "srv", "sys", "tmp",
    "usr", "var"]

/-- Whether a place is a folder in every world. -/
def Location.isCommonFolder (l : Location) : Bool :=
  match l.parts with
  | [] => true
  | [part] => l.fromRoot && commonFolders.contains part
  | _ => false

/-- The device at a place. -/
def Location.device? (l : Location) : Option Device :=
  if !l.fromRoot then none
  else match l.parts with
    | ["dev", "null"] => some .sink
    | ["dev", "stdout"] => some .screen
    | _ => none

namespace World

/-- The world with the given files, whose folders are there. -/
def ofFiles (files : List (String × String)) : World :=
  { files := files.map fun (name, text) => (.ofName name, text) }

/-- What stands at a place. -/
def resident (w : World) (l : Location) : Resident :=
  match w.files.lookup l with
  | some text => .file text
  | none =>
    if l.isCommonFolder || w.files.any (·.1.isBelow l) then .folder
    else (l.device?.map .device).getD .nothing

/-- Goes from a place to that of one more part, which must be looked up in a folder. -/
def step (w : World) (l : Location) (part : String) : Except FileCause Location :=
  match w.resident l with
  | .folder =>
    if maxPartSize < part.utf8ByteSize then .error .nameTooLong else .ok (l.child part)
  | .nothing => .error .missing
  | .file _ | .device _ => .error .notAFolder

/-- Whether something is wrong with a name as such. -/
def checkName (name : String) : Except FileCause Unit :=
  if name.toList.contains '\x00' then .error .invalidName
  else if name = "" then .error .missing
  else if maxNameSize < name.utf8ByteSize then .error .nameTooLong
  else .ok ()

/-- The place that a name leads to. -/
def find (w : World) (name : String) : Except FileCause Location := do
  checkName name
  (Location.partsOf name).foldlM w.step (Location.startOf name)

/-- The place where a file with the given name can be created, or is to be made empty.  The last
part must name a file, so no slash may stand behind it. -/
def findNew (w : World) (name : String) : Except FileCause Location := do
  checkName name
  let parts := Location.partsOf name
  let last := parts.getLastD ""
  let named := (parts.reverse.dropWhile (· = "")).reverse
  let folder ← named.dropLast.foldlM w.step (Location.startOf name)
  -- what comes before the last part must be a folder, whatever the last part is
  let _ ← w.step folder "."
  if last = "" ∨ last = "." ∨ last = ".." then .error .isFolder
  let l ← w.step folder last
  if w.resident l = .folder then .error .isFolder else .ok l

/-- The text of a file. -/
def text? (w : World) (name : String) : Option String :=
  match (w.find name).toOption.map w.resident with
  | some (.file text) => some text
  | _ => none

/-- Prints a text. -/
def print (w : World) (text : String) : World :=
  { w with printed := w.printed ++ text }

/-- Replaces the text of a file, or adds the file.  A device takes the text as it does. -/
def put (w : World) (l : Location) (text : String) : World :=
  match l.device? with
  | some .sink => w
  | some .screen => w.print text
  | none =>
    if (w.files.lookup l).isSome then
      { w with files := w.files.map fun f => if f.1 = l then (l, text) else f }
    else { w with files := w.files ++ [(l, text)] }

/-- Reads a file. -/
def read (w : World) (name : String) : Except FileError String := do
  let l ← (w.find name).mapError fun cause => ⟨.access, name, cause⟩
  match w.resident l with
  | .file text => .ok text
  | .device _ => .ok ""
  | .folder => .error ⟨.read, name, .isFolder⟩
  | .nothing => .error ⟨.access, name, .missing⟩

/-- Makes a file empty, and makes it if its folder is there. -/
def create (w : World) (name : String) : Except FileError World := do
  let l ← (w.findNew name).mapError fun cause => ⟨.access, name, cause⟩
  .ok (w.put l "")

/-- Adds to the end of a file that was created. -/
def append (w : World) (name text : String) : World :=
  match w.find name with
  | .ok l => w.put l ((w.text? name).getD "" ++ text)
  | .error _ => w

/-- The console over a world. -/
def console : Console (StateM World) where
  read name := do return (← get).read name
  create name := do
    match (← get).create name with
    | .ok w => set w; return .ok ()
    | .error e => return .error e
  append name text := modify (·.append name text)
  print text := modify (·.print text)

end World

end KernelIR.CommandLine
