import KernelIR.Document.Meaning

/-!
# Values of nodes

How the nodes of a document are read as texts, bytes, lists and records.  A null is no value at all:
it leaves a field as it was and vanishes from a list.  Everything else must have the wanted shape.
A node that has not is passed over, and the reading goes on, for a document that turns out to be not
well formed is reported as such before one that does not fit.
-/

namespace KernelIR.Document

/-- Why a document could not be read. -/
inductive Fault
  /-- the text is not well formed -/
  | illFormed
  /-- the document does not have the wanted shape -/
  | mismatch
deriving DecidableEq, Repr

/-- The wording of a fault. -/
def Fault.message : Fault → String
  | illFormed => "yaml: document is not well formed"
  | mismatch => "yaml: document does not fit the description"

/-! ### Readings -/

/-- Where a reading stands. -/
structure Place where
  /-- the nodes that aliases refer to -/
  anchored : Array Node := #[]
  /-- the aliases through which the reading came here -/
  through : List Nat := []

/-- A reading of a node: it fails for a document that is not well formed, and remembers whether
something did not fit. -/
abbrev Reading := ReaderT Place (StateT Bool Option)

namespace Reading

/-- Remembers that something did not fit. -/
def misfit : Reading Unit := set true

/-- Reads a node, or the one that an alias stands for.  No node may contain itself. -/
def visit {α : Type} (f : Node → Reading α) (n : Node) : Reading α := do
  match n with
  | .reference _ anchor serial =>
    let p ← read
    if p.through.contains serial then failure
    withReader (fun p => { p with through := serial :: p.through })
      (f (p.anchored.getD anchor .empty))
  | _ => f n

end Reading

/-- Reads a document from its root on. -/
def Tree.read {α : Type} (t : Tree) (f : Node → Reading α) : Except Fault α :=
  match f t.root { anchored := t.anchored } false with
  | none => .error .illFormed
  | some (_, true) => .error .mismatch
  | some (a, false) => .ok a

open Reading

/-! ### Shapes -/

namespace Node

/-- Reads a text.  Whatever a scalar looks like, its text counts. -/
def asText : Node → Reading (Option String) :=
  visit fun n => do
    match n with
    | scalar text tag =>
      match meaning? text tag with
      | none => failure
      | some .null => return none
      | some (.text s) => return some s
      | some _ => return some text
    | _ =>
      misfit
      return none

/-- The byte that a number stands for. -/
def byteOf? : Meaning → Option UInt8
  | .integer v | .real (some v) => if 0 ≤ v ∧ v ≤ 255 then some (UInt8.ofInt v) else none
  | _ => none

/-- Reads a byte.  A fraction is dropped. -/
def asByte : Node → Reading (Option UInt8) :=
  visit fun n => do
    match n with
    | scalar text tag =>
      match meaning? text tag with
      | none => failure
      | some .null => return none
      | some m =>
        if (byteOf? m).isNone then misfit
        return byteOf? m
    | _ =>
      misfit
      return none

/-- Reads a node that is no collection of the wanted kind, where only a null is no misfit. -/
def expectNull : Node → Reading Unit
  | scalar text tag =>
    match meaning? text tag with
    | none => failure
    | some .null => return
    | some _ => misfit
  | _ => misfit

/-- Reads a list whose items are read by `item`. -/
def asList {α : Type} (item : Node → Reading (Option α)) : Node → Reading (List α) :=
  visit fun n => do
    match n with
    | sequence items => return (← items.mapM item).filterMap id
    | _ =>
      expectNull n
      return []

/-! ### Records -/

/-- What tells two keys of a mapping apart: scalars differ by their texts and aliases by their
names; all sequences are alike, as are all mappings. -/
def keyTag : Node → Nat × String
  | scalar text _ => (0, text)
  | sequence _ => (1, "")
  | mapping _ => (2, "")
  | reference name _ _ => (3, name)

/-- Whether a key asks for the fields of other records. -/
def isMerge : Node → Bool
  | scalar text tag => text == "<<" && tag == .merge
  | _ => false

/-- Whether a node is a mapping. -/
def isMapping : Node → Bool
  | mapping _ => true
  | _ => false

/-- Reads the pairs of a mapping, in which no key may occur twice; `default` stands for a node that
does not fit. -/
def withPairs {α : Type} (default : α) (f : List (Node × Node) → Reading α) (n : Node) :
    Reading α := do
  match n with
  | mapping pairs =>
    if (pairs.map fun p => p.1.keyTag).Nodup then f pairs
    else
      misfit
      return default
  | _ =>
    expectNull n
    return default

end Node

/-- A field of a record. -/
structure Field where
  name : String
  value : Node
  /-- the aliases through which it was reached -/
  through : List Nat := []

/-- The fields of a record, the latest first, and the names that are not taken again. -/
structure Gathering where
  fields : List Field := []
  names : List String := []

namespace Gathering

/-- Adds the fields of a mapping without those that have a null key.  With `once`, a name that was
taken before is passed over. -/
def addPairs (once : Bool) (g : Gathering) (pairs : List (Node × Node)) : Reading Gathering :=
  pairs.foldlM (fun g (key, value) => do
    if key.isMerge then return g
    match ← key.asText with
    | none => return g
    | some name =>
      if once ∧ g.names.contains name then return g
      let through := (← read).through
      return { fields := { name, value, through } :: g.fields, names := name :: g.names }) g

/-- The mappings that a merge key gives. -/
def sources (n : Node) : Reading (List Node) := do
  let anchored := (← read).anchored
  let isSource : Node → Bool
    | .reference _ anchor _ => (anchored.getD anchor .empty).isMapping
    | n => n.isMapping
  let found := match n with
    | .sequence items => items
    | _ => [n]
  if found.all isSource then return found else failure

/-- Adds the fields of a mapping, and then those that its merge key gives. -/
def addMapping (once : Bool) :
    (steps : Nat) → (pairs : List (Node × Node)) → Gathering → Reading Gathering
  | 0, _, _ => failure
  | steps + 1, pairs, g => do
    let g ← addPairs once g pairs
    match pairs.find? (·.1.isMerge) with
    | none => return g
    | some (_, value) =>
      let add (g : Gathering) : Node → Reading Gathering :=
        visit fun n => n.withPairs g fun pairs => addMapping true steps pairs g
      (← sources value).foldlM add g

end Gathering

/-- A bound on how deep merge keys may refer to each other. -/
def mergeDepth : Nat := 10000

/-- Reads the fields of a record. -/
def Node.asRecord : Node → Reading (Option (List Field)) :=
  visit fun n => n.withPairs none fun pairs => do
    return some (← Gathering.addMapping false mergeDepth pairs {}).fields.reverse

/-! ### Fields -/

/-- Reads the field with the given name; a missing one is empty, and none may be there twice. -/
def readField {α : Type} (f : Node → Reading α) (fields : List Field) (name : String) :
    Reading α := do
  match fields.filter (·.name == name) with
  | [] => f .empty
  | field :: more =>
    if !more.isEmpty then misfit
    withReader (fun p => { p with through := field.through }) (f field.value)

/-- Reads a text field; nothing reads as the empty text. -/
def textField (fields : List Field) (name : String) : Reading String := do
  return (← readField Node.asText fields name).getD ""

/-- Reads a list field; nothing reads as the empty list. -/
def listField {α : Type} (item : Node → Reading (Option α)) (fields : List Field) (name : String) :
    Reading (List α) :=
  readField (Node.asList item) fields name

/-- Reads an item of a list of records. -/
def recordItem {α : Type} (ofFields : List Field → Reading α) (n : Node) : Reading (Option α) := do
  match ← n.asRecord with
  | some fields => return some (← ofFields fields)
  | none => return none

end KernelIR.Document
