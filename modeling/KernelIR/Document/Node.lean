import KernelIR.Document.Lexer

/-!
# Nodes of a document

A document is a tree of scalars, sequences and mappings, in which an alias stands for a node that
was named before.  `Tree.ofText?` reads the first document of a text; a text without one reads as
the empty plain scalar, which is null.  Nothing is given for a text that is not well formed.  The
readers take tokens one by one from a lexer and look at no token before they need it.
-/

namespace KernelIR.Document

/-- What a scalar is declared to be. -/
inductive Tag
  /-- nothing: its text decides -/
  | plain
  | text
  | integer
  | float
  | truth
  | null
  | time
  | binary
  /-- as a key, the fields of other records -/
  | merge
  | other
deriving DecidableEq, Repr

/-- The lead of the tags that have a meaning for all documents. -/
def commonLead : String := "tag:yaml.org,2002:"

/-- What a written tag declares. -/
def Tag.ofName (name : String) : Tag :=
  let known := [("str", text), ("int", integer), ("float", float), ("bool", truth), ("null", null),
    ("timestamp", time), ("binary", binary), ("merge", merge)]
  match known.find? fun t => name = commonLead ++ t.1 ∨ name = "!!" ++ t.1 with
  | some (_, tag) => tag
  | none => other

/-- A node of a document. -/
inductive Node
  | scalar (text : String) (tag : Tag)
  | sequence (items : List Node)
  | mapping (pairs : List (Node × Node))
  /-- the node that was named `name` and has the number `anchor`; `serial` tells the aliases apart
  -/
  | reference (name : String) (anchor serial : Nat)
deriving Inhabited

namespace Node

/-- The node that stands where nothing is written. -/
def empty : Node := scalar "" .plain

/-- A scalar as written, whose tag is the empty text if there is none.  Only a plain scalar may
stand for something else than its text. -/
def ofScalar (text : String) (isPlain : Bool) (tag : String) : Node :=
  if tag ≠ "" ∧ tag ≠ "!" then scalar text (.ofName tag)
  else if !isPlain then scalar text .text
  else if text = "<<" then scalar text .merge
  else scalar text .plain

end Node

/-! ### Building nodes -/

/-- What is known while a document is read. -/
structure Builder where
  lexer : Lexer
  /-- what the tag handles stand for -/
  handles : List (String × String) := []
  /-- the numbers of the named nodes, the latest first -/
  anchors : List (String × Nat) := []
  /-- the named nodes; one that is not complete yet is empty -/
  anchored : Array Node := #[]
  /-- the number of aliases so far -/
  aliases : Nat := 0

/-- A step in reading a document. -/
abbrev Build := StateT Builder Option

namespace Build

/-- The next token. -/
def peek : Build Token := fun b => do
  let lexer ← Lexer.fill b.lexer.limit b.lexer
  return (lexer.queue.headD .streamEnd, { b with lexer })

/-- Passes over the next token. -/
def skip : Build Unit := modify fun b => { b with lexer := b.lexer.pop }

/-- The anchor and the tag of a node, empty if there is none. -/
structure Properties where
  anchor : String := ""
  tag : String := ""

/-- Whether a node has an anchor or a tag. -/
def Properties.isPresent (p : Properties) : Bool :=
  p.anchor ≠ "" || p.tag ≠ ""

/-- The full text of a tag, whose handle must be known. -/
def resolveTag (handle suffix : String) : Build String := do
  if handle = "" then return suffix
  match (← get).handles.lookup handle with
  | some lead => return lead ++ suffix
  | none => failure

/-- Reads an anchor, if there is one. -/
def readAnchor (p : Properties) : Build Properties := do
  match ← peek with
  | .anchor name =>
    skip
    return { p with anchor := name }
  | _ => return p

/-- Reads a tag, if there is one. -/
def readTag (p : Properties) : Build Properties := do
  match ← peek with
  | .tag handle suffix =>
    skip
    return { p with tag := ← resolveTag handle suffix }
  | _ => return p

/-- Reads the anchor and the tag of a node, in either order. -/
def readProperties : Build Properties := do
  match ← peek with
  | .anchor _ => readTag (← readAnchor {})
  | .tag .. => readAnchor (← readTag {})
  | _ => return {}

/-- Names the node that begins here, and gives its number. -/
def openAnchor (name : String) : Build Nat := do
  let number := (← get).anchored.size
  if name ≠ "" then
    modify fun b => { b with
      anchors := (name, number) :: b.anchors, anchored := b.anchored.push .empty }
  return number

/-- Completes a named node. -/
def closeAnchor (name : String) (number : Nat) (n : Node) : Build Unit :=
  if name = "" then return
  else modify fun b => { b with anchored := b.anchored.setIfInBounds number n }

/-- The alias of a node that was named before. -/
def aliasOf (name : String) : Build Node := do
  match (← get).anchors.lookup name with
  | none => failure
  | some anchor =>
    let serial := (← get).aliases
    modify fun b => { b with aliases := b.aliases + 1 }
    return .reference name anchor serial

/-! ### Where nothing is written -/

/-- Whether an entry of a block sequence is left empty before the token. -/
def endsEntry : Token → Bool
  | .blockEntry | .blockEnd => true
  | _ => false

/-- Whether a key or value of a block mapping is left empty before the token. -/
def endsPart : Token → Bool
  | .key | .value | .blockEnd => true
  | _ => false

/-- Whether an entry of a sequence that shares the column of the mapping around it is left empty
before the token. -/
def endsIndentless (t : Token) : Bool :=
  endsPart t || t == .blockEntry

/-- Whether an entry of a flow sequence is left empty before the token. -/
def endsFlowItem : Token → Bool
  | .flowEntry | .flowSequenceEnd => true
  | _ => false

/-- Whether a value of a flow mapping is left empty before the token. -/
def endsFlowValue : Token → Bool
  | .flowEntry | .flowMappingEnd => true
  | _ => false

/-- Passes over the comma before an entry that is not the first. -/
def skipComma (first : Bool) : Build Unit := do
  if !first then
    match ← peek with
    | .flowEntry => skip
    | _ => failure

/-! ### Nodes -/

mutual

/-- Reads a node.  With `block` it may be a block collection, and with `indentless` a sequence that
shares the column of the mapping around it. -/
def readNode (block indentless : Bool) : (steps : Nat) → Build Node
  | 0 => failure
  | steps + 1 => do
    match ← peek with
    | .reference name =>
      skip
      aliasOf name
    | _ =>
      let p ← readProperties
      let number ← openAnchor p.anchor
      let n ← readContent block indentless p steps
      closeAnchor p.anchor number n
      return n

/-- Reads a node behind its properties.  Only a node that has some may be left empty. -/
def readContent (block indentless : Bool) (p : Properties) : (steps : Nat) → Build Node
  | 0 => failure
  | steps + 1 => do
    let t ← peek
    match t with
    | .scalar text isPlain =>
      skip
      return .ofScalar text isPlain p.tag
    | .flowSequenceStart =>
      skip
      readFlowSequence true [] steps
    | .flowMappingStart =>
      skip
      readFlowMapping true [] steps
    | _ =>
      if t = .blockEntry ∧ indentless then readIndentless [] steps
      else if t = .blockSequenceStart ∧ block then
        skip
        readBlockSequence [] steps
      else if t = .blockMappingStart ∧ block then
        skip
        readBlockMapping [] steps
      else if p.isPresent then return .ofScalar "" true p.tag
      else failure

/-- Reads a node, or gives the empty one if the next token ends it. -/
def readUnless (ends : Token → Bool) (block indentless : Bool) : (steps : Nat) → Build Node
  | 0 => failure
  | steps + 1 => do
    if ends (← peek) then return .empty else readNode block indentless steps

/-- Reads the entries of a block sequence; `items` are those read so far, the latest first. -/
def readBlockSequence (items : List Node) : (steps : Nat) → Build Node
  | 0 => failure
  | steps + 1 => do
    match ← peek with
    | .blockEntry =>
      skip
      let item ← readUnless endsEntry true false steps
      readBlockSequence (item :: items) steps
    | .blockEnd =>
      skip
      return .sequence items.reverse
    | _ => failure

/-- Reads the entries of a sequence that shares the column of the mapping around it. -/
def readIndentless (items : List Node) : (steps : Nat) → Build Node
  | 0 => failure
  | steps + 1 => do
    match ← peek with
    | .blockEntry =>
      skip
      let item ← readUnless endsIndentless true false steps
      readIndentless (item :: items) steps
    | _ => return .sequence items.reverse

/-- Reads the pairs of a block mapping; `pairs` are those read so far, the latest first. -/
def readBlockMapping (pairs : List (Node × Node)) : (steps : Nat) → Build Node
  | 0 => failure
  | steps + 1 => do
    match ← peek with
    | .key =>
      skip
      let key ← readUnless endsPart true true steps
      let value ← readBlockValue steps
      readBlockMapping ((key, value) :: pairs) steps
    | .blockEnd =>
      skip
      return .mapping pairs.reverse
    | _ => failure

/-- Reads the value of a pair of a block mapping. -/
def readBlockValue : (steps : Nat) → Build Node
  | 0 => failure
  | steps + 1 => do
    match ← peek with
    | .value =>
      skip
      readUnless endsPart true true steps
    | _ => return .empty

/-- Reads the entries of a flow sequence; between two of them stands a comma. -/
def readFlowSequence (first : Bool) (items : List Node) : (steps : Nat) → Build Node
  | 0 => failure
  | steps + 1 => do
    if (← peek) ≠ .flowSequenceEnd then skipComma first
    match ← peek with
    | .flowSequenceEnd =>
      skip
      return .sequence items.reverse
    | .key =>
      skip
      let pair ← readSinglePair steps
      readFlowSequence false (pair :: items) steps
    | _ =>
      let item ← readNode false false steps
      readFlowSequence false (item :: items) steps

/-- Reads a mapping of one pair that stands without braces in a flow sequence.  Where its key is
left empty, the next token does not count. -/
def readSinglePair : (steps : Nat) → Build Node
  | 0 => failure
  | steps + 1 => do
    let t ← peek
    let key ←
      if endsFlowItem t || t == .value then do
        skip
        pure .empty
      else readNode false false steps
    match ← peek with
    | .value =>
      skip
      let value ← readUnless endsFlowItem false false steps
      return .mapping [(key, value)]
    | _ => return .mapping [(key, .empty)]

/-- Reads the pairs of a flow mapping; between two of them stands a comma. -/
def readFlowMapping (first : Bool) (pairs : List (Node × Node)) : (steps : Nat) → Build Node
  | 0 => failure
  | steps + 1 => do
    if (← peek) ≠ .flowMappingEnd then skipComma first
    match ← peek with
    | .flowMappingEnd =>
      skip
      return .mapping pairs.reverse
    | .key =>
      skip
      let key ← readUnless (fun t => endsFlowValue t || t == .value) false false steps
      let value ← readFlowValue steps
      readFlowMapping false ((key, value) :: pairs) steps
    | _ =>
      let key ← readNode false false steps
      readFlowMapping false ((key, .empty) :: pairs) steps

/-- Reads the value of a pair of a flow mapping. -/
def readFlowValue : (steps : Nat) → Build Node
  | 0 => failure
  | steps + 1 => do
    match ← peek with
    | .value =>
      skip
      readUnless endsFlowValue false false steps
    | _ => return .empty

end

/-! ### Documents -/

/-- Reads the directives before a document: at most one version, which must be 1.1, and no handle
twice. -/
def readDirectives (versioned : Bool) : (steps : Nat) → Build Unit
  | 0 => failure
  | steps + 1 => do
    match ← peek with
    | .version major minor =>
      if versioned ∨ major ≠ 1 ∨ minor ≠ 1 then failure
      skip
      readDirectives true steps
    | .tagHandle handle lead =>
      if ((← get).handles.lookup handle).isSome then failure
      modify fun b => { b with handles := (handle, lead) :: b.handles }
      skip
      readDirectives versioned steps
    | _ => return

/-- Whether a document is left empty before the token. -/
def endsDocument : Token → Bool
  | .version .. | .tagHandle .. | .documentStart | .documentEnd | .streamEnd => true
  | _ => false

/-- The tag handles that need no directive. -/
def commonHandles : List (String × String) :=
  [("!", "!"), ("!!", commonLead)]

/-- Reads the first document.  Directives need the mark that starts a document behind them. -/
def readDocument (steps : Nat) : Build Node := do
  let t ← peek
  if t = .streamEnd then return .empty
  readDirectives false steps
  modify fun b => { b with handles := b.handles ++ commonHandles }
  let marked := (← peek) = .documentStart
  if marked then skip
  else if endsDocument t ∧ t ≠ .documentEnd then failure
  let root ← if marked then readUnless endsDocument true false steps else readNode true false steps
  let _ ← peek
  return root

end Build

/-- A document: its root, and the nodes that aliases refer to. -/
structure Tree where
  root : Node
  anchored : Array Node := #[]
deriving Inhabited

/-- Reads the first document of a text. -/
def Tree.ofText? (text : String) : Option Tree := do
  let lexer := Lexer.start text.toList
  let (root, b) ← Build.readDocument (8 * lexer.limit) { lexer }
  return { root, anchored := b.anchored }

end KernelIR.Document
