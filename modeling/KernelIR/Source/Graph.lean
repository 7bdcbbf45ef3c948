import KernelIR.Source.Instruction

/-!
# Flow graphs

The body of a kernel: blocks in source order between an entry and an exit that hold no code.  Every
node has at most one fall-through successor and a list of branch targets.  `Graph.link` computes the
edges from the order of the blocks and their last instructions.
-/

namespace KernelIR.Source

/-- A node of a flow graph; blocks are numbered in source order from zero. -/
inductive Node
  | entry
  | exit
  | block (index : Nat)
deriving DecidableEq, Repr, Inhabited

/-- The number of a node.  Entry and exit come before all blocks. -/
def Node.id : Node → Nat
  | entry => 0
  | exit => 1
  | block i => i + 2

/-- The successors of a node. -/
structure Edges where
  /-- the node that control falls into -/
  next : Option Node := none
  branches : List Node := []
deriving DecidableEq, Repr, Inhabited

/-- A block of instructions. -/
structure Block where
  label : String
  code : List Instruction := []
  edges : Edges := {}
deriving DecidableEq, Repr, Inhabited

/-- The body of a kernel. -/
structure Graph where
  entry : Edges := { next := some .exit }
  exit : Edges := {}
  blocks : List Block := []
deriving DecidableEq, Repr, Inhabited

namespace Graph

/-- The label of a block; a block without one is named after its number. -/
def blockLabel (label : String) (index : Nat) : String :=
  if label = "" then "$BB" ++ Text.decimal (Node.block index).id else label

/-- Adds an empty block at the end. -/
def addBlock (g : Graph) (label : String) : Graph :=
  { g with blocks := g.blocks ++ [{ label := blockLabel label g.blocks.length }] }

/-- The first block with the given label. -/
def find? (g : Graph) (label : String) : Option Nat :=
  g.blocks.findIdx? (·.label = label)

/-- Appends an instruction to a block. -/
def addInstruction (g : Graph) (index : Nat) (i : Instruction) : Graph :=
  { g with blocks := g.blocks.modify index fun b => { b with code := b.code ++ [i] } }

/-- The successors of a node. -/
def edges (g : Graph) : Node → Edges
  | .entry => g.entry
  | .exit => g.exit
  | .block i => (g.blocks[i]?.map Block.edges).getD {}

/-- The node that control falls into from a node. -/
def next? (g : Graph) (n : Node) : Option Node :=
  (g.edges n).next

/-- Redirects the fall-through of a node. -/
def setNext (g : Graph) (n : Node) (target : Option Node) : Graph :=
  match n with
  | .entry => { g with entry := { g.entry with next := target } }
  | .exit => { g with exit := { g.exit with next := target } }
  | .block i =>
    { g with
      blocks := g.blocks.modify i fun b => { b with edges := { b.edges with next := target } } }

/-- The label of a node. -/
def label (g : Graph) : Node → String
  | .entry => "entry"
  | .exit => "exit"
  | .block i => (g.blocks[i]?.map Block.label).getD ""

/-- The code of a node. -/
def code (g : Graph) : Node → List Instruction
  | .entry | .exit => []
  | .block i => (g.blocks[i]?.map Block.code).getD []

/-- All nodes: the entry, the blocks in source order and the exit. -/
def nodes (g : Graph) : List Node :=
  .entry :: (List.range g.blocks.length).map .block ++ [.exit]

/-! ### Linking -/

/-- The node after the `i`-th block in source order. -/
def follower (g : Graph) (i : Nat) : Node :=
  if i + 1 < g.blocks.length then .block (i + 1) else .exit

/-- The edges of a block that ends in the given code and is followed by `next`.  An unconditional
branch, return or exit does not fall through; a target that is no block is left out. -/
def linkedEdges (g : Graph) (next : Node) (code : List Instruction) : Edges :=
  match code.getLast? with
  | none => { next := some next }
  | some last =>
    let always : Bool := last.guard = .always
    match last.opcode with
    | .bra =>
      let target := (last.d.map Operand.mentioned).bind g.find?
      { next := if always then none else some next, branches := (target.map Node.block).toList }
    | .ret | .exit =>
      if always then { next := none, branches := [.exit] } else { next := some next }
    | _ => { next := some next }

/-- Computes the edges of the entry and the blocks anew. -/
def link (g : Graph) : Graph :=
  { g with
    entry := { next := some (if g.blocks.isEmpty then .exit else .block 0) }
    blocks := g.blocks.mapIdx fun i b => { b with edges := g.linkedEdges (g.follower i) b.code } }

end Graph

end KernelIR.Source
