import KernelIR.Source.Graph

/-!
# The executable sequence

An order of all nodes in which a fall-through successor directly follows its predecessor wherever
the graph allows it.  Nodes are taken in source order.  One whose predecessor has not been placed
yet waits, for the chain from that predecessor is going to pull it in; what still waits at the end
lies on a fall-through cycle and is placed from its first node.  The exit closes the sequence.
-/

namespace KernelIR.Source.Graph

/-- The node that falls into `n`; of several, the last in source order. -/
def fallPredecessor? (g : Graph) (n : Node) : Option Node :=
  (g.nodes.filter fun m => g.next? m = some n).getLast?

/-- Places the fall-through chain that begins at `start`, up to the exit or a node that has its
place already.  Each step places a new node, so the number of nodes bounds the steps. -/
def chain (g : Graph) : (steps : Nat) → (placed : List Node) → (start : Option Node) → List Node
  | 0, placed, _ => placed
  | _, placed, none => placed
  | steps + 1, placed, some n =>
    if n = .exit ∨ n ∈ placed then placed else g.chain steps (placed ++ [n]) (g.next? n)

/-- Places the whole chain from a node. -/
def place (g : Graph) (placed : List Node) (n : Node) : List Node :=
  g.chain g.nodes.length placed (some n)

/-- The nodes placed so far, and those that wait. -/
structure Progress where
  placed : List Node := []
  waiting : List Node := []

/-- Takes the next node in source order. -/
def Progress.visit (g : Graph) (p : Progress) (n : Node) : Progress :=
  if n = .exit ∨ n ∈ p.placed then p
  else match g.fallPredecessor? n with
    | some m =>
      if m ∈ p.placed then { p with placed := g.place p.placed n }
      else { p with waiting := p.waiting ++ [n] }
    | none => { p with placed := g.place p.placed n }

/-- All nodes in executable order. -/
def sequence (g : Graph) : List Node :=
  let p := g.nodes.foldl (Progress.visit g) {}
  p.waiting.foldl g.place p.placed ++ [.exit]

end KernelIR.Source.Graph
