import KernelIR.Source.Sequence
import Mathlib.Data.List.Nodup
import Mathlib.Tactic.Common

/-!
# The executable sequence of a linked graph

`sequence_eq_nodes`: if control only ever falls from a node into the next one in source order
(`InOrder`), then the executable sequence is the source order.  Linking establishes this whatever
the edges were before, and a second time it changes nothing; so `Linked` says of a graph that its
edges are those that linking computes (`Linked.sequence_eq`).  `link_runs_in_order` puts together
what linking achieves.

The invariant of the placement (`visit_firstNodes`): when the first `j` nodes have been taken, the
nodes placed so far are the first `t` of the source order for some `t ≥ j`, and none waits.  A chain
that starts at the first node without a place only appends successors in source order
(`chain_firstNodes`), and the node that falls into it, if any, is the one just before it and has
been placed (`fallPredecessor?_nodeAt`).

Of any graph, `mem_front` says that every node has its place: a node that is taken is placed at once
or waits, and what waits is placed in the end.
-/

namespace KernelIR.Source

/-- Nodes are told apart by their numbers. -/
theorem Node.id_injective : Function.Injective Node.id := by
  intro m n h
  cases m <;> cases n <;> simp_all [Node.id]

namespace Graph

/-! ### Nodes by their place -/

/-- The node at a place of the source order: the entry, the blocks, and the exit from there on. -/
def nodeAt (g : Graph) : Nat → Node
  | 0 => .entry
  | i + 1 => if i < g.blocks.length then .block i else .exit

/-- The first nodes in source order. -/
def firstNodes (g : Graph) (t : Nat) : List Node :=
  (List.range t).map g.nodeAt

variable {g : Graph}

theorem firstNodes_succ (t : Nat) : g.firstNodes (t + 1) = g.firstNodes t ++ [g.nodeAt t] := by
  rw [firstNodes, List.range_succ, List.map_append]
  rfl

theorem nodeAt_succ_of_lt {i : Nat} (h : i < g.blocks.length) : g.nodeAt (i + 1) = .block i := by
  rw [nodeAt, if_pos h]

theorem nodeAt_length_succ : g.nodeAt (g.blocks.length + 1) = .exit := by
  rw [nodeAt, if_neg (Nat.lt_irrefl _)]

/-- Two places up to that of the exit hold different nodes. -/
theorem nodeAt_inj {i j : Nat} (hi : i ≤ g.blocks.length + 1) (hj : j ≤ g.blocks.length + 1)
    (h : g.nodeAt i = g.nodeAt j) : i = j := by
  cases i with
  | zero =>
    cases j with
    | zero => rfl
    | succ j =>
      rw [nodeAt, nodeAt] at h
      split_ifs at h
  | succ i =>
    cases j with
    | zero =>
      rw [nodeAt, nodeAt] at h
      split_ifs at h
    | succ j =>
      rw [nodeAt, nodeAt] at h
      -- a place within the blocks against the one behind them would be a block equal to the exit
      split_ifs at h with h1 h2 h2
      · rw [Node.block.injEq] at h
        rw [h]
      · omega

theorem nodeAt_ne_exit {i : Nat} (hi : i ≤ g.blocks.length) : g.nodeAt i ≠ .exit := by
  intro h
  have := nodeAt_inj (g := g) (by omega) (Nat.le_refl _) (h.trans nodeAt_length_succ.symm)
  omega

theorem mem_firstNodes {n : Node} {t : Nat} : n ∈ g.firstNodes t ↔ ∃ i < t, g.nodeAt i = n := by
  rw [firstNodes, List.mem_map]
  simp only [List.mem_range]

theorem nodeAt_mem_firstNodes {j t : Nat} (hj : j ≤ g.blocks.length + 1)
    (ht : t ≤ g.blocks.length + 2) : g.nodeAt j ∈ g.firstNodes t ↔ j < t := by
  rw [mem_firstNodes]
  constructor
  · rintro ⟨i, hi, h⟩
    have := nodeAt_inj (by omega) hj h
    omega
  · intro h
    exact ⟨j, h, rfl⟩

/-- All nodes are the first ones, as many as there are. -/
theorem nodes_eq_firstNodes (g : Graph) : g.nodes = g.firstNodes (g.blocks.length + 2) := by
  have hblocks : (List.range g.blocks.length).map (g.nodeAt ∘ Nat.succ) =
      (List.range g.blocks.length).map .block := by
    refine List.map_congr_left fun i hi => ?_
    exact nodeAt_succ_of_lt (List.mem_range.mp hi)
  rw [firstNodes_succ, nodeAt_length_succ, firstNodes, List.range_succ_eq_map, List.map_cons,
    List.map_map, hblocks]
  rfl

theorem length_nodes (g : Graph) : g.nodes.length = g.blocks.length + 2 := by
  rw [nodes_eq_firstNodes, firstNodes, List.length_map, List.length_range]

/-- The nodes are listed by their places. -/
theorem getElem?_nodes {t : Nat} {n : Node} :
    g.nodes[t]? = some n ↔ t ≤ g.blocks.length + 1 ∧ n = g.nodeAt t := by
  rw [nodes_eq_firstNodes, firstNodes, List.getElem?_map, Option.map_eq_some_iff]
  constructor
  · rintro ⟨i, hi, rfl⟩
    obtain ⟨hlt, rfl⟩ := List.getElem?_eq_some_iff.mp hi
    rw [List.length_range] at hlt
    rw [List.getElem_range]
    exact ⟨by omega, rfl⟩
  · rintro ⟨ht, rfl⟩
    exact ⟨t, List.getElem?_range (by omega), rfl⟩

/-- A block stands at the place behind its number, for the entry is first. -/
theorem getElem?_nodes_block {j : Nat} (hj : j < g.blocks.length) :
    g.nodes[j + 1]? = some (.block j) := by
  rw [getElem?_nodes, nodeAt_succ_of_lt hj]
  exact ⟨by omega, rfl⟩

theorem map_label_nodes (g : Graph) :
    g.nodes.map g.label = "entry" :: (g.blocks.map Block.label ++ ["exit"]) := by
  have hblocks : ((List.range g.blocks.length).map Node.block).map g.label =
      g.blocks.map Block.label := by
    refine List.ext_getElem (by simp) fun j hj hj' => ?_
    have hlt : j < g.blocks.length := by simpa using hj'
    simp [label, hlt]
  rw [nodes, List.map_append, List.map_cons, hblocks]
  rfl

theorem nodup_nodes (g : Graph) : g.nodes.Nodup := by
  rw [nodes_eq_firstNodes]
  refine List.Nodup.map_on (fun i hi j hj h => ?_) List.nodup_range
  rw [List.mem_range] at hi hj
  exact nodeAt_inj (by omega) (by omega) h

theorem mem_nodes_block {i : Nat} : .block i ∈ g.nodes ↔ i < g.blocks.length := by
  simp [nodes]

/-- Control falls only out of nodes of the graph. -/
theorem mem_nodes_of_next? {m n : Node} (h : g.next? m = some n) : m ∈ g.nodes := by
  cases m with
  | entry | exit => simp [nodes]
  | block i =>
    rw [mem_nodes_block]
    by_contra hi
    rw [next?, edges, List.getElem?_eq_none (Nat.le_of_not_lt hi)] at h
    cases h

/-- The node at one place stands directly before the node at the next. -/
theorem infix_nodes {i : Nat} (hi : i ≤ g.blocks.length) :
    [g.nodeAt i, g.nodeAt (i + 1)] <:+: g.nodes := by
  have hprefix : g.firstNodes (i + 2) <+: g.nodes := by
    rw [nodes_eq_firstNodes, firstNodes, firstNodes]
    refine List.IsPrefix.map g.nodeAt ?_
    obtain ⟨k, hk⟩ := Nat.exists_eq_add_of_le (show i + 2 ≤ g.blocks.length + 2 by omega)
    exact ⟨_, by rw [hk, List.range_add (m := k)]⟩
  have hsuffix : [g.nodeAt i, g.nodeAt (i + 1)] <:+ g.firstNodes (i + 2) := by
    rw [firstNodes_succ, firstNodes_succ, List.append_assoc]
    exact List.suffix_append _ _
  exact hsuffix.isInfix.trans hprefix.isInfix

/-! ### Taking a node -/

theorem next?_of_fallPredecessor? {m n : Node} (h : g.fallPredecessor? n = some m) :
    g.next? m = some n := by
  have hmem := List.mem_of_getLast? h
  rw [List.mem_filter, decide_eq_true_eq] at hmem
  exact hmem.2

/-- What taking a node can do: pass over it, let it wait for the node that falls into it, or place
the chain from it. -/
theorem visit_cases (g : Graph) (p : Progress) (n : Node) :
    ((n = .exit ∨ n ∈ p.placed) ∧ p.visit g n = p) ∨
    (n ≠ .exit ∧ n ∉ p.placed ∧ (∃ m, g.fallPredecessor? n = some m ∧ m ∉ p.placed) ∧
      p.visit g n = { p with waiting := p.waiting ++ [n] }) ∨
    (n ≠ .exit ∧ n ∉ p.placed ∧ (∀ m, g.fallPredecessor? n = some m → m ∈ p.placed) ∧
      p.visit g n = { p with placed := g.place p.placed n }) := by
  unfold Progress.visit
  split_ifs with hdone
  · exact .inl ⟨hdone, rfl⟩
  · rw [not_or] at hdone
    refine .inr ?_
    -- a node waits only for a predecessor that has no place yet
    cases hm : g.fallPredecessor? n with
    | none => exact .inr ⟨hdone.1, hdone.2, by simp, rfl⟩
    | some m =>
      dsimp only
      split_ifs with hplaced
      · refine .inr ⟨hdone.1, hdone.2, ?_, rfl⟩
        rintro _ ⟨⟩
        exact hplaced
      · exact .inl ⟨hdone.1, hdone.2, ⟨m, rfl, hplaced⟩, rfl⟩

/-! ### Falling in order -/

/-- Control falls only from a node into the next one, and never out of the exit. -/
structure InOrder (g : Graph) : Prop where
  next : ∀ i ≤ g.blocks.length, ∀ n, g.next? (g.nodeAt i) = some n → n = g.nodeAt (i + 1)
  exit : g.next? .exit = none

/-- Where control falls in order, it falls from one place to the next. -/
theorem InOrder.exists_place (h : g.InOrder) {m n : Node} (hnext : g.next? m = some n) :
    ∃ i ≤ g.blocks.length, m = g.nodeAt i ∧ n = g.nodeAt (i + 1) := by
  have hm := mem_nodes_of_next? hnext
  rw [nodes_eq_firstNodes, mem_firstNodes] at hm
  obtain ⟨i, hi, rfl⟩ := hm
  have hle : i ≤ g.blocks.length := by
    by_contra hgt
    obtain rfl : i = g.blocks.length + 1 := by omega
    rw [nodeAt_length_succ, h.exit] at hnext
    cases hnext
  exact ⟨i, hle, rfl, h.next i hle n hnext⟩

theorem InOrder.infix (h : g.InOrder) {m n : Node} (hnext : g.next? m = some n) :
    [m, n] <:+: g.nodes := by
  obtain ⟨i, hi, rfl, rfl⟩ := h.exists_place hnext
  exact infix_nodes hi

/-- A node that falls into the one at place `j` is at the place before it. -/
theorem fallPredecessor?_nodeAt (h : g.InOrder) {j : Nat} (hj : j ≤ g.blocks.length + 1) {m : Node}
    (hm : g.fallPredecessor? (g.nodeAt j) = some m) : ∃ i, j = i + 1 ∧ m = g.nodeAt i := by
  obtain ⟨i, hi, rfl, hnext⟩ := h.exists_place (next?_of_fallPredecessor? hm)
  exact ⟨i, nodeAt_inj hj (by omega) hnext, rfl⟩

/-- A chain from the first node without a place appends nodes in source order, at least one unless
only the exit is left. -/
theorem chain_firstNodes (h : g.InOrder) (steps : Nat) {t : Nat} (ht : t ≤ g.blocks.length + 1) :
    ∃ t', t ≤ t' ∧ t' ≤ g.blocks.length + 1 ∧ (0 < steps → t ≤ g.blocks.length → t < t') ∧
      g.chain steps (g.firstNodes t) (some (g.nodeAt t)) = g.firstNodes t' := by
  induction steps generalizing t with
  | zero => exact ⟨t, Nat.le_refl t, ht, fun h0 => absurd h0 (Nat.lt_irrefl 0), rfl⟩
  | succ steps ih =>
    rw [chain]
    rcases Nat.lt_or_eq_of_le ht with hlt | rfl
    · -- the node has no place yet, so it gets the next one and the chain goes on from there
      have hnew : ¬(g.nodeAt t = .exit ∨ g.nodeAt t ∈ g.firstNodes t) := by
        rw [nodeAt_mem_firstNodes ht (by omega), not_or]
        exact ⟨nodeAt_ne_exit (by omega), Nat.lt_irrefl t⟩
      rw [if_neg hnew, ← firstNodes_succ]
      cases hnext : g.next? (g.nodeAt t) with
      | none =>
        refine ⟨t + 1, by omega, hlt, fun _ _ => by omega, ?_⟩
        cases steps <;> rfl
      | some n =>
        rw [h.next t (by omega) n hnext]
        obtain ⟨t', hle, ht', -, hchain⟩ := ih (t := t + 1) hlt
        exact ⟨t', by omega, ht', fun _ _ => by omega, hchain⟩
    · -- a chain never places the exit
      rw [if_pos (.inl nodeAt_length_succ)]
      exact ⟨_, Nat.le_refl _, Nat.le_refl _, fun _ => by omega, rfl⟩

/-- Taking the next node keeps the nodes placed so far a beginning of the source order. -/
theorem visit_firstNodes (h : g.InOrder) {j t : Nat} (hj : j ≤ g.blocks.length + 1) (hjt : j ≤ t)
    (ht : t ≤ g.blocks.length + 1) :
    ∃ t', t ≤ t' ∧ t' ≤ g.blocks.length + 1 ∧ (j ≤ g.blocks.length → j < t') ∧
      Progress.visit g ⟨g.firstNodes t, []⟩ (g.nodeAt j) = ⟨g.firstNodes t', []⟩ := by
  have hplaced_iff := nodeAt_mem_firstNodes hj (show t ≤ g.blocks.length + 2 by omega)
  obtain ⟨hdone, hvisit⟩ | ⟨-, hnew, ⟨m, hm, hwaits⟩, -⟩ | ⟨-, hnew, -, hvisit⟩ :=
    visit_cases g ⟨g.firstNodes t, []⟩ (g.nodeAt j)
  · -- the exit and a node that has its place are passed over
    refine ⟨t, Nat.le_refl t, ht, fun hle => ?_, hvisit⟩
    exact hplaced_iff.mp (hdone.resolve_left (nodeAt_ne_exit hle))
  · -- the node that falls into this one stands just before it, so it has its place
    obtain ⟨i, rfl, rfl⟩ := fallPredecessor?_nodeAt h hj hm
    exact absurd ((nodeAt_mem_firstNodes (by omega) (by omega)).mpr (by omega)) hwaits
  · -- it is the first without a place
    obtain rfl : j = t := by
      have := mt hplaced_iff.mpr hnew
      omega
    obtain ⟨t', hle, ht', hlt, hchain⟩ := chain_firstNodes h g.nodes.length ht
    have hsteps : 0 < g.nodes.length := by rw [length_nodes]; omega
    have hplace : g.place (g.firstNodes j) (g.nodeAt j) = g.firstNodes t' := hchain
    exact ⟨t', hle, ht', hlt hsteps, by rw [hvisit, hplace]⟩

/-- When the first `j` nodes have been taken, a beginning of the source order is placed that covers
them, and no node waits. -/
theorem foldl_visit_firstNodes (h : g.InOrder) {j : Nat} (hj : j ≤ g.blocks.length + 2) :
    ∃ t, j ≤ t + 1 ∧ (j ≤ g.blocks.length + 1 → j ≤ t) ∧ t ≤ g.blocks.length + 1 ∧
      (g.firstNodes j).foldl (Progress.visit g) {} = ⟨g.firstNodes t, []⟩ := by
  induction j with
  | zero => exact ⟨0, by omega, fun _ => Nat.le_refl 0, by omega, rfl⟩
  | succ j ih =>
    obtain ⟨t, -, hjt, ht, hfold⟩ := ih (by omega)
    obtain ⟨t', hle, ht', hlt, hvisit⟩ := visit_firstNodes h (by omega) (hjt (by omega)) ht
    refine ⟨t', by omega, fun hj' => ?_, ht', ?_⟩
    · have := hlt (by omega)
      omega
    · rw [firstNodes_succ, List.foldl_append, hfold, List.foldl_cons, List.foldl_nil, hvisit]

/-- **Where control only falls in source order, the executable sequence is the source order.** -/
theorem sequence_eq_nodes (h : g.InOrder) : g.sequence = g.nodes := by
  obtain ⟨t, hjt, -, ht, hfold⟩ := foldl_visit_firstNodes h (Nat.le_refl _)
  -- every node but the exit has its place, and the exit is put behind them
  obtain rfl : t = g.blocks.length + 1 := by omega
  unfold sequence
  dsimp only
  rw [nodes_eq_firstNodes, hfold, firstNodes_succ (g.blocks.length + 1), nodeAt_length_succ]
  rfl

/-! ### Every node has its place -/

theorem subset_chain (steps : Nat) (placed : List Node) (start : Option Node) :
    placed ⊆ g.chain steps placed start := by
  induction steps generalizing placed start with
  | zero => exact List.Subset.refl _
  | succ steps ih =>
    cases start with
    | none => exact List.Subset.refl _
    | some n =>
      rw [chain]
      split_ifs
      · exact List.Subset.refl _
      · exact List.Subset.trans (List.subset_append_left placed [n]) (ih _ _)

/-- The chain from a node begins with it, unless it has its place already. -/
theorem mem_place (placed : List Node) {n : Node} (hn : n ≠ .exit) : n ∈ g.place placed n := by
  unfold place
  rw [length_nodes, chain]
  split_ifs with h
  · exact h.resolve_left hn
  · exact subset_chain _ _ _ (List.mem_append_right _ (List.mem_singleton_self n))

/-- A node that has been taken is placed or waits, and so it stays. -/
theorem mem_visit {p : Progress} {n m : Node} (hn : n ≠ .exit)
    (h : n ∈ p.placed ++ p.waiting ∨ n = m) :
    n ∈ (p.visit g m).placed ++ (p.visit g m).waiting := by
  simp only [List.mem_append] at h ⊢
  obtain ⟨hdone, hvisit⟩ | ⟨-, -, -, hvisit⟩ | ⟨-, -, -, hvisit⟩ := visit_cases g p m
  · rw [hvisit]
    rcases h with h | rfl
    · exact h
    · exact .inl (hdone.resolve_left hn)
  · -- the node waits for the one that falls into it
    rw [hvisit]
    rcases h with (h | h) | rfl
    · exact .inl h
    · exact .inr (List.mem_append_left _ h)
    · exact .inr (List.mem_append_right _ (List.mem_singleton_self _))
  · rw [hvisit]
    rcases h with (h | h) | rfl
    · exact .inl (subset_chain _ _ _ h)
    · exact .inr h
    · exact .inl (mem_place _ hn)

theorem mem_foldl_visit {n : Node} (hn : n ≠ .exit) (ns : List Node) (p : Progress)
    (h : n ∈ p.placed ++ p.waiting ∨ n ∈ ns) :
    n ∈ (ns.foldl (Progress.visit g) p).placed ++ (ns.foldl (Progress.visit g) p).waiting := by
  induction ns generalizing p with
  | nil => exact h.resolve_right List.not_mem_nil
  | cons m ns ih =>
    refine ih _ ?_
    rw [List.mem_cons, ← or_assoc] at h
    exact h.imp_left (mem_visit hn)

theorem mem_foldl_place {n : Node} (hn : n ≠ .exit) (waiting placed : List Node)
    (h : n ∈ placed ++ waiting) : n ∈ waiting.foldl g.place placed := by
  induction waiting generalizing placed with
  | nil => simpa using h
  | cons m waiting ih =>
    refine ih _ ?_
    simp only [List.mem_append, List.mem_cons] at h ⊢
    rcases h with h | rfl | h
    · exact .inl (subset_chain _ _ _ h)
    · exact .inl (mem_place placed hn)
    · exact .inr h

/-- The state when all nodes have been taken. -/
def taken (g : Graph) : Progress :=
  g.nodes.foldl (Progress.visit g) {}

/-- All nodes in executable order but the exit. -/
def front (g : Graph) : List Node :=
  g.taken.waiting.foldl g.place g.taken.placed

theorem sequence_eq_front (g : Graph) : g.sequence = g.front ++ [.exit] := rfl

theorem mem_taken (g : Graph) {n : Node} (hn : n ∈ g.nodes) (hexit : n ≠ .exit) :
    n ∈ g.taken.placed ++ g.taken.waiting :=
  mem_foldl_visit hexit g.nodes {} (.inr hn)

/-- **Every node has its place**, whatever the edges are. -/
theorem mem_front (g : Graph) {n : Node} (hn : n ∈ g.nodes) (hexit : n ≠ .exit) : n ∈ g.front :=
  mem_foldl_place hexit _ _ (mem_taken g hn hexit)

/-- The entry and the exit are two nodes of the sequence. -/
theorem two_le_length_sequence (g : Graph) : 2 ≤ g.sequence.length := by
  have hentry : Node.entry ∈ g.front := mem_front g List.mem_cons_self (by decide)
  have hpos := List.length_pos_of_mem hentry
  rw [sequence_eq_front, List.length_append, List.length_singleton]
  omega

/-! ### Linking -/

/-- A block falls into the follower that it is linked to, or into none. -/
theorem next_linkedEdges {next n : Node} {code : List Instruction}
    (h : (g.linkedEdges next code).next = some n) : n = next := by
  unfold linkedEdges at h
  -- a branch, a return, anything else: wherever an edge for falling through is made, it is `next`
  split at h
  · cases h
    rfl
  · dsimp only at h
    split at h
    · dsimp only at h
      split_ifs at h
      cases h
      rfl
    · split_ifs at h
      cases h
      rfl
    · split_ifs at h
      cases h
      rfl
    · cases h
      rfl

/-- A block that ends in a branch to a known label goes there, and on unless the branch always
happens. -/
theorem linkedEdges_bra {next : Node} {code : List Instruction} {i : Instruction} {j : Nat}
    (hcode : code.getLast? = some i) (hop : i.opcode = .bra)
    (hj : (i.d.map Operand.mentioned).bind g.find? = some j) :
    g.linkedEdges next code =
      { next := if i.guard = .always then none else some next, branches := [.block j] } := by
  unfold linkedEdges
  rw [hcode]
  dsimp only
  rw [hop]
  dsimp only
  rw [hj]
  simp

/-- A block that ends in a return or exit goes to the exit if that always happens, and else on. -/
theorem linkedEdges_ret {next : Node} {code : List Instruction} {i : Instruction}
    (hcode : code.getLast? = some i) (hop : i.opcode = .ret ∨ i.opcode = .exit) :
    g.linkedEdges next code =
      if i.guard = .always then { next := none, branches := [.exit] } else { next := some next } := by
  unfold linkedEdges
  rw [hcode]
  dsimp only
  rcases hop with hop | hop
  · rw [hop]
    simp
  · rw [hop]
    simp

/-- Every other block goes on. -/
theorem linkedEdges_else {next : Node} {code : List Instruction}
    (h : ∀ i, code.getLast? = some i → i.opcode ≠ .bra ∧ i.opcode ≠ .ret ∧ i.opcode ≠ .exit) :
    g.linkedEdges next code = { next := some next } := by
  unfold linkedEdges
  split
  · rfl
  · rename_i i hi
    obtain ⟨hbra, hret, hexit⟩ := h i hi
    dsimp only
    split
    · exact absurd ‹_› hbra
    · exact absurd ‹_› hret
    · exact absurd ‹_› hexit
    · rfl

/-- A block goes on unless it ends in a branch, return or exit that always happens. -/
theorem next_linkedEdges_eq_none {next : Node} {code : List Instruction} :
    (g.linkedEdges next code).next = none ↔ ∃ i, code.getLast? = some i ∧
      (i.opcode = .bra ∨ i.opcode = .ret ∨ i.opcode = .exit) ∧ i.guard = .always := by
  unfold linkedEdges
  cases hlast : code.getLast? with
  | none => simp
  | some i =>
    dsimp only
    split <;> rename_i hop
    · simp [hop]
    · by_cases halways : i.guard = .always <;> simp [hop, halways]
    · by_cases halways : i.guard = .always <;> simp [hop, halways]
    · simp_all

theorem length_blocks_link (g : Graph) : g.link.blocks.length = g.blocks.length :=
  List.length_mapIdx

theorem edges_link_block (g : Graph) {i : Nat} {b : Block} (h : g.blocks[i]? = some b) :
    g.link.edges (.block i) = g.linkedEdges (g.follower i) b.code := by
  show ((g.link.blocks[i]?).map Block.edges).getD {} = _
  rw [link, List.getElem?_mapIdx, h]
  rfl

theorem map_label_link (g : Graph) : g.link.blocks.map Block.label = g.blocks.map Block.label := by
  refine List.ext_getElem? fun i => ?_
  rw [link, List.getElem?_map, List.getElem?_mapIdx, List.getElem?_map]
  cases g.blocks[i]? <;> rfl

theorem find?_link (g : Graph) : g.link.find? = g.find? := by
  have hfind : ∀ (h : Graph) (label : String),
      h.find? label = (h.blocks.map Block.label).findIdx? (· = label) :=
    fun h label => by rw [List.findIdx?_map]; rfl
  funext label
  rw [hfind, hfind, map_label_link]

/-- Linking a linked graph changes nothing. -/
theorem link_link (g : Graph) : g.link.link = g.link := by
  -- edges depend on labels, code and the number of blocks, and linking keeps all of these
  have hedges : ∀ i (code : List Instruction),
      g.link.linkedEdges (g.link.follower i) code = g.linkedEdges (g.follower i) code := by
    intro i code
    unfold linkedEdges follower
    rw [find?_link, length_blocks_link]
  have hblocks : (g.link.blocks.mapIdx fun i b =>
      { b with edges := g.link.linkedEdges (g.link.follower i) b.code }) = g.link.blocks := by
    refine List.ext_getElem? fun i => ?_
    rw [List.getElem?_mapIdx, link, List.getElem?_mapIdx, Option.map_map]
    cases g.blocks[i]? with
    | none => rfl
    | some b => exact congrArg (fun e => some { b with edges := e }) (hedges i b.code)
  have hempty : g.link.blocks.isEmpty = g.blocks.isEmpty := by
    rw [link]
    cases g.blocks <;> simp
  show ({ g.link with
    entry := { next := some (if g.link.blocks.isEmpty then .exit else .block 0) }
    blocks := g.link.blocks.mapIdx fun i b =>
      { b with edges := g.link.linkedEdges (g.link.follower i) b.code } } : Graph) = g.link
  rw [hblocks, hempty]
  rfl

/-- The edges are those that linking computes, and none leaves the exit. -/
structure Linked (g : Graph) : Prop where
  link_eq : g.link = g
  exit_eq : g.exit = {}

theorem linked_link (hexit : g.exit = {}) : g.link.Linked :=
  ⟨link_link g, hexit⟩

namespace Linked

theorem edges_entry (h : g.Linked) : g.edges .entry = { next := some (g.nodeAt 1) } := by
  have hentry : g.link.edges .entry = { next := some (g.nodeAt 1) } := by
    show ({ next := some (if g.blocks.isEmpty then .exit else .block 0) } : Edges) = _
    rw [nodeAt]
    cases g.blocks <;> rfl
  rwa [h.link_eq] at hentry

theorem edges_block (h : g.Linked) {i : Nat} {b : Block} (hb : g.blocks[i]? = some b) :
    g.edges (.block i) = g.linkedEdges (g.nodeAt (i + 2)) b.code := by
  have hblock := edges_link_block g hb
  rwa [h.link_eq] at hblock

/-- A linked graph has only edges that fall in source order. -/
theorem inOrder (h : g.Linked) : g.InOrder := by
  refine ⟨fun i hi n hn => ?_, by rw [next?, edges, h.exit_eq]⟩
  cases i with
  | zero =>
    rw [nodeAt, next?, h.edges_entry] at hn
    cases hn
    rfl
  | succ i =>
    have hb := List.getElem?_eq_getElem (show i < g.blocks.length by omega)
    rw [nodeAt_succ_of_lt (by omega), next?, h.edges_block hb] at hn
    exact next_linkedEdges hn

/-- **The executable sequence of a linked graph is its source order.** -/
theorem sequence_eq (h : g.Linked) : g.sequence = g.nodes :=
  sequence_eq_nodes h.inOrder

end Linked

/-- **Linking makes the source order executable**, whatever the edges of the entry and the blocks
were before.  Control then falls into the node directly behind, also into the exit; it falls on from
every block that does not end in a branch, return or exit that always happens; and linking once more
changes nothing. -/
theorem link_runs_in_order (hexit : g.exit = {}) :
    g.link.sequence = .entry :: (List.range g.blocks.length).map .block ++ [.exit] ∧
    (∀ m n, g.link.next? m = some n → [m, n] <:+: g.link.sequence) ∧
    (∀ j b, g.blocks[j]? = some b → (g.link.next? (.block j) = none ↔
      ∃ i, b.code.getLast? = some i ∧
        (i.opcode = .bra ∨ i.opcode = .ret ∨ i.opcode = .exit) ∧ i.guard = .always)) ∧
    g.link.link = g.link := by
  have hlinked : g.link.Linked := linked_link hexit
  refine ⟨?_, fun m n hnext => ?_, fun j b hb => ?_, link_link g⟩
  · rw [hlinked.sequence_eq, nodes, length_blocks_link]
  · rw [hlinked.sequence_eq]
    exact hlinked.inOrder.infix hnext
  · rw [next?, edges_link_block g hb]
    exact next_linkedEdges_eq_none

/-- A block that ends in a branch under a predicate and one that returns, with edges that have
nothing to do with their code. -/
def stale : Graph :=
  { entry := { next := some (.block 1) }
    blocks := [
      { label := "A"
        code := [{ opcode := .bra, d := some ⟨.missing, .label "A"⟩,
                   guard := .straight ⟨1, "%p"⟩ }]
        edges := { next := none, branches := [.exit] } },
      { label := "B", code := [{ opcode := .ret }], edges := { next := some .entry } },
      { label := "C", edges := { next := some (.block 2) } }] }

/-- Linked anew, its blocks run in source order, and only the second one does not go on. -/
theorem link_runs_in_order_stale :
    stale.link.sequence = [.entry, .block 0, .block 1, .block 2, .exit] ∧
      [.block 2, .exit] <:+: stale.link.sequence ∧ stale.link.next? (.block 1) = none ∧
      stale.link.next? (.block 0) ≠ none := by
  obtain ⟨hsequence, hbehind, hnone, -⟩ := link_runs_in_order (g := stale) rfl
  refine ⟨hsequence, hbehind _ _ rfl, ?_, ?_⟩
  · exact (hnone 1 _ rfl).mpr ⟨_, rfl, .inr (.inl rfl), rfl⟩
  · intro hzero
    obtain ⟨i, hi, -, hguard⟩ := (hnone 0 _ rfl).mp hzero
    cases hi
    cases hguard

end Graph

end KernelIR.Source
