import KernelIR.Proofs.Source.Sequence
import Mathlib.Data.List.MinMax
import Mathlib.Data.List.Pairwise

/-!
# Placing the nodes of any graph

Fall-through edges may be shared, run in circles or lead back to the entry; all that is asked of
them here is that they stay in the graph (`Enclosed`).  `sequence_exhausts`: the executable sequence
then holds every node exactly once, with the exit at its end, and with the entry in front if nothing
falls into it.

Both loops behind the sequence come to an end by themselves.  A chain stops because every step uses
up a node without a place (`exists_chains`), so the bound on its steps is never felt: `Chains`
describes the loop without one.  The nodes are taken from a queue, and whichever way the queue keeps
them, it runs empty and gives them in source order as long as it gives one of least rank each time
(`drains_nodes`).
-/

namespace KernelIR.Source.Graph

variable {g : Graph}

/-- Control falls only into nodes of the graph. -/
def Enclosed (g : Graph) : Prop :=
  ∀ m n, g.next? m = some n → n ∈ g.nodes

theorem enclosed_iff : g.Enclosed ↔ ∀ m ∈ g.nodes, ∀ n ∈ g.next? m, n ∈ g.nodes :=
  ⟨fun h m _ n hn => h m n hn, fun h m n hn => h m (mem_nodes_of_next? hn) n hn⟩

instance : Decidable g.Enclosed :=
  decidable_of_iff' _ enclosed_iff

/-- The nodes that have no place yet, in source order. -/
def unplaced (g : Graph) (placed : List Node) : List Node :=
  g.nodes.filter (· ∉ placed)

theorem mem_unplaced {placed : List Node} {n : Node} :
    n ∈ g.unplaced placed ↔ n ∈ g.nodes ∧ n ∉ placed := by
  rw [unplaced, List.mem_filter, decide_eq_true_eq]

/-- Placing one more node leaves fewer without a place. -/
theorem length_unplaced_concat_lt {placed : List Node} {n : Node} (hn : n ∈ g.nodes)
    (hnew : n ∉ placed) : (g.unplaced (placed ++ [n])).length < (g.unplaced placed).length := by
  have hfilter : g.unplaced (placed ++ [n]) = (g.unplaced placed).filter (· ≠ n) := by
    simp only [unplaced, List.filter_filter]
    refine List.filter_congr fun m _ => ?_
    simp [not_or, and_comm]
  rw [hfilter, List.length_filter_lt_length_iff_exists]
  exact ⟨n, mem_unplaced.mpr ⟨hn, hnew⟩, by simp⟩

/-! ### Chains -/

/-- The nodes that the chain from `start` places, one after the other, when `placed` have theirs.
It ends where control falls nowhere, at the exit, and at a node that has its place. -/
inductive Chains (g : Graph) : (placed : List Node) → (start : Option Node) → (run : List Node) → Prop
  | nowhere (placed : List Node) : Chains g placed none []
  | stop {placed : List Node} {n : Node} (h : n = .exit ∨ n ∈ placed) : Chains g placed (some n) []
  | step {placed run : List Node} {n : Node} (hexit : n ≠ .exit) (hnew : n ∉ placed)
      (hrun : Chains g (placed ++ [n]) (g.next? n) run) : Chains g placed (some n) (n :: run)

/-- A chain that may take as many steps as there are nodes without a place ends by itself. -/
theorem exists_chains (h : g.Enclosed) (steps : Nat) {placed : List Node} {start : Option Node}
    (hstart : ∀ n ∈ start, n ∈ g.nodes) (hsteps : (g.unplaced placed).length ≤ steps) :
    ∃ run, g.Chains placed start run ∧ g.chain steps placed start = placed ++ run := by
  induction steps generalizing placed start with
  | zero =>
    cases start with
    | none => exact ⟨[], .nowhere placed, by simp [chain]⟩
    | some n =>
      -- no step is left, but then no node is left either
      have hplaced : n ∈ placed := by
        by_contra hnew
        have hmem := mem_unplaced.mpr ⟨hstart n rfl, hnew⟩
        have := List.length_pos_of_mem hmem
        omega
      exact ⟨[], .stop (.inr hplaced), by simp [chain]⟩
  | succ steps ih =>
    cases start with
    | none => exact ⟨[], .nowhere placed, by simp [chain]⟩
    | some n =>
      rw [chain]
      split_ifs with hstop
      · exact ⟨[], .stop hstop, by simp⟩
      · rw [not_or] at hstop
        have hlt := length_unplaced_concat_lt (hstart n rfl) hstop.2
        have hleft : (g.unplaced (placed ++ [n])).length ≤ steps := by omega
        obtain ⟨run, hrun, hchain⟩ := ih (h n) hleft
        exact ⟨n :: run, .step hstop.1 hstop.2 hrun, by rw [hchain]; simp⟩

/-- Placing the chain from a node appends what the chain places. -/
theorem exists_place_eq (h : g.Enclosed) (placed : List Node) {n : Node} (hn : n ∈ g.nodes) :
    ∃ run, g.Chains placed (some n) run ∧ g.place placed n = placed ++ run :=
  exists_chains h g.nodes.length (by simpa using hn) (List.length_filter_le _ _)

/-- The nodes placed so far are nodes of the graph, each one once, and the exit is not among
them. -/
structure Tidy (g : Graph) (placed : List Node) : Prop where
  nodup : placed.Nodup
  mem : ∀ n ∈ placed, n ∈ g.nodes
  exit : .exit ∉ placed

theorem tidy_nil : g.Tidy [] :=
  ⟨List.nodup_nil, by simp, by simp⟩

theorem Chains.tidy (h : g.Enclosed) {placed run : List Node} {start : Option Node}
    (hrun : g.Chains placed start run) (hstart : ∀ n ∈ start, n ∈ g.nodes)
    (hplaced : g.Tidy placed) : g.Tidy (placed ++ run) := by
  induction hrun with
  | nowhere | stop => simpa using hplaced
  | @step placed run n hexit hnew _ ih =>
    have hconcat : g.Tidy (placed ++ [n]) := by
      refine ⟨List.nodup_append_comm.mpr (List.nodup_cons.mpr ⟨hnew, hplaced.nodup⟩), ?_, ?_⟩
      · intro m hm
        rcases List.mem_append.mp hm with hm | hm
        · exact hplaced.mem m hm
        · rw [List.mem_singleton.mp hm]
          exact hstart n rfl
      · simp [hplaced.exit, hexit.symm]
    simpa using ih (h n) hconcat

theorem Tidy.place (h : g.Enclosed) {placed : List Node} (hplaced : g.Tidy placed) {n : Node}
    (hn : n ∈ g.nodes) : g.Tidy (g.place placed n) := by
  obtain ⟨run, hrun, heq⟩ := exists_place_eq h placed hn
  rw [heq]
  exact hrun.tidy h (by simpa using hn) hplaced

/-! ### Taking the nodes -/

/-- What holds of the nodes placed so far and is kept by every chain, is kept by taking nodes. -/
theorem foldl_visit_keeps {P : List Node → Prop}
    (hplace : ∀ placed, P placed → ∀ n ∈ g.nodes, P (g.place placed n)) {ns : List Node}
    (hns : ns ⊆ g.nodes) {p : Progress} (hp : P p.placed) :
    P (ns.foldl (Progress.visit g) p).placed := by
  induction ns generalizing p with
  | nil => exact hp
  | cons n ns ih =>
    rw [List.cons_subset] at hns
    refine ih hns.2 ?_
    obtain ⟨-, heq⟩ | ⟨-, -, -, heq⟩ | ⟨-, -, -, heq⟩ := visit_cases g p n
    · rwa [heq]
    · rwa [heq]
    · rw [heq]
      exact hplace _ hp n hns.1

/-- The nodes that wait have been taken, and wait in the order in which they were taken. -/
theorem exists_waiting_eq (ns : List Node) (p : Progress) :
    ∃ ws, ws.Sublist ns ∧ (ns.foldl (Progress.visit g) p).waiting = p.waiting ++ ws := by
  induction ns generalizing p with
  | nil => exact ⟨[], List.Sublist.refl _, by simp⟩
  | cons n ns ih =>
    obtain ⟨ws, hws, heq⟩ := ih (p.visit g n)
    rw [List.foldl_cons, heq]
    obtain ⟨-, hvisit⟩ | ⟨-, -, -, hvisit⟩ | ⟨-, -, -, hvisit⟩ := visit_cases g p n
    · exact ⟨ws, hws.cons n, by rw [hvisit]⟩
    · exact ⟨n :: ws, hws.cons_cons n, by rw [hvisit]; simp⟩
    · exact ⟨ws, hws.cons n, by rw [hvisit]⟩

theorem waiting_sublist (g : Graph) : g.taken.waiting.Sublist g.nodes := by
  obtain ⟨ws, hws, heq⟩ := exists_waiting_eq (g := g) g.nodes {}
  rw [taken, heq]
  simpa using hws

/-- What holds when the nodes have been taken and is kept by every chain, holds in the end. -/
theorem front_keeps {P : List Node → Prop}
    (hplace : ∀ placed, P placed → ∀ n ∈ g.nodes, P (g.place placed n)) (htaken : P g.taken.placed) :
    P g.front := by
  have hfold : ∀ (ws placed : List Node), ws ⊆ g.nodes → P placed → P (ws.foldl g.place placed) := by
    intro ws
    induction ws with
    | nil => exact fun _ _ hp => hp
    | cons n ws ih =>
      intro placed hws hp
      rw [List.cons_subset] at hws
      exact ih _ hws.2 (hplace _ hp n hws.1)
  exact hfold _ _ (waiting_sublist g).subset htaken

theorem tidy_taken (h : g.Enclosed) : g.Tidy g.taken.placed :=
  foldl_visit_keeps (fun _ hp _ hn => hp.place h hn) (List.Subset.refl _) tidy_nil

theorem tidy_front (h : g.Enclosed) : g.Tidy g.front :=
  front_keeps (fun _ hp _ hn => hp.place h hn) (tidy_taken h)

theorem nodup_sequence (h : g.Enclosed) : g.sequence.Nodup := by
  have htidy := tidy_front h
  rw [sequence_eq_front, List.nodup_append_comm]
  exact List.nodup_cons.mpr ⟨htidy.exit, htidy.nodup⟩

/-- If nothing falls into the entry, then its chain is placed first. -/
theorem head?_front (h : g.Enclosed) (hentry : ∀ m, g.next? m ≠ some .entry) :
    g.front.head? = some .entry := by
  have hkeeps : ∀ placed, placed.head? = some Node.entry → ∀ n ∈ g.nodes,
      (g.place placed n).head? = some Node.entry := by
    intro placed hplaced n hn
    obtain ⟨run, -, heq⟩ := exists_place_eq h placed hn
    rw [heq, List.head?_append, hplaced]
    rfl
  -- the entry is the first node that is taken
  have hnodes : g.nodes = .entry :: g.nodes.tail := rfl
  have hfirst : (Progress.visit g {} .entry).placed.head? = some Node.entry := by
    obtain ⟨hdone, -⟩ | ⟨-, -, ⟨m, hm, -⟩, -⟩ | ⟨-, -, -, hvisit⟩ := visit_cases g {} .entry
    · simp at hdone
    · exact absurd (next?_of_fallPredecessor? hm) (hentry m)
    · obtain ⟨run, hrun, heq⟩ := exists_place_eq h [] (n := .entry) List.mem_cons_self
      rw [hvisit]
      dsimp only
      rw [heq]
      cases hrun with
      | stop hstop => simp at hstop
      | step => rfl
  refine front_keeps hkeeps ?_
  rw [taken, hnodes, List.foldl_cons]
  exact foldl_visit_keeps hkeeps (List.tail_sublist _).subset hfirst

/-! ### The queue -/

/-- The place of a node in source order. -/
def rank (g : Graph) (n : Node) : Nat :=
  g.nodes.idxOf n

/-- In a list without repeats entries stand by their positions. -/
theorem pairwise_idxOf_lt {ns : List Node} (h : ns.Nodup) :
    ns.Pairwise fun m n => ns.idxOf m < ns.idxOf n := by
  rw [List.pairwise_iff_getElem]
  intro i j hi hj hij
  rwa [h.idxOf_getElem i hi, h.idxOf_getElem j hj]

/-- A queue, given by how a node is taken out of what it holds, gives a node of least rank as long
as it holds any. -/
structure TakesFirst (g : Graph) (pop : List Node → Option (Node × List Node)) : Prop where
  empty : ∀ held, pop held = none → held = []
  least : ∀ held n rest, pop held = some (n, rest) →
    held.Perm (n :: rest) ∧ ∀ m ∈ rest, g.rank n ≤ g.rank m

/-- Taking nodes out of a queue until it is empty gives them in this order. -/
inductive Drains (pop : List Node → Option (Node × List Node)) : List Node → List Node → Prop
  | done {held : List Node} (h : pop held = none) : Drains pop held []
  | take {held rest order : List Node} {n : Node} (h : pop held = some (n, rest))
      (hrest : Drains pop rest order) : Drains pop held (n :: order)

/-- A queue runs empty, gives what it holds, and gives it by rank. -/
theorem exists_drains {pop : List Node → Option (Node × List Node)} (hpop : g.TakesFirst pop)
    (held : List Node) : ∃ order, Drains pop held order ∧ order.Perm held ∧
      order.Pairwise fun m n => g.rank m ≤ g.rank n := by
  -- by induction on the length: what is left after a step is no sublist, only a permutation of one
  induction hlength : held.length generalizing held with
  | zero =>
    obtain rfl := List.eq_nil_of_length_eq_zero hlength
    refine ⟨[], .done ?_, List.Perm.refl _, List.Pairwise.nil⟩
    -- nothing can be taken from the empty list, as it would be a part of it
    cases hnil : pop [] with
    | none => rfl
    | some taken =>
      have hperm := (hpop.least [] taken.1 taken.2 hnil).1
      simpa using hperm.length_eq
  | succ k ih =>
    cases htaken : pop held with
    | none =>
      rw [hpop.empty held htaken] at hlength
      simp at hlength
    | some taken =>
      obtain ⟨n, rest⟩ := taken
      obtain ⟨hperm, hleast⟩ := hpop.least held n rest htaken
      have hrest : rest.length = k := by
        have := hperm.length_eq
        simp only [List.length_cons] at this
        omega
      obtain ⟨order, hdrains, horder, hsorted⟩ := ih rest hrest
      refine ⟨n :: order, .take htaken hdrains, (horder.cons n).trans hperm.symm, ?_⟩
      refine List.pairwise_cons.mpr ⟨fun m hm => ?_, hsorted⟩
      exact hleast m (horder.subset hm)

/-- **A queue of all nodes gives them in source order.** -/
theorem drains_nodes {pop : List Node → Option (Node × List Node)} (hpop : g.TakesFirst pop)
    {held : List Node} (hheld : held.Perm g.nodes) : Drains pop held g.nodes := by
  obtain ⟨order, hdrains, hperm, hsorted⟩ := exists_drains hpop held
  have hnodes : order.Perm g.nodes := hperm.trans hheld
  have hranks : g.nodes.Pairwise fun m n => g.rank m ≤ g.rank n :=
    (pairwise_idxOf_lt g.nodup_nodes).imp fun h => Nat.le_of_lt h
  -- ranks tell nodes apart, so there is only one order by rank
  have heq : order = g.nodes := by
    refine hnodes.eq_of_pairwise (fun m n hm _ h h' => ?_) hsorted hranks
    exact (List.idxOf_inj (hnodes.subset hm)).mp (Nat.le_antisymm h h')
  rwa [← heq]

/-! ### Every node once -/

/-- **The executable sequence loses and repeats no node.**  With any queue that gives nodes of least
rank, the nodes are taken in source order; the chain from any of them ends by itself; and when all
is placed, every node stands in the sequence exactly once, the exit at its end, and the entry in
front unless something falls into it. -/
theorem sequence_exhausts (h : g.Enclosed) {pop : List Node → Option (Node × List Node)}
    (hpop : g.TakesFirst pop) {held : List Node} (hheld : held.Perm g.nodes) :
    Drains pop held g.nodes ∧
    (∀ placed, ∀ n ∈ g.nodes, ∃ run, g.Chains placed (some n) run ∧
      g.place placed n = placed ++ run) ∧
    g.sequence.Nodup ∧ (∀ n, n ∈ g.sequence ↔ n ∈ g.nodes) ∧
    g.sequence.getLast? = some .exit ∧
    ((∀ m, g.next? m ≠ some .entry) → g.sequence.head? = some .entry) := by
  refine ⟨drains_nodes hpop hheld, fun placed n hn => exists_place_eq h placed hn,
    nodup_sequence h, ?_, ?_, ?_⟩
  · intro n
    rw [sequence_eq_front, List.mem_append, List.mem_singleton]
    constructor
    · rintro (hn | rfl)
      · exact (tidy_front h).mem n hn
      · simp [nodes]
    · intro hn
      -- the exit is put last and has no place before
      by_cases hexit : n = .exit
      · exact .inr hexit
      · exact .inl (mem_front g hn hexit)
  · rw [sequence_eq_front, List.getLast?_concat]
  · intro hentry
    rw [sequence_eq_front, List.head?_append, head?_front h hentry]
    rfl

/-- A queue that looks for a node of least rank each time one is taken. -/
def takeFirst (g : Graph) (held : List Node) : Option (Node × List Node) :=
  (held.argmin g.rank).map fun n => (n, held.erase n)

theorem takesFirst_takeFirst (g : Graph) : g.TakesFirst g.takeFirst := by
  constructor
  · intro held h
    rw [takeFirst, Option.map_eq_none_iff] at h
    exact List.argmin_eq_none.mp h
  · intro held n rest h
    rw [takeFirst, Option.map_eq_some_iff] at h
    obtain ⟨m, hm, heq⟩ := h
    cases heq
    refine ⟨List.perm_cons_erase (List.argmin_mem hm), fun k hk => ?_⟩
    exact List.le_of_mem_argmin (List.mem_of_mem_erase hk) hm

/-- Two nodes in a circle that a third one falls into, a node that falls into itself, and three ways
into the exit. -/
def tangle : Graph :=
  { entry := { next := some (.block 4) }
    blocks := [
      { label := "A", edges := { next := some (.block 1) } },
      { label := "B", edges := { next := some (.block 0) } },
      { label := "C", edges := { next := some (.block 2) } },
      { label := "D", edges := { next := some (.block 1) } },
      { label := "E", edges := { next := some .exit } },
      { label := "F", edges := { next := some .exit } }] }

/-- Its nodes come out of a queue that holds them backwards, and each of them has one place. -/
theorem sequence_exhausts_tangle :
    Drains tangle.takeFirst tangle.nodes.reverse tangle.nodes ∧ tangle.sequence.Nodup ∧
      (∀ n, n ∈ tangle.sequence ↔ n ∈ tangle.nodes) ∧ tangle.sequence.head? = some .entry := by
  obtain ⟨hdrains, -, hnodup, hmem, -, hhead⟩ := sequence_exhausts (g := tangle) (by decide)
    (takesFirst_takeFirst tangle) (List.reverse_perm tangle.nodes)
  refine ⟨hdrains, hnodup, hmem, hhead fun m hm => ?_⟩
  have hall : ∀ m ∈ tangle.nodes, tangle.next? m ≠ some .entry := by decide
  exact hall m (mem_nodes_of_next? hm) hm

end KernelIR.Source.Graph
