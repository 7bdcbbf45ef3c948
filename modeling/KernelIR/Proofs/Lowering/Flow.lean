import KernelIR.Proofs.Lowering.Layout
import KernelIR.Proofs.Lowering.Module

/-!
# Control flow is preserved

`lower_flowPreserved`: in a lowered module, the function of a loaded kernel has the control flow of
the kernel.  The blocks of the function stand for the nodes of the graph in source order, and from
the end of each of them control can go exactly where the edges of its node lead.

Two resolvers have to agree here.  Linking looks a branch target up among the labels of the graph,
and lowering looks it up in the table of declared blocks; both find the same block because the
labels of a lowered kernel are all different (`find?_of_lookup`).  Whether control falls through is
decided on both sides by the last instruction and its guard (`Scope.Renders.control`,
`isAlways_of_guard`).
-/

namespace KernelIR

open Virtual (Instr Defect)

/-! ### Control flow of functions -/

namespace Virtual.Function

/-- The block with a number. -/
def blockAt? (f : Function) (key : Nat) : Option Block :=
  f.blocks.find? (·.id = key)

/-- Where control can go behind a last instruction, with `next` the block that follows: a branch
goes to its target, and on unless it is unconditional; a return that always happens goes to the
exit; everything else goes on. -/
def leave (f : Function) (next : Option Block) : Option Instr → Except Defect (List Block)
  | none => .ok next.toList
  | some x =>
    match x.opcode with
    | .bra => do
      let target ← x.targetBlock
      let always ← x.isUnconditional
      return (f.blockAt? target).toList ++ if always then [] else next.toList
    | .ret => .ok (if x.guard.isAlways then f.blocks.getLast?.toList else next.toList)
    | _ => .ok next.toList

theorem leave_bra (f : Function) (next : Option Block) {x : Instr} {key : Nat} (hop : x.opcode = .bra)
    (hkey : x.targetBlock = .ok key) :
    f.leave next (some x) =
      .ok ((f.blockAt? key).toList ++ if x.guard.isAlways then [] else next.toList) := by
  have hunconditional : x.isUnconditional = .ok x.guard.isAlways := by
    rw [Instr.isUnconditional, Instr.need, Instr.shape, hop, if_pos (by decide)]
    rfl
  rw [leave, hop]
  dsimp only
  rw [hkey, hunconditional]
  rfl

theorem leave_ret (f : Function) (next : Option Block) {x : Instr} (hop : x.opcode = .ret) :
    f.leave next (some x) =
      .ok (if x.guard.isAlways then f.blocks.getLast?.toList else next.toList) := by
  rw [leave, hop]

theorem leave_else (f : Function) (next : Option Block) {x : Option Instr}
    (h : ∀ y, x = some y → y.opcode ≠ .bra ∧ y.opcode ≠ .ret) :
    f.leave next x = .ok next.toList := by
  unfold leave
  split
  · rfl
  · rename_i y
    obtain ⟨hbra, hret⟩ := h y rfl
    split
    · exact absurd ‹_› hbra
    · exact absurd ‹_› hret
    · rfl

/-- The successors of the block at a place of the layout. -/
def successors (f : Function) (t : Nat) : Except Defect (List Block) :=
  f.leave f.blocks[t + 1]? (f.blocks[t]?.bind (·.code.getLast?))

end Virtual.Function

namespace Lowering

/-- The block of a function that stands for a node: its first block for the entry, its last for the
exit, and the one with the same label for a block. -/
def image? (g : Source.Graph) (f : Virtual.Function) : Source.Node → Option Virtual.Block
  | .entry => f.blocks.head?
  | .exit => f.blocks.getLast?
  | .block i => f.blocks.find? (·.name = g.label (.block i))

/-- The function has the control flow of the graph. -/
structure FlowPreserved (g : Source.Graph) (f : Virtual.Function) : Prop where
  /-- the blocks are the images of the nodes in source order -/
  blocks : f.blocks.map some = g.nodes.map (image? g f)
  /-- the successors of a block are the images of the successors of its node -/
  successors : ∀ (t : Nat) (n : Source.Node), g.nodes[t]? = some n →
    ∃ bs, f.successors t = .ok bs ∧
      bs.map some = ((g.edges n).branches ++ (g.edges n).next.toList).map (image? g f)
  /-- a branch at the end of a block is linked to the block that it mentions -/
  linked : ∀ (j : Nat) (b : Source.Block) (i : Source.Instruction), g.blocks[j]? = some b →
    b.code.getLast? = some i → i.opcode = .bra →
      ∃ t, (g.edges (.block j)).branches = [.block t] ∧
        i.d.map Source.Operand.mentioned = some (g.label (.block t))
  /-- every branch has a target, which is a block of the function -/
  targets : ∀ b ∈ f.blocks, ∀ x ∈ b.code, x.opcode = .bra →
    ∃ key, x.targetBlock = .ok key ∧ (f.blockAt? key).isSome

/-! ### Transfers of control -/

theorem Scope.Follows.opcode {s : Scope} {block : Nat} {i : Source.Instruction} {fr fr' : Frame}
    {p : Plan} {x : Instr} (h : s.Follows block i fr p x fr') : x.opcode = p.opcode := by
  cases h <;> rfl

/-- The image of a guard always holds exactly if the guard does. -/
theorem isAlways_of_guard {s : Scope} {g : Source.Guard} {p : Virtual.Predicate}
    (h : s.guard g = .ok p) : p.isAlways = decide (g = .always) := by
  unfold Scope.guard at h
  cases g with
  | always => cases h; rfl
  | never => cases h; rfl
  | straight r | inverse r | unknown code r =>
    obtain ⟨v, -, rfl⟩ := Fallible.map_eq_ok.mp h
    rfl

/-- An operand whose image is a block mentions the label of that block. -/
theorem Scope.Maps.lookup_mentioned {s : Scope} {fr fr' : Frame} {x : Source.Operand}
    {t : Virtual.Operand} (h : s.Maps fr x t fr') (ht : t.isBlock = true) :
    ∃ id, s.blocks.lookup x.mentioned = some id ∧ t = blockAddress x.mentioned id := by
  cases h with
  | block hnone hid => exact ⟨_, hid, rfl⟩
  | label hid => exact ⟨_, hid, rfl⟩
  | _ => cases ht

/-- A branch becomes a branch to the declared block that it mentions, a return or exit becomes a
return, and everything else neither. -/
theorem Scope.Renders.control {s : Scope} {block : Nat} {i : Source.Instruction} {fr fr' : Frame}
    {x : Instr} (h : s.Renders block i fr x fr') :
    (i.opcode = .bra ∧ x.opcode = .bra ∧
      ∃ name id, i.d.map Source.Operand.mentioned = some name ∧ s.blocks.lookup name = some id ∧
        x.targetBlock = .ok id) ∨
    ((i.opcode = .ret ∨ i.opcode = .exit) ∧ x.opcode = .ret) ∨
    (transfers i.opcode = false ∧ x.opcode ≠ .bra ∧ x.opcode ≠ .ret) := by
  obtain ⟨p, y, g, hp, hg, hy, rfl⟩ := h
  have hop : (y.setGuard g).opcode = p.opcode := hy.opcode
  rcases (plan_fits hp).transfer with ⟨⟨modifier, rfl⟩, hi⟩ | ⟨hret, hi⟩ | ⟨⟨hbra, hret⟩, hi⟩
  · left
    refine ⟨hi, hop, ?_⟩
    cases hy with
    -- no other plan has this opcode
    | branch ht hblock =>
      obtain ⟨d, hd, ht⟩ := ht
      obtain ⟨id, hid, rfl⟩ := ht.lookup_mentioned hblock
      exact ⟨d.mentioned, id, by rw [hd]; rfl, hid, rfl⟩
  · exact .inr (.inl ⟨hi, hop.trans hret⟩)
  · exact .inr (.inr ⟨hi, by rw [hop]; exact hbra, by rw [hop]; exact hret⟩)

theorem Scope.Renders.isAlways {s : Scope} {block : Nat} {i : Source.Instruction} {fr fr' : Frame}
    {x : Instr} (h : s.Renders block i fr x fr') :
    x.guard.isAlways = decide (i.guard = .always) := by
  obtain ⟨p, y, g, -, hg, -, rfl⟩ := h
  exact isAlways_of_guard hg

/-! ### Finding blocks -/

/-- Both resolvers find the same block: the first with the label, and the one whose number the
table of labels gives. -/
theorem find?_of_lookup {g : Source.Graph} {name : String} {id : Nat}
    (hnodup : (g.blocks.map Source.Block.label).Nodup)
    (h : (numberedLabels (g.blocks.map Source.Block.label)).lookup name = some id) :
    ∃ j, g.find? name = some j ∧ j < g.blocks.length ∧ g.label (.block j) = name ∧ id = j + 2 := by
  obtain ⟨j, hj, rfl⟩ := lookup_numberedLabels h
  rw [List.getElem?_map, Option.map_eq_some_iff] at hj
  obtain ⟨b, hb, rfl⟩ := hj
  obtain ⟨hlt, rfl⟩ := List.getElem?_eq_some_iff.mp hb
  refine ⟨j, ?_, hlt, by rw [Source.Graph.label, hb]; rfl, rfl⟩
  rw [Source.Graph.find?, List.findIdx?_eq_some_iff_getElem]
  refine ⟨hlt, decide_eq_true rfl, fun i hi heq => ?_⟩
  -- an earlier block with the same label would be the same block
  have hi' : i < (g.blocks.map Source.Block.label).length := by rw [List.length_map]; omega
  have hsame : (g.blocks.map Source.Block.label)[i]? = (g.blocks.map Source.Block.label)[j]? := by
    rw [List.getElem?_map, List.getElem?_map, List.getElem?_eq_getElem (by omega), hb]
    exact congrArg some (of_decide_eq_true heq)
  have := (List.getElem?_inj hi' hnodup).mp hsame
  omega

/-- The block at the place of a node is its image. -/
theorem LaidOut.image?_eq {g : Source.Graph} {s : Scope} {f : Virtual.Function}
    (h : LaidOut g s f) (hlabels : (g.nodes.map g.label).Nodup) {t : Nat} {n : Source.Node}
    (hn : g.nodes[t]? = some n) : image? g f n = f.blocks[t]? := by
  obtain ⟨b, hb, hblock⟩ := h.get hn
  have hlt := (List.getElem?_eq_some_iff.mp hn).1
  cases n with
  | entry =>
    -- nodes do not repeat, so the place of the entry is the first one
    have ht : t = 0 := (List.getElem?_inj hlt g.nodup_nodes).mp hn
    rw [image?, ht, List.head?_eq_getElem?]
  | exit =>
    have hexit : g.nodes[g.nodes.length - 1]? = some .exit := by
      rw [← List.getLast?_eq_getElem?, Source.Graph.nodes, List.getLast?_concat]
    have ht := (List.getElem?_inj hlt g.nodup_nodes).mp (hn.trans hexit.symm)
    rw [image?, ht, ← h.length, List.getLast?_eq_getElem?]
  | block i =>
    -- a block is found by its label, which is also the name of its image
    rw [← h.map_name] at hlabels
    rw [image?, ← hblock.name, hb]
    exact find?_of_nodup hlabels (List.mem_of_getElem? hb)

/-- A block is found by its number. -/
theorem LaidOut.blockAt?_eq {g : Source.Graph} {s : Scope} {f : Virtual.Function}
    (h : LaidOut g s f) {t : Nat} {n : Source.Node} (hn : g.nodes[t]? = some n) :
    f.blockAt? n.id = f.blocks[t]? := by
  obtain ⟨b, hb, hblock⟩ := h.get hn
  rw [← hblock.id, hb]
  exact find?_of_nodup h.nodup_ids (List.mem_of_getElem? hb)

/-! ### Resolved functions -/

/-- A function that is laid out for a linked graph with different labels, and a scope that numbers
these labels. -/
structure Resolved (g : Source.Graph) (s : Scope) (f : Virtual.Function) : Prop where
  linked : g.Linked
  laidOut : LaidOut g s f
  labels : (g.nodes.map g.label).Nodup
  table : s.blocks = numberedLabels (g.blocks.map Source.Block.label)

theorem Lowered.resolved {o : Options} {globals : List Virtual.Global} {k : Source.Kernel}
    {opening : Opening} {blocks : List Virtual.Block} {fr : Frame} {f : Virtual.Function}
    (h : Lowered o globals k opening blocks fr f) (hlinked : k.graph.Linked) :
    Resolved k.graph opening.scope f where
  linked := hlinked
  laidOut := h.laidOut hlinked.sequence_eq
  labels := h.nodup_labels hlinked.sequence_eq
  table := by rw [h.opened.blocks, bodyLabels_of_sequence hlinked.sequence_eq]

namespace Resolved

variable {g : Source.Graph} {s : Scope} {f : Virtual.Function} {block : Nat}
  {i : Source.Instruction} {fr fr' : Frame} {x : Instr}

theorem image?_nodeAt (h : Resolved g s f) {t : Nat} (ht : t ≤ g.blocks.length + 1) :
    image? g f (g.nodeAt t) = f.blocks[t]? :=
  h.laidOut.image?_eq h.labels (Source.Graph.getElem?_nodes.mpr ⟨ht, rfl⟩)

theorem exists_image?_exit (h : Resolved g s f) : ∃ e, image? g f .exit = some e := by
  have hexit := h.image?_nodeAt (Nat.le_refl (g.blocks.length + 1))
  rw [Source.Graph.nodeAt_length_succ] at hexit
  obtain ⟨b, hb, -⟩ := h.laidOut.get (Source.Graph.getElem?_nodes.mpr ⟨Nat.le_refl _, rfl⟩)
  exact ⟨b, hexit.trans hb⟩

/-- A declared label is that of one block, and its number is that of the image of this block. -/
theorem find?_of_lookup (h : Resolved g s f) {name : String} {id : Nat}
    (hid : s.blocks.lookup name = some id) :
    ∃ j b, g.find? name = some j ∧ g.label (.block j) = name ∧ image? g f (.block j) = some b ∧
      f.blockAt? id = some b := by
  have hnodup : (g.blocks.map Source.Block.label).Nodup := by
    have hlabels := h.labels
    rw [Source.Graph.map_label_nodes, List.nodup_cons, List.nodup_append] at hlabels
    exact hlabels.2.1
  rw [h.table] at hid
  obtain ⟨j, hfind, hlt, hlabel, rfl⟩ := Lowering.find?_of_lookup hnodup hid
  have hnode := Source.Graph.getElem?_nodes_block hlt
  obtain ⟨b, hb, -⟩ := h.laidOut.get hnode
  refine ⟨j, b, hfind, hlabel, ?_, ?_⟩
  · rw [h.laidOut.image?_eq h.labels hnode, hb]
  · exact (h.laidOut.blockAt?_eq hnode).trans hb

/-- Behind a rendered instruction, control can go where the edges lead that linking gives to a block
which ends in the instruction. -/
theorem leave_of_renders (h : Resolved g s f) (hr : s.Renders block i fr x fr')
    {code : List Source.Instruction} (hcode : code.getLast? = some i) {next : Source.Node}
    {b : Virtual.Block} (hnext : image? g f next = some b) :
    ∃ bs, f.leave (some b) (some x) = .ok bs ∧
      bs.map some = ((g.linkedEdges next code).branches ++
        (g.linkedEdges next code).next.toList).map (image? g f) := by
  have halways := hr.isAlways
  rcases hr.control with ⟨hi, hx, name, id, hname, hid, htarget⟩ | ⟨hi, hx⟩ | ⟨hi, hbra, hret⟩
  · -- a branch: its label means the same block on both sides
    obtain ⟨j, b', hfind, -, himage, hb'⟩ := h.find?_of_lookup hid
    have htarget' : (i.d.map Source.Operand.mentioned).bind g.find? = some j := by
      rw [hname]
      exact hfind
    refine ⟨_, f.leave_bra (some b) hx htarget, ?_⟩
    rw [Source.Graph.linkedEdges_bra hcode hi htarget', hb', halways]
    by_cases hg : i.guard = .always
    · simp [hg, himage]
    · simp [hg, himage, hnext]
  · -- a return: it leaves for the exit if its guard always holds, and falls through if not
    refine ⟨_, f.leave_ret (some b) hx, ?_⟩
    rw [Source.Graph.linkedEdges_ret hcode hi, halways]
    obtain ⟨e, he⟩ := h.exists_image?_exit
    have hlast : f.blocks.getLast? = some e := he
    by_cases hg : i.guard = .always
    · simp [hg, he, hlast]
    · simp [hg, hnext]
  · -- everything else falls through
    have hleave : f.leave (some b) (some x) = .ok [b] := by
      refine f.leave_else (some b) fun y hy => ?_
      cases hy
      exact ⟨hbra, hret⟩
    have hlink : g.linkedEdges next code = { next := some next } := by
      refine Source.Graph.linkedEdges_else fun i' hi' => ?_
      rw [hcode] at hi'
      cases hi'
      simpa [transfers] using hi
    refine ⟨_, hleave, ?_⟩
    rw [hlink]
    simp [hnext]

/-- The block behind a node other than the exit is the image of the next node. -/
theorem exists_next (h : Resolved g s f) {t : Nat} (ht : t ≤ g.blocks.length) :
    ∃ b, f.blocks[t + 1]? = some b ∧ image? g f (g.nodeAt (t + 1)) = some b := by
  have himage := h.image?_nodeAt (show t + 1 ≤ g.blocks.length + 1 by omega)
  obtain ⟨b, hb, -⟩ := h.laidOut.get (Source.Graph.getElem?_nodes.mpr
    ⟨show t + 1 ≤ g.blocks.length + 1 by omega, rfl⟩)
  exact ⟨b, hb, himage.trans hb⟩

/-- From the end of a block without code control goes on. -/
theorem successors_of_code_nil (h : Resolved g s f) {t : Nat} {n : Source.Node}
    (hn : g.nodes[t]? = some n) (hcode : g.code n = []) :
    f.successors t = .ok f.blocks[t + 1]?.toList := by
  obtain ⟨b, hb, hblock⟩ := h.laidOut.get hn
  have hempty := hblock.code
  rw [hcode, List.forall₂_nil_left_iff] at hempty
  rw [Virtual.Function.successors, hb, Option.bind_some, hempty]
  rfl

/-- From the end of a block with code control goes where the edges of the block lead. -/
theorem successors_block (h : Resolved g s f) {t : Nat} {b : Source.Block}
    (hb : g.blocks[t]? = some b) :
    ∃ bs, f.successors (t + 1) = .ok bs ∧
      bs.map some = ((g.edges (.block t)).branches ++ (g.edges (.block t)).next.toList).map
        (image? g f) := by
  have hlt := (List.getElem?_eq_some_iff.mp hb).1
  have hcode : g.code (.block t) = b.code := by rw [Source.Graph.code, hb]; rfl
  have hnode := Source.Graph.getElem?_nodes_block hlt
  obtain ⟨b', hb', hblock⟩ := h.laidOut.get hnode
  obtain ⟨next, hnext, himage⟩ := h.exists_next (show t + 1 ≤ g.blocks.length by omega)
  rw [h.linked.edges_block hb]
  cases hi : b.code.getLast? with
  | none =>
    rw [List.getLast?_eq_none_iff] at hi
    refine ⟨[next], ?_, ?_⟩
    · rw [h.successors_of_code_nil hnode (hcode.trans hi), hnext]
      rfl
    · rw [hi, Source.Graph.linkedEdges_else (by simp)]
      simp [himage]
  | some i =>
    -- the last instructions of both blocks are related like all others
    have hrender := hblock.code
    rw [hcode] at hrender
    obtain ⟨x, hx, fr, fr', hr⟩ := forall₂_getElem? hrender
      ((List.getLast?_eq_getElem?).symm.trans hi)
    rw [hrender.length_eq, ← List.getLast?_eq_getElem?] at hx
    obtain ⟨bs, hleave, hbs⟩ := h.leave_of_renders hr hi himage
    refine ⟨bs, ?_, hbs⟩
    rw [Virtual.Function.successors, hb', hnext, Option.bind_some, hx, hleave]

/-- From the end of every block control can go exactly where the edges of its node lead. -/
theorem successors_eq (h : Resolved g s f) {t : Nat} {n : Source.Node} (hn : g.nodes[t]? = some n) :
    ∃ bs, f.successors t = .ok bs ∧
      bs.map some = ((g.edges n).branches ++ (g.edges n).next.toList).map (image? g f) := by
  obtain ⟨ht, rfl⟩ := Source.Graph.getElem?_nodes.mp hn
  cases t with
  -- the entry holds no code and falls into the first block
  | zero =>
    obtain ⟨next, hnext, himage⟩ := h.exists_next (Nat.zero_le _)
    refine ⟨[next], by rw [h.successors_of_code_nil hn rfl, hnext]; rfl, ?_⟩
    rw [Source.Graph.nodeAt, h.linked.edges_entry]
    simp [himage]
  | succ t =>
    rcases Nat.lt_or_eq_of_le (Nat.le_of_succ_le_succ ht) with hlt | rfl
    · rw [Source.Graph.nodeAt_succ_of_lt hlt]
      exact h.successors_block (List.getElem?_eq_getElem hlt)
    · -- the exit: there is no block behind it to fall into
      rw [Source.Graph.nodeAt_length_succ] at hn ⊢
      have hlength : f.blocks.length = g.blocks.length + 2 := h.laidOut.length.trans g.length_nodes
      have hnone : f.blocks[g.blocks.length + 1 + 1]? = none :=
        List.getElem?_eq_none (Nat.le_of_eq hlength)
      refine ⟨[], by rw [h.successors_of_code_nil hn rfl, hnone]; rfl, ?_⟩
      rw [Source.Graph.edges, h.linked.exit_eq]
      rfl

/-- The blocks are the images of the nodes. -/
theorem map_some_blocks (h : Resolved g s f) : f.blocks.map some = g.nodes.map (image? g f) := by
  refine List.ext_getElem? fun t => ?_
  rw [List.getElem?_map, List.getElem?_map]
  cases hn : g.nodes[t]? with
  | none =>
    rw [List.getElem?_eq_none_iff, ← h.laidOut.length] at hn
    rw [List.getElem?_eq_none hn]
    rfl
  | some n =>
    obtain ⟨b, hb, -⟩ := h.laidOut.get hn
    rw [hb, Option.map_some, Option.map_some, h.laidOut.image?_eq h.labels hn, hb]

/-- A branch at the end of a block is linked to the block that it mentions. -/
theorem branches_eq (h : Resolved g s f) {j : Nat} {b : Source.Block} (hb : g.blocks[j]? = some b)
    (hi : b.code.getLast? = some i) (hop : i.opcode = .bra) :
    ∃ t, (g.edges (.block j)).branches = [.block t] ∧
      i.d.map Source.Operand.mentioned = some (g.label (.block t)) := by
  have hlt := (List.getElem?_eq_some_iff.mp hb).1
  have hnode := List.mem_of_getElem? (Source.Graph.getElem?_nodes_block hlt)
  have hmem : i ∈ g.code (.block j) := by
    rw [Source.Graph.code, hb]
    exact List.mem_of_getLast? hi
  obtain ⟨b', -, hblock⟩ := exists_of_forall₂_left h.laidOut hnode
  obtain ⟨x, -, fr, fr', hr⟩ := exists_of_forall₂_left hblock.code hmem
  rcases hr.control with ⟨-, -, name, id, hname, hid, -⟩ | ⟨hret, -⟩ | ⟨hnone, -⟩
  · obtain ⟨t, b'', hfind, hlabel, -⟩ := h.find?_of_lookup hid
    refine ⟨t, ?_, by rw [hname, hlabel]⟩
    rw [h.linked.edges_block hb, Source.Graph.linkedEdges_bra hi hop (by rw [hname]; exact hfind)]
  · -- the remaining kinds of control have other opcodes
    rcases hret with hret | hret <;> rw [hop] at hret <;> cases hret
  · rw [hop] at hnone
    cases hnone

/-- Every branch of the function goes to one of its blocks. -/
theorem exists_target (h : Resolved g s f) {b : Virtual.Block} (hb : b ∈ f.blocks)
    (hx : x ∈ b.code) (hop : x.opcode = .bra) :
    ∃ key, x.targetBlock = .ok key ∧ (f.blockAt? key).isSome := by
  obtain ⟨n, -, hblock⟩ := exists_of_forall₂_right h.laidOut hb
  obtain ⟨i, -, fr, fr', hr⟩ := exists_of_forall₂_right hblock.code hx
  rcases hr.control with ⟨-, -, name, id, -, hid, htarget⟩ | ⟨-, hret⟩ | ⟨-, hbra, -⟩
  · obtain ⟨j, b', -, -, -, hb'⟩ := h.find?_of_lookup hid
    exact ⟨id, htarget, by rw [hb']; rfl⟩
  · rw [hop] at hret
    cases hret
  · exact absurd hop hbra

theorem flowPreserved (h : Resolved g s f) : FlowPreserved g f where
  blocks := h.map_some_blocks
  successors := fun _ _ hn => h.successors_eq hn
  linked := fun _ _ _ hb hi hop => h.branches_eq hb hi hop
  targets := fun _ hb _ hx hop => h.exists_target hb hx hop

end Resolved

/-- **Control flow is preserved.**  In a lowered module, the function of a loaded kernel has the
control flow of the kernel. -/
theorem lower_flowPreserved {d : Source.KernelDescription} {k : Source.Kernel} {o : Options}
    {m : Source.Module} {v : Virtual.Module} {j : Nat} (hk : d.load = .ok k)
    (hj : m.kernels[j]? = some k) (hv : lower o m = .ok v) :
    ∃ f, v.functions[j]? = some f ∧ FlowPreserved k.graph f := by
  obtain ⟨f, hf, hkernel⟩ := forall₂_getElem? (lowered_of_lower hv).functions hj
  obtain ⟨opening, blocks, fr, hlowered⟩ := lowered_of_lowerKernel hkernel
  exact ⟨f, hf, (hlowered.resolved (Source.KernelDescription.load_linked hk)).flowPreserved⟩

theorem countModule_flowPreserved :
    ∃ k m v f, countKernel.load = .ok k ∧ m.kernels[0]? = some k ∧ lower {} m = .ok v ∧
      v.functions[0]? = some f ∧ FlowPreserved k.graph f := by
  obtain ⟨m, v, hm, hv⟩ := exists_lower_countModule
  obtain ⟨k, hj, hk⟩ := forall₂_getElem? (Source.Description.load_forall₂ hm).2 (t := 0) rfl
  obtain ⟨f, hf, hflow⟩ := lower_flowPreserved hk hj hv
  exact ⟨k, m, v, f, hk, hj, hv, hf, hflow⟩

end Lowering

end KernelIR
