import KernelIR.Proofs.Lowering.Kernel
import KernelIR.Proofs.Related
import KernelIR.Proofs.Source.Sequence

/-!
# The layout of a lowered kernel

`Lowered.laidOut`: where the executable sequence of a kernel is its source order, the blocks of the
function stand for the nodes of the graph one by one, from the entry over the blocks in source order
to the exit.  A block has the number and the label of its node and one rendered instruction for each
of the node's instructions.  Numbers and labels tell the blocks apart (`LaidOut.nodup_ids`,
`Lowered.nodup_labels`).
-/

namespace KernelIR.Lowering

open Virtual (Instr)

/-- The block stands for the node. -/
structure IsBlockOf (g : Source.Graph) (s : Scope) (n : Source.Node) (b : Virtual.Block) :
    Prop where
  id : b.id = n.id
  name : b.name = g.label n
  code : List.Forall₂ (fun i x => ∃ fr fr', s.Renders n.id i fr x fr') (g.code n) b.code

/-- The blocks of the function stand for the nodes in source order. -/
def LaidOut (g : Source.Graph) (s : Scope) (f : Virtual.Function) : Prop :=
  List.Forall₂ (IsBlockOf g s) g.nodes f.blocks

variable {g : Source.Graph}

/-! ### The body of a kernel in source order -/

theorem bodyNodes_of_sequence (h : g.sequence = g.nodes) :
    bodyNodes g = (List.range g.blocks.length).map .block := by
  rw [bodyNodes, h]
  show ((List.range g.blocks.length).map Source.Node.block ++ [Source.Node.exit]).dropLast = _
  rw [List.dropLast_concat]

theorem bodyLabels_of_sequence (h : g.sequence = g.nodes) :
    bodyLabels g = g.blocks.map Source.Block.label := by
  have hlabels := g.map_label_nodes
  rw [Source.Graph.nodes, ← bodyNodes_of_sequence h, List.map_append, List.map_cons] at hlabels
  exact List.append_cancel_right (List.cons.inj hlabels).2

/-- Numbered in source order, the nodes of the body have their own numbers. -/
theorem body_of_sequence (h : g.sequence = g.nodes) :
    ((bodyNodes g).mapIdx fun j n => (j + 2, n)) = (bodyNodes g).map fun n => (n.id, n) := by
  rw [bodyNodes_of_sequence h]
  refine List.ext_getElem (by simp) fun j hj hj' => ?_
  simp [Source.Node.id]

/-! ### Layout -/

section Layout

variable {o : Options} {globals : List Virtual.Global} {k : Source.Kernel} {opening : Opening}
  {blocks : List Virtual.Block} {fr : Frame} {f : Virtual.Function}

/-- **The blocks of a lowered kernel stand for its nodes in source order.** -/
theorem Lowered.laidOut (h : Lowered o globals k opening blocks fr f)
    (hseq : k.graph.sequence = k.graph.nodes) : LaidOut k.graph opening.scope f := by
  have hbody : opening.body = (bodyNodes k.graph).map fun n => (n.id, n) := by
    rw [h.opened.body, body_of_sequence hseq]
  have hblocks : List.Forall₂ (IsBlockOf k.graph opening.scope) (bodyNodes k.graph) blocks := by
    have hrun := h.run.forall₂
    rw [hbody, List.forall₂_map_left_iff] at hrun
    refine hrun.imp fun n b hb => ?_
    obtain ⟨fr₁, fr₂, hb⟩ := hb
    obtain ⟨hid, hname, hcode⟩ := yields_lowerBlock.mp hb
    refine ⟨hid, hname, hcode.forall₂.imp fun i x hx => ?_⟩
    obtain ⟨fr₃, fr₄, hx⟩ := hx
    exact ⟨fr₃, fr₄, renders_of_lowerInstruction hx⟩
  rw [bodyNodes_of_sequence hseq] at hblocks
  rw [h.function]
  exact .cons ⟨rfl, rfl, .nil⟩ (List.rel_append hblocks (.cons ⟨rfl, rfl, .nil⟩ .nil))

/-- The labels of a lowered kernel are all different, those of entry and exit among them. -/
theorem Lowered.nodup_labels (h : Lowered o globals k opening blocks fr f)
    (hseq : k.graph.sequence = k.graph.nodes) : (k.graph.nodes.map k.graph.label).Nodup := by
  have hexit := h.opened.exit
  rw [Source.Graph.map_label_nodes, ← bodyLabels_of_sequence hseq, List.nodup_cons, List.mem_append,
    List.mem_singleton, not_or, List.nodup_append]
  refine ⟨⟨h.opened.entry, by decide⟩, h.opened.nodup, List.nodup_singleton _, ?_⟩
  rintro a ha b hb rfl
  rw [List.mem_singleton] at hb
  rw [hb] at ha
  exact hexit ha

end Layout

/-! ### Telling blocks apart -/

namespace LaidOut

variable {s : Scope} {f : Virtual.Function}

theorem length (h : LaidOut g s f) : f.blocks.length = g.nodes.length :=
  (List.Forall₂.length_eq h).symm

/-- The block at the place of a node stands for it. -/
theorem get (h : LaidOut g s f) {t : Nat} {n : Source.Node} (hn : g.nodes[t]? = some n) :
    ∃ b, f.blocks[t]? = some b ∧ IsBlockOf g s n b :=
  forall₂_getElem? h hn

/-- The blocks have the numbers of the nodes. -/
theorem map_id (h : LaidOut g s f) : f.blocks.map Virtual.Block.id = g.nodes.map Source.Node.id :=
  map_eq_of_forall₂ (fun _ _ hb => hb.id) h

/-- The blocks have the labels of the nodes. -/
theorem map_name (h : LaidOut g s f) : f.blocks.map Virtual.Block.name = g.nodes.map g.label :=
  map_eq_of_forall₂ (fun _ _ hb => hb.name) h

theorem nodup_ids (h : LaidOut g s f) : (f.blocks.map Virtual.Block.id).Nodup := by
  rw [h.map_id]
  exact g.nodup_nodes.map Source.Node.id_injective

end LaidOut

end KernelIR.Lowering
