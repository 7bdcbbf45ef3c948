import KernelIR.Proofs.Source.Sequence

/-!
# Transfers of control and edges

An instruction that returns or exits takes control to the exit of the graph, and a branch takes it
to the block that it mentions.  `Covers` says that the edges of a block account for an instruction
of it: wherever the instruction can take control, an edge leads there.

Linking reads the last instruction of a block and nothing before it.  It covers that instruction if
it is a branch, under any guard, and if it is a return that always runs or from which control falls
into the exit anyway (`covers_link_last`).  It covers neither a branch in the middle of a block nor,
elsewhere, a return under a predicate (`not_covers_link_detour`).
-/

namespace KernelIR.Source.Graph

/-- The nodes that the edges of a node lead to. -/
def successors (g : Graph) (n : Node) : List Node :=
  (g.edges n).next.toList ++ (g.edges n).branches

/-- The edges of the `j`-th block lead to every node that the instruction can take control to. -/
structure Covers (g : Graph) (j : Nat) (i : Instruction) : Prop where
  /-- a return or exit goes to the exit -/
  leave : i.opcode = .ret ∨ i.opcode = .exit → Node.exit ∈ g.successors (.block j)
  /-- a branch goes to the block of its label, if there is one -/
  branch : ∀ label t, i.opcode = .bra → i.d.map Operand.mentioned = some label →
    g.find? label = some t → Node.block t ∈ g.successors (.block j)

/-- The successors of a linked block are those that its code is linked to. -/
theorem successors_link (g : Graph) {j : Nat} {b : Block} (hb : g.link.blocks[j]? = some b) :
    g.link.successors (.block j) =
      (g.link.linkedEdges (g.link.follower j) b.code).next.toList ++
        (g.link.linkedEdges (g.link.follower j) b.code).branches := by
  -- linking once more changes nothing, so the edges can be read off the linked graph itself
  have hedges := edges_link_block g.link hb
  rw [link_link] at hedges
  rw [successors, hedges]

/-- **Linking covers the last instruction of a block**: a branch under any guard, and a return or
exit that always runs or stands in the last block. -/
theorem covers_link_last {g : Graph} {j : Nat} {b : Block} {i : Instruction}
    (hb : g.link.blocks[j]? = some b) (hlast : b.code.getLast? = some i)
    (hreturn : i.opcode ≠ .bra → i.guard = .always ∨ j + 1 = g.blocks.length) :
    g.link.Covers j i := by
  have hsuccessors := successors_link g hb
  constructor
  · intro hop
    have hbra : i.opcode ≠ .bra := by
      intro hbra
      rw [hbra] at hop
      simp at hop
    rw [hsuccessors, linkedEdges_ret hlast hop]
    by_cases halways : i.guard = .always
    · -- an unguarded return is linked to the exit
      rw [if_pos halways]
      simp
    · -- nothing follows the last block, so that control falls from it into the exit
      have hlength : j + 1 = g.blocks.length := (hreturn hbra).resolve_left halways
      have hfollower : g.link.follower j = .exit := by
        rw [follower, length_blocks_link, hlength, if_neg (Nat.lt_irrefl _)]
      rw [if_neg halways, hfollower]
      simp
  · intro label t hop hlabel ht
    have htarget : (i.d.map Operand.mentioned).bind g.link.find? = some t := by
      rw [hlabel]
      exact ht
    rw [hsuccessors, linkedEdges_bra hlast hop htarget]
    simp

/-- A graph with a block that branches before its end, and one that ends in a return under a
predicate. -/
def detour : Graph :=
  { blocks := [
      { label := "A"
        code := [{ opcode := .bra, d := some ⟨.missing, .label "C"⟩ }, { opcode := .bar }] },
      { label := "B", code := [{ opcode := .ret, guard := .straight ⟨1, "%p"⟩ }] },
      { label := "C", code := [{ opcode := .bra, d := some ⟨.missing, .label "B"⟩,
                                 guard := .inverse ⟨1, "%p"⟩ }] }] }

/-- The last instruction of its last block is covered, although it branches back under a guard. -/
theorem covers_link_detour :
    ∃ b i, detour.link.blocks[2]? = some b ∧ b.code.getLast? = some i ∧ i.guard ≠ .never ∧
      detour.link.Covers 2 i :=
  ⟨_, _, rfl, rfl, by decide, covers_link_last rfl rfl (fun hbra => absurd rfl hbra)⟩

/-- Two instructions that run are not covered: the branch before the end of its first block, and the
return that ends its second one. -/
theorem not_covers_link_detour :
    (∃ b, detour.link.blocks[0]? = some b ∧
      ∃ i ∈ b.code, i.guard ≠ .never ∧ i.opcode = .bra ∧ ¬detour.link.Covers 0 i) ∧
    ∃ b, detour.link.blocks[1]? = some b ∧
      ∃ i ∈ b.code, i.guard ≠ .never ∧ i.opcode = .ret ∧ ¬detour.link.Covers 1 i := by
  constructor
  · refine ⟨_, rfl, _, List.mem_cons_self, by decide, rfl, fun hcovers => ?_⟩
    have hmem := hcovers.branch "C" 2 rfl rfl (by decide)
    have hnot : Node.block 2 ∉ detour.link.successors (.block 0) := by decide
    exact hnot hmem
  · refine ⟨_, rfl, _, List.mem_cons_self, by decide, rfl, fun hcovers => ?_⟩
    have hmem := hcovers.leave (.inl rfl)
    have hnot : Node.exit ∉ detour.link.successors (.block 1) := by decide
    exact hnot hmem

end KernelIR.Source.Graph
