import KernelIR.Proofs.Virtual.Layout

/-!
# What the blocks of a function list

`listing` is all that the blocks of a function list.  A new block and the removal of an empty one
leave it alone (`listing_withBlock`, `listing_withoutBlock`); an instruction that is put into a
listed block is listed once more, and one that is erased from it once less (`listing_attached`,
`listing_detached`), and blocks that are not listed count for nothing.
-/

namespace KernelIR.Virtual

/-- If one of the codes gains an entry, so does all that they list. -/
theorem flatMap_perm_cons {bs : List Nat} {code code' : Nat → List Nat} {b i : Nat}
    (hnodup : bs.Nodup) (hb : b ∈ bs) (hgains : (code' b).Perm (i :: code b))
    (hothers : ∀ b' ∈ bs, b' ≠ b → code' b' = code b') :
    (bs.flatMap code').Perm (i :: bs.flatMap code) := by
  obtain ⟨front, back, rfl⟩ := List.append_of_mem hb
  have hfront : front.flatMap code' = front.flatMap code := by
    refine List.flatMap_congr fun x hx => hothers x (by simp [hx]) ?_
    rintro rfl
    exact List.disjoint_of_nodup_append hnodup hx List.mem_cons_self
  have hback : back.flatMap code' = back.flatMap code := by
    refine List.flatMap_congr fun x hx => hothers x (by simp [hx]) ?_
    rintro rfl
    exact (List.nodup_cons.mp (List.Nodup.of_append_right hnodup)).1 hx
  rw [List.flatMap_append, List.flatMap_append, List.flatMap_cons, List.flatMap_cons, hfront, hback]
  exact ((hgains.append_right _).append_left _).trans List.perm_middle

namespace Workspace

variable {w w' : Workspace} {f i b position : Nat}

/-! ### What is listed -/

/-- The instructions that the blocks of a function list. -/
def listing (w : Workspace) (f : Nat) : List Nat :=
  (w.function f).blocks.flatMap fun b => (w.block b).code

theorem mem_listing : i ∈ w.listing f ↔ ∃ b ∈ (w.function f).blocks, i ∈ (w.block b).code :=
  List.mem_flatMap

theorem listing_congr (hlist : (w'.function f).blocks = (w.function f).blocks)
    (hcode : ∀ b ∈ (w.function f).blocks, (w'.block b).code = (w.block b).code) :
    w'.listing f = w.listing f := by
  rw [listing, hlist]
  exact List.flatMap_congr hcode

/-! ### Moves of instructions -/

theorem instr_attached (w : Workspace) (i b position j : Nat) :
    (w.attached i b position).instr j =
      if i = j ∧ j < w.instrs.length then { w.instr j with block := some (w.block b).id }
      else w.instr j :=
  instr_changeInstr ..

theorem instr_detached (w : Workspace) (i b j : Nat) :
    (w.detached i b).instr j =
      if i = j ∧ j < w.instrs.length then { (w.instr j).clear with block := none }
      else w.instr j :=
  instr_changeInstr (w.changeBlock b fun r => { r with code := r.code.erase i }) ..

theorem instr_cleared (w : Workspace) (code : List Nat) (j : Nat) :
    ((w.cleared code).instr j).block = (w.instr j).block := by
  induction code generalizing w with
  | nil => rfl
  | cons i code ih =>
    show ((cleared (w.changeInstr i Instr.clear) code).instr j).block = _
    rw [ih, instr_changeInstr]
    split_ifs <;> rfl

theorem length_instrs_cleared (w : Workspace) (code : List Nat) :
    (w.cleared code).instrs.length = w.instrs.length := by
  induction code generalizing w with
  | nil => rfl
  | cons i code ih => exact (ih _).trans (List.length_modify ..)

theorem length_instrs_withoutBlock {p : Nat} :
    (w.withoutBlock f b p).instrs.length = w.instrs.length :=
  length_instrs_cleared ..

theorem length_instrs_attached : (w.attached i b position).instrs.length = w.instrs.length :=
  List.length_modify ..

theorem length_instrs_detached : (w.detached i b).instrs.length = w.instrs.length :=
  List.length_modify ..

/-! ### Listings after a move -/

theorem listing_withBlock (h : w.Owned) {p : Nat} {before : Option Nat}
    (hp : w.position? f before = some p) (name : String) :
    (w.withBlock f p name).listing f = w.listing f := by
  obtain ⟨front, q, back, -, hlist, hlist'⟩ := split_withBlock hp name
  have hold : ∀ b ∈ (w.function f).blocks,
      ((w.withBlock f p name).block b).code = (w.block b).code := by
    intro b hb
    rw [block_withBlock, if_neg (Nat.ne_of_lt (h.lt_blocks hb))]
  have hnew : ((w.withBlock f p name).block w.blocks.length).code = [] := by
    rw [block_withBlock, if_pos rfl]
  calc (w.withBlock f p name).listing f
      = (w.function f).blocks.flatMap fun b => ((w.withBlock f p name).block b).code := by
        simp [listing, hlist, hlist', hnew]
    _ = w.listing f := List.flatMap_congr hold

/-- A block without code can be given up. -/
theorem listing_withoutBlock {p : Nat} (hp : w.removable? f b = some p)
    (hcode : (w.block b).code = []) : (w.withoutBlock f b p).listing f = w.listing f := by
  obtain ⟨front, back, -, -, hlist, hlist'⟩ := split_withoutBlock hp
  have hold : ∀ b', ((w.withoutBlock f b p).block b').code = (w.block b').code := by
    intro b'
    rw [block_withoutBlock]
    split_ifs with hb
    · rw [← hb.1, hcode]
    · rfl
  simp [listing, hlist, hlist', hold, hcode]

theorem listing_attached (h : w.Owned) (hb : b ∈ (w.function f).blocks)
    (hposition : position ≤ (w.block b).code.length) :
    ((w.attached i b position).listing f).Perm (i :: w.listing f) := by
  refine flatMap_perm_cons (h.nodup f) hb ?_ fun b' _ hne => ?_
  · rw [block_attached, if_pos ⟨rfl, h.lt_blocks hb⟩]
    exact List.perm_insertIdx _ _ hposition
  · rw [block_attached, if_neg fun h => hne h.1.symm]

theorem listing_detached (h : w.Owned) (hb : b ∈ (w.function f).blocks)
    (hmem : i ∈ (w.block b).code) :
    (w.listing f).Perm (i :: (w.detached i b).listing f) := by
  refine flatMap_perm_cons (h.nodup f) hb ?_ fun b' _ hne => ?_
  · rw [block_detached, if_pos ⟨rfl, h.lt_blocks hb⟩]
    exact List.perm_cons_erase hmem
  · rw [block_detached, if_neg fun h => hne h.1.symm]

/-- Blocks that are not listed count for nothing. -/
theorem listing_attached_of_not_mem (hb : b ∉ (w.function f).blocks) :
    (w.attached i b position).listing f = w.listing f := by
  refine listing_congr rfl fun b' hb' => ?_
  rw [block_attached, if_neg]
  rintro ⟨rfl, -⟩
  exact hb hb'

theorem listing_detached_of_not_mem (hb : b ∉ (w.function f).blocks) :
    (w.detached i b).listing f = w.listing f := by
  refine listing_congr rfl fun b' hb' => ?_
  rw [block_detached, if_neg]
  rintro ⟨rfl, -⟩
  exact hb hb'

end Workspace

end KernelIR.Virtual
