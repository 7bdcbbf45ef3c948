import KernelIR.Proofs.Related
import KernelIR.Virtual.Workspace
import Mathlib.Tactic.Common

/-!
# Blocks made by editing

A new function starts with an entry and an exit, and every further block is made right before the
exit.  `does_draft`: for any list of labels none of these edits is refused, and the blocks of the
function are then the entry, one empty block for each label in order, numbered from two, and the
exit.

The invariant is `Drafted`: what the blocks of the function amount to, and that its counter is their
number.  A new block is refused only before the entry, and the exit never comes first
(`does_newBlock`).
-/

namespace KernelIR.Virtual

/-! ### A workspace with one more block -/

namespace Workspace

/-- The workspace in which a function lists a new block at a position. -/
def withBlock (w : Workspace) (f position : Nat) (name : String) : Workspace :=
  (w.makeBlock f name).2.changeFunction f fun r =>
    { r with blocks := r.blocks.insertIdx position w.blocks.length }

variable {w : Workspace} {f position : Nat} {name : String}

theorem function_withBlock (hf : f < w.functions.length) (position : Nat) (name : String) :
    (w.withBlock f position name).function f =
      { w.function f with
        nextBlock := (w.function f).nextBlock + 1
        blocks := (w.function f).blocks.insertIdx position w.blocks.length } := by
  simp [withBlock, makeBlock, changeFunction, function, hf]

theorem length_functions_withBlock :
    (w.withBlock f position name).functions.length = w.functions.length := by
  simp [withBlock, makeBlock, changeFunction]

theorem length_blocks_withBlock :
    (w.withBlock f position name).blocks.length = w.blocks.length + 1 :=
  List.length_append

/-- A block that was there stays the same. -/
theorem blockTree_withBlock {b : Nat} (hb : b < w.blocks.length) :
    (w.withBlock f position name).blockTree b = w.blockTree b := by
  have hblock : (w.withBlock f position name).block b = w.block b := by
    simp [withBlock, makeBlock, changeFunction, block, List.getElem?_append_left hb]
  rw [blockTree, blockTree, hblock]
  rfl

/-- The new block is empty and has the next number of its function. -/
theorem blockTree_withBlock_self :
    (w.withBlock f position name).blockTree w.blocks.length =
      { id := (w.function f).nextBlock, name } := by
  simp [withBlock, makeBlock, changeFunction, blockTree, block]

end Workspace

namespace Edit

variable {α β : Type} {w w' : Workspace} {f : Nat}

/-- The edit is not refused in the workspace `w`: it gives `a` and leaves `w'`. -/
def Does (e : Edit α) (w : Workspace) (a : α) (w' : Workspace) : Prop :=
  e.run.run w = (.ok a, w')

theorem does_pure (a : α) (w : Workspace) : Does (pure a) w a w := rfl

theorem Does.bind {e : Edit α} {g : α → Edit β} {w₁ w₂ : Workspace} {a : α} {b : β}
    (he : Does e w a w₁) (hg : Does (g a) w₁ b w₂) : Does (e >>= g) w b w₂ := by
  unfold Does at he hg ⊢
  rw [ExceptT.run_bind, StateT.run_bind, he]
  exact hg

/-! ### A function under construction -/

/-- The blocks of a function amount to the list, and its next block gets their number. -/
structure Drafted (w : Workspace) (f : Nat) (bs : List Block) : Prop where
  listed : f < w.functions.length
  next : (w.function f).nextBlock = bs.length
  places : ∀ b ∈ (w.function f).blocks, b < w.blocks.length
  blocks : (w.functionTree f).blocks = bs

theorem does_newFunction (name : String) (linkage : Linkage) (w : Workspace) :
    ∃ w', Does (newFunction name linkage) w w.functions.length w' ∧
      Drafted w' w.functions.length [{ id := 0, name := "entry" }, { id := 1, name := "exit" }] := by
  refine ⟨_, rfl, ?_⟩
  constructor <;>
    simp [Workspace.function, Workspace.changeFunction, Workspace.functionTree, Workspace.blockTree,
      Workspace.block]

/-- **A block can be made before the exit**, for the entry stands before it. -/
theorem does_newBlock {front : List Block} {last : Block} (h : Drafted w f (front ++ [last]))
    (hfront : front ≠ []) (name : String) :
    ∃ w', Does (newBlock f none name) w w.blocks.length w' ∧
      Drafted w' f (front ++ [{ id := front.length + 1, name }, last]) := by
  have hblocks : (w.function f).blocks.map w.blockTree = front ++ [last] := h.blocks
  have hlength : (w.function f).blocks.length = front.length + 1 := by
    simpa using congrArg List.length hblocks
  have hpos := List.length_pos_iff.mpr hfront
  have hfunction := Workspace.function_withBlock h.listed front.length name
  refine ⟨w.withBlock f front.length name, ?_, ?_, ?_, ?_, ?_⟩
  · have hposition : (w.function f).blocks.length - 1 = front.length := by omega
    have hzero : ¬front.length = 0 := by omega
    unfold newBlock
    have hget : Does get w w w := rfl
    refine hget.bind ?_
    dsimp only
    refine Does.bind (does_pure _ w) ?_
    rw [hposition, if_neg hzero]
    rfl
  · rw [Workspace.length_functions_withBlock]
    exact h.listed
  · simp [hfunction, h.next]
  · intro b hb
    rw [hfunction] at hb
    rw [Workspace.length_blocks_withBlock]
    rcases List.eq_or_mem_of_mem_insertIdx hb with rfl | hb
    · omega
    · have := h.places b hb
      omega
  · -- the old blocks are what they were, and the new one stands before the last of them
    have hold : (w.function f).blocks.map (w.withBlock f front.length name).blockTree =
        front ++ [last] := by
      rw [← hblocks]
      exact List.map_congr_left fun b hb => Workspace.blockTree_withBlock (h.places b hb)
    show ((w.withBlock f front.length name).function f).blocks.map _ = _
    rw [hfunction, List.map_insertIdx, hold, insertIdx_before_last,
      Workspace.blockTree_withBlock_self, h.next, List.length_append]
    rfl

/-- Makes a block before the exit for each of the labels. -/
def newBlocks (f : Nat) : List String → Edit Unit
  | [] => pure ()
  | label :: labels => do
    let _ ← newBlock f none label
    newBlocks f labels

/-- Makes a function with a block for each of the labels. -/
def draft (name : String) (linkage : Linkage) (labels : List String) : Edit Nat := do
  let f ← newFunction name linkage
  newBlocks f labels
  return f

/-- The blocks for the labels, numbered from `start`. -/
def emptyBlocks (start : Nat) (labels : List String) : List Block :=
  labels.mapIdx fun j name => { id := start + j, name }

theorem does_newBlocks (labels : List String) {front : List Block} {last : Block}
    (hfront : front ≠ []) (h : Drafted w f (front ++ [last])) :
    ∃ w', Does (newBlocks f labels) w () w' ∧
      Drafted w' f (front ++ emptyBlocks (front.length + 1) labels ++ [last]) := by
  induction labels generalizing w front with
  | nil => exact ⟨w, rfl, by simpa [emptyBlocks] using h⟩
  | cons label labels ih =>
    obtain ⟨w₁, hdoes, hdrafted⟩ := does_newBlock h hfront label
    have hblocks : front ++ [({ id := front.length + 1, name := label } : Block), last] =
        (front ++ [{ id := front.length + 1, name := label }]) ++ [last] := by simp
    rw [hblocks] at hdrafted
    obtain ⟨w₂, hdoes₂, hdrafted₂⟩ := ih (by simp) hdrafted
    refine ⟨w₂, hdoes.bind hdoes₂, ?_⟩
    have hids : ∀ j, front.length + 1 + 1 + j = front.length + 1 + (j + 1) := by omega
    simpa [emptyBlocks, List.mapIdx_cons, hids] using hdrafted₂

/-- **A function with a block for each label can always be made.** -/
theorem does_draft (name : String) (linkage : Linkage) (labels : List String) (w : Workspace) :
    ∃ f w', Does (draft name linkage labels) w f w' ∧
      (w'.functionTree f).blocks =
        { id := 0, name := "entry" } :: emptyBlocks 2 labels ++ [{ id := 1, name := "exit" }] := by
  obtain ⟨w₁, hfunction, hdrafted⟩ := does_newFunction name linkage w
  obtain ⟨w₂, hblocks, hdrafted₂⟩ :=
    does_newBlocks labels (List.cons_ne_nil { id := 0, name := "entry" } []) hdrafted
  refine ⟨_, w₂, hfunction.bind (hblocks.bind (does_pure _ w₂)), ?_⟩
  exact hdrafted₂.blocks

end Edit

end KernelIR.Virtual
