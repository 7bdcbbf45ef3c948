import KernelIR.Proofs.Table
import KernelIR.Proofs.Virtual.Operation

/-!
# The layout of a workspace

The layout is which function lists which blocks, and what numbers and owners these have.  Most
operations leave it alone (`SameLayout`); the others make a function, or make or remove one block
(`layout_cases`).  A new block comes between two neighbours of a list (`split_withBlock`), and a
block that is given up leaves two neighbours together (`split_withoutBlock`).

In every run the owner of a block is the function that lists it (`Owned`, `owned_after`).
-/

namespace KernelIR.Virtual

namespace Workspace

variable {w w' : Workspace} {f g b p : Nat} {before : Option Nat}

/-! ### What moves do to functions and blocks -/

theorem function_withFunction (w : Workspace) (name : String) (linkage : Linkage) (g : Nat) :
    (w.withFunction name linkage).function g =
      if g = w.functions.length then
        { name, linkage, blocks := [w.blocks.length, w.blocks.length + 1], nextBlock := 2 }
      else w.function g :=
  getD_concat ..

theorem block_withFunction (w : Workspace) (name : String) (linkage : Linkage) (b : Nat) :
    (w.withFunction name linkage).block b =
      if b = w.blocks.length + 1 then
        { id := 1, name := "exit", owner := some w.functions.length }
      else if b = w.blocks.length then
        { id := 0, name := "entry", owner := some w.functions.length }
      else w.block b := by
  have hblocks : (w.withFunction name linkage).blocks =
      (w.blocks ++ [({ id := 0, name := "entry", owner := some w.functions.length } : BlockRecord)]) ++
        [({ id := 1, name := "exit", owner := some w.functions.length } : BlockRecord)] := by
    simp [withFunction]
  rw [block, hblocks, getD_concat, getD_concat, List.length_append]
  rfl

theorem function_withBlock_of_ne (hg : g ≠ f) (p : Nat) (name : String) :
    (w.withBlock f p name).function g = w.function g := by
  have hne : ∀ n, ¬(f = g ∧ g < n) := fun n h => hg h.1.symm
  rw [withBlock, makeBlock, function_changeFunction, function_changeFunction, if_neg (hne _),
    if_neg (hne _)]
  rfl

theorem block_withBlock (w : Workspace) (f p : Nat) (name : String) (b : Nat) :
    (w.withBlock f p name).block b =
      if b = w.blocks.length then
        { id := (w.function f).nextBlock, name, owner := some f }
      else w.block b :=
  getD_concat ..

theorem functions_cleared (w : Workspace) (code : List Nat) :
    (w.cleared code).functions = w.functions := by
  induction code generalizing w with
  | nil => rfl
  | cons i code ih => exact ih _

theorem blocks_cleared (w : Workspace) (code : List Nat) :
    (w.cleared code).blocks = w.blocks := by
  induction code generalizing w with
  | nil => rfl
  | cons i code ih => exact ih _

theorem function_withoutBlock (w : Workspace) (f b p : Nat) (g : Nat) :
    (w.withoutBlock f b p).function g =
      if f = g ∧ g < w.functions.length then
        { w.function g with blocks := (w.function g).blocks.eraseIdx p }
      else w.function g := by
  have hfunctions := functions_cleared w (w.block b).code
  have hfunction : ∀ h, ((w.cleared (w.block b).code).changeBlock b h).function g = w.function g := by
    intro h
    exact congrArg (·.getD g default) hfunctions
  rw [withoutBlock, function_changeFunction, hfunction]
  exact ite_congr (by rw [← hfunctions]; rfl) (fun _ => rfl) fun _ => rfl

theorem function_withoutBlock_of_ne (hg : g ≠ f) (b p : Nat) :
    (w.withoutBlock f b p).function g = w.function g := by
  rw [function_withoutBlock, if_neg]
  exact fun h => hg h.1.symm

theorem length_functions_withoutBlock :
    (w.withoutBlock f b p).functions.length = w.functions.length := by
  simp [withoutBlock, changeFunction, changeBlock, functions_cleared]

theorem length_blocks_withoutBlock : (w.withoutBlock f b p).blocks.length = w.blocks.length := by
  simp [withoutBlock, changeFunction, changeBlock, blocks_cleared]

theorem block_withoutBlock (w : Workspace) (f b p : Nat) (b' : Nat) :
    (w.withoutBlock f b p).block b' =
      if b = b' ∧ b' < w.blocks.length then { w.block b' with owner := none, code := [] }
      else w.block b' := by
  have hblocks := blocks_cleared w (w.block b).code
  have hblock : (w.cleared (w.block b).code).block b' = w.block b' :=
    congrArg (·.getD b' default) hblocks
  have hchange := block_changeBlock (w.cleared (w.block b).code) b
    (fun r => { r with owner := none, code := [] }) b'
  rw [hblock, hblocks] at hchange
  exact hchange

theorem block_attached (w : Workspace) (i b position b' : Nat) :
    (w.attached i b position).block b' =
      if b = b' ∧ b' < w.blocks.length then
        { w.block b' with code := (w.block b').code.insertIdx position i }
      else w.block b' :=
  block_changeBlock ..

theorem block_detached (w : Workspace) (i b b' : Nat) :
    (w.detached i b).block b' =
      if b = b' ∧ b' < w.blocks.length then
        { w.block b' with code := (w.block b').code.erase i }
      else w.block b' :=
  block_changeBlock ..

/-! ### The layout -/

/-- Functions list the same blocks, and blocks have the same numbers and owners. -/
structure SameLayout (w w' : Workspace) : Prop where
  functions : w'.functions.length = w.functions.length
  lists : ∀ f, (w'.function f).blocks = (w.function f).blocks
  next : ∀ f, (w'.function f).nextBlock = (w.function f).nextBlock
  blocks : w'.blocks.length = w.blocks.length
  ids : ∀ b, (w'.block b).id = (w.block b).id
  owners : ∀ b, (w'.block b).owner = (w.block b).owner

theorem sameLayout_changeInstr (w : Workspace) (i : Nat) (h : Instr → Instr) :
    w.SameLayout (w.changeInstr i h) :=
  ⟨rfl, fun _ => rfl, fun _ => rfl, rfl, fun _ => rfl, fun _ => rfl⟩

theorem Quiet.sameLayout (h : w.Quiet w') : w.SameLayout w' where
  functions := h.functions
  lists := h.lists
  next := h.next
  blocks := by rw [h.blocks]
  ids b := by rw [block, block, h.blocks]
  owners b := by rw [block, block, h.blocks]

theorem sameLayout_changeCode (w : Workspace) (b : Nat) (code : BlockRecord → List Nat) :
    w.SameLayout (w.changeBlock b fun r => { r with code := code r }) where
  functions := rfl
  lists _ := rfl
  next _ := rfl
  blocks := List.length_modify ..
  ids b' := by
    rw [block_changeBlock]
    split_ifs <;> rfl
  owners b' := by
    rw [block_changeBlock]
    split_ifs <;> rfl

theorem SameLayout.trans {w₁ w₂ : Workspace} (h : w.SameLayout w₁) (h' : w₁.SameLayout w₂) :
    w.SameLayout w₂ where
  functions := h'.functions.trans h.functions
  lists f := (h'.lists f).trans (h.lists f)
  next f := (h'.next f).trans (h.next f)
  blocks := h'.blocks.trans h.blocks
  ids b := (h'.ids b).trans (h.ids b)
  owners b := (h'.owners b).trans (h.owners b)

theorem sameLayout_attached (w : Workspace) (i b position : Nat) :
    w.SameLayout (w.attached i b position) :=
  (w.sameLayout_changeInstr i _).trans (sameLayout_changeCode _ b _)

theorem sameLayout_detached (w : Workspace) (i b : Nat) : w.SameLayout (w.detached i b) :=
  (w.sameLayout_changeCode b _).trans (sameLayout_changeInstr _ i _)

/-- **What an operation does to the layout**: nothing, unless it makes a function, or makes or
removes a block. -/
theorem layout_cases (w : Workspace) (op : Operation) :
    w.SameLayout (op.perform w).2 ∨
    (∃ name linkage, (op.perform w).2 = w.withFunction name linkage) ∨
    (∃ f before name p, w.position? f before = some p ∧
      (op.perform w).2 = w.withBlock f p name) ∨
    ∃ f b p, w.removable? f b = some p ∧ (op.perform w).2 = w.withoutBlock f b p := by
  have hmove := w.move_perform op
  generalize (op.perform w).2 = w' at hmove ⊢
  cases hmove with
  | quiet h => exact .inl h.sameLayout
  | function name linkage => exact .inr (.inl ⟨name, linkage, rfl⟩)
  | block h name => exact .inr (.inr (.inl ⟨_, _, name, _, h, rfl⟩))
  | removal h => exact .inr (.inr (.inr ⟨_, _, _, h, rfl⟩))
  | attachment => exact .inl (sameLayout_attached ..)
  | erasure => exact .inl (sameLayout_detached ..)

/-! ### Positions -/

/-- A new block stands before a block that is listed, but not as the first. -/
theorem exists_of_position? (h : w.position? f before = some p) :
    0 < p ∧ ∃ q, (w.function f).blocks[p]? = some q := by
  obtain ⟨hwanted, hpos⟩ := Option.filter_eq_some_iff.mp h
  have hpos : 0 < p := of_decide_eq_true hpos
  refine ⟨hpos, ?_⟩
  cases before with
  | none =>
    obtain rfl := Option.some.inj hwanted
    exact ⟨_, List.getElem?_eq_getElem (by omega)⟩
  | some b => exact ⟨b, getElem?_of_idxOf? hwanted⟩

theorem lt_functions_of_mem (h : b ∈ (w.function f).blocks) : f < w.functions.length := by
  by_contra hf
  have hdefault : w.function f = default := List.getD_eq_default _ _ (Nat.le_of_not_lt hf)
  rw [hdefault] at h
  cases h

theorem lt_of_position? (h : w.position? f before = some p) : f < w.functions.length := by
  obtain ⟨-, q, hq⟩ := exists_of_position? h
  exact lt_functions_of_mem (List.mem_of_getElem? hq)

/-- What a function gives up stands between two other blocks. -/
theorem exists_of_removable? (h : w.removable? f b = some p) :
    0 < p ∧ p + 1 < (w.function f).blocks.length ∧ (w.function f).blocks[p]? = some b := by
  obtain ⟨hidx, hinner⟩ := Option.filter_eq_some_iff.mp h
  obtain ⟨hfirst, hlast⟩ := of_decide_eq_true hinner
  have hb := getElem?_of_idxOf? hidx
  have hp := (List.getElem?_eq_some_iff.mp hb).1
  exact ⟨by omega, by omega, hb⟩

theorem lt_of_removable? (h : w.removable? f b = some p) : f < w.functions.length := by
  obtain ⟨-, -, hb⟩ := exists_of_removable? h
  exact lt_functions_of_mem (List.mem_of_getElem? hb)

/-- A new block comes between two neighbours. -/
theorem split_withBlock (h : w.position? f before = some p) (name : String) :
    ∃ front q back, front ≠ [] ∧ (w.function f).blocks = front ++ q :: back ∧
      ((w.withBlock f p name).function f).blocks = front ++ w.blocks.length :: q :: back := by
  obtain ⟨hpos, q, hq⟩ := exists_of_position? h
  obtain ⟨front, back, hlist, rfl, hinsert, -⟩ := exists_split hq
  refine ⟨front, q, back, List.ne_nil_of_length_pos hpos, hlist, ?_⟩
  rw [function_withBlock (lt_of_position? h)]
  exact hinsert _

/-- The neighbours of a block that is given up come together. -/
theorem split_withoutBlock (h : w.removable? f b = some p) :
    ∃ front back, front ≠ [] ∧ back ≠ [] ∧ (w.function f).blocks = front ++ b :: back ∧
      ((w.withoutBlock f b p).function f).blocks = front ++ back := by
  obtain ⟨hpos, hlast, hb⟩ := exists_of_removable? h
  obtain ⟨front, back, hlist, rfl, -, herase⟩ := exists_split hb
  have hback : back ≠ [] := by
    rintro rfl
    simp [hlist] at hlast
  refine ⟨front, back, List.ne_nil_of_length_pos hpos, hback, hlist, ?_⟩
  rw [function_withoutBlock, if_pos ⟨rfl, lt_of_removable? h⟩]
  exact herase

/-! ### Owners -/

/-- A block is owned by the function that lists it, and only by that one, which lists it once. -/
structure Owned (w : Workspace) : Prop where
  nodup : ∀ f, (w.function f).blocks.Nodup
  owner : ∀ f b, b ∈ (w.function f).blocks ↔ (w.block b).owner = some f

theorem Owned.lt_blocks (h : w.Owned) (hb : b ∈ (w.function f).blocks) : b < w.blocks.length := by
  by_contra hlt
  have howner := (h.owner f b).mp hb
  rw [block, List.getD_eq_default _ _ (Nat.le_of_not_lt hlt)] at howner
  cases howner

theorem owned_empty (name : String) : Owned { name } where
  nodup _ := List.nodup_nil
  owner f b := by constructor <;> intro h <;> cases h

theorem SameLayout.owned (h : w.SameLayout w') (howned : w.Owned) : w'.Owned where
  nodup f := by
    rw [h.lists]
    exact howned.nodup f
  owner f b := by
    rw [h.lists, h.owners]
    exact howned.owner f b

theorem Owned.withFunction (h : w.Owned) (name : String) (linkage : Linkage) :
    (w.withFunction name linkage).Owned where
  nodup f := by
    have hnodup := h.nodup f
    grind [function_withFunction]
  owner f b := by
    have hlt : b ∈ (w.function f).blocks → b < w.blocks.length := h.lt_blocks
    have howner := h.owner f b
    rw [function_withFunction, block_withFunction]
    by_cases hf : f = w.functions.length
    · -- nothing is owned by a function that is not there yet
      have hnone : w.function f = default := by
        rw [hf]
        exact List.getD_eq_default _ _ (Nat.le_refl _)
      have hblocks : (w.function f).blocks = [] := by rw [hnone]; rfl
      grind
    · grind

theorem Owned.withBlock (h : w.Owned) (hposition : w.position? f before = some p) (name : String) :
    (w.withBlock f p name).Owned := by
  obtain ⟨front, q, back, -, hlist, hlist'⟩ := split_withBlock hposition name
  -- the place of the new block is listed nowhere yet
  have hnew : ∀ g, w.blocks.length ∉ (w.function g).blocks := by
    intro g hmem
    exact Nat.lt_irrefl _ (h.lt_blocks hmem)
  constructor
  · intro g
    have hnodup := h.nodup g
    have hfresh := hnew g
    by_cases hg : g = f
    · subst hg
      rw [hlist']
      grind
    · rw [function_withBlock_of_ne hg]
      exact hnodup
  · intro g b
    have howner := h.owner g b
    have hfresh := hnew g
    rw [block_withBlock]
    -- only `f` lists the new block, and only `f` owns it
    by_cases hg : g = f
    · subst hg
      rw [hlist']
      grind
    · rw [function_withBlock_of_ne hg]
      grind

theorem Owned.withoutBlock (h : w.Owned) (hremovable : w.removable? f b = some p) :
    (w.withoutBlock f b p).Owned := by
  obtain ⟨front, back, -, -, hlist, hlist'⟩ := split_withoutBlock hremovable
  have hmem : b ∈ (w.function f).blocks := by simp [hlist]
  have hlt := h.lt_blocks hmem
  constructor
  · intro g
    have hnodup := h.nodup g
    by_cases hg : g = f
    · subst hg
      rw [hlist']
      grind
    · rw [function_withoutBlock_of_ne hg]
      exact hnodup
  · intro g b'
    have hnodup := h.nodup g
    have howner := h.owner g b'
    have hgone := (h.owner f b).mp hmem
    rw [block_withoutBlock]
    -- `b` stood once in the list of `f`, and now in none
    by_cases hg : g = f
    · subst hg
      rw [hlist']
      grind
    · rw [function_withoutBlock_of_ne hg]
      grind

/-- **Every operation keeps the owners right.** -/
theorem owned_perform (h : w.Owned) (op : Operation) : (op.perform w).2.Owned := by
  obtain hsame | ⟨name, linkage, hw⟩ | ⟨f, before, name, p, hp, hw⟩ | ⟨f, b, p, hp, hw⟩ :=
    w.layout_cases op
  · exact hsame.owned h
  · exact hw ▸ h.withFunction name linkage
  · exact hw ▸ h.withBlock hp name
  · exact hw ▸ h.withoutBlock hp

theorem owned_after (h : w.Owned) (ops : List Operation) : (w.after ops).Owned :=
  after_keeps (P := Owned) (fun _ op h => owned_perform h op) h ops

end Workspace

end KernelIR.Virtual
