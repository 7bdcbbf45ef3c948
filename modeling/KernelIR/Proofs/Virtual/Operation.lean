import KernelIR.Proofs.Virtual.Blocks
import KernelIR.Proofs.Virtual.Change
import Mathlib.Data.List.Perm.Basic

/-!
# Operations and runs

All that can be done to a workspace is one type, `Operation`: making and removing functions, globals
and blocks, making, changing, asking and moving instructions.  `Operation.perform` gives the answer
and the workspace that is left; a refused operation answers with a defect.  `Workspace.after` is
what a list of operations leaves, where refused ones are passed over like all others.

What an operation does to the lists of a workspace is said once, here:

* `perform_newFunction`, `perform_newBlock`, `perform_removeBlock`, `perform_appendInstr`,
  `perform_insertInstr` and `perform_eraseInstr` give the workspace after each operation that moves
  something;
* `quiet_perform`: every other operation leaves all listings alone;
* `move_perform` sums this up: an operation is one of a few moves, `Workspace.Move`.
-/

namespace KernelIR.Virtual

/-! ### What can be done -/

/-- An operation on a workspace. -/
inductive Operation
  | newFunction (name : String) (linkage : Linkage)
  | removeFunction (f : Nat)
  | setLinkage (f : Nat) (linkage : Linkage)
  | newGlobal (name : String) (type : Option ValueType) (linkage : Linkage)
  | removeGlobal (g : Nat)
  | setInit (g : Nat) (c : Option Constant)
  | addConstant (c : Option Constant)
  | newBlock (f : Nat) (before : Option Nat) (name : String)
  | removeBlock (f b : Nat)
  | newRegister (f : Nat) (type : Option ValueType) (name : String)
  | newArgument (f : Nat) (type : Option ValueType) (name : String)
  | newInstr (op : Opcode) (block : Option Nat)
  | cloneInstr (i : Nat)
  | changeInstr (i : Nat) (c : Change)
  | askInstr (i : Nat) (q : Query)
  | appendInstr (i b : Nat)
  | insertInstr (i b : Nat) (position : Int)
  | eraseInstr (i b : Nat)

/-- An edit whose result is given as an answer. -/
def Edit.answering {α : Type} (e : Edit α) (answer : α → Answer) (w : Workspace) :
    Except Defect Answer × Workspace :=
  ((e.run.run w).1.map answer, (e.run.run w).2)

/-- The answer of an operation and the workspace that it leaves. -/
def Operation.perform (w : Workspace) : Operation → Except Defect Answer × Workspace
  | newFunction name linkage => (Edit.newFunction name linkage).answering .place w
  | removeFunction f => (Edit.removeFunction f).answering .flag w
  | setLinkage f linkage => (Edit.setLinkage f linkage).answering (fun _ => .done) w
  | newGlobal name type linkage => (Edit.newGlobal name type linkage).answering .place w
  | removeGlobal g => (Edit.removeGlobal g).answering .flag w
  | setInit g c => (Edit.setInit g c).answering (fun _ => .done) w
  | addConstant c => (Edit.addConstant c).answering (fun _ => .done) w
  | newBlock f before name => (Edit.newBlock f before name).answering .place w
  | removeBlock f b => (Edit.removeBlock f b).answering .flag w
  | newRegister f type name => (Edit.newRegister f type name).answering .place w
  | newArgument f type name => (Edit.newArgument f type name).answering .place w
  | newInstr op block => (Edit.newInstr op block).answering .place w
  | cloneInstr i => (Edit.cloneInstr i).answering .place w
  | changeInstr i c => (Edit.changeInstr i fun x => c.apply x).answering (fun _ => .done) w
  | askInstr i q => (q.ask (w.instr i), w)
  | appendInstr i b => (Edit.appendInstr i b).answering (fun _ => .done) w
  | insertInstr i b position => (Edit.insertInstr i b position).answering (fun _ => .done) w
  | eraseInstr i b => (Edit.eraseInstr i b).answering .flag w

namespace Workspace

/-- What some operations leave of a workspace, one after another. -/
def after (w : Workspace) (ops : List Operation) : Workspace :=
  ops.foldl (fun w op => (op.perform w).2) w

/-- What some operations make of nothing. -/
def made (name : String) (ops : List Operation) : Workspace :=
  after { name } ops

theorem after_append (w : Workspace) (ops ops' : List Operation) :
    w.after (ops ++ ops') = (w.after ops).after ops' :=
  List.foldl_append

/-- What every operation keeps is kept by a run. -/
theorem after_keeps {P : Workspace → Prop} (hstep : ∀ w op, P w → P (Operation.perform w op).2)
    {w : Workspace} (h : P w) (ops : List Operation) : P (w.after ops) := by
  induction ops generalizing w with
  | nil => exact h
  | cons op ops ih => exact ih (hstep w op h)

/-! ### Views of a changed workspace -/

variable {w : Workspace} {f g b b' i j : Nat}

theorem function_changeFunction (w : Workspace) (f : Nat) (h : FunctionRecord → FunctionRecord)
    (g : Nat) : (w.changeFunction f h).function g =
      if f = g ∧ g < w.functions.length then h (w.function g) else w.function g :=
  getD_modify w.functions f h g default

theorem block_changeBlock (w : Workspace) (b : Nat) (h : BlockRecord → BlockRecord) (b' : Nat) :
    (w.changeBlock b h).block b' =
      if b = b' ∧ b' < w.blocks.length then h (w.block b') else w.block b' :=
  getD_modify w.blocks b h b' default

theorem instr_changeInstr (w : Workspace) (i : Nat) (h : Instr → Instr) (j : Nat) :
    (w.changeInstr i h).instr j =
      if i = j ∧ j < w.instrs.length then h (w.instr j) else w.instr j :=
  getD_modify w.instrs i h j default

/-! ### Workspaces after a move -/

/-- The workspace with one more function, which has an entry and an exit. -/
def withFunction (w : Workspace) (name : String) (linkage : Linkage) : Workspace :=
  { w with
    functions := w.functions ++
      [{ name, linkage, blocks := [w.blocks.length, w.blocks.length + 1], nextBlock := 2 }]
    blocks := w.blocks ++
      [{ id := 0, name := "entry", owner := some w.functions.length },
        { id := 1, name := "exit", owner := some w.functions.length }]
    functionList := w.functionList ++ [w.functions.length] }

/-- Where a new block of a function is asked to stand, if the block behind it is listed. -/
def wanted? (w : Workspace) (f : Nat) (before : Option Nat) : Option Nat :=
  before.elim (some ((w.function f).blocks.length - 1)) fun b => (w.function f).blocks.idxOf? b

/-- Where a new block of a function comes to stand, unless it is refused. -/
def position? (w : Workspace) (f : Nat) (before : Option Nat) : Option Nat :=
  (w.wanted? f before).filter (0 < ·)

/-- Where a block stands that a function can give up: it is neither the first nor the last. -/
def removable? (w : Workspace) (f b : Nat) : Option Nat :=
  ((w.function f).blocks.idxOf? b).filter fun p => p ≠ 0 ∧ p + 1 ≠ (w.function f).blocks.length

/-- The workspace in which some instructions have lost their operands. -/
def cleared (w : Workspace) (code : List Nat) : Workspace :=
  code.foldl (fun w i => w.changeInstr i Instr.clear) w

/-- The workspace in which a function has given up the block that it listed at a position. -/
def withoutBlock (w : Workspace) (f b position : Nat) : Workspace :=
  ((w.cleared (w.block b).code).changeBlock b fun r =>
    { r with owner := none, code := [] }).changeFunction f fun r =>
      { r with blocks := r.blocks.eraseIdx position }

/-- The instruction that is made for a block: it has no operands, and the next number of the
function that holds the block. -/
def freshInstr (w : Workspace) (op : Opcode) (block : Option Nat) : Instr :=
  let owner := block.bind fun b => (w.block b).owner
  { opcode := op
    id := (owner.map fun f => (w.function f).nextInstr).getD 0
    block := block.map fun b => (w.block b).id }

/-- The workspace with one more instruction. -/
def withInstr (w : Workspace) (op : Opcode) (block : Option Nat) : Workspace :=
  let grown := { w with instrs := w.instrs ++ [w.freshInstr op block] }
  (block.bind fun b => (w.block b).owner).elim grown fun f =>
    grown.changeFunction f fun r => { r with nextInstr := r.nextInstr + 1 }

/-- The workspace in which a block lists one more instruction at a position. -/
def attached (w : Workspace) (i b position : Nat) : Workspace :=
  (w.changeInstr i fun x => { x with block := some (w.block b).id }).changeBlock b fun r =>
    { r with code := r.code.insertIdx position i }

/-- The workspace in which a block has dropped an instruction. -/
def detached (w : Workspace) (i b : Nat) : Workspace :=
  (w.changeBlock b fun r => { r with code := r.code.erase i }).changeInstr i fun x =>
    { x.clear with block := none }

/-- A change of a block counts only for the record that it is applied to. -/
theorem changeBlock_congr {h h' : BlockRecord → BlockRecord} (heq : h (w.block b) = h' (w.block b)) :
    w.changeBlock b h = w.changeBlock b h' := by
  have hmodify : w.blocks.modify b h = w.blocks.modify b h' := by
    refine List.ext_getElem? fun j => ?_
    rw [List.getElem?_modify, List.getElem?_modify]
    by_cases hj : b = j
    · subst hj
      by_cases hb : b < w.blocks.length
      · have hblock : w.block b = w.blocks[b] := by simp [block, hb]
        rw [hblock] at heq
        simp [hb, heq]
      · simp [hb]
    · simp [hj]
  rw [changeBlock, changeBlock, hmodify]

end Workspace

open Workspace

/-! ### What edits do -/

namespace Edit

variable {α : Type} {w : Workspace} {f b p : Nat} {before : Option Nat}

theorem run_get_bind (g : Workspace → Edit α) (w : Workspace) :
    (get >>= g).run.run w = (g w).run.run w :=
  rfl

theorem run_newBlock_of_wanted (name : String) (h : w.wanted? f before = some p) :
    (newBlock f before name).run.run w =
      if p = 0 then (.error (.beforeEntry name), w)
      else (.ok w.blocks.length, w.withBlock f p name) := by
  unfold newBlock
  rw [run_get_bind]
  cases before with
  | none =>
    obtain rfl := Option.some.inj h
    change (ite ((w.function f).blocks.length - 1 = 0) _ _ : Edit Nat).run.run w = _
    split_ifs <;> rfl
  | some b =>
    have hb : (w.function f).blocks.idxOf? b = some p := h
    simp only [hb]
    change (ite (p = 0) _ _ : Edit Nat).run.run w = _
    split_ifs <;> rfl

theorem run_newBlock_of_foreign (name : String) (h : w.wanted? f before = none) :
    ∃ d, (newBlock f before name).run.run w = (.error d, w) := by
  cases before with
  | none => cases h
  | some b =>
    have hb : (w.function f).blocks.idxOf? b = none := h
    refine ⟨.foreignBlock name (w.block b).name (w.function f).name, ?_⟩
    unfold newBlock
    rw [run_get_bind]
    simp only [hb]
    rfl

theorem run_removeBlock_of_some (h : w.removable? f b = some p) :
    (removeBlock f b).run.run w = (.ok true, w.withoutBlock f b p) := by
  obtain ⟨hp, hinner⟩ := Option.filter_eq_some_iff.mp h
  have hends : ¬(p = 0 ∨ p + 1 = (w.function f).blocks.length) := by simpa using hinner
  unfold removeBlock
  rw [run_get_bind]
  simp only [hp]
  rw [if_neg hends]
  rfl

theorem run_removeBlock_of_none (h : w.removable? f b = none) :
    (removeBlock f b).run.run w = (.ok false, w) := by
  unfold removeBlock
  rw [run_get_bind]
  cases hp : (w.function f).blocks.idxOf? b with
  | none =>
    simp only [hp]
    rfl
  | some p =>
    have hends : p = 0 ∨ p + 1 = (w.function f).blocks.length := by
      simpa [removable?, hp, or_iff_not_imp_left] using h
    simp only [hp]
    rw [if_pos hends]
    rfl

end Edit

namespace Operation

variable {w : Workspace} {f b i p : Nat} {before : Option Nat}

theorem perform_newFunction (w : Workspace) (name : String) (linkage : Linkage) :
    perform w (.newFunction name linkage) =
      (.ok (.place w.functions.length), w.withFunction name linkage) := by
  refine Prod.ext rfl ?_
  change Workspace.mk .. = _
  simp [withFunction, changeFunction, function, modify_concat]

theorem perform_removeFunction (w : Workspace) (f : Nat) :
    perform w (.removeFunction f) =
      if f ∈ w.functionList then
        (.ok (.flag true),
          { w.changeFunction f fun r => { r with listed := false } with
            functionList := w.functionList.erase f })
      else (.ok (.flag false), w) := by
  rw [perform, Edit.answering, Edit.removeFunction, Edit.run_get_bind]
  split_ifs <;> rfl

theorem perform_removeGlobal (w : Workspace) (g : Nat) :
    perform w (.removeGlobal g) =
      if g ∈ w.globalList then
        (.ok (.flag true),
          { w.changeGlobal g fun r => { r with listed := false } with
            globalList := w.globalList.erase g })
      else (.ok (.flag false), w) := by
  rw [perform, Edit.answering, Edit.removeGlobal, Edit.run_get_bind]
  split_ifs <;> rfl

theorem perform_newInstr (w : Workspace) (op : Opcode) (block : Option Nat) :
    perform w (.newInstr op block) =
      if op.shape = .invalid then (.error (.invalidOpcode op.code), w)
      else (.ok (.place w.instrs.length), w.withInstr op block) := by
  rw [perform, Edit.answering, Edit.newInstr, Edit.run_get_bind]
  unfold Instr.make
  cases howner : block.bind fun b => (w.block b).owner with
  | none => split_ifs <;> simp only [withInstr, freshInstr, howner] <;> rfl
  | some f => split_ifs <;> simp only [withInstr, freshInstr, howner] <;> rfl

theorem perform_changeInstr {x : Instr} {c : Change} (h : c.apply (w.instr i) = .ok x) :
    perform w (.changeInstr i c) = (.ok .done, w.changeInstr i fun _ => x) := by
  rw [perform, Edit.answering, Edit.changeInstr, Edit.run_get_bind, h]
  rfl

theorem perform_changeInstr_of_error {d : Defect} {c : Change}
    (h : c.apply (w.instr i) = .error d) : perform w (.changeInstr i c) = (.error d, w) := by
  rw [perform, Edit.answering, Edit.changeInstr, Edit.run_get_bind, h]
  rfl

theorem perform_newBlock (name : String) (h : w.position? f before = some p) :
    perform w (.newBlock f before name) =
      (.ok (.place w.blocks.length), w.withBlock f p name) := by
  obtain ⟨hp, hpos⟩ := Option.filter_eq_some_iff.mp h
  have hzero : p ≠ 0 := Nat.pos_iff_ne_zero.mp (of_decide_eq_true hpos)
  rw [perform, Edit.answering, Edit.run_newBlock_of_wanted name hp, if_neg hzero]
  rfl

theorem perform_newBlock_of_none (name : String) (h : w.position? f before = none) :
    ∃ d, perform w (.newBlock f before name) = (.error d, w) := by
  cases hwanted : w.wanted? f before with
  | none =>
    obtain ⟨d, hd⟩ := Edit.run_newBlock_of_foreign name hwanted
    refine ⟨d, ?_⟩
    rw [perform, Edit.answering, hd]
    rfl
  | some p =>
    have hzero : p = 0 := by simpa [position?, hwanted] using h
    refine ⟨.beforeEntry name, ?_⟩
    rw [perform, Edit.answering, Edit.run_newBlock_of_wanted name hwanted, if_pos hzero]
    rfl

theorem perform_removeBlock (h : w.removable? f b = some p) :
    perform w (.removeBlock f b) = (.ok (.flag true), w.withoutBlock f b p) := by
  rw [perform, Edit.answering, Edit.run_removeBlock_of_some h]
  rfl

theorem perform_removeBlock_of_none (h : w.removable? f b = none) :
    perform w (.removeBlock f b) = (.ok (.flag false), w) := by
  rw [perform, Edit.answering, Edit.run_removeBlock_of_none h]
  rfl

theorem perform_appendInstr (w : Workspace) (i b : Nat) :
    perform w (.appendInstr i b) = (.ok .done, w.attached i b (w.block b).code.length) := by
  have hcode : (w.block b).code ++ [i] = (w.block b).code.insertIdx (w.block b).code.length i := by
    rw [List.insertIdx_length_self]
  refine Prod.ext rfl ?_
  exact changeBlock_congr (congrArg (fun code => { w.block b with code }) hcode)

/-- Whether a position is none of a block. -/
def offRange (w : Workspace) (b : Nat) (position : Int) : Prop :=
  position < 0 ∨ (w.block b).code.length < position

instance (w : Workspace) (b : Nat) (position : Int) : Decidable (offRange w b position) :=
  inferInstanceAs (Decidable (_ ∨ _))

theorem perform_insertInstr (w : Workspace) (i b : Nat) (position : Int) :
    perform w (.insertInstr i b position) =
      if offRange w b position then
        (.error (.badPosition (w.block b).name position (w.block b).code.length), w)
      else (.ok .done, w.attached i b position.toNat) := by
  rw [perform, Edit.answering, Edit.insertInstr, Edit.run_get_bind]
  change (Except.map _ ((ite (offRange w b position) _ _ : Edit Unit).run.run w).1,
    ((ite (offRange w b position) _ _ : Edit Unit).run.run w).2) = _
  split_ifs <;> rfl

theorem perform_eraseInstr (w : Workspace) (i b : Nat) :
    perform w (.eraseInstr i b) =
      if i ∈ (w.block b).code then (.ok (.flag true), w.detached i b)
      else (.ok (.flag false), w) := by
  rw [perform, Edit.answering, Edit.eraseInstr, Edit.run_get_bind]
  split_ifs <;> rfl

end Operation

/-! ### Operations that move nothing -/

namespace Workspace

/-- Nothing is listed elsewhere: functions keep their blocks, blocks all that they have, and
instructions the number of their block. -/
structure Quiet (w w' : Workspace) : Prop where
  functions : w'.functions.length = w.functions.length
  lists : ∀ f, (w'.function f).blocks = (w.function f).blocks
  next : ∀ f, (w'.function f).nextBlock = (w.function f).nextBlock
  blocks : w'.blocks = w.blocks
  instrs : w.instrs.length ≤ w'.instrs.length
  homes : ∀ i < w.instrs.length, (w'.instr i).block = (w.instr i).block

variable {w w' : Workspace}

theorem quiet_of_eq (hfunctions : w'.functions = w.functions) (hblocks : w'.blocks = w.blocks)
    (hinstrs : w'.instrs = w.instrs) : w.Quiet w' where
  functions := by rw [hfunctions]
  lists f := by rw [function, function, hfunctions]
  next f := by rw [function, function, hfunctions]
  blocks := hblocks
  instrs := Nat.le_of_eq (congrArg List.length hinstrs.symm)
  homes i _ := by rw [instr, instr, hinstrs]

theorem Quiet.trans {w₁ w₂ : Workspace} (h : w.Quiet w₁) (h' : w₁.Quiet w₂) : w.Quiet w₂ where
  functions := h'.functions.trans h.functions
  lists f := (h'.lists f).trans (h.lists f)
  next f := (h'.next f).trans (h.next f)
  blocks := h'.blocks.trans h.blocks
  instrs := Nat.le_trans h.instrs h'.instrs
  homes i hi := (h'.homes i (Nat.lt_of_lt_of_le hi h.instrs)).trans (h.homes i hi)

theorem quiet_changeFunction (w : Workspace) (f : Nat) (h : FunctionRecord → FunctionRecord)
    (hblocks : ∀ r, (h r).blocks = r.blocks) (hnext : ∀ r, (h r).nextBlock = r.nextBlock) :
    w.Quiet (w.changeFunction f h) where
  functions := List.length_modify ..
  lists g := by
    rw [function_changeFunction]
    split_ifs
    · exact hblocks _
    · rfl
  next g := by
    rw [function_changeFunction]
    split_ifs
    · exact hnext _
    · rfl
  blocks := rfl
  instrs := Nat.le_refl _
  homes _ _ := rfl

theorem quiet_changeInstr {h : Instr → Instr} (w : Workspace) (i : Nat)
    (hblock : (h (w.instr i)).block = (w.instr i).block) : w.Quiet (w.changeInstr i h) where
  functions := rfl
  lists _ := rfl
  next _ := rfl
  blocks := rfl
  instrs := Nat.le_of_eq (List.length_modify ..).symm
  homes j _ := by
    rw [instr_changeInstr]
    split_ifs with hj
    · obtain ⟨rfl, -⟩ := hj
      exact hblock
    · rfl

theorem quiet_concatInstr (w : Workspace) (x : Instr) :
    w.Quiet { w with instrs := w.instrs ++ [x] } where
  functions := rfl
  lists _ := rfl
  next _ := rfl
  blocks := rfl
  instrs := by simp
  homes i hi := by rw [instr, instr, List.getD_append _ _ _ _ hi]

end Workspace

namespace Operation

/-- Whether an operation is one of those that list, unlist or make what is listed. -/
def moves : Operation → Bool
  | newFunction .. | newBlock .. | removeBlock .. | appendInstr .. | insertInstr ..
  | eraseInstr .. => true
  | _ => false

/-- **Other operations leave all listings alone.** -/
theorem quiet_perform (w : Workspace) {op : Operation} (h : op.moves = false) :
    w.Quiet (perform w op).2 := by
  cases op with
  -- these are the operations that move something
  | newFunction | newBlock | removeBlock | appendInstr | insertInstr | eraseInstr => cases h
  | newGlobal | setInit | addConstant | askInstr => exact quiet_of_eq rfl rfl rfl
  | removeFunction f =>
    rw [perform_removeFunction]
    split_ifs
    · refine (w.quiet_changeFunction f (fun r => { r with listed := false }) ?_ ?_).trans ?_
      · exact fun _ => rfl
      · exact fun _ => rfl
      · exact quiet_of_eq rfl rfl rfl
    · exact quiet_of_eq rfl rfl rfl
  | removeGlobal g =>
    rw [perform_removeGlobal]
    split_ifs <;> exact quiet_of_eq rfl rfl rfl
  | setLinkage f linkage => exact w.quiet_changeFunction f _ (fun _ => rfl) fun _ => rfl
  | newRegister f type name =>
    refine Quiet.trans ?_ (quiet_changeFunction _ f _ (fun _ => rfl) fun _ => rfl)
    exact quiet_of_eq rfl rfl rfl
  | newArgument f type name =>
    refine Quiet.trans ?_ (quiet_changeFunction _ f _ (fun _ => rfl) fun _ => rfl)
    exact quiet_of_eq rfl rfl rfl
  | newInstr op block =>
    rw [perform_newInstr]
    split_ifs
    · exact quiet_of_eq rfl rfl rfl
    · unfold withInstr
      -- an instruction is counted by the function of its block, if there is one
      cases block.bind fun b => (w.block b).owner with
      | none => exact w.quiet_concatInstr _
      | some f =>
        refine (w.quiet_concatInstr (w.freshInstr op block)).trans ?_
        exact quiet_changeFunction _ f _ (fun _ => rfl) fun _ => rfl
  | cloneInstr i => exact w.quiet_concatInstr _
  | changeInstr i c =>
    -- a refused change leaves everything as it is
    cases hx : c.apply (w.instr i) with
    | error d =>
      rw [perform_changeInstr_of_error hx]
      exact quiet_of_eq rfl rfl rfl
    | ok x =>
      rw [perform_changeInstr hx]
      exact w.quiet_changeInstr i (Change.apply_keeps hx).2

/-- The instruction that an operation puts into a block, and the block. -/
def attachment? : Operation → Option (Nat × Nat)
  | appendInstr i b => some (i, b)
  | insertInstr i b _ => some (i, b)
  | _ => none

/-- The operation puts the instruction `i` into the block `b`, and is not refused. -/
def Attaches (w : Workspace) (op : Operation) (i b : Nat) : Prop :=
  op.attachment? = some (i, b) ∧ (perform w op).1 = .ok .done

end Operation

/-! ### All that can happen -/

namespace Workspace

/-- What one operation can do to the listings of a workspace. -/
inductive Move (w : Workspace) : Operation → Workspace → Prop
  | quiet {op : Operation} {w' : Workspace} (h : w.Quiet w') : Move w op w'
  | function (name : String) (linkage : Linkage) :
    Move w (.newFunction name linkage) (w.withFunction name linkage)
  | block {f p : Nat} {before : Option Nat} (h : w.position? f before = some p) (name : String) :
    Move w (.newBlock f before name) (w.withBlock f p name)
  | removal {f b p : Nat} (h : w.removable? f b = some p) :
    Move w (.removeBlock f b) (w.withoutBlock f b p)
  | attachment {op : Operation} {i b position : Nat} (h : op.Attaches w i b)
    (hposition : position ≤ (w.block b).code.length) : Move w op (w.attached i b position)
  | erasure {i b : Nat} (h : i ∈ (w.block b).code) : Move w (.eraseInstr i b) (w.detached i b)

/-- **Every operation is one of the moves.** -/
theorem move_perform (w : Workspace) (op : Operation) : w.Move op (op.perform w).2 := by
  have hrefl : w.Quiet w := quiet_of_eq rfl rfl rfl
  cases op with
  | newFunction name linkage =>
    rw [Operation.perform_newFunction]
    exact .function name linkage
  | newBlock f before name =>
    cases hposition : w.position? f before with
    | none =>
      obtain ⟨d, hd⟩ := Operation.perform_newBlock_of_none name hposition
      rw [hd]
      exact .quiet hrefl
    | some p =>
      rw [Operation.perform_newBlock name hposition]
      exact .block hposition name
  | removeBlock f b =>
    cases hremovable : w.removable? f b with
    | none =>
      rw [Operation.perform_removeBlock_of_none hremovable]
      exact .quiet hrefl
    | some p =>
      rw [Operation.perform_removeBlock hremovable]
      exact .removal hremovable
  | appendInstr i b =>
    have hdone := congrArg Prod.fst (Operation.perform_appendInstr w i b)
    rw [Operation.perform_appendInstr]
    exact .attachment ⟨rfl, hdone⟩ (Nat.le_refl _)
  | insertInstr i b position =>
    have hperform := Operation.perform_insertInstr w i b position
    -- a position outside of the code is refused
    by_cases hoff : Operation.offRange w b position
    · rw [hperform, if_pos hoff]
      exact .quiet hrefl
    · rw [if_neg hoff] at hperform
      have hposition : position.toNat ≤ (w.block b).code.length := by
        unfold Operation.offRange at hoff
        omega
      rw [hperform]
      exact .attachment ⟨rfl, congrArg Prod.fst hperform⟩ hposition
  | eraseInstr i b =>
    rw [Operation.perform_eraseInstr]
    split_ifs with hmem
    · exact .erasure hmem
    · exact .quiet hrefl
  -- the others do not move anything
  | _ => exact .quiet (Operation.quiet_perform w rfl)

end Workspace

end KernelIR.Virtual
