import KernelIR.Proofs.Virtual.Operation
import Mathlib.Data.List.ReduceOption

/-!
# How instructions are kept

One record holds the operands of all shapes, and a slot may serve different parts: the first one is
the address of a store, the target of a branch and the operand `a` of others.  `Instr.Represented`
says which slots an instruction may use: none that its shape does not read or write, and one
selector for each source of a `phi` or `psi`.

Every change that is accepted keeps this (`Represented.result`), and so does everything else that an
operation can do to an instruction; `Instr.Closed` gathers what that is, and `holds_of_run` is the
induction over a run.  It follows that reads and writes together show each operand that is held,
once and in order (`Represented.reduceOption_reads_writes`), and that a copy is like the original
(`Represented.clone_eq`).
-/

namespace KernelIR.Virtual

namespace Instr

/-! ### The slots in use -/

/-- The slots that are read behind the guard, as far as the shape uses them. -/
def slots (x : Instr) : List (Option Operand) :=
  [x.first, x.second, x.third]

/-- An instruction has nothing in a slot that its shape does not use. -/
structure Represented (x : Instr) : Prop where
  destination : x.shape.hasDestination = false → x.destination = none
  slots : ∀ o ∈ x.slots.drop x.shape.fixedReads, o = none
  returns : x.shape ≠ .call → x.returns = []
  extra : x.shape ∉ [.call, .phi, .psi] → x.extra = []
  sourceBlocks : x.sourceBlocks.length = if x.shape = .phi then x.extra.length else 0
  sourcePredicates : x.sourcePredicates.length = if x.shape = .psi then x.extra.length else 0

variable {x : Instr}

theorem represented_clear (x : Instr) : x.clear.Represented where
  destination _ := rfl
  slots o ho := by
    have hmem : o ∈ [none, none, none] := List.mem_of_mem_drop ho
    simpa using hmem
  returns _ := rfl
  extra _ := rfl
  sourceBlocks := (ite_self 0).symm
  sourcePredicates := (ite_self 0).symm

theorem Represented.setBlock (h : x.Represented) (b : Option Nat) :
    { x with block := b }.Represented :=
  ⟨h.destination, h.slots, h.returns, h.extra, h.sourceBlocks, h.sourcePredicates⟩

/-- A slot may be set that the shape reads. -/
theorem Represented.setSlot (h : x.Represented) (k : Nat) {o first second third : Option Operand}
    (hset : [first, second, third] = x.slots.set k o) (hk : k < x.shape.fixedReads) :
    { x with first, second, third }.Represented := by
  refine ⟨h.destination, ?_, h.returns, h.extra, h.sourceBlocks, h.sourcePredicates⟩
  have hdrop : [first, second, third].drop x.shape.fixedReads = x.slots.drop x.shape.fixedReads := by
    rw [hset, List.drop_set_of_lt hk]
  intro u hu
  exact h.slots u (hdrop ▸ hu)

/-- Lists of operands may be set for the shapes that have them, with a selector for each source. -/
theorem Represented.setExtra (h : x.Represented) {extra : List (Option Operand)}
    {sourceBlocks : List Int} {sourcePredicates : List Predicate}
    (hshape : x.shape ∈ [.call, .phi, .psi])
    (hblocks : sourceBlocks.length = if x.shape = .phi then extra.length else 0)
    (hpredicates : sourcePredicates.length = if x.shape = .psi then extra.length else 0) :
    { x with extra, sourceBlocks, sourcePredicates }.Represented :=
  ⟨h.destination, h.slots, h.returns, fun hnone => absurd hshape hnone, hblocks, hpredicates⟩

theorem Represented.setDestination (h : x.Represented) (hhas : x.shape.hasDestination = true)
    (o : Option Operand) : { x with destination := o }.Represented := by
  refine ⟨fun hnone => ?_, h.slots, h.returns, h.extra, h.sourceBlocks, h.sourcePredicates⟩
  cases hhas.symm.trans hnone

theorem Represented.setReturns (h : x.Represented) (hcall : x.shape = .call)
    (returns : List (Option Operand)) : { x with returns }.Represented :=
  ⟨h.destination, h.slots, fun hne => absurd hcall hne, h.extra, h.sourceBlocks, h.sourcePredicates⟩

theorem Represented.setArguments (h : x.Represented) (hcall : x.shape = .call)
    (extra : List (Option Operand)) : { x with extra }.Represented := by
  refine h.setExtra ?_ ?_ ?_
  · simp [hcall]
  · simpa [hcall] using h.sourceBlocks
  · simpa [hcall] using h.sourcePredicates

/-! ### Sources -/

theorem Represented.length_sourceBlocks (h : x.Represented) (hphi : x.shape = .phi) :
    x.sourceBlocks.length = x.extra.length := by
  rw [h.sourceBlocks, if_pos hphi]

theorem Represented.length_sourcePredicates (h : x.Represented) (hpsi : x.shape = .psi) :
    x.sourcePredicates.length = x.extra.length := by
  rw [h.sourcePredicates, if_pos hpsi]

/-- The sources of a `phi` may be set together with their blocks. -/
theorem Represented.setPhiSources (h : x.Represented) (hphi : x.shape = .phi)
    {extra : List (Option Operand)} {sourceBlocks : List Int}
    (hlength : sourceBlocks.length = extra.length) :
    { x with extra, sourceBlocks }.Represented := by
  refine h.setExtra ?_ ?_ ?_
  · simp [hphi]
  · rw [if_pos hphi, hlength]
  · simpa [hphi] using h.sourcePredicates

/-- The sources of a `psi` may be set together with their predicates. -/
theorem Represented.setPsiSources (h : x.Represented) (hpsi : x.shape = .psi)
    {extra : List (Option Operand)} {sourcePredicates : List Predicate}
    (hlength : sourcePredicates.length = extra.length) :
    { x with extra, sourcePredicates }.Represented := by
  refine h.setExtra ?_ ?_ ?_
  · simp [hpsi]
  · simpa [hpsi] using h.sourceBlocks
  · rw [if_pos hpsi, hlength]

/-! ### Changes -/

/-- An accepted change is of a part that the shape has. -/
theorem shape_mem_of_not_refused {c : Change} (hc : ¬c.Refused x) {p : Part}
    (hp : c.part? = some p) : x.shape ∈ p.shapes := by
  by_contra hlacks
  exact hc (.inl ⟨p, hp, fun hmem => hlacks ((mem_parts_iff p x.shape).mp hmem)⟩)

/-- The destination of a store is the first slot that is read, and else a slot of its own. -/
theorem Represented.result_destination (h : x.Represented)
    (hshape : x.shape ∈ Part.destination.shapes) (o : Option Operand) :
    ((Change.destination o).result x).Represented := by
  have hhas : ∀ s ∈ Part.destination.shapes, s ≠ .store → s.hasDestination = true := by decide
  simp only [Change.result]
  split_ifs with hstore
  · exact h.setSlot 0 rfl (by rw [hstore]; decide)
  · exact h.setDestination (hhas x.shape hshape hstore) o

/-- The operand `a` of a store is behind its destination, and else the first that is read. -/
theorem Represented.result_a (h : x.Represented) (hshape : x.shape ∈ Part.a.shapes)
    (o : Option Operand) : ((Change.a o).result x).Represented := by
  have hreads : ∀ s ∈ Part.a.shapes, 0 < s.fixedReads := by decide
  simp only [Change.result]
  split_ifs with hstore
  · exact h.setSlot 1 rfl (by rw [hstore]; decide)
  · exact h.setSlot 0 rfl (hreads x.shape hshape)

/-- **An accepted change keeps the representation.** -/
theorem Represented.result (h : x.Represented) {c : Change} (hc : ¬c.Refused x) :
    (c.result x).Represented := by
  have hshape : ∀ p, c.part? = some p → x.shape ∈ p.shapes := fun p hp =>
    shape_mem_of_not_refused hc hp
  cases c with
  | guard | tags =>
    exact ⟨h.destination, h.slots, h.returns, h.extra, h.sourceBlocks, h.sourcePredicates⟩
  | destination o => exact h.result_destination (hshape .destination rfl) o
  | a o => exact h.result_a (hshape .a rfl) o
  | b o =>
    -- every shape that has the part reads the slot it is kept in
    have hreads : ∀ s ∈ Part.b.shapes, 1 < s.fixedReads := by decide
    exact h.setSlot 1 rfl (hreads x.shape (hshape .b rfl))
  | c o =>
    have hreads : ∀ s ∈ Part.c.shapes, 2 < s.fixedReads := by decide
    exact h.setSlot 2 rfl (hreads x.shape (hshape .c rfl))
  | target o =>
    have hreads : ∀ s ∈ Part.target.shapes, 0 < s.fixedReads := by decide
    exact h.setSlot 0 rfl (hreads x.shape (hshape .target rfl))
  | addReturn o => exact h.setReturns (List.mem_singleton.mp (hshape .returns rfl)) _
  | addArgument o => exact h.setArguments (List.mem_singleton.mp (hshape .arguments rfl)) _
  | addPhiSource r block =>
    have hphi := List.mem_singleton.mp (hshape .phiSources rfl)
    exact h.setPhiSources hphi (by simp [h.length_sourceBlocks hphi])
  | removePhiSource block =>
    have hphi := List.mem_singleton.mp (hshape .phiSources rfl)
    simp only [Change.result]
    -- both lists lose the entry at one place, so they stay of one length
    cases x.sourceBlocks.idxOf? block with
    | none => exact h
    | some j => exact h.setPhiSources hphi (length_eraseIdx_eq (h.length_sourceBlocks hphi) j)
  | addPsiSource p r =>
    have hpsi := List.mem_singleton.mp (hshape .psiSources rfl)
    exact h.setPsiSources hpsi (by simp [h.length_sourcePredicates hpsi])
  | removePsiSource p =>
    have hpsi := List.mem_singleton.mp (hshape .psiSources rfl)
    simp only [Change.result]
    cases x.sourcePredicates.idxOf? p with
    | none => exact h
    | some j => exact h.setPsiSources hpsi (length_eraseIdx_eq (h.length_sourcePredicates hpsi) j)

/-! ### Reads, writes and copies -/

/-- The operands that are held in the slots and lists, set or not: those that are read and those
that are written, each in the order of the slots.  What selects a source of a `phi` or `psi` belongs
to that source and is no operand in its own right. -/
def held (x : Instr) : List (Option Operand) :=
  some (.predicate x.guard) :: (x.slots ++ x.extra) ++ ([x.destination] ++ x.returns)

theorem length_fixedReads (x : Instr) :
    x.fixedReads.length =
      x.shape.fixedReads - if x.shape = .atomic ∧ x.third = none then 1 else 0 := by
  have hle : x.shape.fixedReads ≤ 3 := by cases x.shape <;> decide
  unfold fixedReads
  split_ifs with hunset
  · rw [hunset.1]
    rfl
  · simp [hle]

theorem length_reads (x : Instr) :
    x.reads.length =
      1 + (x.shape.fixedReads - if x.shape = .atomic ∧ x.third = none then 1 else 0) +
        x.extra.length := by
  rw [reads, operandsRead, List.length_cons, List.length_append, length_fixedReads]
  omega

theorem reduceOption_eq_nil {xs : List (Option Operand)} (h : ∀ o ∈ xs, o = none) :
    xs.reduceOption = [] :=
  (List.reduceOption_eq_nil_iff xs).mpr ⟨xs.length, List.eq_replicate_of_mem h⟩

/-- The slots that are not read are empty. -/
theorem Represented.reduceOption_fixedReads (h : x.Represented) :
    x.fixedReads.reduceOption = x.slots.reduceOption := by
  have htake : (x.slots.take x.shape.fixedReads).reduceOption = x.slots.reduceOption := by
    conv_rhs => rw [← List.take_append_drop x.shape.fixedReads x.slots]
    rw [List.reduceOption_append, reduceOption_eq_nil h.slots, List.append_nil]
  by_cases hunset : x.shape = .atomic ∧ x.third = none
  · have hslots : x.slots = [x.first, x.second] ++ [none] := by rw [Instr.slots, hunset.2]; rfl
    rw [hslots, List.reduceOption_append, fixedReads, if_pos hunset, hunset.1]
    exact (List.append_nil _).symm
  · rw [fixedReads, if_neg hunset]
    exact htake

/-- What is not written is empty. -/
theorem Represented.reduceOption_writes (h : x.Represented) :
    x.writes.reduceOption = ([x.destination] ++ x.returns).reduceOption := by
  unfold writes
  split_ifs with hcall hdestination
  · have hnone : x.destination = none := h.destination (by rw [hcall]; rfl)
    simp [hnone]
  · simp [h.returns hcall]
  · have hnone : x.destination = none := h.destination (by simpa using hdestination)
    simp [hnone, h.returns hcall]

/-- **Reads and writes show every operand that is held**, once and in order. -/
theorem Represented.reduceOption_reads_writes (h : x.Represented) :
    (x.reads ++ x.writes).reduceOption = x.held.reduceOption := by
  have hreads : x.operandsRead.reduceOption = (x.slots ++ x.extra).reduceOption := by
    rw [operandsRead, List.reduceOption_append, List.reduceOption_append, h.reduceOption_fixedReads]
  calc (x.reads ++ x.writes).reduceOption
      = .predicate x.guard :: x.operandsRead.reduceOption ++ x.writes.reduceOption := by
        rw [List.reduceOption_append, reads, List.reduceOption_cons_of_some]
    _ = .predicate x.guard :: (x.slots ++ x.extra).reduceOption ++
          ([x.destination] ++ x.returns).reduceOption := by rw [hreads, h.reduceOption_writes]
    _ = x.held.reduceOption := by simp [held, List.reduceOption_append]

theorem copied_eq_self {α : Type} [Inhabited α] {n : Nat} {xs : List α} (h : xs.length = n) :
    copied n xs = xs := by
  subst h
  exact List.take_left

/-- **A copy is like the original.** -/
theorem Represented.clone_eq (h : x.Represented) : x.clone = x := by
  have hblocks : (if x.shape = .phi then copied x.extra.length x.sourceBlocks else []) =
      x.sourceBlocks := by
    have hlength := h.sourceBlocks
    split_ifs at hlength ⊢
    · exact copied_eq_self hlength
    · exact (List.eq_nil_of_length_eq_zero hlength).symm
  have hpredicates : (if x.shape = .psi then copied x.extra.length x.sourcePredicates else []) =
      x.sourcePredicates := by
    have hlength := h.sourcePredicates
    split_ifs at hlength ⊢
    · exact copied_eq_self hlength
    · exact (List.eq_nil_of_length_eq_zero hlength).symm
  unfold clone
  rw [hblocks, hpredicates]

/-! ### Runs -/

/-- A property of instructions that no operation can end: instructions without operands have it, and
it is kept by moves between blocks, by accepted changes and by copies. -/
structure Closed (P : Instr → Prop) : Prop where
  clear : ∀ x : Instr, P x.clear
  setBlock : ∀ (x : Instr) (b : Option Nat), P x → P { x with block := b }
  change : ∀ (x : Instr) (c : Change) (y : Instr), P x → c.apply x = .ok y → P y
  clone : ∀ x : Instr, P x → P x.clone

theorem closed_represented : Closed Represented where
  clear := represented_clear
  setBlock _ b h := h.setBlock b
  change x c y h hy := by
    obtain ⟨hc, rfl⟩ := Change.apply_eq_ok_iff.mp hy
    exact h.result hc
  clone x h := by
    rw [h.clone_eq]
    exact h

end Instr

namespace Workspace

variable {P : Instr → Prop} {w : Workspace}

/-- All instructions of a workspace have a property. -/
def Holds (w : Workspace) (P : Instr → Prop) : Prop :=
  ∀ x ∈ w.instrs, P x

theorem Holds.instr (hP : Instr.Closed P) (h : w.Holds P) (i : Nat) : P (w.instr i) := by
  by_cases hi : i < w.instrs.length
  · have hmem : w.instr i = w.instrs[i] := by simp [Workspace.instr, hi]
    rw [hmem]
    exact h _ (List.getElem_mem hi)
  · -- behind the last instruction there is one without operands
    have hdefault : w.instr i = (default : Instr).clear := by
      simp [Workspace.instr, hi]
      rfl
    rw [hdefault]
    exact hP.clear _

theorem Holds.concat (h : w.Holds P) {x : Instr} (hx : P x) :
    Holds { w with instrs := w.instrs ++ [x] } P := by
  intro y hy
  rcases List.mem_append.mp hy with hy | hy
  · exact h y hy
  · rw [List.mem_singleton.mp hy]
    exact hx

theorem Holds.changeInstr (h : w.Holds P) {i : Nat} {g : Instr → Instr}
    (hg : P (w.instr i) → P (g (w.instr i))) : (w.changeInstr i g).Holds P := by
  intro y hy
  obtain ⟨j, hj, rfl⟩ := List.getElem_of_mem hy
  have hlt : j < w.instrs.length := by simpa [Workspace.changeInstr] using hj
  have hmem : P w.instrs[j] := h _ (List.getElem_mem hlt)
  have hinstr : w.instr j = w.instrs[j] := by simp [Workspace.instr, hlt]
  have hget : (w.changeInstr i g).instrs[j] = if i = j then g w.instrs[j] else w.instrs[j] := by
    simp [Workspace.changeInstr, List.getElem_modify]
  rw [hget]
  split_ifs with hij
  · subst hij
    rw [hinstr] at hg
    exact hg hmem
  · exact hmem

theorem Holds.cleared (hP : Instr.Closed P) (h : w.Holds P) (code : List Nat) :
    (w.cleared code).Holds P := by
  induction code generalizing w with
  | nil => exact h
  | cons i code ih => exact ih (h.changeInstr fun _ => hP.clear _)

theorem Holds.withoutBlock (hP : Instr.Closed P) (h : w.Holds P) (f b position : Nat) :
    (w.withoutBlock f b position).Holds P :=
  h.cleared hP (w.block b).code

/-- A new instruction has no operands that could be dropped. -/
theorem Holds.withInstr (hP : Instr.Closed P) (h : w.Holds P) (op : Opcode) (block : Option Nat) :
    (w.withInstr op block).Holds P := by
  have hgrown := h.concat (hP.clear (w.freshInstr op block))
  unfold Workspace.withInstr
  cases block.bind fun b => (w.block b).owner <;> exact hgrown

theorem Holds.attached (hP : Instr.Closed P) (h : w.Holds P) (i b position : Nat) :
    (w.attached i b position).Holds P :=
  h.changeInstr fun hi => hP.setBlock _ _ hi

theorem Holds.detached (hP : Instr.Closed P) (h : w.Holds P) (i b : Nat) :
    (w.detached i b).Holds P := by
  have hdropped : (w.changeBlock b fun r => { r with code := r.code.erase i }).Holds P := h
  exact hdropped.changeInstr fun _ => hP.setBlock _ _ (hP.clear _)

/-- An operation that checks something first leaves one of two workspaces. -/
theorem holds_ite {C : Prop} [Decidable C] {a a' : Except Defect Answer} {w w' : Workspace}
    (h : w.Holds P) (h' : w'.Holds P) : (if C then (a, w) else (a', w')).2.Holds P := by
  split_ifs
  · exact h
  · exact h'

/-- An operation keeps what nothing can end. -/
theorem Holds.perform (hP : Instr.Closed P) (h : w.Holds P) (op : Operation) :
    (op.perform w).2.Holds P := by
  cases op with
  -- what does not reach the instructions
  | setLinkage | newGlobal | setInit | addConstant | newRegister | newArgument | askInstr => exact h
  | newFunction name linkage =>
    rw [Operation.perform_newFunction]
    exact h
  | removeFunction f =>
    rw [Operation.perform_removeFunction]
    exact holds_ite h h
  | removeGlobal g =>
    rw [Operation.perform_removeGlobal]
    exact holds_ite h h
  | newBlock f before name =>
    cases hposition : w.position? f before with
    | none =>
      obtain ⟨d, hd⟩ := Operation.perform_newBlock_of_none name hposition
      rw [hd]
      exact h
    | some p =>
      rw [Operation.perform_newBlock name hposition]
      exact h
  | removeBlock f b =>
    cases hremovable : w.removable? f b with
    | none =>
      rw [Operation.perform_removeBlock_of_none hremovable]
      exact h
    | some p =>
      rw [Operation.perform_removeBlock hremovable]
      exact h.withoutBlock hP f b p
  | newInstr op block =>
    rw [Operation.perform_newInstr]
    exact holds_ite h (h.withInstr hP op block)
  | cloneInstr i => exact h.concat (hP.clone _ (h.instr hP i))
  | changeInstr i c =>
    cases hx : c.apply (w.instr i) with
    | error d =>
      rw [Operation.perform_changeInstr_of_error hx]
      exact h
    | ok x =>
      rw [Operation.perform_changeInstr hx]
      exact h.changeInstr fun hi => hP.change _ c x hi hx
  | appendInstr i b =>
    rw [Operation.perform_appendInstr]
    exact h.attached hP i b _
  | insertInstr i b position =>
    rw [Operation.perform_insertInstr]
    exact holds_ite h (h.attached hP i b _)
  | eraseInstr i b =>
    rw [Operation.perform_eraseInstr]
    exact holds_ite (h.detached hP i b) h

theorem holds_of_run (hP : Instr.Closed P) (name : String) (ops : List Operation) :
    (made name ops).Holds P := by
  have hnone : Holds { name } P := fun x hx => absurd hx List.not_mem_nil
  exact after_keeps (P := (Holds · P)) (fun _ op h => h.perform hP op) hnone ops

/-- **How instructions are kept.**  Whatever operations a workspace is made by, accepted or refused,
each of its instructions has nothing in a slot that its shape does not use, and one selector for
each source; the guard is the first of the reads, and their number is told by the shape, the operand
`c` and the lists; reads and writes show each operand that is held; and a copy is like the
original. -/
theorem represented_of_run (name : String) (ops : List Operation) {x : Instr}
    (hx : x ∈ (made name ops).instrs) :
    x.Represented ∧
      (x.reads ++ x.writes).reduceOption = x.held.reduceOption ∧
      x.reads.length =
        1 + (x.shape.fixedReads - if x.shape = .atomic ∧ x.third = none then 1 else 0) +
          x.extra.length ∧
      x.reads.head? = some (some (.predicate x.guard)) ∧
      x.clone = x := by
  have h : x.Represented := holds_of_run Instr.closed_represented name ops x hx
  exact ⟨h, h.reduceOption_reads_writes, x.length_reads, rfl, h.clone_eq⟩

/-- A `phi` that gets a destination and two sources, is refused the operand `a`, loses its first
source and is copied before its block is removed. -/
def sampleOperations : List Operation :=
  [.newFunction "k" .external, .newBlock 0 none "b", .newInstr .phi (some 2), .appendInstr 0 2,
    .changeInstr 0 (.destination (some (.register none))), .changeInstr 0 (.addPhiSource none 1),
    .changeInstr 0 (.addPhiSource none 0), .changeInstr 0 (.a none),
    .changeInstr 0 (.removePhiSource 1), .cloneInstr 0, .removeBlock 0 2]

/-- The copy, which outlives the block. -/
def samplePhi : Instr :=
  { opcode := .phi, block := some 2, destination := some (.register none)
    extra := [some (.register none)], sourceBlocks := [0] }

theorem represented_of_sampleOperations :
    samplePhi ∈ (made "m" sampleOperations).instrs ∧ samplePhi.Represented ∧
      (samplePhi.reads ++ samplePhi.writes).reduceOption = samplePhi.held.reduceOption ∧
      samplePhi.clone = samplePhi := by
  have hmem : samplePhi ∈ (made "m" sampleOperations).instrs := by decide +kernel
  obtain ⟨hrepresented, hshown, -, -, hclone⟩ := represented_of_run "m" sampleOperations hmem
  exact ⟨hmem, hrepresented, hshown, hclone⟩

end Workspace

end KernelIR.Virtual
