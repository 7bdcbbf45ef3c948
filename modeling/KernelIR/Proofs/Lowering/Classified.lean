import KernelIR.Proofs.Lowering.Module
import KernelIR.Proofs.Virtual.Blocks

/-!
# Faults of lowering

`lower_classified`: whatever module is lowered, made by hand or loaded, with codes and numbers of
any kind in it, the outcome is a module or a fault, and the fault is either malformed or
unsupported.  No operation on the virtual representation is ever refused.

Faults of the tables and of the scope have causes of code (`Cause.OfCode`), by inspection, and so
has every step of lowering a block (`failsWith_lowerBlocks`); that such a cause is neither a defect
nor about a declaration is a fact about causes alone (`FailsWith.mono`).  A setter could be refused
by the shape of its instruction; the plan that the mnemonic decides fits that shape (`plan_fits`),
and setting one slot leaves the shape as it is, so every setter finds its slot.  A new block could
be refused by its position, but the blocks of a kernel are made before the exit of their function,
and the sequence that they come from has two ends to be left out.
-/

namespace KernelIR.Lowering

open Fallible (FailsOnly failsOnly_ok failsOnly_error)
open Virtual (Instr)

/-! ### Causes that lie in the module -/

/-- The cause lies in the module that is lowered, not in the lowering. -/
def Cause.Regular (c : Cause) : Prop := c.kind ≠ .defective

/-- The cause of the fault lies in the module that is lowered. -/
def Fault.Regular (f : Fault) : Prop := f.cause.Regular

theorem Fault.Regular.xor {f : Fault} (h : f.Regular) :
    Xor (f.kind = .malformed) (f.kind = .unsupported) := by
  have hne : f.kind ≠ .defective := h
  cases hkind : f.kind with
  | malformed => exact .inl ⟨rfl, by decide⟩
  | unsupported => exact .inr ⟨rfl, by decide⟩
  | defective => exact absurd hkind hne

/-- The cause is one that code can have: it is not about declarations, nor a defect. -/
def Cause.OfCode : Cause → Prop
  | .duplicateRegister _ | .redeclaredBlock _ | .defect _ => False
  | _ => True

theorem Cause.OfCode.regular {c : Cause} (h : c.OfCode) : c.Regular := by
  cases c with
  | defect d => exact absurd h id
  | _ => nofun

theorem failsOnly_lowerType (t : Source.DataType) : FailsOnly Cause.OfCode (lowerType t) := by
  unfold lowerType
  split
  · exact failsOnly_ok _ _
  · exact failsOnly_error trivial

theorem failsOnly_lowerComparison (c : Source.Comparison) (t : Source.DataType) :
    FailsOnly Cause.OfCode (lowerComparison c t) := by
  cases c with
  | none | unknown _ => exact failsOnly_error trivial
  | _ => exact failsOnly_ok _ _

theorem failsOnly_lowerAtomic (a : Source.AtomicOp) : FailsOnly Cause.OfCode (lowerAtomic a) := by
  cases a with
  | none | unknown _ => exact failsOnly_error trivial
  | _ => exact failsOnly_ok _ _

theorem failsOnly_lowerLevel (l : Source.FenceLevel) : FailsOnly Cause.OfCode (lowerLevel l) := by
  cases l with
  | none | unknown _ => exact failsOnly_error trivial
  | _ => exact failsOnly_ok _ _

theorem failsOnly_conversion (dst src : Source.DataType) :
    FailsOnly Cause.OfCode (conversion dst src) := by
  unfold conversion
  split_ifs
  · exact failsOnly_error trivial
  · exact failsOnly_error trivial
  · exact failsOnly_ok _ _

theorem failsOnly_plan (m : Source.Mnemonic) : FailsOnly Cause.OfCode (plan m) := by
  unfold plan
  cases m.opcode with
  | membar => exact (failsOnly_lowerLevel _).map
  | setp => exact (failsOnly_lowerComparison _ _).map
  | atom => exact (failsOnly_lowerAtomic _).map
  | cvt =>
    dsimp only
    split_ifs
    · exact (failsOnly_conversion _ _).map
    · exact failsOnly_error trivial
  | call | mad | selp | unknown _ => exact failsOnly_error trivial
  | _ => exact failsOnly_ok _ _

/-! ### What steps can fail with -/

section FailsWith

variable {α β : Type} {P : Cause → Prop}

/-- In whatever frame, the step fails only with causes that have the property. -/
def FailsWith (P : Cause → Prop) (m : Lower α) : Prop :=
  ∀ fr, FailsOnly (fun f => P f.cause) (m fr)

theorem failsWith_pure (a : α) : FailsWith P (pure a) :=
  fun fr => failsOnly_ok _ (a, fr)

theorem failsWith_get : FailsWith P (get : Lower Frame) :=
  fun fr => failsOnly_ok _ (fr, fr)

theorem failsWith_modify (f : Frame → Frame) : FailsWith P (modify f) :=
  fun fr => failsOnly_ok _ ((), f fr)

theorem failsWith_fail {c : Cause} (h : P c) : FailsWith P (fail c : Lower α) :=
  fun _ => failsOnly_error h

theorem FailsWith.bind {m : Lower α} {f : α → Lower β} (hm : FailsWith P m)
    (hf : ∀ a fr fr', Yields m fr a fr' → FailsWith P (f a)) : FailsWith P (m >>= f) := by
  intro fr
  show FailsOnly _ (m fr >>= fun p => f p.1 p.2)
  exact (hm fr).bind fun p hp => hf p.1 fr p.2 hp p.2

theorem FailsWith.mono {Q : Cause → Prop} {m : Lower α} (h : FailsWith P m) (hPQ : ∀ c, P c → Q c) :
    FailsWith Q m :=
  fun fr f hf => hPQ f.cause (h fr f hf)

theorem failsWith_orFail {x : Except Cause α} (h : FailsOnly P x) : FailsWith P (orFail x) := by
  cases x with
  | error c => exact failsWith_fail (h c rfl)
  | ok a => exact failsWith_pure a

theorem FailsWith.within {m : Lower α} (h : FailsWith P m) (p : Place) : FailsWith P (within p m) :=
  fun fr => (h fr).mapError fun _ hf => hf

theorem FailsWith.mapM {f : α → Lower β} (h : ∀ x, FailsWith P (f x)) (xs : List α) :
    FailsWith P (xs.mapM f) := by
  induction xs with
  | nil => exact failsWith_pure []
  | cons x xs ih =>
    rw [List.mapM_cons]
    exact (h x).bind fun y _ _ _ => ih.bind fun ys _ _ _ => failsWith_pure (y :: ys)

theorem failsWith_newRegister (type : Virtual.ValueType) (name : String) :
    FailsWith P (newRegister type name) :=
  fun fr => failsOnly_ok _ (fr.fresh type name, fr.push (fr.fresh type name))

theorem failsWith_specialRegister (r : Source.Special) (lane : Source.Lane) :
    FailsWith P (specialRegister r lane) := by
  refine failsWith_get.bind fun fr _ _ _ => ?_
  split
  · exact failsWith_pure _
  · refine (failsWith_newRegister _ _).bind fun x _ _ _ => ?_
    exact (failsWith_modify _).bind fun _ _ _ _ => failsWith_pure x

/-- An operation of the virtual representation that is not refused does not fail at all. -/
theorem failsWith_orDefect {x : Except Virtual.Defect α} {a : α} (h : x = .ok a) :
    FailsWith P (orDefect x) := by
  rw [h]
  exact failsWith_pure a

/-- A valid opcode makes an instruction. -/
theorem failsWith_newInstr {op : Virtual.Opcode} (h : op.shape ≠ .invalid) (block : Nat) :
    FailsWith P (newInstr op block) := by
  refine failsWith_get.bind fun fr _ _ _ => ?_
  have hmake : Instr.make op fr.nextInstr (some block) =
      .ok { opcode := op, id := fr.nextInstr, block := some block } := by
    rw [Instr.make, if_neg h]
  refine (failsWith_orDefect hmake).bind fun x _ _ _ => ?_
  exact (failsWith_modify _).bind fun _ _ _ _ => failsWith_pure x

end FailsWith

/-! ### Operands -/

namespace Scope

variable (s : Scope)

theorem failsOnly_register (r : Source.RegisterUse) : FailsOnly Cause.OfCode (s.register r) := by
  unfold register
  split
  · exact failsOnly_ok _ _
  · exact failsOnly_error trivial

theorem failsOnly_symbol (name : String) (isParam : Bool) :
    FailsOnly Cause.OfCode (s.symbol name isParam) := by
  unfold symbol
  split
  · -- a parameter
    split
    · exact failsOnly_ok _ _
    · exact failsOnly_error trivial
  · -- a global, or else a block
    split
    · exact failsOnly_ok _ _
    · split
      · exact failsOnly_ok _ _
      · exact failsOnly_error trivial

theorem failsOnly_label (name : String) : FailsOnly Cause.OfCode (s.label name) := by
  unfold label
  split
  · exact failsOnly_ok _ _
  · exact failsOnly_error trivial

theorem failsOnly_literalType (t : Source.DataType) : FailsOnly Cause.OfCode (literalType t) := by
  unfold literalType
  split
  · exact failsOnly_ok _ _
  · exact failsOnly_lowerType t

theorem failsOnly_guard (g : Source.Guard) : FailsOnly Cause.OfCode (s.guard g) := by
  cases g with
  | always | never => exact failsOnly_ok _ _
  | straight r | inverse r | unknown _ r => exact (s.failsOnly_register r).map

/-- **Lowering an operand fails only with causes of code**, whatever its form. -/
theorem failsWith_operand (x : Source.Operand) : FailsWith Cause.OfCode (s.operand x) := by
  unfold operand
  cases x.form with
  | register r | indirect r _ =>
    exact (failsWith_orFail (s.failsOnly_register r)).bind fun _ _ _ _ => failsWith_pure _
  | immediate bits =>
    exact (failsWith_orFail (failsOnly_literalType _)).bind fun _ _ _ _ => failsWith_pure _
  | address name offset isParam =>
    dsimp only
    split_ifs
    · exact failsWith_fail trivial
    · exact failsWith_orFail (s.failsOnly_symbol name isParam)
  | label name => exact failsWith_orFail (s.failsOnly_label name)
  | special r lane => exact (failsWith_specialRegister r lane).bind fun _ _ _ _ => failsWith_pure _
  | sink => exact (failsWith_newRegister _ _).bind fun _ _ _ _ => failsWith_pure _
  | unknown code => exact failsWith_fail trivial

theorem failsWith_slot (x : Option Source.Operand) : FailsWith Cause.OfCode (s.slot x) := by
  cases x with
  | none => exact failsWith_fail trivial
  | some x => exact s.failsWith_operand x

theorem failsWith_inRole (role : Role) (x : Option Source.Operand) :
    FailsWith Cause.OfCode (s.inRole role x) :=
  (s.failsWith_slot x).within (.operand role)

/-! ### Instructions -/

variable {s} {i : Source.Instruction} {x : Instr}

theorem failsWith_setUnary (h : ∀ d a, ∃ y, x.setDestination (some d) >>= (·.setA (some a)) = .ok y) :
    FailsWith Cause.OfCode (s.setUnary i x) := by
  refine (s.failsWith_inRole .d i.d).bind fun d _ _ _ => ?_
  refine (s.failsWith_inRole .a i.a).bind fun a _ _ _ => ?_
  obtain ⟨y, hy⟩ := h d a
  exact failsWith_orDefect hy

/-- An opcode with a destination and `a`. -/
theorem failsWith_setUnary_of_mem (h : x.shape ∈ [.unary, .binary, .comparison, .atomic]) :
    FailsWith Cause.OfCode (s.setUnary i x) :=
  failsWith_setUnary fun d a => ⟨_, setDestination_setA d a h⟩

theorem failsWith_setB {b : Virtual.Operand} (h : x.shape ∈ [.binary, .comparison, .atomic]) :
    FailsWith Cause.OfCode (orDefect (x.setB (some b))) :=
  failsWith_orDefect ((setB_eq_ok h).mpr rfl)

/-- Setting `d` and `a` keeps the shape of the instruction. -/
theorem shape_of_setUnary {fr fr' : Frame} {y : Instr}
    (h : x.shape ∈ [.unary, .binary, .comparison, .atomic])
    (hy : Yields (s.setUnary i x) fr y fr') : y.shape = x.shape := by
  obtain ⟨d, a, _, -, -, rfl⟩ := (yields_setUnary_of_mem h).mp hy
  rfl

theorem failsWith_setBinary (h : x.shape ∈ [.binary, .comparison, .atomic]) :
    FailsWith Cause.OfCode (s.setBinary i x) := by
  have hunary : x.shape ∈ [.unary, .binary, .comparison, .atomic] := List.mem_cons_of_mem _ h
  refine (failsWith_setUnary_of_mem hunary).bind fun y _ _ hy => ?_
  refine (s.failsWith_inRole .b i.b).bind fun b _ _ _ => ?_
  exact failsWith_setB (by rwa [shape_of_setUnary hunary hy])

theorem failsWith_setThird (h : x.shape = .atomic) : FailsWith Cause.OfCode (s.setThird i x) := by
  unfold setThird
  split
  · exact failsWith_pure x
  · refine (s.failsWith_inRole .c _).bind fun c _ _ _ => ?_
    exact failsWith_orDefect ((setC_eq_ok h).mpr rfl)

theorem failsWith_setTarget (h : x.shape = .branch) : FailsWith Cause.OfCode (s.setTarget i x) := by
  refine ((s.failsWith_slot i.d).within .target).bind fun t _ _ _ => ?_
  split_ifs
  · exact failsWith_orDefect ((setTarget_eq_ok h).mpr rfl)
  · exact failsWith_fail trivial

/-- **Following a plan that fits fails only with causes of code.**  Every setter finds its slot. -/
theorem failsWith_follow {p : Plan} (h : p.Fits i.opcode) (block : Nat) :
    FailsWith Cause.OfCode (s.follow block i p) := by
  -- what a new instruction is, so that its shape is that of the opcode
  have hnew : ∀ {op : Virtual.Opcode} {fr fr' : Frame} {y : Instr},
      Yields (newInstr op block) fr y fr' → y.shape = op.shape := by
    intro op fr fr' y hy
    obtain ⟨-, rfl, -⟩ := yields_newInstr.mp hy
    rfl
  unfold follow
  cases p with
  | bare op =>
    refine failsWith_newInstr ?_ block
    rcases h with ⟨rfl, -⟩ | ⟨rfl, -⟩ <;> decide
  | fence level => exact (failsWith_newInstr (by decide) block).bind fun y _ _ _ => failsWith_pure _
  | branch modifier =>
    refine (failsWith_newInstr (by decide) block).bind fun y _ _ hy => failsWith_setTarget ?_
    exact hnew hy
  | unary op =>
    rcases h.1 with hop | rfl
    · refine (failsWith_newInstr (by rw [hop]; decide) block).bind fun y _ _ hy => ?_
      exact failsWith_setUnary_of_mem (by rw [hnew hy, hop]; decide)
    · refine (failsWith_newInstr (by decide) block).bind fun y _ _ hy => ?_
      exact failsWith_setUnary fun d a => ⟨_, setDestination_setA_store d a (hnew hy)⟩
  | binary op =>
    have hop : op.shape = .binary := h.1
    refine (failsWith_newInstr (by rw [hop]; decide) block).bind fun y _ _ hy => ?_
    exact failsWith_setBinary (by rw [hnew hy, hop]; decide)
  | compare comparison =>
    refine (failsWith_newInstr (by decide) block).bind fun y _ _ hy => failsWith_setBinary ?_
    show y.shape ∈ _
    rw [hnew hy]
    decide
  | atomic operation =>
    refine (failsWith_newInstr (by decide) block).bind fun y _ _ hy => ?_
    have hshape : Instr.shape { y with atomic := operation } = .atomic := hnew hy
    refine (failsWith_setBinary (by rw [hshape]; decide)).bind fun z _ _ hz => failsWith_setThird ?_
    obtain ⟨d, a, b, _, _, -, -, -, rfl⟩ := (yields_setBinary (by rw [hshape]; decide)).mp hz
    exact hshape
  | complement =>
    refine (failsWith_newInstr (by decide) block).bind fun y _ _ hy => ?_
    have hshape : y.shape = .binary := hnew hy
    refine (failsWith_setUnary_of_mem (by rw [hshape]; decide)).bind fun z _ _ hz => ?_
    refine (failsWith_orFail (failsOnly_lowerType _)).bind fun t _ _ _ => failsWith_setB ?_
    rw [shape_of_setUnary (by rw [hshape]; decide) hz, hshape]
    decide

/-- **Lowering an instruction fails only with causes of code**, for every opcode and every
operand. -/
theorem failsWith_instruction (block : Nat) : FailsWith Cause.OfCode (s.instruction block i) := by
  refine ((failsWith_orFail (s.failsOnly_guard i.guard)).within .guard).bind fun g _ _ _ => ?_
  refine (failsWith_orFail (failsOnly_plan i.toMnemonic)).bind fun p _ _ hp => ?_
  have hfits := plan_fits (yields_orFail.mp hp).1
  exact (failsWith_follow hfits block).bind fun x _ _ _ => failsWith_pure _

end Scope

/-! ### Kernels and modules -/

section Declarations

variable {P : Cause → Prop} (hcode : ∀ c, Cause.OfCode c → P c)
include hcode

theorem failsOnly_lowerParams (ps : List Source.Param) :
    FailsOnly (fun f => P f.cause) (lowerParams ps) := by
  refine FailsOnly.mapM (fun p => ?_) ps
  have htype := failsOnly_lowerType p.type
  split
  · exact failsOnly_ok _ _
  · rename_i c hc
    exact failsOnly_error (hcode c (htype c hc))

/-- Of the causes about declarations, only one is about registers. -/
theorem failsOnly_lowerRegisters (hduplicate : ∀ name, P (.duplicateRegister name)) (stem : String)
    (rs : List Source.Register) : FailsOnly (fun f => P f.cause) (lowerRegisters stem rs) := by
  refine FailsOnly.foldlM (fun known r => ?_) rs []
  have htype := failsOnly_lowerType r.type
  unfold lowerRegister
  dsimp only
  split_ifs
  · exact failsOnly_error (hduplicate _)
  · split
    · rename_i c hc
      exact failsOnly_error (hcode c (htype c hc))
    · exact failsOnly_ok _ _

theorem failsOnly_lowerGlobals (gs : List Source.Global) :
    FailsOnly (fun f => P f.cause) (lowerGlobals gs) := by
  refine FailsOnly.mapM (fun g => ?_) gs
  have hglobal : FailsOnly Cause.OfCode (lowerGlobal g) :=
    (failsOnly_lowerType g.type).bind fun t _ => failsOnly_ok _ _
  exact hglobal.mapError hcode

end Declarations

theorem failsOnly_declareBlocks (labels : List String) :
    FailsOnly Fault.Regular (labels.foldlM declareBlock []) := by
  refine FailsOnly.foldlM (fun known label => ?_) labels []
  unfold declareBlock
  split_ifs
  · exact failsOnly_error nofun
  · exact failsOnly_ok _ _

theorem failsOnly_openKernel (o : Options) (globals : List Virtual.Global) (k : Source.Kernel) :
    FailsOnly Fault.Regular (openKernel o globals k) := by
  unfold openKernel
  refine (failsOnly_lowerParams (fun _ hc => hc.regular) _).bind fun arguments _ => ?_
  refine (failsOnly_lowerRegisters (fun _ hc => hc.regular) nofun _ _).bind fun registers _ => ?_
  exact (failsOnly_declareBlocks _).bind fun blocks _ => failsOnly_ok _ _

/-- **Lowering the blocks of a kernel fails only with causes of code.** -/
theorem failsWith_lowerBlocks (g : Source.Graph) (s : Scope) (body : List (Nat × Source.Node)) :
    FailsWith Cause.OfCode (body.mapM fun p => lowerBlock g s p.1 p.2) := by
  refine FailsWith.mapM (fun p => ?_) body
  have hcode : FailsWith Cause.OfCode ((g.code p.2).mapM (lowerInstruction s p.1)) :=
    FailsWith.mapM (fun i => (Scope.failsWith_instruction p.1).within _) _
  exact (hcode.within (.block (g.label p.2))).bind fun code _ _ _ => failsWith_pure _

theorem failsOnly_lowerKernel (o : Options) (globals : List Virtual.Global) (k : Source.Kernel) :
    FailsOnly Fault.Regular (lowerKernel o globals k) := by
  unfold lowerKernel
  refine (failsOnly_openKernel o globals k).bind fun opening _ => ?_
  have hbody := (failsWith_lowerBlocks k.graph opening.scope opening.body).mono
    fun _ hc => hc.regular
  refine FailsOnly.bind (hbody opening.frame) ?_
  rintro ⟨blocks, fr⟩ -
  exact failsOnly_ok _ _

theorem failsOnly_lowerKernels (o : Options) (globals : List Virtual.Global)
    (ks : List Source.Kernel) : FailsOnly Fault.Regular (lowerKernels o globals ks) := by
  refine FailsOnly.mapM (fun k => ?_) ks
  exact (failsOnly_lowerKernel o globals k).mapError fun f hf => hf

theorem failsOnly_lower (o : Options) (m : Source.Module) : FailsOnly Fault.Regular (lower o m) := by
  unfold lower
  refine (failsOnly_lowerGlobals (fun _ hc => hc.regular) m.globals).bind fun globals _ => ?_
  exact (failsOnly_lowerKernels o globals m.kernels).bind fun functions _ => failsOnly_ok _ _

/-- **Lowering ends in a module or in a fault of exactly one of two kinds**, malformed or
unsupported, and never in a defect.  Nor does it meet one when it declares the blocks of a kernel:
their sequence has both ends, and none of the blocks is refused. -/
theorem lower_classified (o : Options) (m : Source.Module) :
    ((∃ v, lower o m = .ok v) ∨
      ∃ f, lower o m = .error f ∧ Xor (f.kind = .malformed) (f.kind = .unsupported)) ∧
    ∀ k ∈ m.kernels, 2 ≤ k.graph.sequence.length ∧ ∀ w, ∃ f w',
      (Virtual.Edit.draft k.name (lowerLinkage k.linkage) (bodyLabels k.graph)).Does w f w' := by
  constructor
  · cases h : lower o m with
    | ok v => exact .inl ⟨v, rfl⟩
    | error f => exact .inr ⟨f, rfl, Fault.Regular.xor (failsOnly_lower o m f h)⟩
  · intro k _
    refine ⟨k.graph.two_le_length_sequence, fun w => ?_⟩
    obtain ⟨f, w', hdoes, -⟩ :=
      Virtual.Edit.does_draft k.name (lowerLinkage k.linkage) (bodyLabels k.graph) w
    exact ⟨f, w', hdoes⟩

end KernelIR.Lowering
