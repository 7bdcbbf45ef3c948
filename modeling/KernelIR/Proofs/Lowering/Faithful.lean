import KernelIR.Proofs.Lowering.Closed
import KernelIR.Proofs.Lowering.Correspondence
import KernelIR.Proofs.Lowering.Flow

/-!
# Operands are kept

`instruction_faithful`: an instruction that is lowered in the scope of a kernel writes and reads the
images of its operands, in order and nothing else.  Which operands are written and which are read is
decided by the source opcode (`Source.Instruction.accesses`): a store reads both of its operands,
and an atomic reads a third one if it is there.  Besides, a complement reads a literal of ones
behind its operand, and what a branch reads is a block.

`Scope.IsImage` is the correspondence of operands.  It is the relation `Scope.Maps` as seen from
outside: literals keep their class and width, a special register has the register that the frame
remembers for it, and the register of a result that nobody wants was not there before.  The last of
these needs the invariant of frames, `Frame.Covers`, which holds in every frame that lowering
reaches from the opening of a kernel.
-/

namespace KernelIR.Lowering

open Virtual (Instr Operand Predicate Register)

/-! ### The correspondence -/

namespace Scope

/-- What a symbol without an offset stands for: the argument of that name if it is a parameter, else
the global of that name, else the block. -/
def Names (s : Scope) (name : String) (isParam : Bool) (y : Operand) : Prop :=
  if isParam then ∃ a, s.arguments.find? (·.name = name) = some a ∧ y = .argument a
  else
    match s.globals.findIdx? (·.name = name) with
    | some j => y = .address (some (.global j name))
    | none => ∃ id, s.blocks.lookup name = some id ∧ y = blockAddress name id

/-- `s.IsImage fr x y fr'`: the operand `y` stands for `x`, and the frame `fr` becomes `fr'` on the
way. -/
def IsImage (s : Scope) (fr : Frame) (x : Source.Operand) (y : Operand) (fr' : Frame) : Prop :=
  match x.form with
  | .register r => fr' = fr ∧ ∃ v, s.registers.lookup r.id = some v ∧ y = .register (some v)
  | .indirect r offset =>
    fr' = fr ∧ ∃ v, s.registers.lookup r.id = some v ∧ y = .indirect (some v) offset
  | .immediate bits =>
    fr' = fr ∧ ∃ t, y = .immediate bits (some t) ∧
      if x.type = .missing then t = .i64 else SameType x.type t
  | .address name offset isParam => fr' = fr ∧ offset = 0 ∧ s.Names name isParam y
  | .label name => fr' = fr ∧ ∃ id, s.blocks.lookup name = some id ∧ y = blockAddress name id
  | .special r lane =>
    -- the register is remembered from here on; only at the first use it is a new one
    ∃ v, y = .register (some v) ∧ fr'.specials.lookup (specialKey r lane) = some v ∧
      (fr' = fr ∨ fr.specials.lookup (specialKey r lane) = none ∧ v ∉ fr.registers ∧
        fr'.registers = fr.registers ++ [v])
  | .sink => ∃ v, y = .register (some v) ∧ v ∉ fr.registers ∧ fr' = fr.push v
  | .unknown _ => False

/-- The operands are there, and stand for those of the list one by one. -/
inductive Images (s : Scope) : Frame → List (Option Source.Operand) → List Operand → Frame → Prop
  | nil {fr} : Images s fr [] [] fr
  | cons {fr x y fr₁ xs ys fr₂} :
    s.IsImage fr x y fr₁ → Images s fr₁ xs ys fr₂ → Images s fr (some x :: xs) (y :: ys) fr₂

/-- The predicate stands for the guard. -/
def IsGuard (s : Scope) (g : Source.Guard) (p : Predicate) : Prop :=
  match g with
  | .always => p = .always
  | .never => p = .never
  | .straight r | .unknown _ r => ∃ v, s.registers.lookup r.id = some v ∧ p = ⟨some v, .straight⟩
  | .inverse r => ∃ v, s.registers.lookup r.id = some v ∧ p = ⟨some v, .inverse⟩

/-- The instruction writes the images of `written`, and reads its guard, the images of `read` and
behind them `more`. -/
def Carries (s : Scope) (fr : Frame) (x : Instr) (fr' : Frame)
    (written read : List (Option Source.Operand)) (more : List Operand) : Prop :=
  ∃ fr₁ ys zs, s.Images fr.counted written ys fr₁ ∧ s.Images fr₁ read zs fr' ∧
    x.writes = ys.map some ∧ x.reads = some (.predicate x.guard) :: (zs ++ more).map some

/-- The literal has ones exactly in the width of the type, and the type itself. -/
def IsAllOnes (t : Source.DataType) (y : Operand) : Prop :=
  ∃ v bits, SameType t v ∧ y = .immediate bits (some v) ∧
    ∀ j, bits.getLsbD j = decide (j < sourceBits t)

/-- An instruction writes what its source writes and reads what its source reads.  A complement
reads a literal of ones besides, a branch reads the block that it mentions, and some opcodes are
never lowered. -/
def CarriesOperands (s : Scope) (i : Source.Instruction) (fr : Frame) (x : Instr) (fr' : Frame) :
    Prop :=
  match i.opcode with
  | .not => ∃ ones, IsAllOnes i.type ones ∧ s.Carries fr x fr' i.written i.read [ones]
  | .bra =>
    s.Carries fr x fr' i.written i.read [] ∧
      ∃ o id, i.d = some o ∧ s.blocks.lookup o.mentioned = some id ∧
        x.operandsRead = [some (blockAddress o.mentioned id)]
  | .call | .mad | .selp | .unknown _ => False
  | _ => s.Carries fr x fr' i.written i.read []

/-- The virtual instruction has the guard and the operands of the source instruction, and what the
frame held before it still holds. -/
structure Faithful (s : Scope) (i : Source.Instruction) (fr : Frame) (x : Instr) (fr' : Frame) :
    Prop where
  guard : s.IsGuard i.guard x.guard
  operands : s.CarriesOperands i fr x fr'
  registers : fr.registers <+: fr'.registers
  specials : ∀ key v, fr.specials.lookup key = some v → fr'.specials.lookup key = some v

/-! ### Images of operands -/

variable {s : Scope} {fr fr₁ fr₂ fr₃ fr' : Frame} {block : Nat} {i : Source.Instruction} {p : Plan}
  {x : Instr}

/-- A register that is made next is a new one. -/
theorem fresh_notMem (h : fr.Covers s) (type : Virtual.ValueType) (name : String) :
    fr.fresh type name ∉ fr.registers := by
  intro hmem
  obtain ⟨j, hj⟩ := List.mem_iff_getElem?.mp hmem
  obtain ⟨hlt, -⟩ := List.getElem?_eq_some_iff.mp hj
  have hkey : fr.registers.length = j := (h.numbered j _ hj).1
  omega

/-- **What lowering gives for an operand stands for it.** -/
theorem Maps.isImage {o : Source.Operand} {y : Operand} (h : s.Maps fr o y fr')
    (hcovers : fr.Covers s) : s.IsImage fr o y fr' := by
  cases h with
  | register hv => exact ⟨rfl, _, hv, rfl⟩
  | indirect hv => exact ⟨rfl, _, hv, rfl⟩
  | immediate hv =>
    refine ⟨rfl, _, rfl, ?_⟩
    unfold literalType at hv
    dsimp only
    -- a literal of no type is given one by the lowering; any other keeps its own
    split_ifs at hv ⊢ with htype
    · cases hv
      rfl
    · exact sameType_of_lowerType hv
  | argument ha => exact ⟨rfl, rfl, _, ha, rfl⟩
  | global hj =>
    refine ⟨rfl, rfl, ?_⟩
    rw [Names, if_neg (by decide), hj]
  | block hnone hid =>
    refine ⟨rfl, rfl, ?_⟩
    rw [Names, if_neg (by decide), hnone]
    exact ⟨_, hid, rfl⟩
  | label hid => exact ⟨rfl, _, hid, rfl⟩
  | known hv => exact ⟨_, rfl, hv, .inl rfl⟩
  -- the first use of a lane makes its register, which no declared one can be
  | special hnone hv =>
    subst hv
    exact ⟨_, rfl, List.lookup_cons_self, .inr ⟨hnone, fresh_notMem hcovers _ _, rfl⟩⟩
  | sink hv =>
    subst hv
    exact ⟨_, rfl, fresh_notMem hcovers _ _, rfl⟩

/-- The register of a special register stays the same. -/
theorem Maps.lookup_specials {o : Source.Operand} {y : Operand} (h : s.Maps fr o y fr')
    {key : UInt32} {v : Register} (hv : fr.specials.lookup key = some v) :
    fr'.specials.lookup key = some v := by
  cases h with
  | special hnone _ =>
    rw [List.lookup_cons]
    split
    · rename_i hkey
      rw [beq_iff_eq.mp hkey, hnone] at hv
      cases hv
    · exact hv
  | _ => exact hv

/-! ### Images of instructions -/

namespace FillsAll

variable {os : List (Option Source.Operand)} {ys : List Operand}

theorem images (h : s.FillsAll fr os ys fr') (hcovers : fr.Covers s) : s.Images fr os ys fr' := by
  induction h with
  | nil => exact .nil
  | cons hy _ ih =>
    have hrest := ih (hy.grows.covers hcovers)
    obtain ⟨o, rfl, hmaps⟩ := hy
    exact .cons (hmaps.isImage hcovers) hrest

theorem lookup_specials (h : s.FillsAll fr os ys fr') {key : UInt32} {v : Register}
    (hv : fr.specials.lookup key = some v) : fr'.specials.lookup key = some v := by
  induction h with
  | nil => exact hv
  | cons hy _ ih =>
    obtain ⟨o, rfl, hmaps⟩ := hy
    exact ih (hmaps.lookup_specials hv)

end FillsAll

/-- The literal of a complement has ones in the width of the type. -/
theorem isAllOnes_of_lowerType {t : Source.DataType} {v : Virtual.ValueType}
    (h : lowerType t = .ok v) : IsAllOnes t (.immediate (allOnes v) (some v)) := by
  have hsame := sameType_of_lowerType h
  refine ⟨v, allOnes v, hsame, rfl, fun j => ?_⟩
  have hwidth : sourceBits t ≤ 64 := by
    cases t with
    | bits w | signed w | unsigned w | float w => cases w <;> decide
    | pred | missing | unknown _ => simp [sourceBits, Source.DataType.bytes]
  unfold allOnes
  rw [hsame.bits]
  split_ifs with h64
  · -- no type is wider than a word, so the width is 64 exactly
    have heq : sourceBits t = 64 := by omega
    rw [BitVec.getLsbD_allOnes, heq]
  · have hlt : ∀ j, j < sourceBits t → j < 64 := by omega
    rw [BitVec.getLsbD_ofNat, Int.toNat_natCast]
    show (decide (j < 64) && (2 ^ sourceBits t - 1).testBit j) = _
    rw [Nat.testBit_two_pow_sub_one]
    by_cases hj : j < sourceBits t
    · simp [hj, hlt j hj]
    · simp [hj]

/-- What lowering gives for a guard stands for it. -/
theorem isGuard_of_guard {g : Source.Guard} {q : Predicate} (h : s.guard g = .ok q) :
    s.IsGuard g q := by
  cases g with
  | always | never =>
    cases h
    rfl
  | straight r | inverse r | unknown _ r =>
    obtain ⟨v, hv, rfl⟩ := Fallible.map_eq_ok.mp h
    exact ⟨v, register_eq_ok.mp hv, rfl⟩

/-- An instruction carries the operands of its source, and perhaps a literal. -/
theorem Renders.carries (h : s.Renders block i fr x fr') (hcovers : fr.Covers s) :
    ∃ more, Literals i more ∧ s.Carries fr x fr' i.written i.read more := by
  obtain ⟨more, hmore, fr₁, ws, rs, hws, hrs, hwrites, hreads⟩ := h.takes
  have hcounted := (Frame.Grows.counted s fr).covers hcovers
  refine ⟨more, hmore, fr₁, ws, rs, hws.images hcounted, ?_, hwrites, ?_⟩
  · exact hrs.images (hws.grows.covers hcounted)
  · rw [← hreads]
    rfl

theorem Renders.lookup_specials (h : s.Renders block i fr x fr') {key : UInt32} {v : Register}
    (hv : fr.specials.lookup key = some v) : fr'.specials.lookup key = some v := by
  obtain ⟨-, -, fr₁, ws, rs, hws, hrs, -⟩ := h.takes
  exact hrs.lookup_specials (hws.lookup_specials hv)

/-- A branch reads the block that its operand mentions. -/
theorem Renders.exists_target (h : s.Renders block i fr x fr') (hop : i.opcode = .bra) :
    ∃ o id, i.d = some o ∧ s.blocks.lookup o.mentioned = some id ∧
      x.operandsRead = [some (blockAddress o.mentioned id)] := by
  obtain ⟨p, y, g, hplan, -, hy, rfl⟩ := h
  unfold plan at hplan
  rw [hop] at hplan
  cases hplan
  cases hy with
  | branch ht hblock =>
    obtain ⟨o, ho, hmaps⟩ := ht
    obtain ⟨id, hid, rfl⟩ := hmaps.lookup_mentioned hblock
    exact ⟨o, id, ho, hid, rfl⟩

/-- **An instruction that is rendered by the rules is faithful.** -/
theorem Renders.faithful (h : s.Renders block i fr x fr') (hcovers : fr.Covers s) :
    s.Faithful i fr x fr' := by
  obtain ⟨more, hmore, hcarries⟩ := h.carries hcovers
  refine ⟨isGuard_of_guard h.guard_eq, ?_, h.grows.registers, fun key v => h.lookup_specials⟩
  unfold Literals at hmore
  unfold CarriesOperands
  cases hop : i.opcode <;> rw [hop] at hmore <;> dsimp only at hmore ⊢
  case not =>
    obtain ⟨t, ht, rfl⟩ := hmore
    exact ⟨_, isAllOnes_of_lowerType ht, hcarries⟩
  case bra =>
    obtain rfl := hmore
    exact ⟨hcarries, h.exists_target hop⟩
  case call | mad | selp | unknown =>
    -- there is no plan for these
    obtain ⟨p, y, g, hplan, -⟩ := h
    unfold plan at hplan
    rw [hop] at hplan
    cases hplan
  all_goals
    obtain rfl := hmore
    exact hcarries

/-- Lowering some instructions, of whatever blocks, leads from the one frame to the other. -/
def Reaches (s : Scope) (fr fr' : Frame) : Prop :=
  ∃ code xs, Run (fun e : Nat × Source.Instruction => s.instruction e.1 e.2) fr code xs fr'

theorem Reaches.grows (h : s.Reaches fr fr') : fr.Grows s fr' := by
  obtain ⟨code, xs, hrun⟩ := h
  exact (hrun.between fun _ _ _ _ hx => (renders_of_yields hx).grows).1

end Scope

/-! ### Instructions in the scope of a kernel -/

/-- **An instruction that is lowered in the scope of a kernel keeps its guard and its operands.**
The frame may be any that lowering reaches from the opening of the kernel, and the tables of the
scope hold what the kernel declares. -/
theorem instruction_faithful {o : Options} {globals : List Virtual.Global} {k : Source.Kernel}
    {opening : Opening} {fr fr' : Frame} {block : Nat} {i : Source.Instruction} {x : Instr}
    (hopening : openKernel o globals k = .ok opening)
    (hfr : opening.scope.Reaches opening.frame fr)
    (hx : Yields (opening.scope.instruction block i) fr x fr') :
    Opened o globals k opening ∧ opening.scope.Faithful i fr x fr' := by
  have hopened := opened_of_openKernel hopening
  refine ⟨hopened, ?_⟩
  exact (Scope.renders_of_yields hx).faithful (hfr.grows.covers hopened.covers)

/-- A kernel with a register of which an instruction makes an address. -/
def tallyKernel : Source.Kernel :=
  { name := "tally", linkage := .visible
    scope := { registers := [⟨1, .unsigned .w64, "%a"⟩] } }

/-- Adds a special register to a counter in memory and drops what was there. -/
def tallyInstruction : Source.Instruction :=
  { opcode := .atom, type := .unsigned .w32, atomic := .add
    d := some ⟨.unsigned .w32, .sink⟩
    a := some ⟨.unsigned .w32, .indirect ⟨1, "%a"⟩ 4⟩
    b := some ⟨.unsigned .w32, .special .tid .y⟩ }

theorem tallyInstruction_faithful :
    ∃ opening x fr', openKernel {} [] tallyKernel = .ok opening ∧
      Yields (opening.scope.instruction 2 tallyInstruction) opening.frame x fr' ∧
      opening.scope.Faithful tallyInstruction opening.frame x fr' := by
  -- evaluated once; the two failures are then excluded by it
  have hsome : ((openKernel {} [] tallyKernel).toOption.bind fun e =>
      (e.scope.instruction 2 tallyInstruction e.frame).toOption).isSome := by
    decide +kernel
  cases hopening : openKernel {} [] tallyKernel with
  | error e =>
    rw [hopening] at hsome
    cases hsome
  | ok opening =>
    rw [hopening] at hsome
    cases hx : opening.scope.instruction 2 tallyInstruction opening.frame with
    | error e =>
      change (opening.scope.instruction 2 tallyInstruction opening.frame).toOption.isSome at hsome
      rw [hx] at hsome
      cases hsome
    | ok r =>
      have hreaches : opening.scope.Reaches opening.frame opening.frame := ⟨[], [], .nil⟩
      exact ⟨opening, r.1, r.2, rfl, hx, (instruction_faithful hopening hreaches hx).2⟩

end KernelIR.Lowering
