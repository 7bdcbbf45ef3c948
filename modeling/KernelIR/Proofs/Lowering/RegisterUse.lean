import KernelIR.Proofs.Lowering.Acceptance
import KernelIR.Proofs.Lowering.Capture

/-!
# Registers that are written and registers that guard

`lower_registerUse_iff`: a lowered module writes nothing but registers exactly if its source does,
and is guarded by nothing but predicates exactly if its source is.  Lowering checks neither: a
destination becomes an operand by the same rules as a source, and a guard is any register that is
declared.

Both halves go through the code instruction by instruction (`forall_code_iff`).  What an instruction
writes is the image of its destination, and by the rules of `Scope.Maps` such an image is a register
for three forms of operands only.  What guards it has the image of the declared type, and `i1` is
the image of `pred` alone.
-/

namespace KernelIR

/-! ### Source instructions -/

namespace Source

/-- The operand is a register: one that is declared, a special one, or one for a result that nobody
wants. -/
def Form.isRegister : Form → Bool
  | .register _ | .special .. | .sink => true
  | .indirect .. | .immediate _ | .address .. | .label _ | .unknown _ => false

/-- All that the instruction writes are registers. -/
def Instruction.WritesRegisters (i : Instruction) : Prop :=
  ∀ slot ∈ i.written, slot.any (·.form.isRegister) = true

instance (i : Instruction) : Decidable i.WritesRegisters :=
  inferInstanceAs (Decidable (∀ slot ∈ i.written, _))

/-- If a register guards the instruction, it is declared as a predicate. -/
def Instruction.GuardedByPredicate (s : Scope) (i : Instruction) : Prop :=
  ∀ use ∈ i.guard.register?, ∃ r ∈ s.registers, r.id = use.id ∧ r.type = .pred

instance (s : Scope) (i : Instruction) : Decidable (i.GuardedByPredicate s) :=
  inferInstanceAs (Decidable (∀ use ∈ i.guard.register?, _))

end Source

/-! ### Virtual instructions -/

namespace Virtual

/-- All that the instruction writes are registers. -/
def Instr.WritesRegisters (x : Instr) : Prop :=
  ∀ slot ∈ x.writes, slot.any Operand.isRegister = true

instance (x : Instr) : Decidable x.WritesRegisters :=
  inferInstanceAs (Decidable (∀ slot ∈ x.writes, _))

/-- If a register guards the instruction, it holds one bit. -/
def Instr.GuardedByPredicate (x : Instr) : Prop :=
  ∀ r ∈ x.guard.register, r.type = some .i1

instance (x : Instr) : Decidable x.GuardedByPredicate :=
  inferInstanceAs (Decidable (∀ r ∈ x.guard.register, _))

end Virtual

namespace Lowering

open Virtual (Instr Operand)

/-! ### Destinations -/

namespace Scope

variable {s : Scope} {fr fr' : Frame} {block : Nat} {i : Source.Instruction} {x : Instr}

/-- The image of an operand is a register if the operand is. -/
theorem Maps.isRegister_eq {o : Source.Operand} {y : Operand} (h : s.Maps fr o y fr') :
    y.isRegister = o.form.isRegister := by
  cases h <;> rfl

/-- **An instruction writes registers if its source does.** -/
theorem Renders.writesRegisters_iff (h : s.Renders block i fr x fr') :
    x.WritesRegisters ↔ i.WritesRegisters := by
  obtain ⟨more, -, fr₁, ws, rs, hws, -, hwrites, -⟩ := h.takes
  unfold Instr.WritesRegisters Source.Instruction.WritesRegisters
  rw [hwrites, List.forall_mem_map]
  refine forall_mem_iff_of_forall₂ ?_ hws.between
  rintro _ z ⟨o, fr₂, fr₃, rfl, -, hmaps, -⟩
  rw [Option.any_some, Option.any_some, hmaps.isRegister_eq]

end Scope

/-! ### Guards -/

/-- Only predicates become values of one bit. -/
theorem eq_i1_iff_of_lowerType {t : Source.DataType} {v : Virtual.ValueType}
    (h : lowerType t = .ok v) : v = .i1 ↔ t = .pred := by
  cases t with
  | pred =>
    cases h
    exact iff_of_true rfl rfl
  | bits w | signed w | unsigned w =>
    cases h
    cases w <;> exact iff_of_false (by decide) (by decide)
  | float w =>
    cases w with
    | half => cases h
    | single | double =>
      cases h
      exact iff_of_false (by decide) (by decide)
  | missing | unknown _ => cases h

/-- What guards an instruction is what is declared under the number of the guard. -/
theorem Scope.guard_register {s : Scope} {g : Source.Guard} {q : Virtual.Predicate}
    (h : s.IsGuard g q) : q.register = g.register?.bind fun r => s.registers.lookup r.id := by
  cases g with
  | always | never =>
    rw [h]
    rfl
  | straight r | inverse r | unknown _ r =>
    obtain ⟨v, hv, rfl⟩ := h
    exact hv.symm

section Opened

variable {o : Options} {globals : List Virtual.Global} {k : Source.Kernel} {opening : Opening}

/-- The register that is found under a number has the image of the type that is declared under
it. -/
theorem Opened.type_eq_i1_iff (h : Opened o globals k opening) {id : UInt32} {v : Virtual.Register}
    (hv : opening.scope.registers.lookup id = some v) :
    v.type = some .i1 ↔ ∃ r ∈ k.scope.registers, r.id = id ∧ r.type = .pred := by
  have hdeclared := h.registers.forall₂
  constructor
  · intro htype
    obtain ⟨r, hr, hid, ⟨t, ht, hvt⟩, -⟩ := exists_of_forall₂_right hdeclared (mem_of_lookup hv)
    rw [htype, Option.some.injEq] at hvt
    exact ⟨r, hr, hid.symm, (eq_i1_iff_of_lowerType ht).mp hvt.symm⟩
  · rintro ⟨r, hr, rfl, htype⟩
    obtain ⟨e, he, hid, ⟨t, ht, het⟩, -⟩ := exists_of_forall₂_left hdeclared hr
    -- the numbers are different, so the entry is the one that is found
    have hentry : e = (r.id, v) :=
      List.inj_on_of_nodup_map h.registers.nodup he (mem_of_lookup hv) hid
    rw [hentry] at het
    rw [het, (eq_i1_iff_of_lowerType ht).mpr htype]

/-- **An instruction is guarded by a predicate if its source is.** -/
theorem Opened.guardedByPredicate_iff (h : Opened o globals k opening) {block : Nat}
    {i : Source.Instruction} {fr fr' : Frame} {x : Instr}
    (hx : opening.scope.Renders block i fr x fr') :
    x.GuardedByPredicate ↔ i.GuardedByPredicate k.scope := by
  obtain ⟨p, y, g, -, hguard, -, rfl⟩ := hx
  have hisGuard := Scope.isGuard_of_guard hguard
  unfold Instr.GuardedByPredicate Source.Instruction.GuardedByPredicate
  show (∀ r ∈ g.register, _) ↔ _
  rw [Scope.guard_register hisGuard]
  cases hg : i.guard with
  | always | never => simp [Source.Guard.register?]
  | straight r | inverse r | unknown _ r =>
    rw [hg] at hisGuard
    obtain ⟨v, hv, -⟩ := hisGuard
    simpa [Source.Guard.register?, hv] using h.type_eq_i1_iff hv

end Opened

/-! ### Modules -/

/-- The code of a lowered kernel is, instruction by instruction, that of the blocks of its graph. -/
theorem Lowered.forall_code_iff {o : Options} {globals : List Virtual.Global} {k : Source.Kernel}
    {opening : Opening} {blocks : List Virtual.Block} {fr : Frame} {f : Virtual.Function}
    (h : Lowered o globals k opening blocks fr f) (hlinked : k.graph.Linked)
    {P : Instr → Prop} {Q : Source.Instruction → Prop}
    (hPQ : ∀ block i fr₁ x fr₂, opening.scope.Renders block i fr₁ x fr₂ → (P x ↔ Q i)) :
    (∀ x ∈ f.code, P x) ↔ ∀ b ∈ k.graph.blocks, ∀ i ∈ b.code, Q i := by
  rw [h.code_eq, List.forall_mem_flatMap, ← h.opened.forall_body_iff hlinked]
  refine forall_mem_iff_of_forall₂ ?_ h.run.forall₂
  rintro e b ⟨fr₁, fr₂, hb⟩
  obtain ⟨-, -, hcode⟩ := yields_lowerBlock.mp hb
  refine forall_mem_iff_of_forall₂ ?_ hcode.forall₂
  rintro i x ⟨fr₃, fr₄, hx⟩
  exact hPQ _ _ _ _ _ (renders_of_lowerInstruction hx)

/-- The code of a lowered module is, instruction by instruction, that of the kernels. -/
theorem forall_code_iff {d : Source.Description} {path : String} {m : Source.Module} {o : Options}
    {v : Virtual.Module} (hm : d.load path = .ok m) (hv : lower o m = .ok v)
    {P : Instr → Prop} {Q : Source.Kernel → Source.Instruction → Prop}
    (hPQ : ∀ k opening, Opened o v.globals k opening → ∀ block i fr x fr',
      opening.scope.Renders block i fr x fr' → (P x ↔ Q k i)) :
    (∀ f ∈ v.functions, ∀ x ∈ f.code, P x) ↔
      ∀ k ∈ m.kernels, ∀ b ∈ k.graph.blocks, ∀ i ∈ b.code, Q k i := by
  have hlinked : ∀ k ∈ m.kernels, k.graph.Linked := by
    intro k hk
    obtain ⟨e, he⟩ := exists_load_of_mem hm hk
    exact Source.KernelDescription.load_linked he
  have hkernels := (List.forall₂_and_left _ _).mpr ⟨hlinked, (lowered_of_lower hv).functions⟩
  refine forall_mem_iff_of_forall₂ ?_ hkernels
  rintro k f ⟨hk, hf⟩
  obtain ⟨opening, blocks, fr, hlowered⟩ := lowered_of_lowerKernel hf
  exact hlowered.forall_code_iff hk (hPQ k opening hlowered.opened)

/-- **A lowered module writes registers and is guarded by predicates exactly as its source is.**
The first part fails for a destination that is a literal, an address or a label; the second for a
guard that is declared with another type than `pred`. -/
theorem lower_registerUse_iff {d : Source.Description} {path : String} {m : Source.Module}
    {o : Options} {v : Virtual.Module} (hm : d.load path = .ok m) (hv : lower o m = .ok v) :
    ((∀ f ∈ v.functions, ∀ x ∈ f.code, x.WritesRegisters) ↔
        ∀ k ∈ m.kernels, ∀ b ∈ k.graph.blocks, ∀ i ∈ b.code, i.WritesRegisters) ∧
      ((∀ f ∈ v.functions, ∀ x ∈ f.code, x.GuardedByPredicate) ↔
        ∀ k ∈ m.kernels, ∀ b ∈ k.graph.blocks, ∀ i ∈ b.code, i.GuardedByPredicate k.scope) := by
  constructor
  · exact forall_code_iff hm hv fun _ _ _ _ _ _ _ _ hx => hx.writesRegisters_iff
  · exact forall_code_iff hm hv fun _ _ hopened _ _ _ _ _ hx => hopened.guardedByPredicate_iff hx

theorem countModule_registerUse :
    ∃ m v, countModule.load "count" = .ok m ∧ lower {} m = .ok v ∧
      (∀ f ∈ v.functions, ∀ x ∈ f.code, x.WritesRegisters ∧ x.GuardedByPredicate) := by
  obtain ⟨m, v, hm, hv⟩ := exists_lower_countModule
  have hsource : ∀ m ∈ (countModule.load "count").toOption, ∀ k ∈ m.kernels, ∀ b ∈ k.graph.blocks,
      ∀ i ∈ b.code, i.WritesRegisters ∧ i.GuardedByPredicate k.scope := by
    decide +kernel
  rw [hm] at hsource
  obtain ⟨hwrites, hguards⟩ := lower_registerUse_iff hm hv
  refine ⟨m, v, hm, hv, fun f hf x hx => ⟨?_, ?_⟩⟩
  · exact hwrites.mpr (fun k hk b hb i hi => (hsource m rfl k hk b hb i hi).1) f hf x hx
  · exact hguards.mpr (fun k hk b hb i hi => (hsource m rfl k hk b hb i hi).2) f hf x hx

/-- A literal is written, and a number guards. -/
def misusingModule : Source.Description :=
  { kernels := [
      { name := "misuse", linkage := "", params := [], registers := [⟨"%r", "s32"⟩]
        blocks := [⟨"start", ["@%r add.s32 5, %r, %r"]⟩] }] }

/-- A module that writes a literal and is guarded by a number is loaded and lowered all the same. -/
theorem misusingModule_lowered :
    ∃ m v, misusingModule.load "misuse" = .ok m ∧ lower {} m = .ok v ∧
      (∃ f ∈ v.functions, ∃ x ∈ f.code, ¬x.WritesRegisters ∧ ¬x.GuardedByPredicate) := by
  exact exists_lower_of_any misusingModule "misuse" _ (by decide +kernel)

end Lowering

end KernelIR
