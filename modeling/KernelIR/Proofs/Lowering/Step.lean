import KernelIR.Lowering.Scope
import KernelIR.Proofs.Fallible

/-!
# Steps of lowering

`Yields m fr a fr'` says that a step gives `a` in the frame `fr` and leaves the frame `fr'`.  For
every way to put steps together there is one equivalence that says what its parts yield; a list of
steps yields a `Run`, from which facts about the single steps are derived by induction
(`Run.forall₂`).  The steps that touch the frame either add a register at its end (`Frame.push`) or
count an instruction (`Frame.counted`).
-/

namespace KernelIR.Lowering

open Virtual (Register Instr)

variable {α β : Type} {fr fr' : Frame}

/-! ### Putting steps together -/

/-- The step gives `a` in the frame `fr` and leaves the frame `fr'`. -/
def Yields (m : Lower α) (fr : Frame) (a : α) (fr' : Frame) : Prop :=
  m fr = .ok (a, fr')

@[simp] theorem yields_pure {a b : α} : Yields (pure a) fr b fr' ↔ b = a ∧ fr' = fr := by
  show Except.ok (a, fr) = .ok (b, fr') ↔ _
  rw [Except.ok.injEq, Prod.mk.injEq, eq_comm, eq_comm (a := fr)]

theorem yields_bind {m : Lower α} {f : α → Lower β} {b : β} :
    Yields (m >>= f) fr b fr' ↔ ∃ a fr₁, Yields m fr a fr₁ ∧ Yields (f a) fr₁ b fr' := by
  show (m fr >>= fun p => f p.1 p.2) = .ok (b, fr') ↔ _
  rw [Fallible.bind_eq_ok]
  constructor
  · rintro ⟨⟨a, fr₁⟩, ha, hb⟩
    exact ⟨a, fr₁, ha, hb⟩
  · rintro ⟨a, fr₁, ha, hb⟩
    exact ⟨(a, fr₁), ha, hb⟩

@[simp] theorem yields_get {a : Frame} : Yields get fr a fr' ↔ a = fr ∧ fr' = fr :=
  yields_pure

@[simp] theorem yields_modify {f : Frame → Frame} {u : Unit} :
    Yields (modify f) fr u fr' ↔ fr' = f fr := by
  show Except.ok ((), f fr) = .ok (u, fr') ↔ _
  rw [Except.ok.injEq, Prod.mk.injEq, eq_comm (a := f fr)]
  exact and_iff_right rfl

@[simp] theorem yields_set {s : Frame} {u : Unit} : Yields (set s) fr u fr' ↔ fr' = s :=
  yields_modify (f := fun _ => s)

@[simp] theorem yields_fail {c : Cause} {a : α} : ¬Yields (fail c) fr a fr' := by
  intro h
  cases h

@[simp] theorem yields_orFail {x : Except Cause α} {a : α} :
    Yields (orFail x) fr a fr' ↔ x = .ok a ∧ fr' = fr := by
  cases x with
  | error c => simp [orFail]
  | ok b => simp [orFail, eq_comm]

@[simp] theorem yields_orDefect {x : Except Virtual.Defect α} {a : α} :
    Yields (orDefect x) fr a fr' ↔ x = .ok a ∧ fr' = fr := by
  cases x with
  | error d => simp [orDefect]
  | ok b => simp [orDefect, eq_comm]

@[simp] theorem yields_within {p : Place} {m : Lower α} {a : α} :
    Yields (within p m) fr a fr' ↔ Yields m fr a fr' :=
  Fallible.mapError_eq_ok

/-! ### Runs over lists -/

/-- A list of steps, each in the frame that the one before it left. -/
inductive Run (f : α → Lower β) : Frame → List α → List β → Frame → Prop
  | nil {fr : Frame} : Run f fr [] [] fr
  | cons {fr fr₁ fr₂ : Frame} {x : α} {y : β} {xs : List α} {ys : List β} :
    Yields (f x) fr y fr₁ → Run f fr₁ xs ys fr₂ → Run f fr (x :: xs) (y :: ys) fr₂

theorem yields_mapM {f : α → Lower β} {xs : List α} {ys : List β} :
    Yields (xs.mapM f) fr ys fr' ↔ Run f fr xs ys fr' := by
  induction xs generalizing fr ys with
  | nil =>
    rw [List.mapM_nil, yields_pure]
    constructor
    · rintro ⟨rfl, rfl⟩
      exact .nil
    · intro h
      cases h
      exact ⟨rfl, rfl⟩
  | cons x xs ih =>
    rw [List.mapM_cons, yields_bind]
    constructor
    · rintro ⟨y, fr₁, hy, h⟩
      obtain ⟨zs, fr₂, hzs, h⟩ := yields_bind.mp h
      obtain ⟨rfl, rfl⟩ := yields_pure.mp h
      exact .cons hy (ih.mp hzs)
    · intro h
      cases h with
      | cons hy hzs => exact ⟨_, _, hy, yields_bind.mpr ⟨_, _, ih.mpr hzs, yields_pure.mpr ⟨rfl, rfl⟩⟩⟩

namespace Run

variable {f : α → Lower β} {xs : List α} {ys : List β}

/-- A run relates the elements one by one. -/
theorem forall₂ (h : Run f fr xs ys fr') :
    List.Forall₂ (fun x y => ∃ fr₁ fr₂, Yields (f x) fr₁ y fr₂) xs ys := by
  induction h with
  | nil => exact .nil
  | cons hy _ ih => exact .cons ⟨_, _, hy⟩ ih

end Run

/-! ### Registers and instructions -/

/-- The register that is made next. -/
def Frame.fresh (fr : Frame) (type : Virtual.ValueType) (name : String) : Register :=
  { key := fr.registers.length, id := fr.registers.length, type := some type, name }

/-- The frame with one more register. -/
def Frame.push (fr : Frame) (r : Register) : Frame :=
  { fr with registers := fr.registers ++ [r] }

/-- The frame with one more instruction. -/
def Frame.counted (fr : Frame) : Frame :=
  { fr with nextInstr := fr.nextInstr + 1 }

@[simp] theorem yields_newRegister {type : Virtual.ValueType} {name : String} {r : Register} :
    Yields (newRegister type name) fr r fr' ↔ r = fr.fresh type name ∧ fr' = fr.push r := by
  show Except.ok (fr.fresh type name, fr.push (fr.fresh type name)) = .ok (r, fr') ↔ _
  rw [Except.ok.injEq, Prod.mk.injEq]
  constructor
  · rintro ⟨rfl, rfl⟩
    exact ⟨rfl, rfl⟩
  · rintro ⟨rfl, rfl⟩
    exact ⟨rfl, rfl⟩

/-- An instruction of a valid opcode gets the next number. -/
theorem yields_newInstr {op : Virtual.Opcode} {block : Nat} {x : Instr} :
    Yields (newInstr op block) fr x fr' ↔
      op.shape ≠ .invalid ∧ x = { opcode := op, id := fr.nextInstr, block := some block } ∧
        fr' = fr.counted := by
  have hmake : Instr.make op fr.nextInstr (some block) = .ok x ↔
      op.shape ≠ .invalid ∧ x = { opcode := op, id := fr.nextInstr, block := some block } := by
    rw [Instr.make]
    split_ifs with hshape
    · simp [hshape]
    · simp [hshape, eq_comm]
  unfold newInstr
  simp only [yields_bind, yields_get, yields_orDefect, yields_set, yields_pure]
  constructor
  · rintro ⟨_, _, ⟨rfl, rfl⟩, y, _, ⟨hy, rfl⟩, _, _, rfl, rfl, rfl⟩
    obtain ⟨hshape, rfl⟩ := hmake.mp hy
    exact ⟨hshape, rfl, rfl⟩
  · rintro ⟨hshape, rfl, rfl⟩
    exact ⟨fr, fr, ⟨rfl, rfl⟩, _, fr, ⟨hmake.mpr ⟨hshape, rfl⟩, rfl⟩, (), _, rfl, rfl, rfl⟩

/-- A special register is found, or made and remembered. -/
theorem yields_specialRegister {r : Source.Special} {lane : Source.Lane} {x : Register} :
    Yields (specialRegister r lane) fr x fr' ↔
      fr.specials.lookup (specialKey r lane) = some x ∧ fr' = fr ∨
      fr.specials.lookup (specialKey r lane) = none ∧ x = fr.fresh .i32 (specialName r lane) ∧
        fr' = { fr.push x with specials := (specialKey r lane, x) :: fr.specials } := by
  unfold specialRegister
  rw [yields_bind]
  constructor
  · rintro ⟨_, _, hget, h⟩
    obtain ⟨rfl, rfl⟩ := yields_get.mp hget
    -- the frame remembers a lane, so that it gets one register
    split at h
    · rename_i y hy
      obtain ⟨rfl, rfl⟩ := yields_pure.mp h
      exact .inl ⟨hy, rfl⟩
    · rename_i hnone
      simp only [yields_bind, yields_newRegister, yields_modify, yields_pure] at h
      obtain ⟨_, _, ⟨rfl, rfl⟩, _, _, rfl, rfl, rfl⟩ := h
      exact .inr ⟨hnone, rfl, rfl⟩
  · rintro (⟨hx, rfl⟩ | ⟨hnone, rfl, rfl⟩)
    · refine ⟨_, _, yields_get.mpr ⟨rfl, rfl⟩, ?_⟩
      rw [hx]
      exact yields_pure.mpr ⟨rfl, rfl⟩
    · refine ⟨_, _, yields_get.mpr ⟨rfl, rfl⟩, ?_⟩
      rw [hnone]
      simp only [yields_bind, yields_newRegister, yields_modify, yields_pure]
      exact ⟨_, _, ⟨rfl, rfl⟩, (), _, rfl, rfl, rfl⟩

end KernelIR.Lowering
