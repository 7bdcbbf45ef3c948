import KernelIR.Proofs.Lowering.Access

/-!
# Frames while instructions are lowered

A frame only ever grows: lowering an operand appends at most one register, and lowering an
instruction counts one instruction (`Scope.Renders.grows`, `Scope.Renders.nextInstr`).  The
invariant is `Frame.Covers`: all registers are numbered by their places, and those that the scope
declares or that stand for special registers are among them.  `Run.between` carries both through a
whole run and says of every step from which frame to which it went.
-/

namespace KernelIR.Lowering

open Virtual (Register Instr Operand)

/-! ### Numbered registers -/

/-- Every register is numbered by its place. -/
def Numbered (rs : List Register) : Prop :=
  ∀ (j : Nat) (r : Register), rs[j]? = some r → r.key = j ∧ r.id = j

theorem numbered_nil : Numbered [] := by
  intro j r h
  cases h

/-- A register that is numbered by the place behind a list can be put there. -/
theorem Numbered.concat {rs : List Register} (h : Numbered rs) {r : Register}
    (hkey : r.key = rs.length) (hid : r.id = rs.length) : Numbered (rs ++ [r]) := by
  intro j r' hj
  rw [List.getElem?_append] at hj
  split_ifs at hj with hlt
  · exact h j r' hj
  · have hzero : j - rs.length = 0 := by
      by_contra hne
      rw [List.getElem?_eq_none (by rw [List.length_singleton]; omega)] at hj
      cases hj
    rw [hzero] at hj
    cases hj
    omega

/-- A numbered register is found by its key. -/
theorem Numbered.getElem?_key {rs : List Register} (h : Numbered rs) {r : Register} (hr : r ∈ rs) :
    rs[r.key]? = some r := by
  obtain ⟨j, hj⟩ := List.mem_iff_getElem?.mp hr
  rw [(h j r hj).1, hj]

/-! ### Growing frames -/

namespace Frame

variable {s : Scope} {fr fr₁ fr₂ : Frame}

/-- All registers are numbered by their places, and the declared registers of the scope and those
that stand for special registers are among them. -/
structure Covers (s : Scope) (fr : Frame) : Prop where
  numbered : Numbered fr.registers
  declared : ∀ e ∈ s.registers, e.2 ∈ fr.registers
  specials : ∀ e ∈ fr.specials, e.2 ∈ fr.registers

/-- Registers are only appended, and the invariant is kept. -/
structure Grows (s : Scope) (fr fr' : Frame) : Prop where
  registers : fr.registers <+: fr'.registers
  covers : fr.Covers s → fr'.Covers s

theorem Grows.refl (s : Scope) (fr : Frame) : fr.Grows s fr :=
  ⟨List.prefix_refl _, id⟩

theorem Grows.trans (h₁ : fr.Grows s fr₁) (h₂ : fr₁.Grows s fr₂) : fr.Grows s fr₂ :=
  ⟨h₁.registers.trans h₂.registers, fun h => h₂.covers (h₁.covers h)⟩

theorem Grows.counted (s : Scope) (fr : Frame) : fr.Grows s fr.counted :=
  ⟨List.prefix_refl _, fun h => ⟨h.numbered, h.declared, h.specials⟩⟩

/-- Making a register. -/
theorem Grows.push (s : Scope) (fr : Frame) (type : Virtual.ValueType) (name : String) :
    fr.Grows s (fr.push (fr.fresh type name)) := by
  refine ⟨List.prefix_append _ _, fun h => ⟨h.numbered.concat rfl rfl, ?_, ?_⟩⟩
  · intro e he
    exact List.mem_append_left _ (h.declared e he)
  · intro e he
    exact List.mem_append_left _ (h.specials e he)

/-- Remembering a register that is there. -/
theorem Grows.remember (s : Scope) {r : Register} (hr : r ∈ fr.registers) (key : UInt32) :
    fr.Grows s { fr with specials := (key, r) :: fr.specials } := by
  refine ⟨List.prefix_refl _, fun h => ⟨h.numbered, h.declared, ?_⟩⟩
  intro e he
  rcases List.mem_cons.mp he with rfl | he
  · exact hr
  · exact h.specials e he

end Frame

/-! ### One operand, one instruction -/

namespace Scope

variable {s : Scope} {fr fr' : Frame} {block : Nat} {i : Source.Instruction} {x : Instr}

theorem Maps.grows {o : Source.Operand} {y : Operand} (h : s.Maps fr o y fr') : fr.Grows s fr' := by
  cases h with
  | special hnone hv =>
    subst hv
    refine (Frame.Grows.push s fr _ _).trans (Frame.Grows.remember s ?_ _)
    exact List.mem_append_right _ (List.mem_singleton_self _)
  | sink hv =>
    subst hv
    exact Frame.Grows.push s fr _ _
  | _ => exact Frame.Grows.refl s _

theorem Maps.nextInstr {o : Source.Operand} {y : Operand} (h : s.Maps fr o y fr') :
    fr'.nextInstr = fr.nextInstr := by
  cases h <;> rfl

theorem Fills.grows {o : Option Source.Operand} {y : Operand} (h : s.Fills fr o y fr') :
    fr.Grows s fr' := by
  obtain ⟨_, _, h⟩ := h
  exact h.grows

theorem Fills.nextInstr {o : Option Source.Operand} {y : Operand} (h : s.Fills fr o y fr') :
    fr'.nextInstr = fr.nextInstr := by
  obtain ⟨_, _, h⟩ := h
  exact h.nextInstr

namespace FillsAll

variable {os : List (Option Source.Operand)} {ys : List Operand}

theorem grows (h : s.FillsAll fr os ys fr') : fr.Grows s fr' := by
  induction h with
  | nil => exact Frame.Grows.refl s _
  | cons hy _ ih => exact hy.grows.trans ih

theorem nextInstr (h : s.FillsAll fr os ys fr') : fr'.nextInstr = fr.nextInstr := by
  induction h with
  | nil => rfl
  | cons hy _ ih => rw [ih, hy.nextInstr]

/-- Every operand is lowered in a frame that the start has grown to, and what comes behind it grows
to the end. -/
theorem between (h : s.FillsAll fr os ys fr') :
    List.Forall₂ (fun o y => ∃ o' fr₁ fr₂, o = some o' ∧ fr.Grows s fr₁ ∧ s.Maps fr₁ o' y fr₂ ∧
      fr₂.Grows s fr') os ys := by
  induction h with
  | nil => exact .nil
  | cons hy hys ih =>
    have hfirst := hy.grows
    obtain ⟨o', rfl, hmaps⟩ := hy
    refine .cons ⟨o', _, _, rfl, Frame.Grows.refl s _, hmaps, hys.grows⟩ (ih.imp fun o y hoy => ?_)
    obtain ⟨o', fr₁, fr₂, ho, hbefore, hmaps, hbehind⟩ := hoy
    exact ⟨o', fr₁, fr₂, ho, hfirst.trans hbefore, hmaps, hbehind⟩

end FillsAll

theorem Renders.grows (h : s.Renders block i fr x fr') : fr.Grows s fr' := by
  obtain ⟨more, -, fr₁, ws, rs, hws, hrs, -⟩ := h.takes
  exact (Frame.Grows.counted s fr).trans (hws.grows.trans hrs.grows)

/-- An instruction gets the next number, and is the only one to be counted. -/
theorem Renders.nextInstr (h : s.Renders block i fr x fr') :
    x.id = fr.nextInstr ∧ fr'.nextInstr = fr.nextInstr + 1 := by
  constructor
  · obtain ⟨p, y, g, -, -, hy, rfl⟩ := h
    cases hy <;> rfl
  · obtain ⟨more, -, fr₁, ws, rs, hws, hrs, -⟩ := h.takes
    rw [hrs.nextInstr, hws.nextInstr]
    rfl

end Scope

/-! ### Runs -/

/-- A run whose steps only let the frame grow does so itself, and every step of it goes from a frame
that the start has grown to, to one that still grows to the end. -/
theorem Run.between {α β : Type} {s : Scope} {f : α → Lower β} {fr fr' : Frame} {xs : List α}
    {ys : List β} (hstep : ∀ x fr y fr', Yields (f x) fr y fr' → fr.Grows s fr')
    (h : Run f fr xs ys fr') :
    fr.Grows s fr' ∧ List.Forall₂ (fun x y => ∃ fr₁ fr₂, fr.Grows s fr₁ ∧ Yields (f x) fr₁ y fr₂ ∧
      fr₂.Grows s fr') xs ys := by
  induction h with
  | nil => exact ⟨Frame.Grows.refl s _, .nil⟩
  | cons hy hrun ih =>
    obtain ⟨hgrows, hrest⟩ := ih
    have hfirst := hstep _ _ _ _ hy
    refine ⟨hfirst.trans hgrows, .cons ⟨_, _, Frame.Grows.refl s _, hy, hgrows⟩ ?_⟩
    refine hrest.imp fun x y hxy => ?_
    obtain ⟨fr₁, fr₂, h₁, h₂, h₃⟩ := hxy
    exact ⟨fr₁, fr₂, hfirst.trans h₁, h₂, h₃⟩

end KernelIR.Lowering
