import KernelIR.Lowering.Operand
import KernelIR.Proofs.Lowering.Step

/-!
# Images of operands

`Scope.Maps` is the image of a source operand as a relation, with one rule for each form: declared
names are looked up, a special register is found or made, and a result that nobody wants gets a
register of its own.  `yields_operand` says that lowering an operand follows these rules and no
others.
-/

namespace KernelIR.Lowering.Scope

open Virtual (Operand Register)

variable {s : Scope} {fr fr' : Frame}

/-- `s.Maps fr x y fr'`: in the frame `fr` the image of `x` is `y`, and the frame is `fr'` then. -/
inductive Maps (s : Scope) (fr : Frame) : Source.Operand → Operand → Frame → Prop
  | register {t r v} :
    s.registers.lookup r.id = some v → Maps s fr ⟨t, .register r⟩ (.register (some v)) fr
  | indirect {t r offset v} :
    s.registers.lookup r.id = some v →
      Maps s fr ⟨t, .indirect r offset⟩ (.indirect (some v) offset) fr
  | immediate {t bits v} :
    literalType t = .ok v → Maps s fr ⟨t, .immediate bits⟩ (.immediate bits (some v)) fr
  | argument {t name a} :
    s.arguments.find? (·.name = name) = some a →
      Maps s fr ⟨t, .address name 0 true⟩ (.argument a) fr
  | global {t name j} :
    s.globals.findIdx? (·.name = name) = some j →
      Maps s fr ⟨t, .address name 0 false⟩ (.address (some (.global j name))) fr
  | block {t name id} :
    s.globals.findIdx? (·.name = name) = none → s.blocks.lookup name = some id →
      Maps s fr ⟨t, .address name 0 false⟩ (blockAddress name id) fr
  | label {t name id} :
    s.blocks.lookup name = some id → Maps s fr ⟨t, .label name⟩ (blockAddress name id) fr
  | known {t r lane v} :
    fr.specials.lookup (specialKey r lane) = some v →
      Maps s fr ⟨t, .special r lane⟩ (.register (some v)) fr
  | special {t r lane v} :
    fr.specials.lookup (specialKey r lane) = none → v = fr.fresh .i32 (specialName r lane) →
      Maps s fr ⟨t, .special r lane⟩ (.register (some v))
        { fr.push v with specials := (specialKey r lane, v) :: fr.specials }
  | sink {t v} :
    v = fr.fresh .i64 "" → Maps s fr ⟨t, .sink⟩ (.register (some v)) (fr.push v)

theorem register_eq_ok {r : Source.RegisterUse} {v : Register} :
    s.register r = .ok v ↔ s.registers.lookup r.id = some v := by
  unfold register
  split
  · rename_i w hw
    rw [hw, Except.ok.injEq, Option.some.injEq]
  · rename_i hnone
    rw [hnone]
    simp

/-- What a symbol without an offset stands for. -/
theorem maps_of_symbol {t : Source.DataType} {name : String} {isParam : Bool} {y : Operand}
    (h : s.symbol name isParam = .ok y) : s.Maps fr ⟨t, .address name 0 isParam⟩ y fr := by
  unfold symbol at h
  -- a parameter is looked up among the arguments only
  cases isParam with
  | true =>
    rw [if_pos rfl] at h
    split at h
    · rename_i a ha
      cases h
      exact .argument ha
    · cases h
  | false =>
    rw [if_neg (by decide)] at h
    split at h
    · rename_i j hj
      cases h
      exact .global hj
    · -- globals come first: a block is meant only if no global has the name
      rename_i hnone
      split at h
      · rename_i id hid
        cases h
        exact .block hnone hid
      · cases h

/-- A lowered operand is an image by the rules. -/
theorem maps_of_yields {x : Source.Operand} {y : Operand} (h : Yields (s.operand x) fr y fr') :
    s.Maps fr x y fr' := by
  obtain ⟨t, form⟩ := x
  unfold operand at h
  cases form with
  | register r =>
    simp only [yields_bind, yields_orFail, yields_pure, register_eq_ok] at h
    obtain ⟨v, _, ⟨hv, rfl⟩, rfl, rfl⟩ := h
    exact .register hv
  | indirect r offset =>
    simp only [yields_bind, yields_orFail, yields_pure, register_eq_ok] at h
    obtain ⟨v, _, ⟨hv, rfl⟩, rfl, rfl⟩ := h
    exact .indirect hv
  | immediate bits =>
    simp only [yields_bind, yields_orFail, yields_pure] at h
    obtain ⟨v, _, ⟨hv, rfl⟩, rfl, rfl⟩ := h
    exact .immediate hv
  | address name offset isParam =>
    dsimp only at h
    -- a symbol with an offset is refused, whatever it names
    split_ifs at h with hoffset
    · exact absurd h yields_fail
    · rw [not_not] at hoffset
      obtain ⟨hy, rfl⟩ := yields_orFail.mp h
      rw [hoffset]
      exact maps_of_symbol hy
  | label name =>
    obtain ⟨hy, rfl⟩ := yields_orFail.mp h
    unfold label at hy
    split at hy
    · rename_i id hid
      cases hy
      exact .label hid
    · cases hy
  | special r lane =>
    simp only [yields_bind, yields_pure, yields_specialRegister] at h
    -- the lane has been used before, or gets its register now
    obtain ⟨v, _, (⟨hv, rfl⟩ | ⟨hnone, hv, rfl⟩), rfl, rfl⟩ := h
    · exact .known hv
    · exact .special hnone hv
  | sink =>
    simp only [yields_bind, yields_pure, yields_newRegister] at h
    obtain ⟨v, _, ⟨hv, rfl⟩, rfl, rfl⟩ := h
    exact .sink hv
  | unknown code => exact absurd h yields_fail

/-- Every image by the rules is what lowering gives. -/
theorem yields_of_maps {x : Source.Operand} {y : Operand} (h : s.Maps fr x y fr') :
    Yields (s.operand x) fr y fr' := by
  unfold operand
  cases h with
  | register hv =>
    simp only [yields_bind, yields_orFail, yields_pure, register_eq_ok]
    exact ⟨_, fr, ⟨hv, rfl⟩, rfl, rfl⟩
  | indirect hv =>
    simp only [yields_bind, yields_orFail, yields_pure, register_eq_ok]
    exact ⟨_, fr, ⟨hv, rfl⟩, rfl, rfl⟩
  | immediate hv =>
    simp only [yields_bind, yields_orFail, yields_pure]
    exact ⟨_, fr, ⟨hv, rfl⟩, rfl, rfl⟩
  | argument ha =>
    refine yields_orFail.mpr ⟨?_, rfl⟩
    rw [symbol, if_pos rfl, ha]
  | global hj =>
    refine yields_orFail.mpr ⟨?_, rfl⟩
    rw [symbol, if_neg (by decide), hj]
  | block hnone hid =>
    refine yields_orFail.mpr ⟨?_, rfl⟩
    rw [symbol, if_neg (by decide), hnone]
    dsimp only
    rw [hid]
  | label hid =>
    refine yields_orFail.mpr ⟨?_, rfl⟩
    rw [label, hid]
  | known hv =>
    simp only [yields_bind, yields_pure, yields_specialRegister]
    exact ⟨_, fr, .inl ⟨hv, rfl⟩, rfl, rfl⟩
  | special hnone hv =>
    simp only [yields_bind, yields_pure, yields_specialRegister]
    exact ⟨_, _, .inr ⟨hnone, hv, rfl⟩, rfl, rfl⟩
  | sink hv =>
    simp only [yields_bind, yields_pure, yields_newRegister]
    exact ⟨_, _, ⟨hv, rfl⟩, rfl, rfl⟩

/-- **Lowering an operand follows the rules.** -/
theorem yields_operand {x : Source.Operand} {y : Operand} :
    Yields (s.operand x) fr y fr' ↔ s.Maps fr x y fr' :=
  ⟨maps_of_yields, yields_of_maps⟩

/-- The image of an operand that must be there. -/
def Fills (s : Scope) (fr : Frame) (o : Option Source.Operand) (y : Operand) (fr' : Frame) : Prop :=
  ∃ x, o = some x ∧ s.Maps fr x y fr'

theorem yields_slot {o : Option Source.Operand} {y : Operand} :
    Yields (s.slot o) fr y fr' ↔ s.Fills fr o y fr' := by
  cases o with
  | none =>
    constructor
    · intro h
      exact absurd h yields_fail
    · rintro ⟨x, hx, -⟩
      cases hx
  | some x =>
    show Yields (s.operand x) fr y fr' ↔ _
    rw [yields_operand]
    constructor
    · intro h
      exact ⟨x, rfl, h⟩
    · rintro ⟨_, hx, h⟩
      cases hx
      exact h

end KernelIR.Lowering.Scope
