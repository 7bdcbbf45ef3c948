import KernelIR.Proofs.Source.Parser.Reading

/-!
# Instructions up to the numbers of registers

The number of a register depends on the names that were met before it.  `SameReading` compares what
two scopes read without such numbers: both refuse the line, or the instructions are the same but for
the numbers of registers that a given scope does not know.  If both readings are later than this
scope, the numbers of the registers that it knows are its own, so that no numbers need to be
compared at all (`sameReading_iff_bare`).
-/

namespace KernelIR.Source

/-! ### Replacing registers -/

section MapRegister

variable {f g : RegisterUse → RegisterUse}

/-- The form with its register replaced. -/
def Form.mapRegister (f : RegisterUse → RegisterUse) : Form → Form
  | .register r => .register (f r)
  | .indirect r offset => .indirect (f r) offset
  | form => form

/-- The operand with its register replaced. -/
def Operand.mapRegister (f : RegisterUse → RegisterUse) (x : Operand) : Operand :=
  { x with form := x.form.mapRegister f }

/-- The guard with its register replaced. -/
def Guard.mapRegister (f : RegisterUse → RegisterUse) : Guard → Guard
  | .straight r => .straight (f r)
  | .inverse r => .inverse (f r)
  | .unknown code r => .unknown code (f r)
  | guard => guard

/-- The instruction with its registers replaced. -/
def Instruction.mapRegisters (f : RegisterUse → RegisterUse) (i : Instruction) : Instruction :=
  { i with
    guard := i.guard.mapRegister f
    d := i.d.map (·.mapRegister f)
    a := i.a.map (·.mapRegister f)
    b := i.b.map (·.mapRegister f)
    c := i.c.map (·.mapRegister f) }

theorem Form.mapRegister_congr {form : Form} (h : ∀ r, form.register? = some r → f r = g r) :
    form.mapRegister f = form.mapRegister g := by
  cases form with
  | register r => exact congrArg Form.register (h r rfl)
  | indirect r offset => exact congrArg (Form.indirect · offset) (h r rfl)
  | immediate | address | label | special | sink | unknown => rfl

theorem Form.register?_mapRegister (f : RegisterUse → RegisterUse) (form : Form) :
    (form.mapRegister f).register? = form.register?.map f := by
  cases form <;> rfl

theorem Form.mapRegister_mapRegister (form : Form) :
    (form.mapRegister f).mapRegister g = form.mapRegister (g ∘ f) := by
  cases form <;> rfl

theorem Guard.mapRegister_congr {guard : Guard} (h : ∀ r, guard.register? = some r → f r = g r) :
    guard.mapRegister f = guard.mapRegister g := by
  cases guard with
  | straight r => exact congrArg Guard.straight (h r rfl)
  | inverse r => exact congrArg Guard.inverse (h r rfl)
  | unknown code r => exact congrArg (Guard.unknown code) (h r rfl)
  | always | never => rfl

theorem Guard.mapRegister_mapRegister (guard : Guard) :
    (guard.mapRegister f).mapRegister g = guard.mapRegister (g ∘ f) := by
  cases guard <;> rfl

theorem Operand.mapRegister_mapRegister (x : Operand) :
    (x.mapRegister f).mapRegister g = x.mapRegister (g ∘ f) := by
  unfold mapRegister
  rw [Form.mapRegister_mapRegister]

theorem Instruction.mapRegisters_congr {i : Instruction} (h : ∀ r, i.Uses r → f r = g r) :
    i.mapRegisters f = i.mapRegisters g := by
  have hslot : ∀ slot ∈ i.slots, slot.map (·.mapRegister f) = slot.map (·.mapRegister g) := by
    intro slot hslot
    cases slot with
    | none => rfl
    | some x =>
      have hx : x ∈ i.operands := List.mem_filterMap.mpr ⟨some x, hslot, rfl⟩
      have hform := Form.mapRegister_congr fun r hr => h r (.inr ⟨x, hx, hr⟩)
      show some (Operand.mk x.type _) = some (Operand.mk x.type _)
      rw [hform]
  unfold mapRegisters
  rw [Guard.mapRegister_congr fun r hr => h r (.inl hr), hslot i.d (by simp [slots]),
    hslot i.a (by simp [slots]), hslot i.b (by simp [slots]), hslot i.c (by simp [slots])]

theorem Instruction.mapRegisters_mapRegisters (i : Instruction) :
    (i.mapRegisters f).mapRegisters g = i.mapRegisters (g ∘ f) := by
  have hslot : ∀ slot : Option Operand,
      (slot.map (·.mapRegister f)).map (·.mapRegister g) = slot.map (·.mapRegister (g ∘ f)) := by
    intro slot
    cases slot with
    | none => rfl
    | some x => exact congrArg some x.mapRegister_mapRegister
  unfold mapRegisters
  dsimp only
  rw [Guard.mapRegister_mapRegister, hslot, hslot, hslot, hslot]

end MapRegister

/-! ### Readings -/

/-- The register without its number, unless the scope knows its name. -/
def RegisterUse.masked (s : Scope) (r : RegisterUse) : RegisterUse :=
  if s.idOf? r.name = none then { r with id := 0 } else r

/-- The register without its number. -/
def RegisterUse.bare (r : RegisterUse) : RegisterUse :=
  { r with id := 0 }

/-- The register with the number that the scope knows for its name. -/
def RegisterUse.numbered (s : Scope) (r : RegisterUse) : RegisterUse :=
  { r with id := (s.idOf? r.name).getD 0 }

/-- Of two readings both fail, or they give the same instruction but for the numbers of registers
that the scope does not know. -/
def SameReading (s : Scope) (x y : Except ParseError Instruction) : Prop :=
  x.toOption.map (·.mapRegisters (.masked s)) = y.toOption.map (·.mapRegisters (.masked s))

section SameReading

variable {s : Scope}

theorem RegisterUse.bare_masked (s : Scope) (r : RegisterUse) : (r.masked s).bare = r.bare := by
  unfold masked
  split_ifs <;> rfl

/-- Registers that are known from the scope on are masked by their names alone. -/
theorem RegisterUse.Bound.masked_eq {s' : Scope} (hs : s.Interns s') {r : RegisterUse}
    (h : r.Bound s') : r.masked s = r.bare.numbered s := by
  unfold masked
  cases hid : s.idOf? r.name with
  | none =>
    rw [if_pos rfl]
    show RegisterUse.mk 0 r.name = RegisterUse.mk ((s.idOf? r.name).getD 0) r.name
    rw [hid]
    rfl
  | some id =>
    have hr : r.id = id := Option.some.inj (h.symm.trans (hs.idOf? hid))
    rw [if_neg (by simp)]
    show r = RegisterUse.mk ((s.idOf? r.name).getD 0) r.name
    rw [hid, ← hr]
    rfl

/-- **Readings in later scopes are the same if they are so without any numbers.** -/
theorem sameReading_iff_bare {x y : Except ParseError Instruction}
    (hx : ∀ i, x = .ok i → ∃ s', s.Interns s' ∧ ∀ r, i.Uses r → r.Bound s')
    (hy : ∀ i, y = .ok i → ∃ s', s.Interns s' ∧ ∀ r, i.Uses r → r.Bound s') :
    SameReading s x y ↔
      x.toOption.map (·.mapRegisters .bare) = y.toOption.map (·.mapRegisters .bare) := by
  -- the numbers can be put back, and what is masked can be taken away
  have hnumbered : ∀ z : Except ParseError Instruction,
      (∀ i, z = .ok i → ∃ s', s.Interns s' ∧ ∀ r, i.Uses r → r.Bound s') →
        (z.toOption.map (·.mapRegisters .bare)).map (·.mapRegisters (.numbered s)) =
          z.toOption.map (·.mapRegisters (.masked s)) := by
    intro z hz
    cases z with
    | error e => rfl
    | ok i =>
      obtain ⟨s', hs, hbound⟩ := hz i rfl
      show some ((i.mapRegisters .bare).mapRegisters (.numbered s)) = some (i.mapRegisters (.masked s))
      rw [Instruction.mapRegisters_mapRegisters]
      exact congrArg some (Instruction.mapRegisters_congr fun r hr =>
        ((hbound r hr).masked_eq hs).symm)
  have hbare : ∀ z : Except ParseError Instruction,
      (z.toOption.map (·.mapRegisters (.masked s))).map (·.mapRegisters .bare) =
        z.toOption.map (·.mapRegisters .bare) := by
    intro z
    cases z with
    | error e => rfl
    | ok i =>
      show some ((i.mapRegisters (.masked s)).mapRegisters .bare) = some (i.mapRegisters .bare)
      rw [Instruction.mapRegisters_mapRegisters]
      exact congrArg some (Instruction.mapRegisters_congr fun r _ => r.bare_masked s)
  constructor
  · intro h
    rw [← hbare x, ← hbare y]
    exact congrArg _ h
  · intro h
    show x.toOption.map _ = y.toOption.map _
    rw [← hnumbered x hx, ← hnumbered y hy, h]

end SameReading

end KernelIR.Source
