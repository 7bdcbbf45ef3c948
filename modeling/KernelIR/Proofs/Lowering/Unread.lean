import KernelIR.Proofs.Lowering.Capture
import KernelIR.Proofs.Lowering.Module
import KernelIR.Proofs.Lowering.Success
import KernelIR.Proofs.Source.Parser.Line

/-!
# What lowering does not read

Lowering reads the guard of an instruction, the plan that its mnemonic decides, its type and the
operands that the plan takes over, and nothing else.  Two parts of an instruction are left out by
that (`Scope.instruction_modifiers`, `Scope.instruction_trimmed`).

`modifiers_discerned_iff`: modifiers make a difference to conversions only, which are refused with
any.  With `hi` in the place of `lo`, or with `sat` added, every other instruction becomes the same
virtual instruction.

`operands_retained_iff`: the instructions with a mnemonic and a number of operands keep all of their
operands exactly if the opcode has a use for so many (`Source.Opcode.arity`).  The operands behind
those are not looked at, so whatever stands there is accepted, be it an operand that has no image.
-/

namespace KernelIR

namespace Virtual.Instr

/-- The instructions have the same opcode, tags and operands. -/
def Alike (x y : Instr) : Prop :=
  x.opcode = y.opcode ∧
    (x.comparison = y.comparison ∧ x.atomic = y.atomic ∧ x.modifier = y.modifier ∧
      x.level = y.level) ∧
    x.writes = y.writes ∧ x.reads = y.reads

instance (x y : Instr) : Decidable (x.Alike y) :=
  inferInstanceAs (Decidable (_ ∧ (_ ∧ _ ∧ _ ∧ _) ∧ _ ∧ _))

theorem Alike.refl (x : Instr) : x.Alike x :=
  ⟨rfl, ⟨rfl, rfl, rfl, rfl⟩, rfl, rfl⟩

end Virtual.Instr

namespace Source

/-- The number of operands that an opcode has a use for: so many are taken where none is missing. -/
def Opcode.arity (op : Opcode) : Nat :=
  let x : Option Operand := some ⟨.missing, .sink⟩
  ({ opcode := op, d := x, a := x, b := x, c := x } : Instruction).taken.length

namespace Instruction

variable {i j : Instruction}

/-! ### Slots that are taken -/

/-- The operands that are taken stand in the first slots. -/
theorem taken_eq_take (h : i.opcode ≠ .atom) : i.taken = i.slots.take i.opcode.arity := by
  unfold taken written read accesses
  cases hop : i.opcode
  case atom => exact absurd hop h
  all_goals rfl

theorem mem_taken_iff {o : Operand} :
    some o ∈ i.taken ↔ some o ∈ i.slots.take i.opcode.arity := by
  by_cases hop : i.opcode = .atom
  · have harity : i.slots.take i.opcode.arity = [i.d, i.a, i.b, i.c] := by
      rw [hop]
      rfl
    rw [harity, taken, written, read, accesses, hop]
    cases hc : i.c <;> simp
  · rw [taken_eq_take hop]

/-- The instruction without the operands that its opcode has no use for. -/
def trimmed (i : Instruction) : Instruction :=
  { i with
    d := (i.slots.take i.opcode.arity)[0]?.join
    a := (i.slots.take i.opcode.arity)[1]?.join
    b := (i.slots.take i.opcode.arity)[2]?.join
    c := (i.slots.take i.opcode.arity)[3]?.join }

theorem trimmed_congr (hmnemonic : j.toMnemonic = i.toMnemonic) (hguard : j.guard = i.guard)
    (hslots : j.slots.take i.opcode.arity = i.slots.take i.opcode.arity) :
    j.trimmed = i.trimmed := by
  rw [trimmed, trimmed, hmnemonic, hguard, hslots]

/-- Without a gap and without surplus, every operand is taken. -/
theorem mem_taken_of_mem_operands (hgap : (i.d = none → i.a = none) ∧ (i.a = none → i.b = none) ∧
    (i.b = none → i.c = none)) (h : i.operands.length ≤ i.opcode.arity) {o : Operand}
    (ho : o ∈ i.operands) : some o ∈ i.taken := by
  obtain ⟨n, hn⟩ := List.mem_iff_getElem?.mp ho
  obtain ⟨hlt, -⟩ := List.getElem?_eq_some_iff.mp hn
  rw [mem_taken_iff, List.mem_iff_getElem?]
  refine ⟨n, ?_⟩
  rw [List.getElem?_take_of_lt (by omega)]
  exact slots_getElem? hgap hn

/-! ### Instructions with operands that nobody looks at -/

theorem slots_ofOperands (m : Mnemonic) (g : Guard) (xs : List Operand) {n : Nat} (hn : n < 4) :
    (ofOperands m g xs).slots[n]? = some xs[n]? := by
  match n, hn with
  | 0, _ | 1, _ | 2, _ | 3, _ => rfl

/-- What stands in the `n`-th slot: something that any scope has an image for where the opcode has a
use for it, and behind that an address with an offset, for which no scope has an image. -/
def probeForm (op : Opcode) (isParam : Bool) (n : Nat) : Form :=
  if op.arity ≤ n then .address "x" 1 isParam else if op.takesLabel then .label "x" else .sink

/-- An instruction with the mnemonic and so many operands. -/
def probe (m : Mnemonic) (isParam : Bool) (n : Nat) : Instruction :=
  ofOperands m .always
    ((List.range n).map fun j => ⟨m.operandType j, probeForm m.opcode isParam j⟩)

theorem operands_probe (m : Mnemonic) (isParam : Bool) {n : Nat} (hn : n ≤ 4) :
    (probe m isParam n).operands =
      (List.range n).map fun j => ⟨m.operandType j, probeForm m.opcode isParam j⟩ :=
  operands_ofOperands _ _ (by simpa using hn)

theorem slots_probe (m : Mnemonic) (isParam : Bool) {n j : Nat} (hn : n ≤ 4) (hj : j < n) :
    (probe m isParam n).slots[j]? =
      some (some ⟨m.operandType j, probeForm m.opcode isParam j⟩) := by
  rw [probe, slots_ofOperands _ _ _ (by omega), List.getElem?_map, List.getElem?_range hj]
  rfl

theorem probeForm_of_lt {op : Opcode} {isParam : Bool} {n : Nat} (h : n < op.arity) :
    probeForm op isParam n = if op = .bra then .label "x" else .sink := by
  rw [probeForm, if_neg (by omega)]
  cases op with
  | call => exact absurd h (Nat.not_lt_zero n)
  | _ => rfl

theorem canonical_probeForm (s : Scope) (op : Opcode) (n : Nat) (t : DataType) :
    (probeForm op (s.isParam "x") n).Canonical s op.takesLabel t := by
  unfold probeForm
  split_ifs with harity hlabel
  · exact ⟨by decide, rfl, ⟨by decide, by decide⟩, fun h => absurd h (by decide)⟩
  · exact ⟨hlabel, by decide, by decide⟩
  · trivial

theorem canonical_probe {m : Mnemonic} (hm : m.Canonical) (s : Scope) (n : Nat) :
    (probe m (s.isParam "x") n).Canonical s := by
  refine ⟨hm, trivial, gapless_getElem? _, fun j x hx => ?_⟩
  have hj : j < 4 := (List.getElem?_eq_some_iff.mp hx).1
  rw [probe, slots_ofOperands _ _ _ hj, Option.some.injEq, List.getElem?_map] at hx
  obtain ⟨n', hn', rfl⟩ := Option.map_eq_some_iff.mp hx
  obtain ⟨_, hn'⟩ := List.getElem?_eq_some_iff.mp hn'
  rw [List.getElem_range] at hn'
  subst hn'
  exact ⟨rfl, canonical_probeForm s _ _ _⟩

theorem ReadFrom.gapless {s : Scope} {line : String} (h : i.ReadFrom s line) :
    (i.d = none → i.a = none) ∧ (i.a = none → i.b = none) ∧ (i.b = none → i.c = none) := by
  obtain ⟨s₁, s₂, -, hparse, -⟩ := h
  obtain ⟨p, -, hi⟩ := Scope.parse_spelled hparse
  exact hi.gapless

/-- **If a line is read, so is one with the same mnemonic and number of operands** whose surplus
operands have no image. -/
theorem ReadFrom.probe {s : Scope} {line : String} (h : i.ReadFrom s line) :
    ∃ line' isParam, (probe i.toMnemonic isParam i.operands.length).ReadFrom s line' := by
  obtain ⟨s₁, s₂, htidy, hparse, hs₂⟩ := h
  obtain ⟨hinterns, -⟩ := Scope.parse_readIn htidy hparse
  obtain ⟨p, -, hi⟩ := Scope.parse_spelled hparse
  have hcanonical := canonical_probe (Mnemonic.canonical_of_mnemonic? hi.mnemonic) s₂
    i.operands.length
  exact ⟨_, _, s₂, s₂, htidy.interns hinterns, hcanonical.parse_text trivial, hs₂⟩

end Instruction

end Source

namespace Lowering

open Virtual (Instr Operand)

namespace Scope

variable {s : Scope} {fr fr' : Frame} {block : Nat} {i j : Source.Instruction} {p : Plan}
  {x : Instr}

/-! ### What lowering depends on -/

/-- Instructions are lowered alike if they have the same guard and plan, and are alike under it. -/
theorem instruction_congr (hguard : i.guard = j.guard)
    (hplan : plan i.toMnemonic = plan j.toMnemonic)
    (h : ∀ p, plan j.toMnemonic = .ok p → s.follow block i p = s.follow block j p) :
    s.instruction block i = s.instruction block j := by
  unfold instruction
  rw [hguard, hplan]
  cases hp : plan j.toMnemonic with
  | error e => rfl
  | ok p =>
    have hok : ∀ f : Plan → Lower Instr, orFail (.ok p) >>= f = f p := fun f => rfl
    simp only [hok, h p hp]

/-- **Operands that the opcode has no use for are not read.** -/
theorem instruction_trimmed (i : Source.Instruction) :
    s.instruction block i.trimmed = s.instruction block i := by
  refine instruction_congr rfl rfl fun p hplan => ?_
  unfold plan at hplan
  unfold Source.Instruction.trimmed
  -- the opcode decides on the plan, which reads the first slots only
  cases hop : i.opcode <;> rw [hop] at hplan <;> dsimp only at hplan
  case membar | setp | atom =>
    obtain ⟨tag, -, rfl⟩ := Fallible.map_eq_ok.mp hplan
    rfl
  case cvt =>
    split_ifs at hplan with hmodifiers
    obtain ⟨op, -, rfl⟩ := Fallible.map_eq_ok.mp hplan
    rfl
  case call | mad | selp | unknown => cases hplan
  all_goals
    cases hplan
    rfl

/-! ### Modifiers -/

theorem plan_modifiers {m : Source.Mnemonic} (h : m.opcode ≠ .cvt) (n : Source.Modifiers) :
    plan { m with modifiers := n } = plan m := by
  unfold plan
  cases hop : m.opcode
  case cvt => exact absurd hop h
  all_goals rfl

/-- A conversion is refused with any modifier. -/
theorem modifiers_of_plan {m : Source.Mnemonic} (hop : m.opcode = .cvt) (h : plan m = .ok p) :
    m.modifiers = .empty := by
  unfold plan at h
  rw [hop] at h
  dsimp only at h
  split_ifs at h with hempty
  exact hempty

theorem instruction_modifiers (h : i.opcode ≠ .cvt) (n : Source.Modifiers) :
    s.instruction block { i with modifiers := n } = s.instruction block i := by
  refine instruction_congr rfl (plan_modifiers h n) fun p _ => ?_
  cases p <;> rfl

theorem modifiers_of_yields (h : Yields (s.instruction block i) fr x fr')
    (hop : i.opcode = .cvt) : i.modifiers = .empty := by
  obtain ⟨p, -, -, hplan, -⟩ := renders_of_yields h
  exact modifiers_of_plan hop hplan

/-! ### Operands that are kept -/

/-- From `fr` to `fr'` the operand gets an image, which the instruction writes or reads. -/
def Keeps (s : Scope) (fr : Frame) (x : Instr) (fr' : Frame) (o : Source.Operand) : Prop :=
  ∃ y fr₁ fr₂, fr.Grows s fr₁ ∧ s.Maps fr₁ o y fr₂ ∧ fr₂.Grows s fr' ∧
    some y ∈ x.writes ++ x.operandsRead

/-- The operands that the opcode has a use for are kept. -/
theorem Renders.keeps (h : s.Renders block i fr x fr') {o : Source.Operand}
    (ho : some o ∈ i.taken) : s.Keeps fr x fr' o := by
  obtain ⟨ys, more, hys, -, hoperands⟩ := h.fillsTaken
  obtain ⟨y, hy, _, fr₁, fr₂, ⟨⟩, hbefore, hmaps, hbehind⟩ := exists_of_forall₂_left hys.between ho
  refine ⟨y, fr₁, fr₂, (Frame.Grows.counted s fr).trans hbefore, hmaps, hbehind, ?_⟩
  rw [hoperands]
  exact List.mem_map_of_mem (List.mem_append_left _ hy)

/-! ### Surplus operands -/

/-- A plan other than that of a branch is followed if the operands that are taken have images. -/
theorem acceptsUnder_of_resolves (hplan : plan i.toMnemonic = .ok p) (hbranch : i.opcode ≠ .bra)
    (htype : p = .complement → ∃ t, lowerType i.type = .ok t)
    (h : ∀ o ∈ i.taken, s.ResolvesSlot o) : s.AcceptsUnder i p := by
  unfold plan at hplan
  unfold Source.Instruction.taken Source.Instruction.written Source.Instruction.read
    Source.Instruction.accesses at h
  -- the taken operands are a table over the opcodes, and so is the plan
  cases hop : i.opcode <;> rw [hop] at hplan h <;> dsimp only at hplan h
  case bra => exact absurd hop hbranch
  case ret | exit | bar =>
    cases hplan
    trivial
  case membar =>
    obtain ⟨level, -, rfl⟩ := Fallible.map_eq_ok.mp hplan
    trivial
  case setp =>
    obtain ⟨comparison, -, rfl⟩ := Fallible.map_eq_ok.mp hplan
    simpa [AcceptsUnder] using h
  case atom =>
    obtain ⟨operation, -, rfl⟩ := Fallible.map_eq_ok.mp hplan
    cases hc : i.c <;> simpa [AcceptsUnder, hc] using h
  case cvt =>
    split_ifs at hplan with hmodifiers
    obtain ⟨op, -, rfl⟩ := Fallible.map_eq_ok.mp hplan
    simpa [AcceptsUnder] using h
  case not =>
    cases hplan
    have hslots : s.ResolvesSlot i.d ∧ s.ResolvesSlot i.a := by simpa using h
    exact ⟨hslots.1, hslots.2, htype rfl⟩
  -- these have no plan
  case call | mad | selp | unknown => cases hplan
  all_goals
    cases hplan
    simpa [AcceptsUnder] using h

/-- A scope with one block. -/
def probeScope : Scope :=
  { stem := "r", globals := [], arguments := [], registers := [], blocks := [("x", 2)] }

/-- **An instruction with surplus operands is lowered even if they have no image.** -/
theorem accepts_probe (hx : Yields (s.instruction block i) fr x fr') (isParam : Bool) {n : Nat}
    (hn : n ≤ 4) (hsurplus : i.opcode.arity < n) :
    probeScope.Accepts (.probe i.toMnemonic isParam n) := by
  obtain ⟨p, y, -, hplan, -, hfollows, -⟩ := renders_of_yields hx
  refine ⟨⟨_, rfl⟩, p, hplan, ?_⟩
  have hslot : ∀ j, j < i.opcode.arity →
      (Source.Instruction.probe i.toMnemonic isParam n).slots[j]? = some (some
        ⟨i.operandType j, if i.opcode = .bra then .label "x" else .sink⟩) := by
    intro j hj
    rw [Source.Instruction.slots_probe _ _ hn (by omega), Source.Instruction.probeForm_of_lt hj]
  by_cases hbra : i.opcode = .bra
  · -- the target of a branch is the block of the scope
    obtain ⟨modifier, rfl⟩ : ∃ modifier, p = .branch modifier := by
      unfold plan at hplan
      rw [hbra] at hplan
      exact ⟨_, (Except.ok.inj hplan).symm⟩
    have hd := hslot 0 (by rw [hbra]; decide)
    rw [if_pos hbra] at hd
    exact ⟨_, Option.some.inj hd, rfl⟩
  · refine acceptsUnder_of_resolves hplan hbra ?_ ?_
    · rintro rfl
      cases hfollows with
      | complement _ _ ht => exact ⟨_, ht⟩
    · intro o ho
      -- an atomic operation takes all four operands, so none of its can be in surplus
      have hatom : i.opcode ≠ .atom := by
        intro hop
        have harity : Source.Opcode.arity .atom = 4 := rfl
        rw [hop, harity] at hsurplus
        omega
      have htaken : (Source.Instruction.probe i.toMnemonic isParam n).taken =
          (Source.Instruction.probe i.toMnemonic isParam n).slots.take i.opcode.arity :=
        Source.Instruction.taken_eq_take hatom
      rw [htaken] at ho
      obtain ⟨j, hj⟩ := List.mem_iff_getElem?.mp ho
      rw [List.getElem?_take] at hj
      split_ifs at hj with hlt
      rw [hslot j hlt, if_neg hbra] at hj
      exact ⟨_, (Option.some.inj hj).symm, trivial⟩

end Scope

/-! ### Main results -/

section Main

open Scope (probeScope)

variable {s : Scope} {fr fr' : Frame} {block : Nat} {i : Source.Instruction} {x : Instr}

/-- **Modifiers make a difference to conversions only.**  An instruction that is lowered becomes the
same one with any other modifiers, unless it is a conversion; then it is refused with others. -/
theorem modifiers_discerned_iff (hx : Yields (s.instruction block i) fr x fr')
    {n : Source.Modifiers} (hn : n ≠ i.modifiers) :
    (∀ y fr'', Yields (s.instruction block { i with modifiers := n }) fr y fr'' → ¬ x.Alike y) ↔
      i.opcode = .cvt := by
  constructor
  · intro h
    by_contra hop
    rw [Scope.instruction_modifiers hop] at h
    exact h x fr' hx (.refl x)
  · intro hop y fr'' hy
    have hi : i.modifiers = .empty := Scope.modifiers_of_yields hx hop
    have hj : n = .empty := Scope.modifiers_of_yields hy hop
    exact absurd (hj.trans hi.symm) hn

/-- Half of a product. -/
def productInstruction (n : Source.Modifiers) : Source.Instruction :=
  { opcode := .mul, type := .signed .w32, modifiers := n
    d := some ⟨.signed .w32, .sink⟩
    a := some ⟨.signed .w32, .special .tid .y⟩
    b := some ⟨.signed .w32, .immediate 3⟩ }

/-- A number with more bits. -/
def wideningInstruction (n : Source.Modifiers) : Source.Instruction :=
  { opcode := .cvt, type := .signed .w64, sourceType := .signed .w32, modifiers := n
    d := some ⟨.signed .w64, .sink⟩
    a := some ⟨.signed .w32, .special .tid .y⟩ }

/-- The upper half of a product may become the same instruction as the lower half; a conversion that
saturates does not become the same as one that does not. -/
theorem product_widening_discerned :
    (∃ x fr' y fr'',
      Yields (probeScope.instruction 2 (productInstruction (.single 12))) ⟨[], [], 0⟩ x fr' ∧
      Yields (probeScope.instruction 2 (productInstruction (.single 13))) ⟨[], [], 0⟩ y fr'' ∧
      x.Alike y) ∧
    ∃ x fr', Yields (probeScope.instruction 2 (wideningInstruction .empty)) ⟨[], [], 0⟩ x fr' ∧
      ∀ y fr'', Yields (probeScope.instruction 2 (wideningInstruction (.single 8))) ⟨[], [], 0⟩
        y fr'' → ¬ x.Alike y := by
  constructor
  · obtain ⟨x, fr', hx⟩ := (probeScope.decided_instruction 2 (productInstruction (.single 12))
      ⟨[], [], 0⟩).mpr
        ⟨⟨_, rfl⟩, _, rfl, ⟨_, rfl, trivial⟩, ⟨_, rfl, trivial⟩, ⟨_, rfl, _, rfl⟩⟩
    have hmul : ¬ ∀ y fr'', Yields (probeScope.instruction 2 (productInstruction (.single 13)))
        ⟨[], [], 0⟩ y fr'' → ¬ x.Alike y :=
      fun h => absurd ((modifiers_discerned_iff hx (by decide)).mp h) (by decide)
    push Not at hmul
    obtain ⟨y, fr'', hy, halike⟩ := hmul
    exact ⟨x, fr', y, fr'', hx, hy, halike⟩
  · obtain ⟨x, fr', hx⟩ := (probeScope.decided_instruction 2 (wideningInstruction .empty)
      ⟨[], [], 0⟩).mpr ⟨⟨_, rfl⟩, _, rfl, ⟨_, rfl, trivial⟩, ⟨_, rfl, trivial⟩⟩
    exact ⟨x, fr', hx, (modifiers_discerned_iff hx (by decide)).mpr rfl⟩

/-- Products of which three different parts are wanted, and sums that end in different ways. -/
def droppingModule : Source.Description :=
  { kernels := [
      { name := "products", linkage := "", params := [], registers := [⟨"%r", "s32"⟩]
        blocks := [⟨"start", ["mul.lo.s32 %r, %r, %r", "mul.hi.s32 %r, %r, %r",
          "mul.wide.s32 %r, %r, %r"]⟩] },
      { name := "sums", linkage := "", params := [], registers := [⟨"%r", "s32"⟩]
        blocks := [⟨"start", ["add.s32 %r, %r, %r", "add.sat.s32 %r, %r, %r"]⟩] }] }

/-- All products become the same instruction, and all sums do. -/
theorem droppingModule_lowered :
    ∃ m v, droppingModule.load "dropping" = .ok m ∧ lower {} m = .ok v ∧
      v.functions.map (fun f => f.code.length) = [3, 2] ∧
        ∀ f ∈ v.functions, f.code.Pairwise Instr.Alike := by
  exact exists_lower_of_any droppingModule "dropping" _ (by decide +kernel)

/-- **Operands are kept exactly if the opcode has a use for so many.**  Of the lines with the
mnemonic and the number of operands of one that is lowered, none loses an operand if there are no
more than that, and otherwise some do.  What stands behind makes no difference to the result. -/
theorem operands_retained_iff {source : Source.Scope} {line : String} (hi : i.ReadFrom source line)
    (hx : Yields (s.instruction block i) fr x fr') :
    ((∀ line' j, j.ReadFrom source line' → j.toMnemonic = i.toMnemonic →
        j.operands.length = i.operands.length → ∀ s block fr y fr',
          Yields (Scope.instruction s block j) fr y fr' → ∀ o ∈ j.operands, s.Keeps fr y fr' o) ↔
      i.operands.length ≤ i.opcode.arity) ∧
    ∀ j : Source.Instruction, j.toMnemonic = i.toMnemonic → j.guard = i.guard →
      j.slots.take i.opcode.arity = i.slots.take i.opcode.arity →
        s.instruction block j = s.instruction block i := by
  refine ⟨⟨fun h => ?_, fun h line' j hj hmnemonic hlength s block fr y fr' hy o ho => ?_⟩,
    fun j hmnemonic hguard hslots => ?_⟩
  · by_contra hsurplus
    have hn := (Source.Instruction.slots_eq hi.gapless).1
    obtain ⟨line', isParam, hprobe⟩ := hi.probe
    have hoperands := Source.Instruction.operands_probe i.toMnemonic isParam hn
    obtain ⟨y, fr'', hy⟩ := (probeScope.decided_instruction 2 _ fr).mpr
      (Scope.accepts_probe hx isParam hn (not_le.mp hsurplus))
    -- the first surplus operand has an offset, with which no address has an image
    have hmem : ⟨i.operandType i.opcode.arity, .address "x" 1 isParam⟩ ∈
        (Source.Instruction.probe i.toMnemonic isParam i.operands.length).operands := by
      rw [hoperands, List.mem_map]
      refine ⟨i.opcode.arity, List.mem_range.mpr (not_le.mp hsurplus), ?_⟩
      rw [Source.Instruction.probeForm, if_pos (le_refl _)]
    have hlength := congrArg List.length hoperands
    rw [List.length_map, List.length_range] at hlength
    obtain ⟨_, _, _, -, hmaps, -⟩ := h line' _ hprobe rfl hlength _ _ _ _ _ hy _ hmem
    cases hmaps
  · have hop : j.opcode = i.opcode := congrArg Source.Mnemonic.opcode hmnemonic
    refine (Scope.renders_of_yields hy).keeps ?_
    exact Source.Instruction.mem_taken_of_mem_operands hj.gapless (by rw [hlength, hop]; exact h) ho
  · rw [← Scope.instruction_trimmed j, ← Scope.instruction_trimmed i,
      Source.Instruction.trimmed_congr hmnemonic hguard hslots]

/-- The instruction of the line `add.u32 _, %tid.y, 7`. -/
def sumInstruction : Source.Instruction :=
  { opcode := .add, type := .unsigned .w32
    d := some ⟨.unsigned .w32, .sink⟩
    a := some ⟨.unsigned .w32, .special .tid .y⟩
    b := some ⟨.unsigned .w32, .immediate 7⟩ }

theorem sumInstruction_retained :
    ∃ x fr', Yields (probeScope.instruction 2 sumInstruction) ⟨[], [], 0⟩ x fr' ∧
      ∀ o ∈ sumInstruction.operands, probeScope.Keeps ⟨[], [], 0⟩ x fr' o := by
  have hread : sumInstruction.ReadFrom {} "add.u32 _, %tid.y, 7" :=
    ⟨{}, {}, Source.Scope.tidy_empty, by decide +kernel, .refl _⟩
  obtain ⟨x, fr', hx⟩ := (probeScope.decided_instruction 2 sumInstruction ⟨[], [], 0⟩).mpr
    ⟨⟨_, rfl⟩, _, rfl, ⟨_, rfl, trivial⟩, ⟨_, rfl, trivial⟩, ⟨_, rfl, _, rfl⟩⟩
  have hretained := (operands_retained_iff hread hx).1.mpr (by decide)
  exact ⟨x, fr', hx, hretained _ _ hread rfl rfl _ _ _ _ _ hx⟩

/-- More operands than the opcodes have a use for, the first of them a register that is not
declared. -/
def surplusModule : Source.Description :=
  { kernels := [
      { name := "surplus", linkage := "", params := [], registers := [⟨"%r", "s32"⟩]
        blocks := [⟨"start", ["mov.s32 %r, %r, %s", "add.s32 %r, %r, %r, 7", "ret 7"]⟩] }] }

/-- No instruction has any other operand than the register that is declared. -/
theorem surplusModule_lowered :
    ∃ m v, surplusModule.load "surplus" = .ok m ∧ lower {} m = .ok v ∧
      v.functions.map (fun f => f.code.length) = [3] ∧
        ∀ f ∈ v.functions, ∀ x ∈ f.code, ∀ y ∈ x.writes ++ x.operandsRead,
          y = some (.register f.registers.head?) := by
  exact exists_lower_of_any surplusModule "surplus" _ (by decide +kernel)

end Main

end Lowering

end KernelIR
