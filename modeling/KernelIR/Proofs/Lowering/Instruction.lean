import KernelIR.Lowering.Instruction
import KernelIR.Proofs.Lowering.Operand

/-!
# Images of instructions

`Scope.Follows` says what an instruction becomes under each plan: which opcode and tags the result
has, and in which of its slots the images of the operands stand.  `Scope.Renders` adds the plan that
the mnemonic decides and the image of the guard.  `renders_of_yields`: a lowered instruction is
rendered so; the setters never refuse a slot, because the plans fit the shapes of their opcodes
(`Plan.Fits`).
-/

namespace KernelIR.Lowering

open Virtual (Instr Operand Predicate)

/-! ### Plans -/

/-- The opcode of the instruction that a plan makes. -/
def Plan.opcode : Plan → Virtual.Opcode
  | .bare op | .unary op | .binary op => op
  | .fence _ => .membar
  | .branch _ => .bra
  | .compare _ => .setp
  | .atomic _ => .atom
  | .complement => .xor

/-- Whether an instruction can transfer control to another block than the next. -/
def transfers (op : Source.Opcode) : Bool :=
  op = .bra ∨ op = .ret ∨ op = .exit

/-- The plan fits the opcode of the source: its own opcode has the shape for the operands that are
taken over, and exactly the transfers of control become such. -/
def Plan.Fits (source : Source.Opcode) : Plan → Prop
  | .bare op =>
    op = .ret ∧ (source = .ret ∨ source = .exit) ∨ op = .bar ∧ transfers source = false
  | .branch _ => source = .bra
  | .unary op => (op.shape = .unary ∨ op = .st) ∧ transfers source = false
  | .binary op => op.shape = .binary ∧ transfers source = false
  | .fence _ | .compare _ | .atomic _ | .complement => transfers source = false

theorem shape_conversionOf (dst src : Source.DataType) : (conversionOf dst src).shape = .unary := by
  unfold conversionOf integerConversion
  split_ifs <;> rfl

theorem shape_of_conversion {dst src : Source.DataType} {op : Virtual.Opcode}
    (h : conversion dst src = .ok op) : op.shape = .unary := by
  unfold conversion at h
  split_ifs at h
  cases h
  exact shape_conversionOf dst src

theorem shape_byClass {t : Source.DataType} {float signed unsigned : Virtual.Opcode}
    (hf : float.shape = .binary) (hs : signed.shape = .binary) (hu : unsigned.shape = .binary) :
    (byClass t float signed unsigned).shape = .binary := by
  unfold byClass
  split_ifs <;> assumption

/-- **Every plan fits.** -/
theorem plan_fits {m : Source.Mnemonic} {p : Plan} (h : plan m = .ok p) : p.Fits m.opcode := by
  unfold plan at h
  cases hop : m.opcode <;> rw [hop] at h <;> dsimp only at h
  case bra =>
    cases h
    rfl
  case ret | exit | bar =>
    cases h
    simp [Plan.Fits, transfers]
  -- these three also name a tag, which may fail to be one
  case membar | setp | atom =>
    obtain ⟨tag, -, rfl⟩ := Fallible.map_eq_ok.mp h
    rfl
  case shr | mul =>
    cases h
    refine ⟨?_, rfl⟩
    split_ifs <;> rfl
  case div | rem =>
    cases h
    exact ⟨shape_byClass rfl rfl rfl, rfl⟩
  case not =>
    cases h
    rfl
  case add | and | or | shl | sub | xor =>
    cases h
    exact ⟨rfl, rfl⟩
  case ld | ldu | mov =>
    cases h
    exact ⟨.inl rfl, rfl⟩
  case st =>
    cases h
    exact ⟨.inr rfl, rfl⟩
  case cvt =>
    -- a conversion with a modifier has no plan
    split_ifs at h with hmodifiers
    obtain ⟨op, hconversion, rfl⟩ := Fallible.map_eq_ok.mp h
    exact ⟨.inl (shape_of_conversion hconversion), rfl⟩
  -- the other opcodes have no plan
  all_goals cases h

/-- A plan makes a branch of a branch, a return of a return or exit, and else neither. -/
theorem Plan.Fits.transfer {source : Source.Opcode} {p : Plan} (h : p.Fits source) :
    (∃ modifier, p = .branch modifier) ∧ source = .bra ∨
      p.opcode = .ret ∧ (source = .ret ∨ source = .exit) ∨
      (p.opcode ≠ .bra ∧ p.opcode ≠ .ret) ∧ transfers source = false := by
  -- the shape of an opcode tells whether it can transfer control
  have hshape : ∀ op : Virtual.Opcode, op.shape ≠ .branch → op.shape ≠ .bare →
      op ≠ .bra ∧ op ≠ .ret := by
    intro op hbranch hbare
    exact ⟨fun hop => hbranch (by rw [hop]; rfl), fun hop => hbare (by rw [hop]; rfl)⟩
  cases p with
  | bare op =>
    rcases h with ⟨hop, hsource⟩ | ⟨rfl, hsource⟩
    · exact .inr (.inl ⟨hop, hsource⟩)
    · exact .inr (.inr ⟨⟨by decide, by decide⟩, hsource⟩)
  | branch modifier => exact .inl ⟨⟨modifier, rfl⟩, h⟩
  | unary op =>
    obtain ⟨hop | rfl, hsource⟩ := h
    · exact .inr (.inr ⟨hshape op (by rw [hop]; decide) (by rw [hop]; decide), hsource⟩)
    · exact .inr (.inr ⟨⟨by decide, by decide⟩, hsource⟩)
  | binary op =>
    obtain ⟨hop, hsource⟩ := h
    exact .inr (.inr ⟨hshape op (by rw [hop]; decide) (by rw [hop]; decide), hsource⟩)
  | fence _ | compare _ | atomic _ | complement =>
    exact .inr (.inr ⟨⟨by simp [opcode], by simp [opcode]⟩, h⟩)

/-! ### Setting operands -/

/-- An instruction without operands. -/
def start (op : Virtual.Opcode) (id block : Nat) : Instr :=
  { opcode := op, id, block := some block }

/-- Setting the destination and `a` where there is a slot for both. -/
theorem setDestination_setA {x : Instr} (d a : Operand)
    (h : x.shape ∈ [.unary, .binary, .comparison, .atomic]) :
    x.setDestination (some d) >>= (·.setA (some a)) =
      .ok { x with destination := some d, first := some a } := by
  have hd : x.setDestination (some d) = .ok { x with destination := some d } := by
    unfold Instr.setDestination
    simp only [List.mem_cons, List.not_mem_nil, or_false] at h
    rcases h with h | h | h | h <;> rw [h]
  have ha : Instr.setA { x with destination := some d } (some a) =
      .ok { x with destination := some d, first := some a } := by
    unfold Instr.setA
    have hshape : Instr.shape { x with destination := some d } = x.shape := rfl
    rw [hshape]
    simp only [List.mem_cons, List.not_mem_nil, or_false] at h
    rcases h with h | h | h | h <;> rw [h]
  rw [hd]
  exact ha

/-- Setting the address and `a` of a store. -/
theorem setDestination_setA_store {x : Instr} (d a : Operand) (h : x.shape = .store) :
    x.setDestination (some d) >>= (·.setA (some a)) =
      .ok { x with first := some d, second := some a } := by
  have hd : x.setDestination (some d) = .ok { x with first := some d } := by
    rw [Instr.setDestination, h]
  have ha : Instr.setA { x with first := some d } (some a) =
      .ok { x with first := some d, second := some a } := by
    have hshape : Instr.shape { x with first := some d } = x.shape := rfl
    rw [Instr.setA, hshape, h]
  rw [hd]
  exact ha

theorem need_of_mem {x : Instr} {slot : Virtual.Slot} {shapes : List Virtual.Shape}
    (h : x.shape ∈ shapes) : x.need slot shapes = .ok () := by
  rw [Instr.need, if_pos h]

theorem setB_eq_ok {x y : Instr} {b : Operand} (h : x.shape ∈ [.binary, .comparison, .atomic]) :
    x.setB (some b) = .ok y ↔ y = { x with second := some b } := by
  have hneed : x.setB (some b) = .ok { x with second := some b } := by
    rw [Instr.setB, need_of_mem h]
    rfl
  rw [hneed, Except.ok.injEq, eq_comm]

theorem setC_eq_ok {x y : Instr} {c : Operand} (h : x.shape = .atomic) :
    x.setC (some c) = .ok y ↔ y = { x with third := some c } := by
  have hneed : x.setC (some c) = .ok { x with third := some c } := by
    rw [Instr.setC, need_of_mem (by rw [h]; decide)]
    rfl
  rw [hneed, Except.ok.injEq, eq_comm]

theorem setTarget_eq_ok {x y : Instr} {t : Operand} (h : x.shape = .branch) :
    x.setTarget (some t) = .ok y ↔ y = { x with first := some t } := by
  have hneed : x.setTarget (some t) = .ok { x with first := some t } := by
    rw [Instr.setTarget, need_of_mem (by rw [h]; decide)]
    rfl
  rw [hneed, Except.ok.injEq, eq_comm]

namespace Scope

variable {s : Scope} {fr fr' : Frame} {i : Source.Instruction} {x y : Instr}

/-- The operands `d` and `a` are lowered in this order. -/
theorem yields_setUnary :
    Yields (s.setUnary i x) fr y fr' ↔
      ∃ d a fr₁, s.Fills fr i.d d fr₁ ∧ s.Fills fr₁ i.a a fr' ∧
        x.setDestination (some d) >>= (·.setA (some a)) = .ok y := by
  unfold setUnary inRole
  simp only [yields_bind, yields_within, yields_slot, yields_orDefect]
  constructor
  · rintro ⟨d, fr₁, hd, a, fr₂, ha, hy, rfl⟩
    exact ⟨d, a, fr₁, hd, ha, hy⟩
  · rintro ⟨d, a, fr₁, hd, ha, hy⟩
    exact ⟨d, fr₁, hd, a, fr', ha, hy, rfl⟩

/-- Both operands are kept where the instruction has a slot for each. -/
theorem yields_setUnary_of_mem (h : x.shape ∈ [.unary, .binary, .comparison, .atomic]) :
    Yields (s.setUnary i x) fr y fr' ↔
      ∃ d a fr₁, s.Fills fr i.d d fr₁ ∧ s.Fills fr₁ i.a a fr' ∧
        y = { x with destination := some d, first := some a } := by
  simp only [yields_setUnary, setDestination_setA _ _ h, Except.ok.injEq, eq_comm]

/-- The operand `b` is lowered behind `d` and `a`. -/
theorem yields_setBinary (h : x.shape ∈ [.binary, .comparison, .atomic]) :
    Yields (s.setBinary i x) fr y fr' ↔
      ∃ d a b fr₁ fr₂, s.Fills fr i.d d fr₁ ∧ s.Fills fr₁ i.a a fr₂ ∧ s.Fills fr₂ i.b b fr' ∧
        y = { x with destination := some d, first := some a, second := some b } := by
  have hunary : x.shape ∈ [.unary, .binary, .comparison, .atomic] := List.mem_cons_of_mem _ h
  have hset : ∀ d a, Instr.shape { x with destination := some d, first := some a } ∈
      [.binary, .comparison, .atomic] := fun _ _ => h
  unfold setBinary inRole
  simp only [yields_bind, yields_within, yields_slot, yields_setUnary_of_mem hunary,
    yields_orDefect]
  constructor
  · rintro ⟨_, fr₂, ⟨d, a, fr₁, hd, ha, rfl⟩, b, fr₃, hb, hy, rfl⟩
    exact ⟨d, a, b, fr₁, fr₂, hd, ha, hb, (setB_eq_ok (hset d a)).mp hy⟩
  · rintro ⟨d, a, b, fr₁, fr₂, hd, ha, hb, hy⟩
    exact ⟨_, fr₂, ⟨d, a, fr₁, hd, ha, rfl⟩, b, fr', hb, (setB_eq_ok (hset d a)).mpr hy, rfl⟩

/-- The operand `c` is lowered if it is there. -/
theorem yields_setThird (h : x.shape = .atomic) :
    Yields (s.setThird i x) fr y fr' ↔
      (i.c = none ∧ y = x ∧ fr' = fr) ∨
        ∃ c, s.Fills fr i.c c fr' ∧ y = { x with third := some c } := by
  unfold setThird inRole
  -- the third operand is the only optional one: without it nothing is set
  cases hc : i.c with
  | none =>
    dsimp only
    rw [yields_pure]
    constructor
    · intro hy
      exact .inl ⟨rfl, hy⟩
    · rintro (⟨-, hy⟩ | ⟨c, ⟨_, hnone, -⟩, -⟩)
      · exact hy
      · cases hnone
  | some c₀ =>
    simp only [yields_bind, yields_within, yields_slot, yields_orDefect, setC_eq_ok h]
    constructor
    · rintro ⟨c, _, hfills, hy, rfl⟩
      exact .inr ⟨c, hfills, hy⟩
    · rintro (⟨hsome, -⟩ | ⟨c, hfills, hy⟩)
      · cases hsome
      · exact ⟨c, fr', hfills, hy, rfl⟩

/-- The target of a branch must be a block. -/
theorem yields_setTarget (h : x.shape = .branch) :
    Yields (s.setTarget i x) fr y fr' ↔
      ∃ t, s.Fills fr i.d t fr' ∧ t.isBlock = true ∧ y = { x with first := some t } := by
  unfold setTarget
  simp only [yields_bind, yields_within, yields_slot]
  constructor
  · rintro ⟨t, fr₁, ht, hy⟩
    split_ifs at hy with hblock
    · obtain ⟨hset, rfl⟩ := yields_orDefect.mp hy
      exact ⟨t, ht, hblock, (setTarget_eq_ok h).mp hset⟩
    · exact absurd hy yields_fail
  · rintro ⟨t, ht, hblock, hy⟩
    refine ⟨t, fr', ht, ?_⟩
    rw [if_pos hblock]
    exact yields_orDefect.mpr ⟨(setTarget_eq_ok h).mpr hy, rfl⟩

/-! ### Following a plan -/

/-- `s.Follows block i fr p x fr'`: in the frame `fr`, the instruction `i` of a block becomes `x`
under the plan `p`, up to its guard. -/
inductive Follows (s : Scope) (block : Nat) (i : Source.Instruction) (fr : Frame) :
    Plan → Instr → Frame → Prop
  | bare {op} : Follows s block i fr (.bare op) (start op fr.nextInstr block) fr.counted
  | fence {level} :
    Follows s block i fr (.fence level) { start .membar fr.nextInstr block with level } fr.counted
  | branch {modifier t fr'} :
    s.Fills fr.counted i.d t fr' → t.isBlock = true →
      Follows s block i fr (.branch modifier)
        { start .bra fr.nextInstr block with modifier, first := some t } fr'
  | unary {op d a fr₁ fr'} :
    op.shape = .unary → s.Fills fr.counted i.d d fr₁ → s.Fills fr₁ i.a a fr' →
      Follows s block i fr (.unary op)
        { start op fr.nextInstr block with destination := some d, first := some a } fr'
  | store {d a fr₁ fr'} :
    s.Fills fr.counted i.d d fr₁ → s.Fills fr₁ i.a a fr' →
      Follows s block i fr (.unary .st)
        { start .st fr.nextInstr block with first := some d, second := some a } fr'
  | binary {op d a b fr₁ fr₂ fr'} :
    op.shape = .binary →
      s.Fills fr.counted i.d d fr₁ → s.Fills fr₁ i.a a fr₂ → s.Fills fr₂ i.b b fr' →
      Follows s block i fr (.binary op)
        { start op fr.nextInstr block with
          destination := some d, first := some a, second := some b } fr'
  | compare {comparison d a b fr₁ fr₂ fr'} :
    s.Fills fr.counted i.d d fr₁ → s.Fills fr₁ i.a a fr₂ → s.Fills fr₂ i.b b fr' →
      Follows s block i fr (.compare comparison)
        { start .setp fr.nextInstr block with
          comparison, destination := some d, first := some a, second := some b } fr'
  | atomic {atomic d a b fr₁ fr₂ fr'} :
    s.Fills fr.counted i.d d fr₁ → s.Fills fr₁ i.a a fr₂ → s.Fills fr₂ i.b b fr' → i.c = none →
      Follows s block i fr (.atomic atomic)
        { start .atom fr.nextInstr block with
          atomic, destination := some d, first := some a, second := some b } fr'
  | atomicThird {atomic d a b c fr₁ fr₂ fr₃ fr'} :
    s.Fills fr.counted i.d d fr₁ → s.Fills fr₁ i.a a fr₂ → s.Fills fr₂ i.b b fr₃ →
      s.Fills fr₃ i.c c fr' →
      Follows s block i fr (.atomic atomic)
        { start .atom fr.nextInstr block with
          atomic, destination := some d, first := some a, second := some b, third := some c } fr'
  | complement {d a t fr₁ fr'} :
    s.Fills fr.counted i.d d fr₁ → s.Fills fr₁ i.a a fr' → lowerType i.type = .ok t →
      Follows s block i fr .complement
        { start .xor fr.nextInstr block with
          destination := some d, first := some a
          second := some (.immediate (allOnes t) (some t)) } fr'

/-- What is made under a plan that fits is made by the rules. -/
theorem follows_of_yields {block : Nat} {p : Plan} (hfits : p.Fits i.opcode)
    (h : Yields (s.follow block i p) fr x fr') : s.Follows block i fr p x fr' := by
  unfold follow at h
  -- every plan makes the instruction first, then fills its slots from left to right
  cases p with
  | bare op =>
    obtain ⟨-, rfl, rfl⟩ := yields_newInstr.mp h
    exact .bare
  | fence level =>
    simp only [yields_bind, yields_newInstr, yields_pure] at h
    obtain ⟨_, _, ⟨-, rfl, rfl⟩, rfl, rfl⟩ := h
    exact .fence
  | branch modifier =>
    simp only [yields_bind, yields_newInstr] at h
    obtain ⟨_, _, ⟨-, rfl, rfl⟩, h⟩ := h
    obtain ⟨t, ht, hblock, rfl⟩ := (yields_setTarget rfl).mp h
    exact .branch ht hblock
  | unary op =>
    simp only [yields_bind, yields_newInstr] at h
    obtain ⟨_, _, ⟨-, rfl, rfl⟩, h⟩ := h
    -- a store writes no register: what is set as its destination is its first operand
    rcases hfits.1 with hop | rfl
    · obtain ⟨d, a, fr₁, hd, ha, rfl⟩ :=
        (yields_setUnary_of_mem (by rw [Instr.shape, hop]; decide)).mp h
      exact .unary hop hd ha
    · obtain ⟨d, a, fr₁, hd, ha, hset⟩ := yields_setUnary.mp h
      rw [setDestination_setA_store d a rfl] at hset
      cases hset
      exact .store hd ha
  | binary op =>
    have hop : op.shape = .binary := hfits.1
    simp only [yields_bind, yields_newInstr] at h
    obtain ⟨_, _, ⟨-, rfl, rfl⟩, h⟩ := h
    obtain ⟨d, a, b, fr₁, fr₂, hd, ha, hb, rfl⟩ :=
      (yields_setBinary (by rw [Instr.shape, hop]; decide)).mp h
    exact .binary hop hd ha hb
  | compare comparison =>
    simp only [yields_bind, yields_newInstr] at h
    obtain ⟨_, _, ⟨-, rfl, rfl⟩, h⟩ := h
    obtain ⟨d, a, b, fr₁, fr₂, hd, ha, hb, rfl⟩ :=
      (yields_setBinary (by simp [Instr.shape, Virtual.Opcode.shape])).mp h
    exact .compare hd ha hb
  | atomic atomic =>
    simp only [yields_bind, yields_newInstr] at h
    obtain ⟨_, _, ⟨-, rfl, rfl⟩, _, fr₃, h, hthird⟩ := h
    obtain ⟨d, a, b, fr₁, fr₂, hd, ha, hb, rfl⟩ :=
      (yields_setBinary (by simp [Instr.shape, Virtual.Opcode.shape])).mp h
    -- the third operand may be missing
    rcases (yields_setThird rfl).mp hthird with ⟨hnone, rfl, rfl⟩ | ⟨c, hc, rfl⟩
    · exact .atomic hd ha hb hnone
    · exact .atomicThird hd ha hb hc
  | complement =>
    simp only [yields_bind, yields_newInstr, yields_orFail, yields_orDefect] at h
    obtain ⟨_, _, ⟨-, rfl, rfl⟩, _, fr₂, h, t, _, ⟨ht, rfl⟩, hb, rfl⟩ := h
    obtain ⟨d, a, fr₁, hd, ha, rfl⟩ :=
      (yields_setUnary_of_mem (by simp [Instr.shape, Virtual.Opcode.shape])).mp h
    obtain rfl := (setB_eq_ok (by simp [Instr.shape, Virtual.Opcode.shape])).mp hb
    exact .complement hd ha ht

/-- `s.Renders block i fr x fr'`: in the frame `fr`, the instruction `i` of a block becomes `x`. -/
def Renders (s : Scope) (block : Nat) (i : Source.Instruction) (fr : Frame) (x : Instr)
    (fr' : Frame) : Prop :=
  ∃ p y g, plan i.toMnemonic = .ok p ∧ s.guard i.guard = .ok g ∧ s.Follows block i fr p y fr' ∧
    x = y.setGuard g

/-- The guard of a rendered instruction is the image of that of its source. -/
theorem Renders.guard_eq {block : Nat} (h : s.Renders block i fr x fr') :
    s.guard i.guard = .ok x.guard := by
  obtain ⟨p, y, g, -, hg, -, rfl⟩ := h
  exact hg

/-- **A lowered instruction is rendered by the rules.** -/
theorem renders_of_yields {block : Nat} (h : Yields (s.instruction block i) fr x fr') :
    s.Renders block i fr x fr' := by
  unfold instruction at h
  simp only [yields_bind, yields_within, yields_orFail, yields_pure] at h
  obtain ⟨g, _, ⟨hg, rfl⟩, p, _, ⟨hp, rfl⟩, y, _, hy, rfl, rfl⟩ := h
  exact ⟨p, y, g, hp, hg, follows_of_yields (plan_fits hp) hy, rfl⟩

end Scope

end KernelIR.Lowering
