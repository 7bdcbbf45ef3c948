import KernelIR.Proofs.Lowering.Instruction

/-!
# Operands that are written and read

`Source.Instruction.accesses` is the one table of what instructions do with their operands: by the
source opcode, which of them are written and which are read.  The rest is derived from it, such as
the operands that the opcode has a use for at all (`Source.Instruction.taken`).

`Scope.Renders.takes`: a rendered instruction writes the images of what the table says is written,
and reads the images of what it says is read and perhaps a literal behind them.  The operands are
lowered one behind the other (`Scope.FillsAll`).  What holds of the operands of lowered code follows
from this and from what holds of the image of one operand.
-/

namespace KernelIR

/-! ### The table -/

namespace Source.Instruction

/-- The operands that the instruction writes, and those that it reads. -/
def accesses (i : Instruction) : List (Option Operand) × List (Option Operand) :=
  match i.opcode with
  | .ld | .ldu | .mov | .cvt | .not => ([i.d], [i.a])
  -- the address of a store is read
  | .st => ([], [i.d, i.a])
  | .add | .and | .or | .shl | .sub | .xor | .mul | .div | .rem | .shr | .setp =>
    ([i.d], [i.a, i.b])
  -- the last operand of an atomic may be missing
  | .atom => ([i.d], [i.a, i.b] ++ i.c.toList.map some)
  | .bra => ([], [i.d])
  | .ret | .exit | .bar | .membar | .call | .mad | .selp | .unknown _ => ([], [])

/-- The operands that the opcode has a result for. -/
def written (i : Instruction) : List (Option Operand) := i.accesses.1

/-- The operands that are read. -/
def read (i : Instruction) : List (Option Operand) := i.accesses.2

/-- The operands that the opcode has a use for, in order. -/
def taken (i : Instruction) : List (Option Operand) := i.written ++ i.read

theorem mem_slots_of_mem_taken (i : Instruction) {x : Operand} (h : some x ∈ i.taken) :
    some x ∈ i.slots := by
  unfold taken written read accesses at h
  unfold slots
  split at h <;> simp at h ⊢ <;> tauto

end Source.Instruction

namespace Lowering

open Virtual (Instr Operand)

namespace Scope

variable {s : Scope} {fr fr₁ fr' : Frame} {block : Nat} {i : Source.Instruction} {p : Plan}
  {x : Instr}

/-! ### Operands one behind the other -/

/-- Operands that are lowered one behind the other. -/
inductive FillsAll (s : Scope) : Frame → List (Option Source.Operand) → List Operand → Frame → Prop
  | nil {fr : Frame} : FillsAll s fr [] [] fr
  | cons {fr fr₁ fr₂ : Frame} {o : Option Source.Operand} {y : Operand}
      {os : List (Option Source.Operand)} {ys : List Operand} :
    s.Fills fr o y fr₁ → FillsAll s fr₁ os ys fr₂ → FillsAll s fr (o :: os) (y :: ys) fr₂

theorem FillsAll.append {os os' : List (Option Source.Operand)} {ys ys' : List Operand}
    (h : s.FillsAll fr os ys fr₁) (h' : s.FillsAll fr₁ os' ys' fr') :
    s.FillsAll fr (os ++ os') (ys ++ ys') fr' := by
  induction h with
  | nil => exact h'
  | cons hy _ ih => exact .cons hy (ih h')

/-- The slots that an instruction writes, and those that it reads behind its guard, are filled with
the operands of two lists. -/
def Filled (x : Instr) (ws rs : List Operand) : Prop :=
  x.writes = ws.map some ∧ x.operandsRead = rs.map some

theorem filled_unary {op : Virtual.Opcode} (hop : op.shape = .unary) (id block : Nat)
    (d a : Operand) :
    Filled { start op id block with destination := some d, first := some a } [d] [a] := by
  constructor <;>
    simp [start, Instr.operandsRead, Instr.fixedReads, Instr.writes, Instr.shape, hop,
      Virtual.Shape.fixedReads, Virtual.Shape.hasDestination]

theorem filled_binary {op : Virtual.Opcode} (hop : op.shape = .binary) (id block : Nat)
    (d a b : Operand) :
    Filled { start op id block with destination := some d, first := some a, second := some b }
      [d] [a, b] := by
  constructor <;>
    simp [start, Instr.operandsRead, Instr.fixedReads, Instr.writes, Instr.shape, hop,
      Virtual.Shape.fixedReads, Virtual.Shape.hasDestination]

/-- On the way from `fr` to `fr'` the instruction gets the images of operands that it writes and of
operands that it reads, and reads `more` behind these. -/
def Takes (s : Scope) (fr : Frame) (x : Instr) (fr' : Frame)
    (written read : List (Option Source.Operand)) (more : List Operand) : Prop :=
  ∃ fr₁ ws rs, s.FillsAll fr.counted written ws fr₁ ∧ s.FillsAll fr₁ read rs fr' ∧
    Filled x ws (rs ++ more)

/-! ### What a plan takes over -/

namespace Follows

variable {op : Virtual.Opcode}

theorem takes_branch {modifier : Virtual.BranchModifier}
    (h : s.Follows block i fr (.branch modifier) x fr') : s.Takes fr x fr' [] [i.d] [] := by
  cases h with
  | branch ht _ => exact ⟨_, _, _, .nil, .cons ht .nil, rfl, rfl⟩

theorem takes_unary (hop : op.shape = .unary) (h : s.Follows block i fr (.unary op) x fr') :
    s.Takes fr x fr' [i.d] [i.a] [] := by
  cases h with
  | unary _ hd ha => exact ⟨_, _, _, .cons hd .nil, .cons ha .nil, filled_unary hop ..⟩
  | store => cases hop

/-- The address of a store is read, and nothing is written. -/
theorem takes_store (h : s.Follows block i fr (.unary .st) x fr') :
    s.Takes fr x fr' [] [i.d, i.a] [] := by
  cases h with
  | unary hop => cases hop
  | store hd ha => exact ⟨_, _, _, .nil, .cons hd (.cons ha .nil), rfl, rfl⟩

theorem takes_binary (h : s.Follows block i fr (.binary op) x fr') :
    s.Takes fr x fr' [i.d] [i.a, i.b] [] := by
  cases h with
  | binary hop hd ha hb =>
    exact ⟨_, _, _, .cons hd .nil, .cons ha (.cons hb .nil), filled_binary hop ..⟩

theorem takes_compare {comparison : Virtual.Comparison}
    (h : s.Follows block i fr (.compare comparison) x fr') :
    s.Takes fr x fr' [i.d] [i.a, i.b] [] := by
  cases h with
  | compare hd ha hb => exact ⟨_, _, _, .cons hd .nil, .cons ha (.cons hb .nil), rfl, rfl⟩

theorem takes_atomic {atomic : Virtual.AtomicOp} (h : s.Follows block i fr (.atomic atomic) x fr') :
    s.Takes fr x fr' [i.d] ([i.a, i.b] ++ i.c.toList.map some) [] := by
  cases h with
  | atomic hd ha hb hc =>
    rw [hc]
    exact ⟨_, _, _, .cons hd .nil, .cons ha (.cons hb .nil), rfl, rfl⟩
  | atomicThird hd ha hb hc =>
    obtain ⟨o, ho, hmaps⟩ := hc
    rw [ho]
    exact ⟨_, _, _, .cons hd .nil, .cons ha (.cons hb (.cons ⟨o, rfl, hmaps⟩ .nil)), rfl, rfl⟩

theorem takes_complement (h : s.Follows block i fr .complement x fr') :
    ∃ t, lowerType i.type = .ok t ∧
      s.Takes fr x fr' [i.d] [i.a] [.immediate (allOnes t) (some t)] := by
  cases h with
  | complement hd ha ht => exact ⟨_, ht, _, _, _, .cons hd .nil, .cons ha .nil, rfl, rfl⟩

end Follows

/-! ### What an opcode takes over -/

/-- What an instruction reads behind its operands: a complement reads a literal of ones, and no
other instruction anything. -/
def Literals (i : Source.Instruction) (more : List Operand) : Prop :=
  match i.opcode with
  | .not => ∃ t, lowerType i.type = .ok t ∧ more = [.immediate (allOnes t) (some t)]
  | _ => more = []

theorem Literals.exists_immediate {more : List Operand} (h : Literals i more) {y : Operand}
    (hy : y ∈ more) : ∃ bits t, y = .immediate bits t := by
  unfold Literals at h
  split at h
  · obtain ⟨t, -, rfl⟩ := h
    exact ⟨_, _, List.mem_singleton.mp hy⟩
  · rw [h] at hy
    cases hy

/-- Under the plan of its mnemonic, an instruction takes over the operands of its opcode. -/
theorem Follows.takes (hplan : plan i.toMnemonic = .ok p) (h : s.Follows block i fr p x fr') :
    ∃ more, Literals i more ∧ s.Takes fr x fr' i.written i.read more := by
  unfold plan at hplan
  unfold Source.Instruction.written Source.Instruction.read Source.Instruction.accesses Literals
  -- the opcode decides on the plan, and the plan on the operands
  cases hop : i.opcode <;> rw [hop] at hplan <;> dsimp only at hplan ⊢
  case ret | exit | bar =>
    cases hplan
    cases h
    exact ⟨_, rfl, _, _, _, .nil, .nil, rfl, rfl⟩
  case membar =>
    obtain ⟨level, -, rfl⟩ := Fallible.map_eq_ok.mp hplan
    cases h
    exact ⟨_, rfl, _, _, _, .nil, .nil, rfl, rfl⟩
  case bra =>
    cases hplan
    exact ⟨_, rfl, h.takes_branch⟩
  case st =>
    cases hplan
    exact ⟨_, rfl, h.takes_store⟩
  case ld | ldu | mov =>
    cases hplan
    exact ⟨_, rfl, h.takes_unary rfl⟩
  case cvt =>
    split_ifs at hplan
    obtain ⟨op, hconversion, rfl⟩ := Fallible.map_eq_ok.mp hplan
    exact ⟨_, rfl, h.takes_unary (shape_of_conversion hconversion)⟩
  case not =>
    cases hplan
    obtain ⟨t, ht, htakes⟩ := h.takes_complement
    exact ⟨_, ⟨t, ht, rfl⟩, htakes⟩
  case add | and | or | shl | sub | xor | mul | div | rem | shr =>
    cases hplan
    exact ⟨_, rfl, h.takes_binary⟩
  case setp =>
    obtain ⟨comparison, -, rfl⟩ := Fallible.map_eq_ok.mp hplan
    exact ⟨_, rfl, h.takes_compare⟩
  case atom =>
    obtain ⟨operation, -, rfl⟩ := Fallible.map_eq_ok.mp hplan
    exact ⟨_, rfl, h.takes_atomic⟩
  -- the other opcodes have no plan
  all_goals cases hplan

/-- **A rendered instruction writes and reads the images of the operands that its source does**, and
reads perhaps a literal behind them. -/
theorem Renders.takes (h : s.Renders block i fr x fr') :
    ∃ more, Literals i more ∧ s.Takes fr x fr' i.written i.read more := by
  obtain ⟨p, y, g, hplan, -, hy, rfl⟩ := h
  -- the guard is not among the operands, so that setting it leaves them as they are
  obtain ⟨more, hmore, htakes⟩ := hy.takes hplan
  exact ⟨more, hmore, htakes⟩

/-- The operands of a rendered instruction are those that are taken, and perhaps a literal. -/
theorem Renders.fillsTaken (h : s.Renders block i fr x fr') :
    ∃ ys more, s.FillsAll fr.counted i.taken ys fr' ∧ Literals i more ∧
      x.writes ++ x.operandsRead = (ys ++ more).map some := by
  obtain ⟨more, hmore, fr₁, ws, rs, hws, hrs, hwrites, hreads⟩ := h.takes
  refine ⟨ws ++ rs, more, hws.append hrs, hmore, ?_⟩
  rw [hwrites, hreads, ← List.map_append, List.append_assoc]

end Scope

end Lowering

end KernelIR
