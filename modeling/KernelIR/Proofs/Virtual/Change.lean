import KernelIR.Virtual.Workspace
import Mathlib.Tactic.Common

/-!
# Changes of an instruction and questions about it

Setters and getters of an instruction are gathered in two types, `Change` and `Query`.  Which of
them an instruction allows is a matter of its shape: `Shape.parts` lists what instructions of each
shape have, row by row, and `Change.part?` and `Query.part?` say what is set or asked for.

* `Change.apply_eq_ok_iff`: a change is accepted exactly if the shape has the part, and gives
  `Change.result`; a `phi` or `psi` moreover takes nothing but a register as its destination.
* `Query.ask_eq_error_iff`: a question is refused exactly if the shape lacks the part; where a branch
  goes can moreover be asked only if it goes to a block.
-/

namespace KernelIR.Virtual

/-! ### Parts -/

/-- What instructions of some shapes have, besides the guard and the tags that all have. -/
inductive Part
  | destination
  | a
  | b
  | c
  | target
  | returns
  | arguments
  | phiSources
  | psiSources
  /-- whether and where control goes -/
  | jump
deriving DecidableEq

/-- The parts of the instructions of a shape. -/
def Shape.parts : Shape → List Part
  | bare | invalid => []
  | unary => [.destination, .a]
  | binary | comparison => [.destination, .a, .b]
  | atomic => [.destination, .a, .b, .c]
  | store => [.destination, .a]
  | branch => [.target, .jump]
  | call => [.target, .returns, .arguments]
  | phi => [.destination, .phiSources]
  | psi => [.destination, .psiSources]

/-- The shapes whose instructions have a part. -/
def Part.shapes : Part → List Shape
  | destination => [.unary, .binary, .comparison, .atomic, .store, .phi, .psi]
  | a => [.unary, .binary, .comparison, .atomic, .store]
  | b => [.binary, .comparison, .atomic]
  | c => [.atomic]
  | target => [.branch, .call]
  | returns | arguments => [.call]
  | phiSources => [.phi]
  | psiSources => [.psi]
  | jump => [.branch]

theorem mem_parts_iff (p : Part) (s : Shape) : p ∈ s.parts ↔ s ∈ p.shapes := by
  have h : s.parts.contains p = p.shapes.contains s := by
    cases s <;> cases p <;> rfl
  rw [← List.contains_iff_mem, h, List.contains_iff_mem]

/-! ### Changes -/

/-- A change of one instruction. -/
inductive Change
  | guard (p : Predicate)
  | destination (x : Option Operand)
  | a (x : Option Operand)
  | b (x : Option Operand)
  | c (x : Option Operand)
  | target (x : Option Operand)
  /-- one more operand that a call returns into -/
  | addReturn (x : Option Operand)
  /-- one more argument of a call -/
  | addArgument (x : Option Operand)
  | addPhiSource (r : Option Register) (block : Int)
  | removePhiSource (block : Int)
  | addPsiSource (p : Predicate) (r : Option Register)
  | removePsiSource (p : Predicate)
  | tags (comparison : Comparison) (atomic : AtomicOp) (modifier : BranchModifier)
    (level : FenceLevel)

namespace Change

/-- The changed instruction, unless the change is refused. -/
def apply (x : Instr) : Change → Except Defect Instr
  | guard p => .ok (x.setGuard p)
  | destination o => x.setDestination o
  | a o => x.setA o
  | b o => x.setB o
  | c o => x.setC o
  | target o => x.setTarget o
  | addReturn o => x.addReturn o
  | addArgument o => x.addArgument o
  | addPhiSource r block => x.addPhiSource r block
  | removePhiSource block => x.removePhiSource block
  | addPsiSource p r => x.addPsiSource p r
  | removePsiSource p => x.removePsiSource p
  | tags comparison atomic modifier level => .ok { x with comparison, atomic, modifier, level }

/-- What is changed, if only some shapes have it. -/
def part? : Change → Option Part
  | guard _ | tags .. => none
  | destination _ => some .destination
  | a _ => some .a
  | b _ => some .b
  | c _ => some .c
  | target _ => some .target
  | addReturn _ => some .returns
  | addArgument _ => some .arguments
  | addPhiSource .. | removePhiSource _ => some .phiSources
  | addPsiSource .. | removePsiSource _ => some .psiSources

/-- Whether a destination that is no register is set where only a register may stand. -/
def misfits (x : Instr) : Change → Bool
  | destination (some o) => (x.shape = .phi ∨ x.shape = .psi) ∧ o.isRegister = false
  | _ => false

/-- The instruction after an accepted change. -/
def result (x : Instr) : Change → Instr
  | guard p => { x with guard := p }
  | destination o => if x.shape = .store then { x with first := o } else { x with destination := o }
  | a o => if x.shape = .store then { x with second := o } else { x with first := o }
  | b o => { x with second := o }
  | c o => { x with third := o }
  | target o => { x with first := o }
  | addReturn o => { x with returns := x.returns ++ [o] }
  | addArgument o => { x with extra := x.extra ++ [o] }
  | addPhiSource r block =>
    { x with
      extra := x.extra ++ [some (.register r)], sourceBlocks := x.sourceBlocks ++ [block] }
  | removePhiSource block =>
    (x.sourceBlocks.idxOf? block).elim x fun j =>
      { x with extra := x.extra.eraseIdx j, sourceBlocks := x.sourceBlocks.eraseIdx j }
  | addPsiSource p r =>
    { x with
      extra := x.extra ++ [some (.register r)], sourcePredicates := x.sourcePredicates ++ [p] }
  | removePsiSource p =>
    (x.sourcePredicates.idxOf? p).elim x fun j =>
      { x with extra := x.extra.eraseIdx j, sourcePredicates := x.sourcePredicates.eraseIdx j }
  | tags comparison atomic modifier level => { x with comparison, atomic, modifier, level }

/-- Whether a change is refused: the shape lacks what it changes, or it does not fit there. -/
def Refused (x : Instr) (c : Change) : Prop :=
  (∃ p ∈ c.part?, p ∉ x.shape.parts) ∨ c.misfits x = true

end Change

/-- A step behind a check on the shape is taken exactly for the shapes that pass it. -/
theorem Instr.need_bind (x : Instr) (slot : Slot) (shapes : List Shape) {α : Type}
    (r : Except Defect α) :
    (x.need slot shapes >>= fun _ => r) =
      if x.shape ∈ shapes then r else .error (.noSlot x.opcode slot) := by
  unfold Instr.need
  split_ifs <;> rfl

namespace Change

variable {x y : Instr} {c : Change}

/-- A change is refused with a defect, or gives its result. -/
def Decided (x : Instr) (c : Change) : Prop :=
  (c.Refused x ∧ ∃ d, c.apply x = .error d) ∨ (¬c.Refused x ∧ c.apply x = .ok (c.result x))

/-- A change that begins with a check for its part is refused exactly if the part is lacking. -/
theorem decided_of_need {p : Part} {slot : Slot} (hpart : c.part? = some p)
    (hfits : c.misfits x = false)
    (happly : c.apply x = x.need slot p.shapes >>= fun _ => .ok (c.result x)) : c.Decided x := by
  have hrefused : c.Refused x ↔ x.shape ∉ p.shapes := by
    simp [Refused, hpart, hfits, mem_parts_iff]
  rw [Instr.need_bind] at happly
  by_cases hshape : x.shape ∈ p.shapes
  · rw [if_pos hshape] at happly
    exact .inr ⟨fun h => hrefused.mp h hshape, happly⟩
  · rw [if_neg hshape] at happly
    exact .inl ⟨hrefused.mpr hshape, _, happly⟩

theorem decided_destination (x : Instr) (o : Option Operand) : (destination o).Decided x := by
  unfold Decided Refused apply Instr.setDestination result
  cases hshape : x.shape with
  | phi | psi =>
    cases o with
    | none => simp [part?, misfits, Shape.parts]
    | some o => cases hregister : o.isRegister <;> simp [part?, misfits, Shape.parts, *]
  | _ => cases o <;> simp [part?, misfits, Shape.parts, hshape]

theorem decided_a (x : Instr) (o : Option Operand) : (a o).Decided x := by
  unfold Decided Refused apply Instr.setA result
  cases hshape : x.shape <;> simp [part?, misfits, Shape.parts]

/-- **Which changes are refused**, and what the others give. -/
theorem decided (x : Instr) (c : Change) : c.Decided x := by
  cases c with
  | guard p => exact .inr ⟨by simp [Refused, part?, misfits], rfl⟩
  | tags => exact .inr ⟨by simp [Refused, part?, misfits], rfl⟩
  | destination o => exact decided_destination x o
  | a o => exact decided_a x o
  | b o => exact decided_of_need rfl rfl rfl
  | c o => exact decided_of_need rfl rfl rfl
  | target o => exact decided_of_need rfl rfl rfl
  | addReturn o => exact decided_of_need rfl rfl rfl
  | addArgument o => exact decided_of_need rfl rfl rfl
  | addPhiSource r block => exact decided_of_need rfl rfl rfl
  | addPsiSource p r => exact decided_of_need rfl rfl rfl
  -- a source that is not there is removed without effect, which `result` says too
  | removePhiSource block =>
    have happly : x.removePhiSource block =
        x.need .phiSource [.phi] >>= fun _ => .ok ((removePhiSource block).result x) := by
      simp only [Instr.removePhiSource, result]
      cases x.sourceBlocks.idxOf? block <;> rfl
    exact decided_of_need rfl rfl happly
  | removePsiSource p =>
    have happly : x.removePsiSource p =
        x.need .psiSource [.psi] >>= fun _ => .ok ((removePsiSource p).result x) := by
      simp only [Instr.removePsiSource, result]
      cases x.sourcePredicates.idxOf? p <;> rfl
    exact decided_of_need rfl rfl happly

theorem apply_eq_error_iff : (∃ d, c.apply x = .error d) ↔ c.Refused x := by
  rcases decided x c with ⟨hrefused, hd⟩ | ⟨hrefused, hok⟩
  · exact iff_of_true hd hrefused
  · simp [hok, hrefused]

theorem apply_eq_ok_iff : c.apply x = .ok y ↔ ¬c.Refused x ∧ y = c.result x := by
  rcases decided x c with ⟨hrefused, d, hd⟩ | ⟨hrefused, hok⟩
  · simp [hd, hrefused]
  · simp [hok, hrefused, eq_comm]

/-- A change keeps the opcode and the block. -/
theorem apply_keeps (h : c.apply x = .ok y) : y.opcode = x.opcode ∧ y.block = x.block := by
  obtain ⟨-, rfl⟩ := apply_eq_ok_iff.mp h
  cases c with
  | destination o | a o =>
    simp only [result]
    split_ifs <;> exact ⟨rfl, rfl⟩
  | removePhiSource block =>
    simp only [result]
    cases x.sourceBlocks.idxOf? block <;> exact ⟨rfl, rfl⟩
  | removePsiSource p =>
    simp only [result]
    cases x.sourcePredicates.idxOf? p <;> exact ⟨rfl, rfl⟩
  | _ => exact ⟨rfl, rfl⟩

end Change

/-! ### Questions -/

/-- What an operation answers. -/
inductive Answer
  | done
  /-- the place of what was made or found -/
  | place (n : Nat)
  | flag (b : Bool)
  | slot (x : Option Operand)
  | slots (xs : List (Option Operand))
deriving DecidableEq

/-- A question about one instruction. -/
inductive Query
  | guard
  | destination
  | a
  | b
  | c
  | target
  | returns
  | arguments
  | phiSources
  | psiSources
  | targetBlock
  | isUnconditional

namespace Query

/-- The answer to a question, unless it is refused. -/
def ask (x : Instr) : Query → Except Defect Answer
  | guard => .ok (.slot (some (.predicate x.guard)))
  | destination => x.getDestination.map .slot
  | a => x.getA.map .slot
  | b => x.getB.map .slot
  | c => x.getC.map .slot
  | target => x.getTarget.map .slot
  | returns => x.getReturns.map .slots
  | arguments => x.getArguments.map .slots
  | phiSources => (do x.need .phiSource [.phi]; return x.extra).map .slots
  | psiSources => (do x.need .psiSource [.psi]; return x.extra).map .slots
  | targetBlock => x.targetBlock.map .place
  | isUnconditional => x.isUnconditional.map .flag

/-- What is asked for, if only some shapes have it. -/
def part? : Query → Option Part
  | guard => none
  | destination => some .destination
  | a => some .a
  | b => some .b
  | c => some .c
  | target => some .target
  | returns => some .returns
  | arguments => some .arguments
  | phiSources => some .phiSources
  | psiSources => some .psiSources
  | targetBlock | isUnconditional => some .jump

/-- Whether the block is asked for that a branch goes to, and it goes to none. -/
def misfits (x : Instr) : Query → Bool
  | targetBlock => x.first.any Operand.isBlock = false
  | _ => false

/-- Whether a question is refused: the shape lacks what it asks for, or it has no answer. -/
def Refused (x : Instr) (q : Query) : Prop :=
  (∃ p ∈ q.part?, p ∉ x.shape.parts) ∨ q.misfits x = true

variable {x : Instr} {q : Query}

theorem map_eq_error_iff {α β ε : Type} {r : Except ε α} {g : α → β} :
    (∃ d, r.map g = .error d) ↔ ∃ d, r = .error d := by
  cases r <;> simp [Except.map]

/-- A question that begins with a check for its part is refused exactly if the part is lacking. -/
theorem refused_of_need {p : Part} {slot : Slot} {α : Type} {v : α} {answer : α → Answer}
    (hpart : q.part? = some p) (hfits : q.misfits x = false)
    (hask : q.ask x = (x.need slot p.shapes >>= fun _ => .ok v).map answer) :
    (∃ d, q.ask x = .error d) ↔ q.Refused x := by
  rw [hask, map_eq_error_iff, Instr.need_bind]
  by_cases hshape : x.shape ∈ p.shapes <;>
    simp [hshape, Refused, hpart, hfits, mem_parts_iff]

/-- The block of a branch cannot be told unless the target is the address of a block. -/
theorem targetBlock_eq_error_iff : (∃ d, targetBlock.ask x = .error d) ↔ targetBlock.Refused x := by
  have hjump : x.shape ∈ [Shape.branch] ↔ Part.jump ∈ x.shape.parts :=
    (mem_parts_iff .jump x.shape).symm
  rw [ask, map_eq_error_iff, Instr.targetBlock, Instr.need_bind]
  by_cases hshape : Part.jump ∈ x.shape.parts
  · have hrefused : targetBlock.Refused x ↔ x.first.any Operand.isBlock = false := by
      simp [Refused, part?, misfits, hshape]
    rw [if_pos (hjump.mpr hshape), hrefused]
    rcases x.first with _ | ⟨_⟩ | ⟨_⟩ | ⟨_⟩ | ⟨_ | ⟨_⟩ | ⟨_⟩ | ⟨_⟩⟩ | ⟨_⟩ | ⟨_⟩ <;>
      simp [Operand.isBlock, pure, Except.pure, throw, throwThe, MonadExceptOf.throw]
  · rw [if_neg (mt hjump.mp hshape)]
    simp [Refused, part?, hshape]

/-- **Which questions are refused.** -/
theorem ask_eq_error_iff : (∃ d, q.ask x = .error d) ↔ q.Refused x := by
  cases q with
  | guard => simp [ask, Refused, part?, misfits]
  -- these two do not ask for a shape by `need`, so the shapes are tried
  | destination =>
    unfold ask
    rw [map_eq_error_iff]
    unfold Instr.getDestination
    cases hshape : x.shape <;>
      simp [Refused, part?, misfits, Shape.parts, Shape.hasDestination, hshape]
  | a =>
    unfold ask
    rw [map_eq_error_iff]
    unfold Instr.getA
    cases hshape : x.shape <;> simp [Refused, part?, misfits, Shape.parts, hshape]
  | b => exact refused_of_need rfl rfl rfl
  | c => exact refused_of_need rfl rfl rfl
  | target => exact refused_of_need rfl rfl rfl
  | returns => exact refused_of_need rfl rfl rfl
  | arguments => exact refused_of_need rfl rfl rfl
  | phiSources => exact refused_of_need rfl rfl rfl
  | psiSources => exact refused_of_need rfl rfl rfl
  | isUnconditional => exact refused_of_need rfl rfl rfl
  | targetBlock => exact targetBlock_eq_error_iff

end Query

end KernelIR.Virtual
