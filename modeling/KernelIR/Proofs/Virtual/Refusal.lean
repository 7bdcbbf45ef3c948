import KernelIR.Proofs.Virtual.Operation

/-!
# Refused operations

An operation that meets a mistake is refused with a defect, and one that finds nothing to do may
answer no.  `refused_unchanged`: in both cases the workspace is what it was, down to the counters
from which the next block and the next instruction get their numbers; and the operations that are
refused are those that `Operation.Refused` lists.

For an instruction this is a matter of its shape alone (`Change.Refused`, `Query.Refused`), apart
from the destination of a `phi` or `psi`, which must be a register, and the block of a branch, which
can be asked for only if the target is one.
-/

namespace KernelIR.Virtual

open Workspace

namespace Operation

/-- The mistakes that an operation can meet. -/
def Refused (w : Workspace) : Operation → Prop
  | newBlock f before _ => w.position? f before = none
  | newInstr op _ => op.shape = .invalid
  | changeInstr i c => c.Refused (w.instr i)
  | askInstr i q => q.Refused (w.instr i)
  | insertInstr _ b position => offRange w b position
  | _ => False

/-- The operation was refused, or its answer is no. -/
def Declined (w : Workspace) (op : Operation) : Prop :=
  (∃ d, (op.perform w).1 = .error d) ∨ (op.perform w).1 = .ok (.flag false)

variable {w : Workspace} {op : Operation}

/-- What comes of an operation: it meets a mistake and is refused at once, or it meets none and
gives an answer.  An operation that answers no has done nothing. -/
def Settled (w : Workspace) (op : Operation) : Prop :=
  (op.Refused w ∧ ∃ d, op.perform w = (.error d, w)) ∨
    (¬op.Refused w ∧ ∃ a, (op.perform w).1 = .ok a ∧ (a = .flag false → (op.perform w).2 = w))

theorem settled_of_error {d : Defect} (h : op.Refused w) (hperform : op.perform w = (.error d, w)) :
    op.Settled w :=
  .inl ⟨h, d, hperform⟩

theorem settled_of_ok {a : Answer} {w' : Workspace} (h : ¬op.Refused w)
    (hperform : op.perform w = (.ok a, w')) (hno : a = .flag false → w' = w) : op.Settled w := by
  refine .inr ⟨h, a, congrArg Prod.fst hperform, fun ha => ?_⟩
  rw [hperform]
  exact hno ha

/-- An operation that is refused if its one check fails. -/
theorem settled_of_check {C : Prop} [Decidable C] {d : Defect} {a : Answer} {w' : Workspace}
    (hperform : op.perform w = if C then (.error d, w) else (.ok a, w')) (h : op.Refused w ↔ C)
    (hno : a ≠ .flag false) : op.Settled w := by
  split_ifs at hperform with hC
  · exact settled_of_error (h.mpr hC) hperform
  · exact settled_of_ok (fun hrefused => hC (h.mp hrefused)) hperform fun ha => absurd ha hno

/-- An operation that answers whether it found something to do. -/
theorem settled_of_flag {C : Prop} [Decidable C] {w' : Workspace}
    (hperform : op.perform w = if C then (.ok (.flag true), w') else (.ok (.flag false), w))
    (h : ¬op.Refused w) : op.Settled w := by
  split_ifs at hperform
  · exact settled_of_ok h hperform nofun
  · exact settled_of_ok h hperform fun _ => rfl

/-- **Every operation is settled at once.** -/
theorem settled (w : Workspace) (op : Operation) : op.Settled w := by
  cases op with
  | newBlock f before name =>
    cases hposition : w.position? f before with
    | none =>
      obtain ⟨d, hd⟩ := perform_newBlock_of_none name hposition
      exact settled_of_error hposition hd
    | some p =>
      refine settled_of_ok ?_ (perform_newBlock name hposition) nofun
      simp [Refused, hposition]
  | newInstr op block => exact settled_of_check (perform_newInstr w op block) Iff.rfl nofun
  | insertInstr i b position =>
    exact settled_of_check (perform_insertInstr w i b position) Iff.rfl nofun
  | changeInstr i c =>
    cases hx : c.apply (w.instr i) with
    | error d =>
      exact settled_of_error (Change.apply_eq_error_iff.mp ⟨d, hx⟩) (perform_changeInstr_of_error hx)
    | ok x => exact settled_of_ok (Change.apply_eq_ok_iff.mp hx).1 (perform_changeInstr hx) nofun
  | askInstr i q =>
    cases ha : q.ask (w.instr i) with
    | error d => exact settled_of_error (Query.ask_eq_error_iff.mp ⟨d, ha⟩) (congrArg (·, w) ha)
    | ok a =>
      refine settled_of_ok (fun hrefused => ?_) (congrArg (·, w) ha) fun _ => rfl
      obtain ⟨d, hd⟩ := Query.ask_eq_error_iff.mpr hrefused
      rw [ha] at hd
      cases hd
  -- removals answer by a flag and never fail
  | removeFunction f => exact settled_of_flag (perform_removeFunction w f) id
  | removeGlobal g => exact settled_of_flag (perform_removeGlobal w g) id
  | eraseInstr i b => exact settled_of_flag (perform_eraseInstr w i b) id
  | removeBlock f b =>
    cases hremovable : w.removable? f b with
    | none => exact settled_of_ok id (perform_removeBlock_of_none hremovable) fun _ => rfl
    | some p => exact settled_of_ok id (perform_removeBlock hremovable) nofun
  | newFunction | newGlobal | setLinkage | setInit | addConstant | newRegister | newArgument
  | cloneInstr | appendInstr => exact settled_of_ok id rfl nofun

theorem perform_eq_error_iff : (∃ d, (op.perform w).1 = .error d) ↔ op.Refused w := by
  rcases settled w op with ⟨hrefused, d, hd⟩ | ⟨hrefused, a, ha, -⟩
  · exact iff_of_true ⟨d, congrArg Prod.fst hd⟩ hrefused
  · simp [ha, hrefused]

theorem perform_of_declined (h : op.Declined w) : (op.perform w).2 = w := by
  rcases settled w op with ⟨-, d, hd⟩ | ⟨hrefused, a, ha, hno⟩
  · exact congrArg Prod.snd hd
  · rcases h with hd | h
    · exact absurd (perform_eq_error_iff.mp hd) hrefused
    · rw [ha] at h
      exact hno (Except.ok.inj h)

/-- **A refused operation changes nothing.**  Whatever the workspace, an operation that is refused
with a defect or answers no leaves it exactly as it was; a change of an instruction or a question
about one is refused exactly if the shape lacks the part, or a `phi` or `psi` is given a destination
that is no register, or the block of a branch is asked for that goes to none; and so for all other
operations. -/
theorem refused_unchanged :
    (∀ (w : Workspace) (op : Operation), op.Declined w → (op.perform w).2 = w) ∧
      ∀ (w : Workspace) (op : Operation), (∃ d, (op.perform w).1 = .error d) ↔ op.Refused w :=
  ⟨fun _ _ => perform_of_declined, fun _ _ => perform_eq_error_iff⟩

/-- A `phi` has no operand `a` to be set. -/
theorem refused_unchanged_phi :
    (changeInstr 0 (.a none)).Refused (made "m" [.newInstr .phi none]) ∧
      (perform (made "m" [.newInstr .phi none]) (changeInstr 0 (.a none))).2 =
        made "m" [.newInstr .phi none] := by
  have hdefect : ∃ d, (perform (made "m" [.newInstr .phi none]) (changeInstr 0 (.a none))).1 =
      .error d := ⟨_, rfl⟩
  exact ⟨(refused_unchanged.2 _ _).mp hdefect, refused_unchanged.1 _ _ (.inl hdefect)⟩

end Operation

end KernelIR.Virtual
