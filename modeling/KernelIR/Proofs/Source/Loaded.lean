import KernelIR.Proofs.Related
import KernelIR.Proofs.Source.Load
import KernelIR.Proofs.Source.Parser.Reading

/-!
# What kernels are loaded from

`KernelDescription.holds_of_load`: a loaded kernel holds what its description declares, in order:
the parameters and registers with their names and types, and for every line of every block the
instruction that is read from it.  Lines are read after all declarations, so its parameters and
registers are the same for all of them, and its scope knows the names of all.
-/

namespace KernelIR.Source

/-- The instruction is read from the line, in a tidy scope that then becomes the given one by
numbering names. -/
def Instruction.ReadFrom (s : Scope) (line : String) (i : Instruction) : Prop :=
  ∃ s₁ s₂ : Scope, s₁.Tidy ∧ s₁.parse line = (.ok i, s₂) ∧ s₂.Interns s

theorem Instruction.ReadFrom.interns {s s' : Scope} {line : String} {i : Instruction}
    (h : i.ReadFrom s line) (hs : s.Interns s') : i.ReadFrom s' line := by
  obtain ⟨s₁, s₂, htidy, hparse, hs₂⟩ := h
  exact ⟨s₁, s₂, htidy, hparse, hs₂.trans hs⟩

theorem Instruction.ReadFrom.readIn {s : Scope} {line : String} {i : Instruction}
    (h : i.ReadFrom s line) :
    ∃ p, LineParts.Of (beforeComment line.toList) p ∧ i.ReadIn s p := by
  obtain ⟨s₁, s₂, htidy, hparse, hs₂⟩ := h
  obtain ⟨-, p, hp, hi⟩ := Scope.parse_readIn htidy hparse
  exact ⟨p, hp, hi.interns hs₂⟩

/-- The type of a loaded global is the one that its description names. -/
theorem GlobalDescription.ofName?_of_load {d : GlobalDescription} {g : Global}
    (h : d.load = .ok g) : DataType.ofName? d.type = some g.type := by
  unfold GlobalDescription.load at h
  split at h
  · cases h
  · rename_i type htype
    split at h
    · cases h
    · cases h
      exact htype

namespace Kernel

/-- The kernel holds these parameters, registers and blocks, and nothing else. -/
structure Holds (params registers : List VariableDescription) (blocks : List BlockDescription)
    (k : Kernel) : Prop where
  tidy : k.scope.Tidy
  params : List.Forall₂ (fun e p => p.name = e.name ∧ DataType.ofName? e.type = some p.type) params
    k.scope.params
  registers : List.Forall₂ (fun e r => r.name = e.name ∧ DataType.ofName? e.type = some r.type)
    registers k.scope.registers
  blocks : List.Forall₂ (fun e b => List.Forall₂ (Instruction.ReadFrom k.scope) e.code b.code)
    blocks k.graph.blocks

variable {params registers : List VariableDescription} {blocks : List BlockDescription}
  {k k' : Kernel}

theorem Holds.loadParam {d : VariableDescription} (h : Holds params registers [] k)
    (hload : k.loadParam d = .ok k') : Holds (params ++ [d]) registers [] k' := by
  unfold Kernel.loadParam at hload
  split at hload
  · cases hload
  · rename_i type htype
    cases hload
    refine ⟨h.tidy.addParam d.name type, ?_, h.registers, ?_⟩
    · exact List.rel_append h.params (.cons ⟨rfl, htype⟩ .nil)
    · rw [List.forall₂_nil_left_iff.mp h.blocks]
      exact .nil

theorem Holds.loadRegister {d : VariableDescription} (h : Holds params registers [] k)
    (hload : k.loadRegister d = .ok k') : Holds params (registers ++ [d]) [] k' := by
  unfold Kernel.loadRegister at hload
  split at hload
  · cases hload
  · rename_i type htype
    cases hload
    refine ⟨h.tidy.addRegister d.name type, ?_, ?_, ?_⟩
    · show List.Forall₂ _ params (k.scope.intern d.name).2.params
      rw [Scope.params_intern]
      exact h.params
    · show List.Forall₂ _ _ ((k.scope.intern d.name).2.registers ++ [_])
      rw [Scope.registers_intern]
      exact List.rel_append h.registers (.cons ⟨rfl, htype⟩ .nil)
    · rw [List.forall₂_nil_left_iff.mp h.blocks]
      exact .nil

/-- The kernel has one more block than before, with the instructions of these lines. -/
structure Extends (k : Kernel) (label : String) (lines : List String) (k' : Kernel) : Prop where
  scope : k.scope.Interns k'.scope
  blocks : ∃ code, k'.graph.blocks = k.graph.blocks ++ [{ label := label, code := code }] ∧
    List.Forall₂ (Instruction.ReadFrom k'.scope) lines code

theorem parse_eq_ok {line : String} {i : Instruction} (h : k.parse line = (.ok i, k')) :
    k.scope.parse line = (.ok i, k'.scope) ∧ k'.graph = k.graph := by
  have hok : (k.parse line).1 = .ok i := by rw [h]
  have hk' : (k.parse line).2 = k' := by rw [h]
  rw [← hk']
  exact ⟨Prod.ext hok rfl, rfl⟩

theorem Extends.loadLine (hk : k.scope.Tidy) {k₁ : Kernel} {label line : String}
    {lines : List String} (h : k.Extends label lines k₁)
    (hload : k₁.loadLine k.graph.blocks.length line = .ok k') :
    k.Extends label (lines ++ [line]) k' := by
  unfold Kernel.loadLine at hload
  split at hload
  · cases hload
  · rename_i i k₂ hparse
    cases hload
    obtain ⟨hline, hgraph⟩ := parse_eq_ok hparse
    have htidy := hk.interns h.scope
    have hinterns := (Scope.parse_readIn htidy hline).1
    -- the lines read before stay what they were, since reading only adds names
    obtain ⟨code, hblocks, hcode⟩ := h.blocks
    refine ⟨h.scope.trans hinterns, code ++ [i], ?_, ?_⟩
    · show List.modify k₂.graph.blocks _ _ = _
      rw [hgraph, hblocks, modify_concat]
    · have hlast : i.ReadFrom k₂.scope line := ⟨_, _, htidy, hline, .refl _⟩
      exact List.rel_append (hcode.imp fun l j hj => hj.interns hinterns) (.cons hlast .nil)

theorem Holds.loadBlock {d : BlockDescription} (h : Holds params registers blocks k)
    (hload : k.loadBlock d = .ok k') : Holds params registers (blocks ++ [d]) k' := by
  -- the history of the fold is the list of the lines that are read
  have hextends : k.Extends (Graph.blockLabel d.label k.graph.blocks.length) d.code k' := by
    refine Fallible.foldlM_history (P := fun lines k₁ => k.Extends _ lines k₁) ?_ hload ?_
    · intro lines line k₁ k₂ hline hk₁
      exact hk₁.loadLine h.tidy hline
    · exact ⟨.refl _, [], rfl, .nil⟩
  obtain ⟨hscope, code, hblocks, hcode⟩ := hextends
  refine ⟨h.tidy.interns hscope, ?_, ?_, ?_⟩
  · rw [hscope.params]
    exact h.params
  · rw [hscope.registers]
    exact h.registers
  · rw [hblocks]
    refine List.rel_append ?_ (.cons hcode .nil)
    exact h.blocks.imp fun e b hb => hb.imp fun l i hi => hi.interns hscope

theorem Holds.link (h : Holds params registers blocks k) :
    Holds params registers blocks { k with graph := k.graph.link } := by
  refine ⟨h.tidy, h.params, h.registers, ?_⟩
  refine forall₂_mapIdx ?_ h.blocks
  intro _ e b hb
  exact hb

end Kernel

/-- **A loaded kernel holds what its description declares.** -/
theorem KernelDescription.holds_of_load {d : KernelDescription} {k : Kernel} (h : d.load = .ok k) :
    k.Holds d.params d.registers d.blocks := by
  unfold KernelDescription.load at h
  split at h
  · obtain ⟨k₁, h₁, h⟩ := Fallible.bind_eq_ok.mp h
    obtain ⟨k₂, h₂, h⟩ := Fallible.bind_eq_ok.mp h
    obtain ⟨k₃, h₃, h⟩ := Fallible.bind_eq_ok.mp h
    cases h
    -- each loop carries what it has loaded so far, and keeps what the loops before it have
    have hk₁ : k₁.Holds d.params [] [] :=
      Fallible.foldlM_history (P := fun ps k => k.Holds ps [] [])
        (fun _ _ _ _ hp hk => hk.loadParam hp) h₁ ⟨Scope.tidy_empty, .nil, .nil, .nil⟩
    have hk₂ : k₂.Holds d.params d.registers [] :=
      Fallible.foldlM_history (P := fun rs k => k.Holds d.params rs [])
        (fun _ _ _ _ hr hk => hk.loadRegister hr) h₂ hk₁
    have hk₃ : k₃.Holds d.params d.registers d.blocks :=
      Fallible.foldlM_history (P := fun bs k => k.Holds d.params d.registers bs)
        (fun _ _ _ _ hb hk => hk.loadBlock hb) h₃ hk₂
    exact hk₃.link
  · cases h

end KernelIR.Source
