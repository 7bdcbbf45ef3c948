import KernelIR.Proofs.Fallible
import KernelIR.Proofs.Source.Sequence
import KernelIR.Source.Load

/-!
# Loaded kernels

`KernelDescription.load_linked`: the graph of a loaded kernel is linked.  Declarations leave the
graph as it is, blocks and their lines never touch the edges of the exit, and the last step links.
No step touches the name of the kernel (`KernelDescription.name_of_load`).
-/

namespace KernelIR.Source

theorem Kernel.parse_graph (k : Kernel) (line : String) : (k.parse line).2.graph = k.graph := rfl

/-- A line leaves the edges of the exit as they are. -/
theorem Kernel.loadLine_exit {index : Nat} {k k' : Kernel} {line : String}
    (h : k.loadLine index line = .ok k') : k'.graph.exit = k.graph.exit := by
  have hgraph := Kernel.parse_graph k line
  unfold Kernel.loadLine at h
  split at h
  · cases h
  · rename_i i k1 hparse
    rw [hparse] at hgraph
    cases h
    show k1.graph.exit = k.graph.exit
    rw [← hgraph]

/-- A block leaves the edges of the exit as they are. -/
theorem Kernel.loadBlock_exit {k k' : Kernel} {d : BlockDescription} (h : k.loadBlock d = .ok k') :
    k'.graph.exit = k.graph.exit := by
  refine Fallible.foldlM_keeps (P := fun k1 => k1.graph.exit = k.graph.exit) ?_ h rfl
  intro k1 line k2 hline hk1
  rw [Kernel.loadLine_exit hline, hk1]

theorem Kernel.loadParam_graph {k k' : Kernel} {d : VariableDescription}
    (h : k.loadParam d = .ok k') : k'.graph = k.graph := by
  unfold Kernel.loadParam at h
  split at h <;> cases h
  rfl

theorem Kernel.loadRegister_graph {k k' : Kernel} {d : VariableDescription}
    (h : k.loadRegister d = .ok k') : k'.graph = k.graph := by
  unfold Kernel.loadRegister at h
  split at h <;> cases h
  rfl

/-- **A loaded kernel is linked.** -/
theorem KernelDescription.load_linked {d : KernelDescription} {k : Kernel} (h : d.load = .ok k) :
    k.graph.Linked := by
  unfold KernelDescription.load at h
  split at h
  · rename_i linkage hlinkage
    obtain ⟨k1, h1, h⟩ := Fallible.bind_eq_ok.mp h
    obtain ⟨k2, h2, h⟩ := Fallible.bind_eq_ok.mp h
    obtain ⟨k3, h3, h⟩ := Fallible.bind_eq_ok.mp h
    cases h
    -- the three loops leave the exit alone, which is all that linking asks of the graph
    have hexit1 : k1.graph.exit = {} := by
      refine Fallible.foldlM_keeps (P := fun k => k.graph.exit = {}) ?_ h1 rfl
      intro k p k' hp hk
      rw [Kernel.loadParam_graph hp, hk]
    have hexit2 : k2.graph.exit = {} := by
      refine Fallible.foldlM_keeps (P := fun k => k.graph.exit = {}) ?_ h2 hexit1
      intro k r k' hr hk
      rw [Kernel.loadRegister_graph hr, hk]
    have hexit3 : k3.graph.exit = {} := by
      refine Fallible.foldlM_keeps (P := fun k => k.graph.exit = {}) ?_ h3 hexit2
      intro k b k' hb hk
      rw [Kernel.loadBlock_exit hb, hk]
    exact Graph.linked_link hexit3
  · cases h

/-! ### Names -/

theorem GlobalDescription.name_of_load {d : GlobalDescription} {g : Global} (h : d.load = .ok g) :
    g.name = d.name := by
  unfold GlobalDescription.load at h
  split at h
  · cases h
  · split at h <;> cases h
    rfl

theorem Kernel.loadParam_name {k k' : Kernel} {d : VariableDescription}
    (h : k.loadParam d = .ok k') : k'.name = k.name := by
  unfold Kernel.loadParam at h
  split at h <;> cases h
  rfl

theorem Kernel.loadRegister_name {k k' : Kernel} {d : VariableDescription}
    (h : k.loadRegister d = .ok k') : k'.name = k.name := by
  unfold Kernel.loadRegister at h
  split at h <;> cases h
  rfl

theorem Kernel.loadLine_name {index : Nat} {k k' : Kernel} {line : String}
    (h : k.loadLine index line = .ok k') : k'.name = k.name := by
  have hname : (k.parse line).2.name = k.name := rfl
  unfold Kernel.loadLine at h
  split at h
  · cases h
  · rename_i i k1 hparse
    rw [hparse] at hname
    cases h
    exact hname

theorem Kernel.loadBlock_name {k k' : Kernel} {d : BlockDescription} (h : k.loadBlock d = .ok k') :
    k'.name = k.name := by
  refine Fallible.foldlM_keeps (P := fun k1 => k1.name = k.name) ?_ h rfl
  intro k1 line k2 hline hk1
  rw [Kernel.loadLine_name hline, hk1]

/-- A loaded kernel has the name of its description. -/
theorem KernelDescription.name_of_load {d : KernelDescription} {k : Kernel} (h : d.load = .ok k) :
    k.name = d.name := by
  unfold KernelDescription.load at h
  split at h
  · obtain ⟨k1, h1, h⟩ := Fallible.bind_eq_ok.mp h
    obtain ⟨k2, h2, h⟩ := Fallible.bind_eq_ok.mp h
    obtain ⟨k3, h3, h⟩ := Fallible.bind_eq_ok.mp h
    cases h
    have hname1 : k1.name = d.name := by
      refine Fallible.foldlM_keeps (P := fun k => k.name = d.name) ?_ h1 rfl
      intro k p k' hp hk
      rw [Kernel.loadParam_name hp, hk]
    have hname2 : k2.name = d.name := by
      refine Fallible.foldlM_keeps (P := fun k => k.name = d.name) ?_ h2 hname1
      intro k r k' hr hk
      rw [Kernel.loadRegister_name hr, hk]
    refine Fallible.foldlM_keeps (P := fun k => k.name = d.name) ?_ h3 hname2
    intro k b k' hb hk
    rw [Kernel.loadBlock_name hb, hk]
  · cases h

/-! ### Modules -/

/-- The globals and kernels of a loaded module are loaded from the described ones in order. -/
theorem Description.load_forall₂ {d : Description} {path : String} {m : Module}
    (h : d.load path = .ok m) :
    List.Forall₂ (fun e g => GlobalDescription.load e = .ok g) d.globals m.globals ∧
      List.Forall₂ (fun e k => KernelDescription.load e = .ok k) d.kernels m.kernels := by
  unfold Description.load at h
  obtain ⟨globals, hglobals, h⟩ := Fallible.bind_eq_ok.mp h
  obtain ⟨kernels, hkernels, h⟩ := Fallible.bind_eq_ok.mp h
  cases h
  constructor
  · exact (Fallible.mapM_eq_ok.mp hglobals).imp fun e g hg => Fallible.mapError_eq_ok.mp hg
  · exact (Fallible.mapM_eq_ok.mp hkernels).imp fun e k hk => Fallible.mapError_eq_ok.mp hk

end KernelIR.Source
