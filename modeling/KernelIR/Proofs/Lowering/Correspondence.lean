import KernelIR.Proofs.Lowering.Layout
import KernelIR.Proofs.Lowering.Module

/-!
# Nothing is lost, doubled or moved

`lower_isModuleOf`: a lowered module corresponds to the loaded module part by part and in order.
Globals keep their names, types, linkage and initial bytes; arguments stand for the parameters, the
first registers for the declared ones, and the blocks for the nodes of the graph in source order,
with one rendered instruction for each instruction.  Registers that lowering makes on the way stand
behind the declared ones, for a frame only grows.
-/

namespace KernelIR.Lowering

open Virtual (ValueType Argument Register)

/-! ### The correspondence -/

/-- The width of a type in bits; a predicate has one. -/
def sourceBits : Source.DataType → Nat
  | .pred => 1
  | t => 8 * t.bytes

/-- The types have the same class and the same width. -/
structure SameType (t : Source.DataType) (v : ValueType) : Prop where
  kind : v.kind = if t.isFloat then .float else .integer
  bits : v.bits = sourceBits t

/-- The optional type is there and the same. -/
def HasType (t : Source.DataType) (v : Option ValueType) : Prop :=
  ∃ u, v = some u ∧ SameType t u

/-- The virtual global stands for the source global. -/
structure IsGlobalOf (g : Source.Global) (x : Virtual.Global) : Prop where
  name : x.name = g.name
  type : HasType g.type x.type
  linkage : x.linkage = .external ↔ g.linkage = .external
  init : x.init = if g.init = [] then none else some (.array x.type g.init)

/-- The function stands for the kernel, in a module with the given globals. -/
structure IsFunctionOf (stem : String) (globals : List Virtual.Global) (k : Source.Kernel)
    (f : Virtual.Function) : Prop where
  name : f.name = k.name
  linkage : f.linkage = .external ↔ k.linkage = .external
  arguments : List.Forall₂ (fun p a => a.name = p.name ∧ HasType p.type a.type) k.scope.params
    f.arguments
  /-- the first registers are the declared ones -/
  registers : List.Forall₂ (fun r x => x.name = stem ++ Text.decimal r.id.toNat ∧ HasType r.type x.type)
    k.scope.registers (f.registers.take k.scope.registers.length)
  /-- entry, blocks in source order and exit, each with the code of its node -/
  blocks : ∃ s : Scope, s.globals = globals ∧ s.arguments = f.arguments ∧ LaidOut k.graph s f

/-- The virtual module stands for the source module. -/
structure IsModuleOf (o : Options) (m : Source.Module) (v : Virtual.Module) : Prop where
  globals : List.Forall₂ IsGlobalOf m.globals v.globals
  /-- the constants are the initial values of the globals -/
  constants : v.constants = (v.globals.filterMap (·.init)).map some
  functions : List.Forall₂ (IsFunctionOf o.stem v.globals) m.kernels v.functions

/-! ### Types, linkage and globals -/

theorem sameType_of_lowerType {t : Source.DataType} {v : ValueType} (h : lowerType t = .ok v) :
    SameType t v := by
  cases t with
  | pred =>
    cases h
    exact ⟨rfl, rfl⟩
  | bits w | signed w | unsigned w =>
    cases h
    cases w <;> exact ⟨rfl, rfl⟩
  | float w =>
    cases w with
    | half => cases h
    | single | double =>
      cases h
      exact ⟨rfl, rfl⟩
  | missing | unknown _ => cases h

theorem lowerLinkage_eq_external {a : Source.Attribute} :
    lowerLinkage a = .external ↔ a = .external := by
  unfold lowerLinkage
  split_ifs with h
  · exact iff_of_true rfl h
  · exact iff_of_false (by decide) h

theorem isGlobalOf_of_lowerGlobal {g : Source.Global} {x : Virtual.Global}
    (h : lowerGlobal g = .ok x) : IsGlobalOf g x := by
  unfold lowerGlobal at h
  obtain ⟨t, ht, h⟩ := Fallible.bind_eq_ok.mp h
  cases h
  refine ⟨rfl, ⟨t, rfl, sameType_of_lowerType ht⟩, lowerLinkage_eq_external, ?_⟩
  cases g.init <;> rfl

/-! ### Kernels -/

/-- The function of a lowered kernel stands for it, if the kernel is linked. -/
theorem Lowered.isFunctionOf {o : Options} {globals : List Virtual.Global} {k : Source.Kernel}
    {opening : Opening} {blocks : List Virtual.Block} {fr : Frame} {f : Virtual.Function}
    (h : Lowered o globals k opening blocks fr f) (hlinked : k.graph.Linked) :
    IsFunctionOf o.stem globals k f := by
  have hlaidOut := h.laidOut hlinked.sequence_eq
  have hdeclared := h.opened.registers.forall₂
  -- registers that lowering adds stand behind the declared ones
  have hregisters : f.registers.take k.scope.registers.length =
      opening.scope.registers.map Prod.snd := by
    obtain ⟨more, hmore⟩ := h.registers
    rw [← hmore, hdeclared.length_eq, List.take_left' (List.length_map _)]
  refine ⟨by rw [h.function]; rfl, ?_, ?_, ?_, ⟨opening.scope, h.opened.globals, ?_, hlaidOut⟩⟩
  · rw [h.function]
    exact lowerLinkage_eq_external
  · rw [h.function]
    refine h.opened.arguments.imp fun p a ha => ?_
    obtain ⟨t, ht, rfl⟩ := ha
    exact ⟨rfl, t, rfl, sameType_of_lowerType ht⟩
  · rw [hregisters, List.forall₂_map_right_iff]
    refine hdeclared.imp fun r e he => ?_
    obtain ⟨-, ⟨t, ht, htype⟩, hname⟩ := he
    exact ⟨hname, t, htype, sameType_of_lowerType ht⟩
  · rw [h.function]
    rfl

/-- **Lowering loses, doubles and moves nothing.**  A lowered module corresponds to the loaded
module part by part and in order. -/
theorem lower_isModuleOf {d : Source.Description} {path : String} {m : Source.Module} {o : Options}
    {v : Virtual.Module} (hm : d.load path = .ok m) (hv : lower o m = .ok v) : IsModuleOf o m v := by
  have hlowered := lowered_of_lower hv
  refine ⟨hlowered.globals.imp fun g x hx => isGlobalOf_of_lowerGlobal hx, ?_, ?_⟩
  · rw [hlowered.constants, filter_isSome_eq, List.filterMap_map]
    rfl
  · have hlinked : ∀ k ∈ m.kernels, k.graph.Linked := by
      intro k hk
      obtain ⟨e, -, he⟩ := exists_of_forall₂_right (Source.Description.load_forall₂ hm).2 hk
      exact Source.KernelDescription.load_linked he
    refine ((List.forall₂_and_left _ _).mpr ⟨hlinked, hlowered.functions⟩).imp fun k f hf => ?_
    obtain ⟨opening, blocks, fr, hkernel⟩ := lowered_of_lowerKernel hf.2
    exact hkernel.isFunctionOf hf.1

theorem countModule_isModuleOf :
    ∃ m v, countModule.load "count" = .ok m ∧ lower {} m = .ok v ∧ IsModuleOf {} m v := by
  obtain ⟨m, v, hm, hv⟩ := exists_lower_countModule
  exact ⟨m, v, hm, hv, lower_isModuleOf hm hv⟩

end KernelIR.Lowering
