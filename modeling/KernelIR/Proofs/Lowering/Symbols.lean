import KernelIR.Proofs.Lowering.RegisterUse
import KernelIR.Virtual.Workspace

/-!
# Symbols and their names

`lower_symbols`: which names of a lowered module are sure to be different, and what follows for
those that are not.  Lowering refuses a register or a block whose name is taken.  It takes over
globals, functions and arguments under whatever names they are described with, so searching by name
finds all of them exactly if the description repeats no name.  An operand that refers to a global or
an argument always refers to the first one of its name; what is declared behind it cannot be
reached.

A search by name goes through a list from the front (`place?`).  This is how a workspace finds its
symbols (`Workspace.findGlobal?_eq` and its like).
-/

namespace KernelIR

/-! ### Searching by name -/

namespace Virtual

section Search

variable {α : Type} {name : α → String} {xs : List α}

/-- The place of the first entry with a name. -/
def place? (name : α → String) (xs : List α) (n : String) : Option Nat :=
  xs.findIdx? (name · = n)

/-- Every entry is found under its name. -/
def AllFound (name : α → String) (xs : List α) : Prop :=
  ∀ (j : Nat) (x : α), xs[j]? = some x → place? name xs (name x) = some j

theorem place?_eq_some_iff {n : String} {j : Nat} :
    place? name xs n = some j ↔
      (xs.map name)[j]? = some n ∧ ∀ i < j, (xs.map name)[i]? ≠ some n := by
  rw [place?, List.findIdx?_eq_some_iff_getElem]
  constructor
  · rintro ⟨hj, hn, hbefore⟩
    constructor
    · simpa [hj] using hn
    · intro i hi
      have hlt : i < xs.length := by omega
      simpa [hlt] using hbefore i hi
  · rintro ⟨hn, hbefore⟩
    rw [List.getElem?_map, Option.map_eq_some_iff] at hn
    obtain ⟨x, hx, hn⟩ := hn
    obtain ⟨hj, rfl⟩ := List.getElem?_eq_some_iff.mp hx
    refine ⟨hj, by simpa using hn, fun i hi => ?_⟩
    have hlt : i < xs.length := by omega
    simpa [hlt] using hbefore i hi

/-- **All entries are found if no name is repeated.** -/
theorem allFound_iff : AllFound name xs ↔ (xs.map name).Nodup := by
  rw [List.nodup_iff_getElem?_ne_getElem?]
  constructor
  · intro h i j hij hj heq
    rw [List.length_map] at hj
    have hlater := h j xs[j] (List.getElem?_eq_getElem hj)
    -- the name stands before the place where it is found
    refine (place?_eq_some_iff.mp hlater).2 i hij ?_
    rw [heq, List.getElem?_map, List.getElem?_eq_getElem hj]
    rfl
  · intro h j x hx
    have hname : (xs.map name)[j]? = some (name x) := by rw [List.getElem?_map, hx]; rfl
    obtain ⟨hj, -⟩ := List.getElem?_eq_some_iff.mp hname
    refine place?_eq_some_iff.mpr ⟨hname, fun i hi heq => ?_⟩
    exact h i j hi hj (heq.trans hname.symm)

instance : Decidable (AllFound name xs) :=
  decidable_of_iff _ allFound_iff.symm

/-- Searching a list of places finds the place of the first entry with the name. -/
theorem find?_eq_bind_place? (name : α → String) (view : Nat → α) (places : List Nat)
    (n : String) :
    places.find? (fun j => name (view j) = n) =
      (place? name (places.map view) n).bind (places[·]?) := by
  rw [List.find?_eq_bind_findIdx?_getElem?, place?, List.findIdx?_map]
  rfl

end Search

namespace Workspace

theorem findGlobal?_eq (w : Workspace) (n : String) :
    w.findGlobal? n = (place? Global.name w.module.globals n).bind (w.globalList[·]?) :=
  find?_eq_bind_place? Global.name (fun g => (w.global g).value) _ n

theorem findFunction?_eq (w : Workspace) (n : String) :
    w.findFunction? n = (place? Function.name w.module.functions n).bind (w.functionList[·]?) :=
  find?_eq_bind_place? Function.name w.functionTree _ n

theorem findArgument?_eq (w : Workspace) (f : Nat) (n : String) :
    w.findArgument? f n =
      (place? Argument.name (w.functionTree f).arguments n).bind ((w.function f).arguments[·]?) :=
  find?_eq_bind_place? Argument.name w.argument _ n

end Workspace

/-- If the operand refers to a global or an argument, it is the first one of its name. -/
def Operand.IsFirst (arguments : List Argument) (globals : List Global) : Operand → Prop
  | .address (some (.global j n)) => place? Global.name globals n = some j
  | .argument a => ∃ j, place? Argument.name arguments a.name = some j ∧ arguments[j]? = some a
  | _ => True

end Virtual

namespace Lowering

open Virtual (AllFound place? Instr Operand Argument Workspace)

/-! ### The names of a module -/

/-- What is known of the names in a function of a module with the given globals. -/
structure FunctionSymbols (globals : List Virtual.Global) (d : Source.KernelDescription)
    (f : Virtual.Function) : Prop where
  /-- no register is declared twice -/
  registers : (d.registers.map (·.name)).Nodup
  /-- no two blocks have the same name, entry and exit among them -/
  blocks : (f.blocks.map (·.name)).Nodup
  arguments : AllFound Argument.name f.arguments ↔ (d.params.map (·.name)).Nodup
  /-- in a workspace that holds the function, its arguments are searched so -/
  searches : ∀ (w : Workspace) (t : Nat), w.functionTree t = f → ∀ n, w.findArgument? t n =
    (place? Argument.name f.arguments n).bind ((w.function t).arguments[·]?)
  references : ∀ x ∈ f.code, ∀ slot ∈ x.reads ++ x.writes, ∀ y ∈ slot, y.IsFirst f.arguments globals

/-- What is known of the names in a module. -/
structure ModuleSymbols (d : Source.Description) (v : Virtual.Module) : Prop where
  globals : AllFound Virtual.Global.name v.globals ↔ (d.globals.map (·.name)).Nodup
  functions : AllFound Virtual.Function.name v.functions ↔ (d.kernels.map (·.name)).Nodup
  /-- in a workspace that amounts to the module, globals and functions are searched so -/
  searches : ∀ w : Workspace, w.module = v → ∀ n,
    w.findGlobal? n = (place? Virtual.Global.name v.globals n).bind (w.globalList[·]?) ∧
      w.findFunction? n = (place? Virtual.Function.name v.functions n).bind (w.functionList[·]?)
  kernels : List.Forall₂ (FunctionSymbols v.globals) d.kernels v.functions

/-! ### References -/

namespace Scope

variable {s : Scope} {fr fr' : Frame}

/-- The image of an operand is found by searching from the front. -/
theorem Maps.isFirst {o : Source.Operand} {y : Operand} (h : s.Maps fr o y fr') :
    y.IsFirst s.arguments s.globals := by
  cases h with
  | @argument t n a ha =>
    have hname : a.name = n := by simpa using List.find?_some ha
    subst hname
    rw [List.find?_eq_bind_findIdx?_getElem?, Option.bind_eq_some_iff] at ha
    exact ha
  | global hj => exact hj
  | _ => trivial

/-- **All references of an instruction are to the first declarations of their names.** -/
theorem Renders.isFirst {block : Nat} {i : Source.Instruction} {x : Instr}
    (h : s.Renders block i fr x fr') :
    ∀ slot ∈ x.reads ++ x.writes, ∀ y ∈ slot, y.IsFirst s.arguments s.globals := by
  have hoccurs : ∀ y, s.Occurs fr fr' y → y.IsFirst s.arguments s.globals := by
    rintro y (⟨o, fr₁, fr₂, -, hmaps, -⟩ | ⟨bits, t, rfl⟩)
    · exact hmaps.isFirst
    · trivial
  obtain ⟨hreads, hwrites⟩ := h.forall_operand (fun _ _ => trivial) hoccurs
  intro slot hslot y hy
  obtain ⟨z, rfl, hz⟩ : ∃ z, slot = some z ∧ z.IsFirst s.arguments s.globals :=
    (List.mem_append.mp hslot).elim (hreads slot) (hwrites slot)
  cases hy
  exact hz

end Scope

/-! ### Kernels -/

section Kernel

variable {o : Options} {globals : List Virtual.Global} {d : Source.KernelDescription}
  {k : Source.Kernel} {opening : Opening} {blocks : List Virtual.Block} {fr : Frame}
  {f : Virtual.Function}

/-- A register whose name is taken is refused. -/
theorem Lowered.nodup_registers (h : Lowered o globals k opening blocks fr f)
    (hk : k.Holds d.params d.registers d.blocks) : (d.registers.map (·.name)).Nodup := by
  rw [List.nodup_iff_getElem?_ne_getElem?]
  intro i j hij hj heq
  rw [List.length_map] at hj
  have hi : i < d.registers.length := by omega
  rw [List.getElem?_map, List.getElem?_map, List.getElem?_eq_getElem hi,
    List.getElem?_eq_getElem hj] at heq
  have heq' : i = j := h.declared_inj hk (List.getElem?_eq_getElem hi) (List.getElem?_eq_getElem hj)
    (Option.some.inj heq)
  omega

/-- The arguments have the names of the parameters. -/
theorem Lowered.map_name_arguments (h : Lowered o globals k opening blocks fr f)
    (hk : k.Holds d.params d.registers d.blocks) :
    f.arguments.map Argument.name = d.params.map (·.name) := by
  have hparams := map_eq_of_forall₂ (p := (·.name)) (q := (·.name)) (fun _ _ hp => hp.1) hk.params
  rw [← hparams, h.function]
  refine map_eq_of_forall₂ ?_ h.opened.arguments
  rintro p a ⟨t, -, rfl⟩
  rfl

/-- **The names of a lowered kernel.** -/
theorem Lowered.functionSymbols (h : Lowered o globals k opening blocks fr f) (hk : d.load = .ok k) :
    FunctionSymbols globals d f := by
  have hholds := Source.KernelDescription.holds_of_load hk
  have hlinked := Source.KernelDescription.load_linked hk
  refine ⟨h.nodup_registers hholds, ?_, ?_, ?_, ?_⟩
  · rw [(h.laidOut hlinked.sequence_eq).map_name]
    exact h.nodup_labels hlinked.sequence_eq
  · rw [Virtual.allFound_iff, h.map_name_arguments hholds]
  · intro w t hw n
    rw [w.findArgument?_eq, hw]
  · have harguments : f.arguments = opening.scope.arguments := h.hosts.arguments
    rw [harguments, ← h.opened.globals]
    refine (h.forall_code_iff hlinked (Q := fun _ => True) ?_).mpr fun _ _ _ _ => trivial
    intro block i fr₁ x fr₂ hx
    exact iff_of_true hx.isFirst trivial

end Kernel

/-! ### Modules -/

/-- **The names of a lowered module.**  Registers and blocks are all different; globals, functions
and arguments are found by their names exactly if their description repeats none; and a reference is
to the first declaration of its name. -/
theorem lower_symbols {d : Source.Description} {path : String} {m : Source.Module} {o : Options}
    {v : Virtual.Module} (hm : d.load path = .ok m) (hv : lower o m = .ok v) : ModuleSymbols d v := by
  obtain ⟨hglobals, hkernels⟩ := Source.Description.load_forall₂ hm
  have hlowered := lowered_of_lower hv
  -- from the description over the loaded module to the lowered one
  have hglobals' : List.Forall₂ (fun e x => x.name = e.name) d.globals v.globals := by
    refine forall₂_comp ?_ hglobals hlowered.globals
    intro e g x hg hx
    rw [(isGlobalOf_of_lowerGlobal hx).name, Source.GlobalDescription.name_of_load hg]
  have hkernels' : List.Forall₂ (fun e f => f.name = e.name ∧ FunctionSymbols v.globals e f)
      d.kernels v.functions := by
    refine forall₂_comp ?_ hkernels hlowered.functions
    intro e k f hk hf
    obtain ⟨opening, blocks, fr, hkernel⟩ := lowered_of_lowerKernel hf
    refine ⟨?_, hkernel.functionSymbols hk⟩
    rw [hkernel.function]
    exact Source.KernelDescription.name_of_load hk
  have hglobalNames : v.globals.map Virtual.Global.name = d.globals.map (·.name) := by
    refine map_eq_of_forall₂ ?_ hglobals'
    exact fun _ _ hg => hg
  have hfunctionNames : v.functions.map Virtual.Function.name = d.kernels.map (·.name) := by
    refine map_eq_of_forall₂ ?_ hkernels'
    exact fun _ _ hk => hk.1
  refine ⟨?_, ?_, ?_, hkernels'.imp fun _ _ hk => hk.2⟩
  · rw [Virtual.allFound_iff, hglobalNames]
  · rw [Virtual.allFound_iff, hfunctionNames]
  · intro w hw n
    rw [w.findGlobal?_eq, w.findFunction?_eq, hw]
    exact ⟨rfl, rfl⟩

/-- In a module without repeated names everything is found. -/
theorem countModule_symbols :
    ∃ m v, countModule.load "count" = .ok m ∧ lower {} m = .ok v ∧ ModuleSymbols countModule v ∧
      AllFound Virtual.Global.name v.globals ∧ AllFound Virtual.Function.name v.functions ∧
      ∀ f ∈ v.functions, AllFound Argument.name f.arguments := by
  obtain ⟨m, v, hm, hv⟩ := exists_lower_countModule
  have hsymbols := lower_symbols hm hv
  refine ⟨m, v, hm, hv, hsymbols, hsymbols.globals.mpr (by decide),
    hsymbols.functions.mpr (by decide), ?_⟩
  intro f hf
  obtain ⟨e, he, hf⟩ := exists_of_forall₂_right hsymbols.kernels hf
  rw [List.mem_singleton.mp he] at hf
  exact hf.arguments.mpr (by decide)

/-- Two globals, two kernels and two parameters with one name each, and references to them. -/
def repeatingModule : Source.Description :=
  { globals := [⟨"g", "u32", "", []⟩, ⟨"g", "u64", "", []⟩]
    kernels := [
      { name := "k", linkage := "", params := [⟨"p", "u32"⟩, ⟨"p", "u64"⟩]
        registers := [⟨"%a", "u64"⟩]
        blocks := [⟨"start", ["ld.param.u64 %a, [p]", "ld.global.u64 %a, [g]"]⟩] },
      { name := "k", linkage := "", params := [], registers := [], blocks := [] }] }

/-- A module that repeats names is loaded and lowered all the same. -/
theorem repeatingModule_lowered :
    ∃ m v, repeatingModule.load "repeat" = .ok m ∧ lower {} m = .ok v ∧
      ¬AllFound Virtual.Global.name v.globals ∧ ¬AllFound Virtual.Function.name v.functions ∧
      ∃ f ∈ v.functions, ¬AllFound Argument.name f.arguments := by
  exact exists_lower_of_any repeatingModule "repeat" _ (by decide +kernel)

end Lowering

end KernelIR
