import KernelIR.Lowering.Module
import KernelIR.Proofs.Lowering.Kernel
import KernelIR.Proofs.Source.Load

/-!
# Images of modules

`lowered_of_lower`: a lowered module holds the images of the globals and of the kernels in order,
and its constants are the initial values of its globals.
-/

namespace KernelIR.Lowering

/-- What lowering a module gives. -/
structure LoweredModule (o : Options) (m : Source.Module) (v : Virtual.Module) : Prop where
  globals : List.Forall₂ (fun g x => lowerGlobal g = .ok x) m.globals v.globals
  functions : List.Forall₂ (fun k f => lowerKernel o v.globals k = .ok f) m.kernels v.functions
  constants : v.constants = (v.globals.map (·.init)).filter Option.isSome

/-- **A lowered module is the image of its source**, global by global and kernel by kernel. -/
theorem lowered_of_lower {o : Options} {m : Source.Module} {v : Virtual.Module}
    (h : lower o m = .ok v) : LoweredModule o m v := by
  unfold lower at h
  obtain ⟨globals, hglobals, h⟩ := Fallible.bind_eq_ok.mp h
  obtain ⟨functions, hfunctions, h⟩ := Fallible.bind_eq_ok.mp h
  cases h
  refine ⟨?_, ?_, rfl⟩
  · exact (Fallible.mapM_eq_ok.mp hglobals).imp fun g x hx => Fallible.mapError_eq_ok.mp hx
  · exact (Fallible.mapM_eq_ok.mp hfunctions).imp fun k f hf => Fallible.mapError_eq_ok.mp hf

/-! ### A module that is lowered -/

/-- A kernel with a parameter, a loop, special registers and a result that nobody wants. -/
def countKernel : Source.KernelDescription :=
  { name := "count", linkage := ".visible", params := [⟨"limit", "u64"⟩]
    registers := [⟨"%p", "pred"⟩, ⟨"%r", "u32"⟩, ⟨"%a", "u64"⟩]
    blocks := [
      ⟨"", ["ld.param.u64 %a, [limit];", "mov.u32 %r, %tid.y;"]⟩,
      ⟨"loop", ["add.u32 %r, %r, %tid.y;", "setp.lt.u32 %p, %r, 64;", "@!%p bra loop;"]⟩,
      ⟨"done", ["st.global.u32 [%a+4], %r;", "atom.global.add.u32 _, [%a], %r;", "ret;"]⟩] }

/-- A module with that kernel, a global with a value and an external one. -/
def countModule : Source.Description :=
  { globals := [⟨"table", "u32", "", [1, 2, 3, 4]⟩, ⟨"sum", "f32", ".extern", []⟩]
    kernels := [countKernel] }

/-- A description that evaluates to a lowered module is loaded and lowered. -/
theorem exists_lower_of_any (d : Source.Description) (path : String) (P : Virtual.Module → Prop)
    [DecidablePred P]
    (h : ((d.load path).toOption.bind fun m => (lower {} m).toOption).any (P ·) = true) :
    ∃ m v, d.load path = .ok m ∧ lower {} m = .ok v ∧ P v := by
  -- an error at either step would make the evaluated test false
  cases hm : d.load path with
  | error e =>
    rw [hm] at h
    cases h
  | ok m =>
    rw [hm] at h
    change (lower {} m).toOption.any (P ·) = true at h
    cases hv : lower {} m with
    | error e =>
      rw [hv] at h
      cases h
    | ok v =>
      rw [hv] at h
      exact ⟨m, v, rfl, hv, of_decide_eq_true h⟩

theorem exists_lower_countModule :
    ∃ m v, countModule.load "count" = .ok m ∧ lower {} m = .ok v := by
  obtain ⟨m, v, hm, hv, -⟩ := exists_lower_of_any countModule "count" (fun _ => True) (by
    decide +kernel)
  exact ⟨m, v, hm, hv⟩

end KernelIR.Lowering
