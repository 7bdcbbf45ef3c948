import KernelIR.Proofs.Lowering.Faithful
import KernelIR.Proofs.Source.Loaded

/-!
# Registers are not captured

`lower_uncaptured`: in a lowered module, a register name means the same from the text of a kernel to
its virtual code.  The registers that a description declares are the first registers of the
function, in order.  Where the guard or an operand of a line spells a register, the instruction made
of the line has the virtual register of the declaration with that name (`Binds`), different names
never share one, and a name without declaration is not lowered at all.

Between text and code a name is replaced by a number twice.  Loading numbers names in the order of
their first appearance, be it in a declaration or in a line, and lowering looks the numbers of
declared registers up.  The invariant of loaded scopes, `Source.Scope.Tidy`, makes numbers stand for
names, so what is found under the number of a name is what was declared under the name.
-/

namespace KernelIR

namespace Source

namespace Instruction

/-- The guard, or an operand that the opcode has a use for, spells a register with the name. -/
def Mentions (i : Instruction) (name : String) : Prop :=
  ∃ r : RegisterUse, r.name = name ∧
    (i.guard.register? = some r ∨ ∃ x, some x ∈ i.taken ∧ x.form.register? = some r)

end Instruction

/-- The lines of the description spell the instructions of the kernel, one by one. -/
def KernelDescription.Spells (d : KernelDescription) (k : Kernel) : Prop :=
  List.Forall₂ (fun e b => List.Forall₂ (fun line i =>
    ∃ p, LineParts.Of (beforeComment line.toList) p ∧ i.ReadIn k.scope p)
      (BlockDescription.code e) (Block.code b)) d.blocks k.graph.blocks

end Source

namespace Lowering

open Virtual (Instr Operand Register)

/-! ### What names denote -/

/-- The name is declared, and the register of the function stands at the place of the
declaration. -/
def Denotes (d : Source.KernelDescription) (f : Virtual.Function) (name : String) (v : Register) :
    Prop :=
  ∃ (j : Nat) (e : Source.VariableDescription),
    d.registers[j]? = some e ∧ e.name = name ∧ f.registers[j]? = some v

/-- Where the source instruction spells a register, the virtual instruction has the register that
the name denotes. -/
structure Binds (d : Source.KernelDescription) (f : Virtual.Function) (i : Source.Instruction)
    (x : Instr) : Prop where
  guard :
    match i.guard with
    | .always => x.guard = .always
    | .never => x.guard = .never
    | .straight r => ∃ v, Denotes d f r.name v ∧ x.guard = ⟨some v, .straight⟩
    | .inverse r => ∃ v, Denotes d f r.name v ∧ x.guard = ⟨some v, .inverse⟩
    | .unknown .. => False
  operands : ∀ (n : Nat) (o : Source.Operand), i.taken[n]? = some (some o) →
    match o.form with
    | .register r =>
      ∃ v, Denotes d f r.name v ∧
        (x.writes ++ x.operandsRead)[n]? = some (some (.register (some v)))
    | .indirect r offset =>
      ∃ v, Denotes d f r.name v ∧
        (x.writes ++ x.operandsRead)[n]? = some (some (.indirect (some v) offset))
    | _ => True

/-- The function takes the registers of the described kernel for what they are. -/
structure Uncaptured (d : Source.KernelDescription) (k : Source.Kernel) (f : Virtual.Function) :
    Prop where
  /-- declared registers come first, in order -/
  registers : ∀ (j : Nat) (e : Source.VariableDescription), d.registers[j]? = some e →
    ∃ t v, Source.DataType.ofName? e.type = some t ∧ f.registers[j]? = some v ∧ v.key = j ∧
      v.id = j ∧ HasType t v.type
  /-- the entry stands before the blocks -/
  code : ∀ (j : Nat) (b : Source.Block), k.graph.blocks[j]? = some b →
    ∃ b', f.blocks[j + 1]? = some b' ∧ List.Forall₂ (Binds d f) b.code b'.code
  distinct : ∀ n v n' v', Denotes d f n v → Denotes d f n' v' → (v = v' ↔ n = n')

/-! ### Registers of a lowered kernel -/

section Kernel

variable {o : Options} {globals : List Virtual.Global} {d : Source.KernelDescription}
  {k : Source.Kernel} {opening : Opening} {blocks : List Virtual.Block} {fr : Frame}
  {f : Virtual.Function}

theorem Lowered.getElem?_registers (h : Lowered o globals k opening blocks fr f) {j : Nat}
    {e : UInt32 × Register} (he : opening.scope.registers[j]? = some e) :
    f.registers[j]? = some e.2 := by
  have hmap : (opening.scope.registers.map Prod.snd)[j]? = some e.2 := by
    rw [List.getElem?_map, he]
    rfl
  obtain ⟨hlt, -⟩ := List.getElem?_eq_some_iff.mp hmap
  obtain ⟨more, hmore⟩ := h.registers
  rw [← hmore, List.getElem?_append_left hlt, hmap]

/-- The registers of the function are numbered by their places. -/
theorem Lowered.numbered (h : Lowered o globals k opening blocks fr f) : Numbered f.registers := by
  rw [h.function]
  exact (h.between.1.covers h.opened.covers).numbered

/-- **What is found under the number of a name was declared under the name.** -/
theorem Lowered.denotes_of_lookup (h : Lowered o globals k opening blocks fr f)
    (hk : k.Holds d.params d.registers d.blocks) (hsize : k.scope.names.length < UInt32.size)
    {r : Source.RegisterUse} (hbound : r.Bound k.scope) {v : Register}
    (hv : opening.scope.registers.lookup r.id = some v) : Denotes d f r.name v := by
  obtain ⟨j, hj⟩ := List.mem_iff_getElem?.mp (mem_of_lookup hv)
  obtain ⟨r', hr', hid, -, -⟩ := forall₂_getElem? h.opened.registers.forall₂.flip hj
  obtain ⟨e, he, hname, -⟩ := forall₂_getElem? hk.registers.flip hr'
  refine ⟨j, e, he, ?_, h.getElem?_registers hj⟩
  -- the number of the use is that of the declaration, so their names are the same
  have hdeclared := hk.tidy.declared r' (List.mem_of_getElem? hr')
  have hid' : r.id = r'.id := hid
  rw [← hid'] at hdeclared
  rw [← hname]
  exact hk.tidy.name_eq hsize hdeclared hbound

/-- The declared registers come first, in order. -/
theorem Lowered.exists_register (h : Lowered o globals k opening blocks fr f)
    (hk : k.Holds d.params d.registers d.blocks) {j : Nat} {e : Source.VariableDescription}
    (he : d.registers[j]? = some e) :
    ∃ t v, Source.DataType.ofName? e.type = some t ∧ f.registers[j]? = some v ∧ v.key = j ∧
      v.id = j ∧ HasType t v.type := by
  obtain ⟨r, hr, -, htype⟩ := forall₂_getElem? hk.registers he
  obtain ⟨known, hknown, -, ⟨t, ht, hvt⟩, -⟩ := forall₂_getElem? h.opened.registers.forall₂ hr
  have hv := h.getElem?_registers hknown
  obtain ⟨hkey, hid⟩ := h.numbered j _ hv
  exact ⟨r.type, known.2, htype, hv, hkey, hid, t, hvt, sameType_of_lowerType ht⟩

/-- No name is declared twice. -/
theorem Lowered.declared_inj (h : Lowered o globals k opening blocks fr f)
    (hk : k.Holds d.params d.registers d.blocks) {j j' : Nat} {e e' : Source.VariableDescription}
    (he : d.registers[j]? = some e) (he' : d.registers[j']? = some e') (hname : e.name = e'.name) :
    j = j' := by
  -- lowering would have refused a second declaration, for it has the number of the first
  have hids : opening.scope.registers.map Prod.fst = k.scope.registers.map (·.id) :=
    map_eq_of_forall₂ (fun _ _ hr => hr.1) h.opened.registers.forall₂
  have hnodup := h.opened.registers.nodup
  rw [hids] at hnodup
  obtain ⟨r, hr, hr_name, -⟩ := forall₂_getElem? hk.registers he
  obtain ⟨r', hr', hr'_name, -⟩ := forall₂_getElem? hk.registers he'
  have hid : some r.id = some r'.id := by
    rw [← hk.tidy.declared r (List.mem_of_getElem? hr),
      ← hk.tidy.declared r' (List.mem_of_getElem? hr'), hr_name, hr'_name, hname]
  have hj : (k.scope.registers.map (·.id))[j]? = some r.id := by rw [List.getElem?_map, hr]; rfl
  have hj' : (k.scope.registers.map (·.id))[j']? = some r'.id := by
    rw [List.getElem?_map, hr']; rfl
  obtain ⟨hlt, -⟩ := List.getElem?_eq_some_iff.mp hj
  exact (List.getElem?_inj hlt hnodup).mp (by rw [hj, hj', hid])

/-- **Different names denote different registers**, and a name denotes one. -/
theorem Lowered.denotes_inj (h : Lowered o globals k opening blocks fr f)
    (hk : k.Holds d.params d.registers d.blocks) {n n' : String} {v v' : Register}
    (hn : Denotes d f n v) (hn' : Denotes d f n' v') : v = v' ↔ n = n' := by
  obtain ⟨j, e, he, rfl, hv⟩ := hn
  obtain ⟨j', e', he', rfl, hv'⟩ := hn'
  constructor
  · -- a register is at the place of its key
    rintro rfl
    have hj : j = j' := (h.numbered j v hv).1.symm.trans (h.numbered j' v hv').1
    rw [hj, he'] at he
    cases he
    rfl
  · intro hname
    rw [h.declared_inj hk he he' hname, hv'] at hv
    cases hv
    rfl

/-! ### Instructions -/

/-- **An instruction that is read from a line and rendered has the registers that the line
spells.** -/
theorem Lowered.binds (h : Lowered o globals k opening blocks fr f)
    (hk : k.Holds d.params d.registers d.blocks) (hsize : k.scope.names.length < UInt32.size)
    {i : Source.Instruction} {p : Source.LineParts} (hi : i.ReadIn k.scope p) {block : Nat}
    {fr₁ fr₂ : Frame} {x : Instr} (hx : opening.scope.Renders block i fr₁ x fr₂) :
    Binds d f i x := by
  have hslot : ∀ y, some y ∈ i.taken → ∃ text, y.form.ReadIn k.scope text := by
    intro y hy
    obtain ⟨n, hn⟩ := List.mem_iff_getElem?.mp (i.mem_slots_of_mem_taken hy)
    obtain ⟨-, text, -, hform⟩ := hi.operands n y hn
    exact ⟨text, hform⟩
  constructor
  · have hread := hi.guard
    have himage := Scope.isGuard_of_guard hx.guard_eq
    cases hg : i.guard with
    | always | never =>
      rw [hg] at himage
      exact himage
    | straight r | inverse r =>
      rw [hg] at hread himage
      obtain ⟨v, hv, hpredicate⟩ := himage
      exact ⟨v, h.denotes_of_lookup hk hsize hread.1 hv, hpredicate⟩
    -- reading never gives such a guard: `hread` is false
    | unknown code r =>
      rw [hg] at hread
      exact hread
  · intro n y hy
    obtain ⟨text, hread⟩ := hslot y (List.mem_of_getElem? hy)
    -- the image stands at the operand's place, in front of any added literal
    obtain ⟨ys, more, hys, -, hoperands⟩ := hx.fillsTaken
    obtain ⟨z, hz, y', fr₃, fr₄, hy', -, hmaps, -⟩ := forall₂_getElem? hys.between hy
    cases hy'
    obtain ⟨hlt, -⟩ := List.getElem?_eq_some_iff.mp hz
    have hplace : (x.writes ++ x.operandsRead)[n]? = some (some z) := by
      rw [hoperands, List.getElem?_map, List.getElem?_append_left hlt, hz]
      rfl
    cases hmaps with
    -- only these two forms bind a register by its name
    | register hv | indirect hv => exact ⟨_, h.denotes_of_lookup hk hsize hread.1 hv, hplace⟩
    | _ => trivial

/-- **The function of a lowered kernel captures no register.** -/
theorem Lowered.uncaptured (h : Lowered o globals k opening blocks fr f) (hk : d.load = .ok k)
    (hsize : k.scope.names.length < UInt32.size) : Uncaptured d k f := by
  have hholds := Source.KernelDescription.holds_of_load hk
  refine ⟨fun j e he => h.exists_register hholds he, ?_, fun _ _ _ _ hn hn' =>
    h.denotes_inj hholds hn hn'⟩
  intro j b hb
  have hlaidOut := h.laidOut (Source.KernelDescription.load_linked hk).sequence_eq
  obtain ⟨hlt, -⟩ := List.getElem?_eq_some_iff.mp hb
  obtain ⟨b', hb', hblock⟩ := hlaidOut.get (k.graph.getElem?_nodes_block hlt)
  refine ⟨b', hb', ?_⟩
  have hcode : k.graph.code (.block j) = b.code := by
    rw [Source.Graph.code, hb]
    rfl
  have hrendered := hblock.code
  rw [hcode] at hrendered
  refine ((List.forall₂_and_left _ _).mpr ⟨fun i hi => hi, hrendered⟩).imp fun i x hx => ?_
  obtain ⟨hi, fr₁, fr₂, hx⟩ := hx
  obtain ⟨e, -, hlines⟩ := exists_of_forall₂_right hholds.blocks (List.mem_of_getElem? hb)
  obtain ⟨line, -, hline⟩ := exists_of_forall₂_right hlines hi
  obtain ⟨p, -, hp⟩ := hline.readIn
  exact h.binds hholds hsize hp hx

/-- Names that a bound instruction mentions are declared. -/
theorem Binds.exists_declared {i : Source.Instruction} {x : Instr} (h : Binds d f i x)
    {name : String} (hname : i.Mentions name) : ∃ e ∈ d.registers, e.name = name := by
  -- the name is in the guard or in an operand; either is bound to a register of the function
  have hdenotes : ∃ v, Denotes d f name v := by
    obtain ⟨r, rfl, hguard | ⟨o, ho, hform⟩⟩ := hname
    · have hbinds := h.guard
      cases hg : i.guard with
      | straight r' | inverse r' =>
        rw [hg] at hguard hbinds
        cases hguard
        obtain ⟨v, hv, -⟩ := hbinds
        exact ⟨v, hv⟩
      | always | never =>
        rw [hg] at hguard
        cases hguard
      | unknown code r' =>
        rw [hg] at hbinds
        exact absurd hbinds id
    · obtain ⟨n, hn⟩ := List.mem_iff_getElem?.mp ho
      have hbinds := h.operands n o hn
      cases hx : o.form with
      | register r' | indirect r' offset =>
        rw [hx] at hform hbinds
        cases hform
        obtain ⟨v, hv, -⟩ := hbinds
        exact ⟨v, hv⟩
      | _ =>
        rw [hx] at hform
        cases hform
  obtain ⟨v, j, e, he, hname, -⟩ := hdenotes
  exact ⟨e, List.mem_of_getElem? he, hname⟩

end Kernel

/-- **No register is captured between the text of a kernel and its virtual code.**  The lines spell
the instructions of a loaded kernel.  If the module is lowered, then the registers that its
instructions spell are those of the declarations, in order and apart; and it is not lowered if one
of them is not declared. -/
theorem lower_uncaptured {d : Source.KernelDescription} {k : Source.Kernel} (hk : d.load = .ok k)
    (hsize : k.scope.names.length < UInt32.size) {m : Source.Module} {t : Nat}
    (hm : m.kernels[t]? = some k) (o : Options) :
    d.Spells k ∧
      (∀ v, lower o m = .ok v → ∃ f, v.functions[t]? = some f ∧ Uncaptured d k f) ∧
      ∀ b ∈ k.graph.blocks, ∀ i ∈ b.code, ∀ name, i.Mentions name →
        (∀ e ∈ d.registers, e.name ≠ name) → ∀ v, lower o m ≠ .ok v := by
  have huncaptured : ∀ v, lower o m = .ok v → ∃ f, v.functions[t]? = some f ∧ Uncaptured d k f := by
    intro v hv
    obtain ⟨f, hf, hkernel⟩ := forall₂_getElem? (lowered_of_lower hv).functions hm
    obtain ⟨opening, blocks, fr, hlowered⟩ := lowered_of_lowerKernel hkernel
    exact ⟨f, hf, hlowered.uncaptured hk hsize⟩
  refine ⟨?_, huncaptured, ?_⟩
  · have hholds := Source.KernelDescription.holds_of_load hk
    exact hholds.blocks.imp fun e b hb => hb.imp fun line i hi => hi.readIn
  · -- had lowering succeeded, the name would denote a declared register
    intro b hb i hi name hname hnone v hv
    obtain ⟨f, -, hf⟩ := huncaptured v hv
    obtain ⟨j, hj⟩ := List.mem_iff_getElem?.mp hb
    obtain ⟨b', -, hcode⟩ := hf.code j b hj
    obtain ⟨x, -, hx⟩ := exists_of_forall₂_left hcode hi
    obtain ⟨e, he, hename⟩ := hx.exists_declared hname
    exact hnone e he hename

/-- A kernel that spells two registers that it does not declare, the first in a guard. -/
def strayKernel : Source.KernelDescription :=
  { name := "stray", linkage := "", params := [], registers := [⟨"%r", "u32"⟩]
    blocks := [⟨"", ["@!%p mov.u32 %r, %q;", "ret;"]⟩] }

theorem countKernel_uncaptured_strayKernel_refused :
    (∃ k m v f, countKernel.load = .ok k ∧ k.scope.names.length < UInt32.size ∧
      m.kernels[0]? = some k ∧ lower {} m = .ok v ∧ v.functions[0]? = some f ∧
      Uncaptured countKernel k f) ∧
    ∃ k, strayKernel.load = .ok k ∧ k.scope.names.length < UInt32.size ∧
      (∃ b ∈ k.graph.blocks, ∃ i ∈ b.code, i.Mentions "%p") ∧
      ∀ m v, m.kernels[0]? = some k → lower {} m ≠ .ok v := by
  constructor
  · obtain ⟨m, v, hm, hv⟩ := exists_lower_countModule
    obtain ⟨k, hj, hk⟩ := forall₂_getElem? (Source.Description.load_forall₂ hm).2 (t := 0) rfl
    -- the loaded kernel has too large a term to be written here, so its properties are evaluated
    have hnames : countKernel.load.toOption.all fun k => k.scope.names.length < UInt32.size := by
      decide +kernel
    have hk' : countKernel.load = .ok k := hk
    rw [hk'] at hnames
    have hsize : k.scope.names.length < UInt32.size := of_decide_eq_true hnames
    obtain ⟨f, hf, huncaptured⟩ := (lower_uncaptured hk hsize hj {}).2.1 v hv
    exact ⟨k, m, v, f, hk, hsize, hj, hv, hf, huncaptured⟩
  · have hstray : strayKernel.load.toOption.any fun k =>
        k.scope.names.length < UInt32.size ∧ k.graph.blocks.any fun b =>
          b.code.any fun i => i.guard.register?.any (·.name = "%p") := by
      decide +kernel
    cases hk : strayKernel.load with
    | error e =>
      rw [hk] at hstray
      cases hstray
    | ok k =>
      rw [hk] at hstray
      obtain ⟨hsize, hblock⟩ := of_decide_eq_true hstray
      obtain ⟨b, hb, hcode⟩ := List.any_eq_true.mp hblock
      obtain ⟨i, hi, hguard⟩ := List.any_eq_true.mp hcode
      obtain ⟨r, hr, hname⟩ := (Option.any_eq_true _ _).mp hguard
      have hmentions : i.Mentions "%p" := ⟨r, of_decide_eq_true hname, .inl hr⟩
      refine ⟨k, rfl, hsize, ⟨b, hb, i, hi, hmentions⟩, fun m v hm => ?_⟩
      exact (lower_uncaptured hk hsize hm {}).2.2 b hb i hi "%p" hmentions (by decide) v

end Lowering

end KernelIR
