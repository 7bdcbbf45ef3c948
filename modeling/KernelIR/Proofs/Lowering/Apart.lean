import KernelIR.Proofs.Lowering.Capture
import KernelIR.Proofs.Lowering.Module
import KernelIR.Proofs.Lowering.Naming

/-!
# Registers of different kinds are kept apart

`lower_unmixed`: in a lowered module, operands share a register only if they should.  Special
registers have the same one exactly if register and lane are the same, a result that nobody wants
has one that no other operand and no guard uses, neither is declared, and no two registers of a
function are written alike.

Two things are carried through lowering, by `Frame.Passes`.  The first is that every register of the
frame is named after its kind (`Frame.Named`); names then tell the kinds apart, and the registers
within each.  The second is a ledger: the registers without a name are, in order, those of the
operands that have been lowered.  No register stands in a function twice, so no two operands have
the same of these.
-/

namespace KernelIR

/-! ### Operands and the registers they use -/

namespace Source

/-- The code of a kernel, block by block. -/
def Kernel.code (k : Kernel) : List Instruction :=
  k.graph.blocks.flatMap Block.code

/-- The operand in a slot of an instruction, if the opcode has a use for it. -/
def Kernel.operandAt? (k : Kernel) (n j : Nat) : Option Operand :=
  k.code[n]?.bind fun i => i.taken[j]?.join

/-- Whether the form has a register that is not declared. -/
def Form.isMade : Form → Bool
  | .special .. | .sink => true
  | _ => false

end Source

namespace Virtual

/-- The register that an operand uses. -/
def Operand.register? : Operand → Option Register
  | .register r | .indirect r _ => r
  | .predicate p => p.register
  | .immediate .. | .address _ | .argument _ => none

/-- The registers that the guard and the operands of an instruction use, as often as they do. -/
def Instr.uses (x : Instr) : List Register :=
  x.guard.register.toList ++ (x.writes ++ x.operandsRead).filterMap (·.bind Operand.register?)

namespace Function

/-- The registers that the code of a function uses, as often as it does. -/
def uses (f : Function) : List Register :=
  f.code.flatMap Instr.uses

/-- The operand in a slot of an instruction, results first. -/
def operandAt? (f : Function) (n j : Nat) : Option Operand :=
  f.code[n]?.bind fun x => (x.writes ++ x.operandsRead)[j]?.join

end Function

/-- Whether a register is written as a number alone. -/
def Register.isNameless (r : Register) : Bool :=
  r.name = ""

end Virtual

namespace Lowering

open Source (Special)
open Virtual (Instr Operand Register)

/-- The function keeps the registers of the kernel apart by their kinds.  Its declared registers are
the first ones. -/
structure Unmixed (k : Source.Kernel) (f : Virtual.Function) : Prop where
  declared : ∀ n j o, k.operandAt? n j = some o → o.form.register?.isSome →
    ∃ v ∈ f.registers.take k.scope.registers.length,
      (f.operandAt? n j).bind Operand.register? = some v
  made : ∀ n j o, k.operandAt? n j = some o → o.form.isMade →
    ∃ v ∈ f.registers, v ∉ f.registers.take k.scope.registers.length ∧
      f.operandAt? n j = some (.register (some v))
  /-- the places may be the same or in different blocks -/
  specials : ∀ n j t r lane n' j' t' r' lane', k.operandAt? n j = some ⟨t, .special r lane⟩ →
    k.operandAt? n' j' = some ⟨t', .special r' lane'⟩ →
    (f.operandAt? n j = f.operandAt? n' j' ↔ r = r' ∧ lane = lane')
  /-- the register has no other use than this one -/
  sinks : ∀ n j t v, k.operandAt? n j = some ⟨t, .sink⟩ →
    f.operandAt? n j = some (.register (some v)) → f.uses.count v = 1
  texts : (f.registers.map Register.text).Nodup

/-! ### Frames with named registers -/

namespace Frame

variable {s : Scope} {fr fr₁ fr' : Frame} {us us' : List Register}

/-- A declared register has a name, one that stands for a special register has the name of that, and
no other register has one. -/
structure Named (s : Scope) (fr : Frame) : Prop where
  declared : ∀ e ∈ s.registers, e.2.name ≠ ""
  specials : ∀ e ∈ fr.specials, ∃ p ∈ Special.lanes,
    e.1 = specialKey p.1 p.2 ∧ e.2.name = specialName p.1 p.2
  keys : (fr.specials.map Prod.fst).Nodup
  registers : ∀ v ∈ fr.registers,
    v ∈ s.registers.map Prod.snd ∨ v ∈ fr.specials.map Prod.snd ∨ v.name = ""

theorem Named.ne_empty_of_special (h : fr.Named s) {e : UInt32 × Register} (he : e ∈ fr.specials) :
    e.2.name ≠ "" := by
  obtain ⟨p, hp, -, hname⟩ := h.specials e he
  rw [hname]
  exact specialName_ne_empty hp

/-- A register without a name can be added. -/
theorem Named.push (h : fr.Named s) {v : Register} (hv : v.name = "") : (fr.push v).Named s := by
  refine ⟨h.declared, h.specials, h.keys, fun w hw => ?_⟩
  rcases List.mem_append.mp hw with hw | hw
  · exact h.registers w hw
  · rw [List.mem_singleton.mp hw]
    exact .inr (.inr hv)

/-- A register for a special register that has none can be added. -/
theorem Named.pushSpecial (h : fr.Named s) {p : Special × Source.Lane} (hp : p ∈ Special.lanes)
    (hnew : fr.specials.lookup (specialKey p.1 p.2) = none) {v : Register}
    (hv : v.name = specialName p.1 p.2) :
    { fr.push v with specials := (specialKey p.1 p.2, v) :: fr.specials : Frame }.Named s := by
  refine ⟨h.declared, ?_, ?_, fun w hw => ?_⟩
  · intro e he
    rcases List.mem_cons.mp he with rfl | he
    · exact ⟨p, hp, rfl, hv⟩
    · exact h.specials e he
  · -- the key is new, since looking it up has failed
    refine List.nodup_cons.mpr ⟨fun hmem => ?_, h.keys⟩
    rw [← lookup_isSome_iff_mem, hnew] at hmem
    cases hmem
  · rcases List.mem_append.mp hw with hw | hw
    · -- a register from before keeps the reason for which it was there
      rcases h.registers w hw with hw | hw | hw
      · exact .inl hw
      · exact .inr (.inl (List.mem_cons_of_mem _ hw))
      · exact .inr (.inr hw)
    · rw [List.mem_singleton.mp hw]
      exact .inr (.inl List.mem_cons_self)

/-! ### Passages -/

/-- From `fr` to `fr'` operands are lowered that use the registers of `us`.  What is remembered
stays so, the invariant is kept, and the registers without a name that are added are those of `us`
that have none. -/
structure Passes (s : Scope) (fr : Frame) (us : List Register) (fr' : Frame) : Prop where
  grows : fr.Grows s fr'
  specials : ∀ key v, fr.specials.lookup key = some v → fr'.specials.lookup key = some v
  named : fr.Named s → fr'.Named s
  nameless : fr.Named s → fr'.registers.filter Register.isNameless =
    fr.registers.filter Register.isNameless ++ us.filter Register.isNameless

/-- Registers that have a name are used without a trace. -/
theorem Passes.still (h : fr.Named s → ∀ v ∈ us, v.name ≠ "") : fr.Passes s us fr := by
  refine ⟨.refl s fr, fun _ _ hv => hv, id, fun hnamed => ?_⟩
  have hnone : us.filter Register.isNameless = [] := by
    simpa [Register.isNameless] using h hnamed
  rw [hnone, List.append_nil]

theorem Passes.nil (s : Scope) (fr : Frame) : fr.Passes s [] fr :=
  .still fun _ _ hv => absurd hv List.not_mem_nil

theorem Passes.append (h : fr.Passes s us fr₁) (h' : fr₁.Passes s us' fr') :
    fr.Passes s (us ++ us') fr' := by
  refine ⟨h.grows.trans h'.grows, fun key v hv => h'.specials key v (h.specials key v hv),
    fun hnamed => h'.named (h.named hnamed), fun hnamed => ?_⟩
  rw [h'.nameless (h.named hnamed), h.nameless hnamed, List.filter_append, List.append_assoc]

theorem Passes.counted (s : Scope) (fr : Frame) : fr.Passes s [] fr.counted :=
  ⟨.counted s fr, fun _ _ hv => hv, fun h => ⟨h.declared, h.specials, h.keys, h.registers⟩,
    fun _ => (List.append_nil _).symm⟩

end Frame

/-- A run whose steps are passages is one itself, and leads on from the end of every step. -/
theorem Run.passes {α β : Type} {s : Scope} {f : α → Lower β} {uses : β → List Register}
    {fr fr' : Frame} {xs : List α} {ys : List β} (h : Run f fr xs ys fr')
    (hstep : ∀ x ∈ xs, ∀ fr y fr', Yields (f x) fr y fr' → fr.Passes s (uses y) fr') :
    fr.Passes s (ys.flatMap uses) fr' ∧ List.Forall₂ (fun x y => x ∈ xs ∧
      ∃ fr₁ fr₂ us, Yields (f x) fr₁ y fr₂ ∧ fr₂.Passes s us fr') xs ys := by
  induction h with
  | nil => exact ⟨.nil s _, .nil⟩
  | cons hy hrun ih =>
    obtain ⟨hpasses, hrest⟩ := ih fun x hx => hstep x (List.mem_cons_of_mem _ hx)
    have hfirst := hstep _ List.mem_cons_self _ _ _ hy
    refine ⟨hfirst.append hpasses, .cons ⟨List.mem_cons_self, _, _, _, hy, hpasses⟩ ?_⟩
    exact hrest.imp fun x y hxy => ⟨List.mem_cons_of_mem _ hxy.1, hxy.2⟩

/-! ### One operand, one instruction -/

/-- The operand is a special register with a lane that can be spelled, or none. -/
def Laned (o : Source.Operand) : Prop :=
  ∀ r lane, o.form = .special r lane → (r, lane) ∈ Special.lanes

namespace Scope

variable {s : Scope} {fr fr₁ fr' : Frame} {block : Nat} {i : Source.Instruction} {x : Instr}

/-- `s.Settles fr o y`: in the frame `fr` it is settled that `y` has the register for `o`. -/
def Settles (s : Scope) (fr : Frame) (o : Source.Operand) (y : Operand) : Prop :=
  match o.form with
  | .register r | .indirect r _ => ∃ v, s.registers.lookup r.id = some v ∧ y.register? = some v
  | .special r lane =>
    ∃ v, fr.specials.lookup (specialKey r lane) = some v ∧ y = .register (some v)
  | .sink => ∃ v ∈ fr.registers, v.name = "" ∧ y = .register (some v)
  | .immediate _ | .address .. | .label _ | .unknown _ => True

theorem Settles.passes {o : Source.Operand} {y : Operand} (h : s.Settles fr o y)
    {us : List Register} (hpasses : fr.Passes s us fr') : s.Settles fr' o y := by
  obtain ⟨t, form⟩ := o
  cases form with
  | special r lane =>
    obtain ⟨v, hv, hy⟩ := h
    exact ⟨v, hpasses.specials _ v hv, hy⟩
  | sink =>
    obtain ⟨v, hv, hname, hy⟩ := h
    exact ⟨v, hpasses.grows.registers.subset hv, hname, hy⟩
  | _ => exact h

theorem Maps.settles {o : Source.Operand} {y : Operand} (h : s.Maps fr o y fr') :
    s.Settles fr' o y := by
  cases h with
  | register hv => exact ⟨_, hv, rfl⟩
  | indirect hv => exact ⟨_, hv, rfl⟩
  | known hv => exact ⟨_, hv, rfl⟩
  | special _ _ => exact ⟨_, List.lookup_cons_self, rfl⟩
  | sink hv =>
    subst hv
    exact ⟨_, List.mem_append_right _ (List.mem_singleton_self _), rfl, rfl⟩
  | _ => trivial

/-- **An operand passes with the register of its image.**  Only a result that nobody wants adds a
register without a name. -/
theorem Maps.passes {o : Source.Operand} {y : Operand} (h : s.Maps fr o y fr') (ho : Laned o) :
    fr.Passes s y.register?.toList fr' := by
  have hgrows := h.grows
  have hspecials : ∀ key v, fr.specials.lookup key = some v → fr'.specials.lookup key = some v :=
    fun key v hv => h.lookup_specials hv
  cases h with
  | register hv | indirect hv =>
    refine .still fun hnamed w hw => ?_
    rw [List.mem_singleton.mp hw]
    exact hnamed.declared _ (mem_of_lookup hv)
  | known hv =>
    refine .still fun hnamed w hw => ?_
    rw [List.mem_singleton.mp hw]
    exact hnamed.ne_empty_of_special (mem_of_lookup hv)
  | @special t r lane v hnew hv =>
    have hp := ho r lane rfl
    have hname : v.name = specialName r lane := by rw [hv]; rfl
    refine ⟨hgrows, hspecials, fun hnamed => hnamed.pushSpecial hp hnew hname, fun _ => ?_⟩
    -- the register is added and used, but has a name, so that neither side sees it
    have hnone : [v].filter Register.isNameless = [] := by
      simpa [Register.isNameless, hname] using specialName_ne_empty hp
    show (fr.registers ++ [v]).filter _ = _ ++ [v].filter _
    rw [List.filter_append, hnone]
  | @sink t v hv =>
    have hname : v.name = "" := by rw [hv]; rfl
    refine ⟨hgrows, hspecials, fun hnamed => hnamed.push hname, fun _ => ?_⟩
    exact List.filter_append ..
  | _ => exact .nil s fr

/-- Operands that are lowered one behind the other. -/
theorem FillsAll.passes {os : List (Option Source.Operand)} {ys : List Operand}
    (h : s.FillsAll fr os ys fr') (hos : ∀ o, some o ∈ os → Laned o) :
    fr.Passes s (ys.flatMap fun y => y.register?.toList) fr' ∧
      List.Forall₂ (fun o y => ∀ o', o = some o' → s.Settles fr' o' y) os ys := by
  induction h with
  | nil => exact ⟨.nil s _, .nil⟩
  | @cons fr fr₁ fr' o y os ys hy _ ih =>
    obtain ⟨hpasses, hsettles⟩ := ih fun o ho => hos o (List.mem_cons_of_mem _ ho)
    obtain ⟨o, rfl, hmaps⟩ := hy
    have hfirst := hmaps.passes (hos o List.mem_cons_self)
    refine ⟨?_, .cons ?_ hsettles⟩
    · exact hfirst.append hpasses
    · rintro _ ⟨⟩
      exact hmaps.settles.passes hpasses

/-- The operands of the instruction have registers for those that are taken. -/
def SettlesAll (s : Scope) (fr : Frame) (i : Source.Instruction) (x : Instr) : Prop :=
  ∀ (j : Nat) (o : Source.Operand), i.taken[j]? = some (some o) →
    ∃ y, (x.writes ++ x.operandsRead)[j]? = some (some y) ∧ s.Settles fr o y

theorem SettlesAll.passes (h : s.SettlesAll fr i x) {us : List Register}
    (hpasses : fr.Passes s us fr') : s.SettlesAll fr' i x := by
  intro j o ho
  obtain ⟨y, hy, hsettles⟩ := h j o ho
  exact ⟨y, hy, hsettles.passes hpasses⟩

/-- A guard uses a declared register or none. -/
theorem passes_guard {g : Source.Guard} {q : Virtual.Predicate} (h : s.guard g = .ok q)
    (fr : Frame) : fr.Passes s q.register.toList fr := by
  refine .still fun hnamed v hv => ?_
  have hisGuard := isGuard_of_guard h
  cases g with
  | always | never =>
    rw [hisGuard] at hv
    cases hv
  | straight r | inverse r | unknown _ r =>
    obtain ⟨w, hw, rfl⟩ := hisGuard
    rw [List.mem_singleton.mp hv]
    exact hnamed.declared _ (mem_of_lookup hw)

/-- **An instruction passes with the registers that it uses.** -/
theorem Renders.passes (h : s.Renders block i fr x fr') (hi : ∀ o, some o ∈ i.taken → Laned o) :
    fr.Passes s x.uses fr' ∧ s.SettlesAll fr' i x := by
  obtain ⟨ys, more, hys, hmore, hoperands⟩ := h.fillsTaken
  obtain ⟨hpasses, hsettles⟩ := hys.passes hi
  constructor
  · -- literals that the lowering adds hold no register, so they use none
    have hliterals : more.filterMap Operand.register? = [] := by
      refine List.filterMap_eq_nil_iff.mpr fun y hy => ?_
      obtain ⟨bits, t, rfl⟩ := hmore.exists_immediate hy
      rfl
    have huses : x.uses = x.guard.register.toList ++ ys.flatMap fun y => y.register?.toList := by
      rw [Instr.uses, hoperands, List.filterMap_map, ← List.filterMap_eq_flatMap_toList]
      show _ ++ (ys ++ more).filterMap Operand.register? = _
      rw [List.filterMap_append, hliterals, List.append_nil]
    rw [huses]
    exact (passes_guard h.guard_eq fr).append ((Frame.Passes.counted s fr).append hpasses)
  · intro j o ho
    obtain ⟨y, hy, hoy⟩ := forall₂_getElem? hsettles ho
    refine ⟨y, ?_, hoy o rfl⟩
    obtain ⟨hlt, -⟩ := List.getElem?_eq_some_iff.mp hy
    rw [hoperands, List.getElem?_map, List.getElem?_append_left hlt, hy]
    rfl

end Scope

/-! ### How registers are written -/

theorem Numbered.nodup {rs : List Register} (h : Numbered rs) : rs.Nodup := by
  refine List.nodup_iff_getElem?_ne_getElem?.mpr fun i j hij hj heq => ?_
  have hlast := List.getElem?_eq_getElem hj
  have hi := (h i _ (heq.trans hlast)).1
  have hj := (h j _ hlast).1
  omega

theorem Declared.name_eq {stem : String} {rs : List Source.Register}
    {known : List (UInt32 × Register)} (h : Declared stem rs known) {e : UInt32 × Register}
    (he : e ∈ known) : e.2.name = stem ++ Text.decimal e.1.toNat := by
  obtain ⟨r, -, hid, -, hname⟩ := exists_of_forall₂_right h.forall₂ he
  rw [hname, hid]

namespace Frame

/-- The register of the frame is written so behind a percent sign. -/
inductive Writes (stem : String) (s : Scope) (fr : Frame) : Register → String → Prop
  | declared {e} : e ∈ s.registers → Writes stem s fr e.2 (stem ++ Text.decimal e.1.toNat)
  | special {p : Special × Source.Lane} {v : Register} :
    p ∈ Special.lanes → (specialKey p.1 p.2, v) ∈ fr.specials →
      Writes stem s fr v (specialName p.1 p.2)
  | number {v : Register} : v ∈ fr.registers → Writes stem s fr v (Text.decimal v.id)

variable {stem : String} {s : Scope} {fr : Frame} {v w : Register} {text text' : String}

theorem Named.exists_writes (h : fr.Named s) {rs : List Source.Register}
    (hs : Declared stem rs s.registers) (hv : v ∈ fr.registers) :
    ∃ text, v.text = "%" ++ text ∧ fr.Writes stem s v text := by
  unfold Register.text
  rcases h.registers v hv with hv | hv | hname
  · obtain ⟨e, he, rfl⟩ := List.mem_map.mp hv
    rw [if_neg (h.declared e he), hs.name_eq he]
    exact ⟨_, rfl, .declared he⟩
  · obtain ⟨⟨key, w⟩, he, rfl⟩ := List.mem_map.mp hv
    obtain ⟨p, hp, rfl, hname⟩ := h.specials _ he
    rw [if_neg (h.ne_empty_of_special he), hname]
    exact ⟨_, rfl, .special hp he⟩
  · rw [if_pos hname]
    exact ⟨_, rfl, .number hv⟩

/-- **Registers that are written alike are the same.**  Each way to write a register tells those
written in it apart, and a distinctive stem tells the ways apart. -/
theorem Writes.inj (hstem : Distinctive stem) (hkeys : (s.registers.map Prod.fst).Nodup)
    (hnumbered : Numbered fr.registers) (hnamed : fr.Named s) (hv : fr.Writes stem s v text)
    (hw : fr.Writes stem s w text') (h : text = text') : v = w := by
  cases hv with
  | declared he =>
    cases hw with
    | declared he' =>
      have hid := UInt32.toNat_inj.mp (stem_decimal_inj h)
      rw [List.inj_on_of_nodup_map hkeys he he' hid]
    | special hp _ => exact absurd h (hstem.ne_specialName _ hp)
    | number _ => exact absurd h (hstem.ne_decimal _ _)
  | special hp he =>
    cases hw with
    | declared _ => exact absurd h.symm (hstem.ne_specialName _ hp)
    | special hp' he' =>
      cases specialName_inj hp hp' h
      exact congrArg Prod.snd (List.inj_on_of_nodup_map hnamed.keys he he' rfl)
    | number _ => exact absurd h (specialName_ne_decimal hp _)
  | number hv =>
    cases hw with
    | declared _ => exact absurd h.symm (hstem.ne_decimal _ _)
    | special hp _ => exact absurd h.symm (specialName_ne_decimal hp _)
    | number hw =>
      -- the number is the place in the frame
      have hv' := hnumbered.getElem?_key hv
      have hw' := hnumbered.getElem?_key hw
      have hkey : v.key = w.key := by
        rw [← (hnumbered _ _ hv').2, ← (hnumbered _ _ hw').2]
        exact Text.decimal_inj h
      rw [hkey, hw'] at hv'
      exact (Option.some.inj hv').symm

end Frame

/-! ### Kernels -/

theorem passes_lowerBlock {g : Source.Graph} {s : Scope} {block : Nat} {n : Source.Node}
    {fr fr' : Frame} {b : Virtual.Block} (h : Yields (lowerBlock g s block n) fr b fr')
    (hn : ∀ i ∈ g.code n, ∀ o, some o ∈ i.taken → Laned o) :
    fr.Passes s (b.code.flatMap Instr.uses) fr' ∧
      List.Forall₂ (s.SettlesAll fr') (g.code n) b.code := by
  obtain ⟨-, -, hrun⟩ := yields_lowerBlock.mp h
  obtain ⟨hpasses, hsteps⟩ := hrun.passes fun i hi fr x fr' hx =>
    ((renders_of_lowerInstruction hx).passes (hn i hi)).1
  refine ⟨hpasses, hsteps.imp ?_⟩
  rintro i x ⟨hi, fr₁, fr₂, us, hx, hbehind⟩
  exact ((renders_of_lowerInstruction hx).passes (hn i hi)).2.passes hbehind

section Kernel

variable {o : Options} {globals : List Virtual.Global} {k : Source.Kernel} {opening : Opening}
  {blocks : List Virtual.Block} {fr : Frame} {f : Virtual.Function}

/-- The body of a linked kernel is its code. -/
theorem Opened.flatMap_body (h : Opened o globals k opening) (hlinked : k.graph.Linked) :
    (opening.body.flatMap fun e => k.graph.code e.2) = k.code := by
  have hmap : (opening.body.map fun e => k.graph.code e.2) =
      k.graph.blocks.map Source.Block.code := by
    rw [h.body, bodyNodes_of_sequence hlinked.sequence_eq]
    refine List.ext_getElem (by simp) fun j hj hj' => ?_
    simp only [List.length_map] at hj'
    simp [Source.Graph.code, hj']
  rw [Source.Kernel.code, List.flatMap_def, List.flatMap_def, hmap]

/-- The registers are named after their kinds when the kernel is opened. -/
theorem Opened.named (h : Opened o globals k opening) : opening.frame.Named opening.scope := by
  rw [h.frame]
  refine ⟨fun e he => ?_, ?_, List.nodup_nil, fun v hv => .inl hv⟩
  · rw [h.registers.name_eq he]
    exact stem_decimal_ne_empty _
  · intro e he
    cases he

/-- What is known of the function when all of the kernel is lowered. -/
structure Accounted (stem : String) (k : Source.Kernel) (s : Scope) (fr : Frame)
    (f : Virtual.Function) : Prop where
  declared : Declared stem k.scope.registers s.registers
  registers : f.registers = fr.registers
  first : s.registers.map Prod.snd <+: f.registers
  covers : fr.Covers s
  named : fr.Named s
  nameless : f.registers.filter Register.isNameless = f.uses.filter Register.isNameless
  laned : ∀ i ∈ k.code, ∀ o, some o ∈ i.taken → Laned o
  code : List.Forall₂ (s.SettlesAll fr) k.code f.code

/-- **A lowered kernel is accounted for**, by one run through its blocks. -/
theorem Lowered.accounted (h : Lowered o globals k opening blocks fr f) (hlinked : k.graph.Linked)
    (hk : ∀ i ∈ k.code, ∀ o, some o ∈ i.taken → Laned o) :
    Accounted o.stem k opening.scope fr f := by
  have hbody := h.opened.flatMap_body hlinked
  have hnode : ∀ e ∈ opening.body, ∀ i ∈ k.graph.code e.2, ∀ o, some o ∈ i.taken → Laned o := by
    intro e he i hi
    refine hk i ?_
    rw [← hbody]
    exact List.mem_flatMap.mpr ⟨e, he, hi⟩
  obtain ⟨hpasses, hsteps⟩ := h.run.passes fun e he fr b fr' hb =>
    (passes_lowerBlock hb (hnode e he)).1
  -- only declared registers are there at first, and they all have names
  have hstart : opening.frame.registers.filter Register.isNameless = [] := by
    rw [h.opened.frame]
    simpa [Register.isNameless] using fun v key he => h.opened.named.declared (key, v) he
  have hregisters : f.registers = fr.registers := by
    rw [h.function]
    rfl
  refine ⟨h.opened.registers, hregisters, h.registers, hpasses.grows.covers h.opened.covers,
    hpasses.named h.opened.named, ?_, hk, ?_⟩
  · rw [hregisters, hpasses.nameless h.opened.named, hstart, Virtual.Function.uses, h.code_eq,
      List.flatMap_assoc]
    rfl
  · rw [← hbody, h.code_eq]
    refine List.rel_flatMap hsteps ?_
    rintro e b ⟨he, fr₁, fr₂, us, hb, hbehind⟩
    exact (passes_lowerBlock hb (hnode e he)).2.imp fun i x hx => hx.passes hbehind

end Kernel

namespace Accounted

variable {stem : String} {k : Source.Kernel} {s : Scope} {fr : Frame} {f : Virtual.Function}

/-- The operand at a place of the kernel has its register at the same place of the function. -/
theorem settles_at (h : Accounted stem k s fr f) {n j : Nat} {o : Source.Operand}
    (ho : k.operandAt? n j = some o) :
    Laned o ∧ ∃ y, f.operandAt? n j = some y ∧ s.Settles fr o y := by
  obtain ⟨i, hi, hslot⟩ := Option.bind_eq_some_iff.mp ho
  rw [Option.join_eq_some_iff] at hslot
  obtain ⟨x, hx, hsettles⟩ := forall₂_getElem? h.code hi
  obtain ⟨y, hy, hoy⟩ := hsettles j o hslot
  refine ⟨h.laned i (List.mem_of_getElem? hi) o (List.mem_of_getElem? hslot), y, ?_, hoy⟩
  rw [Virtual.Function.operandAt?, hx]
  exact Option.join_eq_some_iff.mpr hy

/-- The declared registers are the first ones. -/
theorem take_registers (h : Accounted stem k s fr f) :
    f.registers.take k.scope.registers.length = s.registers.map Prod.snd := by
  rw [List.prefix_iff_eq_take.mp h.first, List.length_map, h.declared.forall₂.length_eq]

/-- The name of a declared register is made of the stem and a number. -/
theorem name_of_mem_take (h : Accounted stem k s fr f) {v : Register}
    (hv : v ∈ f.registers.take k.scope.registers.length) :
    ∃ n, v.name = stem ++ Text.decimal n := by
  rw [h.take_registers] at hv
  obtain ⟨e, he, rfl⟩ := List.mem_map.mp hv
  exact ⟨_, h.declared.name_eq he⟩

/-- The register of a special register is there and has its name. -/
theorem special_of_lookup (h : Accounted stem k s fr f) {r : Special} {lane : Source.Lane}
    (hlane : (r, lane) ∈ Special.lanes) {v : Register}
    (hv : fr.specials.lookup (specialKey r lane) = some v) :
    v ∈ f.registers ∧ v.name = specialName r lane := by
  have hmem := mem_of_lookup hv
  obtain ⟨p, hp, hkey, hname⟩ := h.named.specials _ hmem
  cases specialKey_inj hlane hp hkey
  rw [h.registers]
  exact ⟨h.covers.specials _ hmem, hname⟩

theorem nodup_registers (h : Accounted stem k s fr f) : f.registers.Nodup := by
  rw [h.registers]
  exact h.covers.numbered.nodup

/-- A register without a name is used once. -/
theorem count_uses (h : Accounted stem k s fr f) {v : Register} (hv : v ∈ f.registers)
    (hname : v.name = "") : f.uses.count v = 1 := by
  -- among registers without a name, being used and being there are the same
  have hnameless : v.isNameless = true := decide_eq_true hname
  rw [← List.count_filter hnameless, ← h.nameless, List.count_filter hnameless]
  exact List.count_eq_one_of_mem h.nodup_registers hv

theorem nodup_texts (h : Accounted stem k s fr f) (hstem : Distinctive stem) :
    (f.registers.map Register.text).Nodup := by
  refine h.nodup_registers.map_on fun v hv w hw heq => ?_
  rw [h.registers] at hv hw
  obtain ⟨text, hv, hvw⟩ := h.named.exists_writes h.declared hv
  obtain ⟨text', hw, hww⟩ := h.named.exists_writes h.declared hw
  rw [hv, hw] at heq
  refine hvw.inj hstem h.declared.nodup h.covers.numbered h.named hww ?_
  have hlist := congrArg String.toList heq
  rw [String.toList_append, String.toList_append] at hlist
  exact String.toList_injective (List.append_cancel_left hlist)

/-- **What is accounted for is kept apart.** -/
theorem unmixed (h : Accounted stem k s fr f) (hstem : Distinctive stem) : Unmixed k f := by
  refine ⟨?_, ?_, ?_, ?_, h.nodup_texts hstem⟩
  · -- a named register is one of the declared ones
    rintro n j ⟨t, form⟩ ho hform
    obtain ⟨-, y, hy, hsettles⟩ := h.settles_at ho
    rw [h.take_registers, hy]
    cases form with
    | register r | indirect r offset =>
      obtain ⟨v, hv, hyv⟩ := hsettles
      exact ⟨v, List.mem_map.mpr ⟨_, mem_of_lookup hv, rfl⟩, hyv⟩
    | _ => cases hform
  · -- a special register or a sink is none of them, because of its name
    rintro n j ⟨t, form⟩ ho hform
    obtain ⟨hlaned, y, hy, hsettles⟩ := h.settles_at ho
    cases form with
    | special r lane =>
      obtain ⟨v, hv, rfl⟩ := hsettles
      have hlane := hlaned r lane rfl
      obtain ⟨hmem, hname⟩ := h.special_of_lookup hlane hv
      refine ⟨v, hmem, fun hfirst => ?_, hy⟩
      obtain ⟨m, hm⟩ := h.name_of_mem_take hfirst
      exact hstem.ne_specialName m hlane (hm.symm.trans hname)
    | sink =>
      obtain ⟨v, hv, hname, rfl⟩ := hsettles
      refine ⟨v, by rwa [h.registers], fun hfirst => ?_, hy⟩
      obtain ⟨m, hm⟩ := h.name_of_mem_take hfirst
      exact stem_decimal_ne_empty m (hm.symm.trans hname)
    | _ => cases hform
  · -- two uses of special registers share one exactly if they name the same lane
    intro n j t r lane n' j' t' r' lane' ho ho'
    obtain ⟨hlaned, y, hy, v, hv, rfl⟩ := h.settles_at ho
    obtain ⟨hlaned', y', hy', v', hv', rfl⟩ := h.settles_at ho'
    have hlane := hlaned r lane rfl
    have hlane' := hlaned' r' lane' rfl
    rw [hy, hy']
    constructor
    · intro heq
      cases heq
      have hname := (h.special_of_lookup hlane hv).2
      rw [(h.special_of_lookup hlane' hv').2] at hname
      exact Prod.mk.inj (specialName_inj hlane hlane' hname.symm)
    · rintro ⟨rfl, rfl⟩
      rw [hv] at hv'
      rw [hv']
  · -- a sink is made for one use
    intro n j t v ho hv
    obtain ⟨-, y, hy, w, hw, hname, rfl⟩ := h.settles_at ho
    rw [hy] at hv
    cases hv
    exact h.count_uses (by rwa [h.registers]) hname

end Accounted

/-! ### Modules -/

/-- The special registers of a loaded kernel have lanes that can be spelled. -/
theorem laned_of_load {d : Source.KernelDescription} {k : Source.Kernel} (h : d.load = .ok k)
    {i : Source.Instruction} (hi : i ∈ k.code) {o : Source.Operand} (ho : some o ∈ i.taken) :
    Laned o := by
  intro r lane hform
  obtain ⟨b, hb, hib⟩ := List.mem_flatMap.mp hi
  have hholds := Source.KernelDescription.holds_of_load h
  obtain ⟨e, -, hcode⟩ := exists_of_forall₂_right hholds.blocks hb
  obtain ⟨line, -, s₁, s₂, -, hparse, -⟩ := exists_of_forall₂_right hcode hib
  obtain ⟨p, -, hp⟩ := Source.Scope.parse_spelled hparse
  obtain ⟨n, hn⟩ := List.mem_iff_getElem?.mp (i.mem_slots_of_mem_taken ho)
  obtain ⟨-, text, -, hspelled⟩ := hp.operands n o hn
  rw [hform] at hspelled
  exact Source.Special.mem_lanes hspelled.1 hspelled.2

/-- **Special, unwanted and declared registers never mix** in the functions of a lowered module, for
a distinctive stem.  A vector that is spelled without a lane is read with its first one. -/
theorem lower_unmixed {d : Source.Description} {path : String} {m : Source.Module} {o : Options}
    {v : Virtual.Module} (hm : d.load path = .ok m) (hv : lower o m = .ok v)
    (hstem : Distinctive o.stem) : List.Forall₂ Unmixed m.kernels v.functions := by
  have hloaded : ∀ k ∈ m.kernels, ∃ e : Source.KernelDescription, e.load = .ok k := by
    intro k hk
    obtain ⟨e, -, he⟩ := exists_of_forall₂_right (Source.Description.load_forall₂ hm).2 hk
    exact ⟨e, he⟩
  have hkernels := (List.forall₂_and_left _ _).mpr ⟨hloaded, (lowered_of_lower hv).functions⟩
  refine hkernels.imp ?_
  rintro k f ⟨⟨e, he⟩, hf⟩
  obtain ⟨opening, blocks, fr, hlowered⟩ := lowered_of_lowerKernel hf
  have haccounted := hlowered.accounted (Source.KernelDescription.load_linked he)
    fun i hi o ho => laned_of_load he hi ho
  exact haccounted.unmixed hstem

/-- Registers of all kinds, a vector without and with its lanes among them. -/
def crowdedModule : Source.Description :=
  { kernels := [
      { name := "crowded", linkage := "", params := [], registers := [⟨"%r", "u32"⟩, ⟨"%a", "u64"⟩]
        blocks := [
          ⟨"start", ["mov.u32 %r, %tid;", "atom.global.add.u32 _, [%a], %tid.x;"]⟩,
          ⟨"next", ["mov.u32 %r, %clock64;", "add.u32 _, %tid.y, %clock64;", "ret;"]⟩] }] }

theorem crowdedModule_unmixed :
    Distinctive "r" ∧ ∃ m v, crowdedModule.load "crowded" = .ok m ∧ lower {} m = .ok v ∧
      v.functions.map (fun f => f.registers.map Register.text) =
        [["%r1", "%r2", "%tid", "%3", "%clock64", "%5", "%tid_y"]] ∧
      List.Forall₂ Unmixed m.kernels v.functions := by
  have hstem : Distinctive "r" := by
    refine ⟨⟨'r', by decide, by decide⟩, fun ds _ _ h => ?_⟩
    exact absurd (List.cons.inj h).1 (by decide)
  obtain ⟨m, v, hm, hv, htexts⟩ := exists_lower_of_any crowdedModule "crowded"
    (fun v => v.functions.map (fun f => f.registers.map Register.text) =
      [["%r1", "%r2", "%tid", "%3", "%clock64", "%5", "%tid_y"]]) (by decide +kernel)
  exact ⟨hstem, m, v, hm, hv, htexts, lower_unmixed hm hv hstem⟩

end Lowering

end KernelIR
