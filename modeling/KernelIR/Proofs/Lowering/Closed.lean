import KernelIR.Proofs.Lowering.Layout
import KernelIR.Proofs.Lowering.Module

/-!
# Lowered modules are closed

`lower_closed`: whatever an instruction of a lowered module mentions belongs to its function or to
the module, none of the operands that it reads or writes is missing, it knows its block, and the
instructions of a function are numbered in layout order.

An operand is closed for one of two reasons.  Declared names are looked up in tables of the function
and the module (`Hosts`).  The other registers are made while the instruction is lowered; they stand
in the frame then, and are still in place at the end, because frames only grow.  The numbers follow
from what one instruction does to the counter (`Scope.Renders.nextInstr`), by induction over the run
through a block and then over the run through all blocks.
-/

namespace KernelIR

/-! ### Closed modules -/

namespace Virtual

/-- The register is there, and stands in the table of the function at its key. -/
def Function.Owns (f : Function) (r : Option Register) : Prop :=
  ∃ v, r = some v ∧ f.registers[v.key]? = some v

/-- The symbol is a block of the function or a global of the module. -/
def Symbol.ClosedIn (f : Function) (globals : List Global) : Symbol → Prop
  | .block key name => ∃ b ∈ f.blocks, b.id = key ∧ b.name = name
  | .global key name => ∃ g, globals[key]? = some g ∧ g.name = name
  | .function _ _ => False

/-- What the operand mentions belongs to the function or the module.  A predicate that reads no
register has none. -/
def Operand.ClosedIn (f : Function) (globals : List Global) : Operand → Prop
  | .register r | .indirect r _ => f.Owns r
  | .immediate _ _ => True
  | .address t => ∃ symbol, t = some symbol ∧ symbol.ClosedIn f globals
  | .argument a => a ∈ f.arguments
  | .predicate p => if p.isAlways ∨ p.isNever then p.register = none else f.Owns p.register

/-- All operands of the instruction are there and closed, and its block is the given one. -/
structure Instr.ClosedIn (f : Function) (globals : List Global) (b : Block) (x : Instr) : Prop where
  reads : ∀ slot ∈ x.reads, ∃ y, slot = some y ∧ y.ClosedIn f globals
  writes : ∀ slot ∈ x.writes, ∃ y, slot = some y ∧ y.ClosedIn f globals
  block : x.block = some b.id

/-- All instructions are closed, and numbered in layout order. -/
structure Function.ClosedIn (globals : List Global) (f : Function) : Prop where
  instructions : ∀ b ∈ f.blocks, ∀ x ∈ b.code, x.ClosedIn f globals b
  numbered : f.code.map Instr.id = List.range f.length

/-- All functions are closed. -/
def Module.Closed (v : Module) : Prop :=
  ∀ f ∈ v.functions, f.ClosedIn v.globals

end Virtual

namespace Lowering

open Virtual (Instr Operand Predicate Register)

/-! ### What a scope knows belongs to the function -/

/-- The function holds what the scope and the frame know. -/
structure Hosts (f : Virtual.Function) (globals : List Virtual.Global) (s : Scope) (fr : Frame) :
    Prop where
  registers : f.registers = fr.registers
  covers : fr.Covers s
  arguments : f.arguments = s.arguments
  globals : globals = s.globals
  blocks : ∀ name id, s.blocks.lookup name = some id → ∃ b ∈ f.blocks, b.id = id ∧ b.name = name

namespace Hosts

variable {f : Virtual.Function} {globals : List Virtual.Global} {s : Scope} {fr fr₁ fr₂ : Frame}

theorem owns (h : Hosts f globals s fr) {r : Register} (hr : r ∈ fr.registers) :
    f.Owns (some r) := by
  refine ⟨r, rfl, ?_⟩
  rw [h.registers]
  exact h.covers.numbered.getElem?_key hr

/-- A register of an earlier frame is still there. -/
theorem owns_of_grows (h : Hosts f globals s fr) (hgrows : fr₂.Grows s fr) {r : Register}
    (hr : r ∈ fr₂.registers) : f.Owns (some r) :=
  h.owns (hgrows.registers.subset hr)

/-- A declared register is there. -/
theorem owns_of_lookup (h : Hosts f globals s fr) {id : UInt32} {r : Register}
    (hr : s.registers.lookup id = some r) : f.Owns (some r) :=
  h.owns (h.covers.declared _ (mem_of_lookup hr))

theorem closedIn_blockAddress (h : Hosts f globals s fr) {name : String} {id : Nat}
    (hid : s.blocks.lookup name = some id) : (Scope.blockAddress name id).ClosedIn f globals :=
  ⟨_, rfl, h.blocks name id hid⟩

/-- **The image of an operand is closed.** -/
theorem closedIn_of_maps (h : Hosts f globals s fr) {o : Source.Operand} {y : Operand}
    (hmaps : s.Maps fr₁ o y fr₂) (hcovers : fr₁.Covers s) (hgrows : fr₂.Grows s fr) :
    y.ClosedIn f globals := by
  cases hmaps with
  | register hv => exact h.owns_of_lookup hv
  | indirect hv => exact h.owns_of_lookup hv
  | immediate _ => trivial
  | argument ha =>
    show _ ∈ f.arguments
    rw [h.arguments]
    exact List.mem_of_find?_eq_some ha
  | global hj =>
    obtain ⟨hlt, hname, -⟩ := List.findIdx?_eq_some_iff_getElem.mp hj
    refine ⟨_, rfl, _, ?_, of_decide_eq_true hname⟩
    rw [h.globals]
    exact List.getElem?_eq_getElem hlt
  | block _ hid => exact h.closedIn_blockAddress hid
  | label hid => exact h.closedIn_blockAddress hid
  -- a special register that was known before is one of the covered ones
  | known hv => exact h.owns_of_grows hgrows (hcovers.specials _ (mem_of_lookup hv))
  -- a new register is pushed by this very step
  | special _ _ | sink _ =>
    exact h.owns_of_grows hgrows (List.mem_append_right _ (List.mem_singleton_self _))

/-- The image of a guard is closed. -/
theorem closedIn_of_guard (h : Hosts f globals s fr) {g : Source.Guard} {p : Predicate}
    (hp : s.guard g = .ok p) : (Operand.predicate p).ClosedIn f globals := by
  cases g with
  | always | never =>
    cases hp
    exact rfl
  | straight r | inverse r | unknown _ r =>
    obtain ⟨v, hv, rfl⟩ := Fallible.map_eq_ok.mp hp
    exact h.owns_of_lookup (Scope.register_eq_ok.mp hv)

end Hosts

/-! ### The operands of a rendered instruction -/

namespace Scope

variable {s : Scope} {fr fr₁ fr₂ fr' : Frame} {block : Nat} {i : Source.Instruction} {p : Plan}
  {x : Instr} {y : Operand}

/-- The operand is the image of an operand, found on the way from `fr` to `fr'`, or a literal. -/
def Occurs (s : Scope) (fr fr' : Frame) (y : Operand) : Prop :=
  (∃ o fr₁ fr₂, fr.Grows s fr₁ ∧ s.Maps fr₁ o y fr₂ ∧ fr₂.Grows s fr') ∨
    ∃ bits t, y = .immediate bits t

theorem FillsAll.occurs {os : List (Option Source.Operand)} {ys : List Operand}
    (h : s.FillsAll fr₁ os ys fr₂) (hbefore : fr.Grows s fr₁) (hbehind : fr₂.Grows s fr')
    (hy : y ∈ ys) : s.Occurs fr fr' y := by
  obtain ⟨_, -, o, fr₃, fr₄, -, hbefore', hmaps, hbehind'⟩ := exists_of_forall₂_right h.between hy
  exact .inl ⟨o, fr₃, fr₄, hbefore.trans hbefore', hmaps, hbehind'.trans hbehind⟩

/-- What holds of the guard and of all operands that occur holds of all that the instruction reads
and writes. -/
theorem Renders.forall_operand (h : s.Renders block i fr x fr') {P : Operand → Prop}
    (hguard : ∀ g, s.guard i.guard = .ok g → P (.predicate g))
    (hoccurs : ∀ y, s.Occurs fr fr' y → P y) :
    (∀ slot ∈ x.reads, ∃ y, slot = some y ∧ P y) ∧ ∀ slot ∈ x.writes, ∃ y, slot = some y ∧ P y := by
  obtain ⟨more, hmore, fr₁, ws, rs, hws, hrs, hwrites, hreads⟩ := h.takes
  have hcounted := Frame.Grows.counted s fr
  constructor
  · intro slot hslot
    rcases List.mem_cons.mp hslot with rfl | hslot
    · exact ⟨_, rfl, hguard _ h.guard_eq⟩
    · change slot ∈ x.operandsRead at hslot
      rw [hreads] at hslot
      obtain ⟨y, hy, rfl⟩ := List.mem_map.mp hslot
      refine ⟨y, rfl, hoccurs y ?_⟩
      -- what is read is the image of an operand or an added literal
      rcases List.mem_append.mp hy with hy | hy
      · exact hrs.occurs (hcounted.trans hws.grows) (Frame.Grows.refl s fr') hy
      · exact .inr (hmore.exists_immediate hy)
  · intro slot hslot
    rw [hwrites] at hslot
    obtain ⟨y, hy, rfl⟩ := List.mem_map.mp hslot
    exact ⟨y, rfl, hoccurs y (hws.occurs hcounted hrs.grows hy)⟩

theorem Follows.block_eq (h : s.Follows block i fr p x fr') : x.block = some block := by
  cases h <;> rfl

end Scope

/-- **A rendered instruction is closed** in a function that holds what it was rendered with. -/
theorem Hosts.closedIn_of_renders {f : Virtual.Function} {globals : List Virtual.Global} {s : Scope}
    {fr fr₁ fr₂ : Frame} (h : Hosts f globals s fr) {b : Virtual.Block} {i : Source.Instruction}
    {x : Instr} (hx : s.Renders b.id i fr₁ x fr₂) (hcovers : fr₁.Covers s)
    (hgrows : fr₂.Grows s fr) : x.ClosedIn f globals b := by
  have hoccurs : ∀ y, s.Occurs fr₁ fr₂ y → y.ClosedIn f globals := by
    rintro y (⟨o, fr₃, fr₄, hbefore, hmaps, hbehind⟩ | ⟨bits, t, rfl⟩)
    · exact h.closedIn_of_maps hmaps (hbefore.covers hcovers) (hbehind.trans hgrows)
    · trivial
  obtain ⟨hreads, hwrites⟩ := hx.forall_operand (fun g hg => h.closedIn_of_guard hg) hoccurs
  obtain ⟨p, y, g, -, -, hy, rfl⟩ := hx
  exact ⟨hreads, hwrites, hy.block_eq⟩

/-! ### Numbers of instructions -/

/-- The instructions of a block are numbered from the counter on. -/
theorem numbered_of_lowerInstruction {s : Scope} {block : Nat} {fr fr' : Frame}
    {is : List Source.Instruction} {xs : List Instr}
    (h : Run (lowerInstruction s block) fr is xs fr') :
    xs.map Instr.id = List.range' fr.nextInstr xs.length ∧
      fr'.nextInstr = fr.nextInstr + xs.length := by
  induction h with
  | nil => exact ⟨rfl, rfl⟩
  | cons hx _ ih =>
    obtain ⟨hid, hnext⟩ := (renders_of_lowerInstruction hx).nextInstr
    obtain ⟨hids, hlast⟩ := ih
    rw [hnext] at hids hlast
    constructor
    · rw [List.map_cons, hids, hid, List.length_cons, List.range'_succ]
    · rw [hlast, List.length_cons]
      omega

/-- The instructions of all blocks are numbered from the counter on, through the blocks in order. -/
theorem numbered_of_lowerBlock {g : Source.Graph} {s : Scope} {fr fr' : Frame}
    {body : List (Nat × Source.Node)} {bs : List Virtual.Block}
    (h : Run (fun p => lowerBlock g s p.1 p.2) fr body bs fr') :
    (bs.flatMap Virtual.Block.code).map Instr.id =
        List.range' fr.nextInstr (bs.flatMap Virtual.Block.code).length ∧
      fr'.nextInstr = fr.nextInstr + (bs.flatMap Virtual.Block.code).length := by
  induction h with
  | nil => exact ⟨rfl, rfl⟩
  | cons hb _ ih =>
    obtain ⟨-, -, hcode⟩ := yields_lowerBlock.mp hb
    obtain ⟨hids, hnext⟩ := numbered_of_lowerInstruction hcode
    -- the rest of the blocks counts on from where this one has stopped
    obtain ⟨hrest, hlast⟩ := ih
    rw [hnext] at hrest hlast
    rw [List.flatMap_cons, List.length_append]
    constructor
    · rw [List.map_append, hids, hrest, List.range'_append_1]
    · rw [hlast]
      omega

/-! ### Lowered kernels -/

namespace Lowered

variable {o : Options} {globals : List Virtual.Global} {k : Source.Kernel} {opening : Opening}
  {blocks : List Virtual.Block} {fr : Frame} {f : Virtual.Function}

/-- A label of the body belongs to a block of the function. -/
theorem exists_block (h : Lowered o globals k opening blocks fr f) {name : String} {id : Nat}
    (hid : opening.scope.blocks.lookup name = some id) :
    ∃ b ∈ f.blocks, b.id = id ∧ b.name = name := by
  rw [h.opened.blocks] at hid
  obtain ⟨j, hj, rfl⟩ := lookup_numberedLabels hid
  rw [bodyLabels, List.getElem?_map, Option.map_eq_some_iff] at hj
  obtain ⟨n, hn, rfl⟩ := hj
  have hbody : opening.body[j]? = some (j + 2, n) := by
    rw [h.opened.body, List.getElem?_mapIdx, hn]
    rfl
  obtain ⟨b, hb, fr₁, fr₂, hyields⟩ := forall₂_getElem? h.run.forall₂ hbody
  obtain ⟨hbid, hbname, -⟩ := yields_lowerBlock.mp hyields
  refine ⟨b, ?_, hbid, hbname⟩
  rw [h.function]
  exact List.mem_cons_of_mem _ (List.mem_append_left _ (List.mem_of_getElem? hb))

/-- The function of a lowered kernel holds what the scope and the last frame know. -/
theorem hosts (h : Lowered o globals k opening blocks fr f) : Hosts f globals opening.scope fr where
  registers := by rw [h.function]; rfl
  covers := h.between.1.covers h.opened.covers
  arguments := by rw [h.function]; rfl
  globals := h.opened.globals.symm
  blocks := fun _ _ hid => h.exists_block hid

/-- Every instruction of the function is closed. -/
theorem closedIn_of_mem (h : Lowered o globals k opening blocks fr f) {b : Virtual.Block}
    (hb : b ∈ blocks) {x : Instr} (hx : x ∈ b.code) : x.ClosedIn f globals b := by
  obtain ⟨p, -, fr₁, fr₂, hbefore, hyields, hbehind⟩ := exists_of_forall₂_right h.between.2 hb
  obtain ⟨hid, -, hcode⟩ := yields_lowerBlock.mp hyields
  -- the run through the block lies between two frames of the run through the kernel
  have hinner := hcode.between fun _ _ _ _ hi => (renders_of_lowerInstruction hi).grows
  obtain ⟨i, -, fr₃, fr₄, hbefore', hi, hbehind'⟩ := exists_of_forall₂_right hinner.2 hx
  have hrenders := renders_of_lowerInstruction hi
  rw [← hid] at hrenders
  have hcovers : fr₃.Covers opening.scope := (hbefore.trans hbefore').covers h.opened.covers
  exact h.hosts.closedIn_of_renders hrenders hcovers (hbehind'.trans hbehind)

theorem code_eq (h : Lowered o globals k opening blocks fr f) :
    f.code = blocks.flatMap Virtual.Block.code := by
  rw [h.function]
  show [] ++ List.flatMap Virtual.Block.code (blocks ++ [_]) = _
  rw [List.flatMap_append, List.nil_append]
  exact List.append_nil _

/-- **The function of a lowered kernel is closed.** -/
theorem closedIn (h : Lowered o globals k opening blocks fr f) : f.ClosedIn globals := by
  constructor
  · intro b hb x hx
    rw [h.function] at hb
    -- entry and exit hold no code
    rcases List.mem_cons.mp hb with rfl | hb
    · cases hx
    · rcases List.mem_append.mp hb with hb | hb
      · exact h.closedIn_of_mem hb hx
      · rw [List.mem_singleton.mp hb] at hx
        cases hx
  · have hstart : opening.frame.nextInstr = 0 := by rw [h.opened.frame]
    obtain ⟨hids, -⟩ := numbered_of_lowerBlock h.run
    rw [f.length_eq, h.code_eq, hids, hstart, List.range_eq_range']

end Lowered

/-- **A lowered module is closed.**  Every register, argument, block and global that an instruction
mentions belongs to its function or to the module, and no operand is missing; instructions know
their blocks and are numbered without a gap. -/
theorem lower_closed {o : Options} {m : Source.Module} {v : Virtual.Module}
    (hv : lower o m = .ok v) : v.Closed := by
  intro f hf
  obtain ⟨k, -, hk⟩ := exists_of_forall₂_right (lowered_of_lower hv).functions hf
  obtain ⟨opening, blocks, fr, hlowered⟩ := lowered_of_lowerKernel hk
  exact hlowered.closedIn

theorem countModule_closed :
    ∃ m v, countModule.load "count" = .ok m ∧ lower {} m = .ok v ∧ v.functions ≠ [] ∧ v.Closed := by
  obtain ⟨m, v, hm, hv⟩ := exists_lower_countModule
  refine ⟨m, v, hm, hv, ?_, lower_closed hv⟩
  intro hnil
  obtain ⟨k, hk, -⟩ := forall₂_getElem? (Source.Description.load_forall₂ hm).2 (t := 0) rfl
  obtain ⟨f, hf, -⟩ := forall₂_getElem? (lowered_of_lower hv).functions hk
  rw [hnil] at hf
  cases hf

end Lowering

end KernelIR
