import KernelIR.Proofs.Source.Parser.Line
import KernelIR.Proofs.Source.Parser.Reading

/-!
# Printed lines

What is read from a line is printed as another line, in the fixed order of suffixes and with
literals in the form of their type.  `Kernel.parse_printed_iff`: for lines without brackets whose
registers have plain names, the printed line gives the same instruction again exactly if all
operands are legible (`Operand.Legible`).

Two operands are not.  A literal stands for 64 bits, whatever its type: a negative number at a
narrow type without sign, or sixteen raw digits at a narrow type, has bits that no literal of the
type can stand for, so that the printed one is refused.  And a special register without a lane is
printed with its first lane, which may be a name that the kernel knows.

The mnemonic and the guard never stand in the way: what is read is canonical
(`Mnemonic.canonical_of_mnemonic?`), so the printed line is taken apart into the same parts
(`Instruction.Printable.run_readLine`), and it is up to the operands alone.
-/

namespace KernelIR.Source

/-! ### Legible operands -/

/-- The text of the operand denotes it: a literal stands for bits that fit its type, and a special
register is spelled by no name that the scope knows. -/
def Operand.Legible (s : Scope) (x : Operand) : Prop :=
  match x.form with
  | .immediate bits => x.type.Holds bits
  | .special .. => s.idOf? x.text = none
  | .register _ | .indirect .. | .address .. | .label _ | .sink | .unknown _ => True

/-! ### What a line without brackets spells -/

/-- The operands of a line have its characters. -/
theorem LineParts.Of.subset {cs : List Char} {p : LineParts} (h : p.Of cs) :
    ∀ text ∈ p.operands, text ⊆ cs := by
  obtain ⟨before, between, rest, position, hcs, -, -, hsplit⟩ := h
  intro text htext c hc
  have hrest := subset_of_splitOperands hsplit text htext hc
  rw [hcs]
  simp only [List.mem_append]
  tauto

section Spelled

variable {s : Scope} {label : Bool} {text : List Char} {form : Form}

/-- Without brackets, what a text spells is canonical if it is legible. -/
theorem Form.Spelled.canonical (h : form.Spelled s label text) (hopen : '[' ∉ text)
    (hname : ∀ r, form.register? = some r → isRegisterName r.name.toList = true) {t : DataType}
    (hlegible : Operand.Legible s ⟨t, form⟩) : form.Canonical s label t := by
  cases form with
  | register r => exact ⟨hname r rfl, h.1⟩
  | indirect r offset =>
    obtain ⟨-, inside, offsetText, rfl, -⟩ := h
    exact absurd List.mem_cons_self hopen
  | immediate bits => exact hlegible
  | address name offset isParam =>
    obtain ⟨hident, hparam, hhead | ⟨rfl, hlabel, hsink⟩⟩ := h
    · exact absurd (List.mem_of_head? hhead) hopen
    · exact ⟨hident, hparam, ⟨by decide, by decide⟩, fun _ => ⟨hlabel, hsink⟩⟩
  | label name => exact h
  | special r lane => exact ⟨h.1, h.2, hlegible⟩
  | sink => trivial
  | unknown code => exact h

/-- Without brackets, what a text spells is printed as the text of an operand, legible or not. -/
theorem Form.Spelled.isOperandText (h : form.Spelled s label text) (hopen : '[' ∉ text)
    (hname : ∀ r, form.register? = some r → isRegisterName r.name.toList = true) (t : DataType) :
    IsOperandText (Operand.text ⟨t, form⟩).toList := by
  cases form with
  | immediate bits => exact isOperandText_literalText t bits
  | special r lane =>
    -- an empty scope knows no name, and the text is the same in it
    have hempty : (Form.special r lane).Canonical {} label t := ⟨h.1, h.2, rfl⟩
    exact isOperandText_text hempty
  | register | indirect | address | label | sink | unknown =>
    exact isOperandText_text (h.canonical hopen hname (t := t) trivial)

end Spelled

theorem Guard.ReadIn.canonical {s : Scope} {text : List Char} {g : Guard} (h : g.ReadIn s text) :
    g.Canonical s := by
  cases g with
  | always | never => trivial
  | straight r | inverse r => exact h.1
  | unknown code r => exact h

/-- **What is read from a line without brackets can be printed**, and is canonical if its operands
are legible. -/
theorem Instruction.printable_of_parse {s s' : Scope} {line : String} {i : Instruction}
    (hparse : s.parse line = (.ok i, s')) (hopen : '[' ∉ line.toList)
    (hname : ∀ r, i.Uses r → isRegisterName r.name.toList = true) :
    i.Printable s' ∧ ((∀ x ∈ i.operands, x.Legible s') → i.Canonical s') := by
  obtain ⟨p, hp, hi⟩ := Scope.parse_spelled hparse
  have hmnemonic := Mnemonic.canonical_of_mnemonic? hi.mnemonic
  have hguard := hi.guard.canonical
  have hlegible := Scope.legible_of_parse (congrArg Prod.fst hparse)
  -- the operands are stretches of the line, so none holds a bracket
  have htext : ∀ text ∈ p.operands, '[' ∉ text := fun text htext hmem =>
    hopen ((beforeComment_isPrefix _).subset (hp.subset text htext hmem))
  refine ⟨⟨hmnemonic, hguard, hlegible, hi.gapless, fun x hx => ?_⟩, fun hlegible =>
    ⟨hmnemonic, hguard, hi.gapless, fun n x hx => ?_⟩⟩
  · obtain ⟨n, hn⟩ := Instruction.exists_slot_of_mem hx
    obtain ⟨-, text, hmem, hspelled⟩ := hi.operands n x hn
    exact hspelled.isOperandText (htext text (List.mem_of_getElem? hmem))
      (fun r hr => hname r (.inr ⟨x, hx, hr⟩)) x.type
  · obtain ⟨htype, text, hmem, hspelled⟩ := hi.operands n x hx
    have hx' : x ∈ i.operands := List.mem_filterMap.mpr ⟨some x, List.mem_of_getElem? hx, rfl⟩
    exact ⟨htype, hspelled.canonical (htext text (List.mem_of_getElem? hmem))
      (fun r hr => hname r (.inr ⟨x, hx', hr⟩)) (hlegible x hx')⟩

/-! ### What is read back is legible -/

/-- An operand that is read back from its text is legible in every scope from which the one at hand
comes by numbering names. -/
theorem Operand.legible_of_runs {s₀ s s' : Scope} (hs : s₀.Interns s) {t : DataType} {label : Bool}
    {form : Form} (h : Runs (readForm t label (Operand.text ⟨t, form⟩).toList) s form s') :
    Operand.Legible s₀ ⟨t, form⟩ := by
  cases form with
  | immediate bits =>
    obtain ⟨c, rest, hcs, hc, h1, h2, h3⟩ := head_literalText t bits
    have hne : c :: rest ≠ ['_'] := by
      rintro ⟨rfl, rfl⟩
      exact h1 rfl
    have hread : Runs (readForm t label (literalText t bits).toList) s (.immediate bits) s' := h
    rw [hcs, readForm_cons hne h2 h3, hc, if_pos rfl, ← hcs, runs_bind_iff] at hread
    obtain ⟨bits', s₁, hliteral, hpure⟩ := hread
    cases hpure
    exact literal?_literalText_iff.mp (runs_liftM_iff.mp hliteral).1
  | special r lane =>
    obtain ⟨hs', -, hnew⟩ := gives_readForm s t label _ _ _ h
    have hnone := hnew r lane rfl
    rw [String.ofList_toList] at hnone
    -- a known name would still be known
    show s₀.idOf? _ = none
    cases hknown : s₀.idOf? (Operand.text ⟨t, .special r lane⟩) with
    | none => rfl
    | some id =>
      rw [(hs.trans hs').idOf? hknown] at hnone
      cases hnone
  | register | indirect | address | label | sink | unknown => trivial

/-- Operands that are read back from their texts, one after the other, are legible. -/
theorem legible_of_runs_readOperands {s₀ : Scope} {m : Mnemonic} {xs : List Operand} {j : Nat}
    {s s' : Scope} (hs : s₀.Interns s)
    (h : Runs (readOperands m j (xs.map fun x => x.text.toList)) s xs s') :
    ∀ x ∈ xs, x.Legible s₀ := by
  induction xs generalizing s j with
  | nil => exact fun x hx => absurd hx List.not_mem_nil
  | cons x xs ih =>
    rw [List.map_cons, readOperands, runs_bind_iff] at h
    obtain ⟨x', s₁, hx, h⟩ := h
    obtain ⟨xs', s₂, hxs, hpure⟩ := runs_bind_iff.mp h
    cases hpure
    obtain ⟨form, s₁', hform, hpure⟩ := runs_bind_iff.mp (runs_adapt_iff.mp hx)
    cases hpure
    refine List.forall_mem_cons.mpr ⟨Operand.legible_of_runs hs hform, ?_⟩
    exact ih (hs.trans (gives_readForm _ _ _ _ _ _ hform).1) hxs

theorem length_of_runs_readOperands {m : Mnemonic} {texts : List (List Char)} {xs : List Operand}
    {j : Nat} {s s' : Scope} (h : Runs (readOperands m j texts) s xs s') :
    xs.length = texts.length := by
  induction texts generalizing s xs j with
  | nil =>
    cases h
    rfl
  | cons text texts ih =>
    rw [readOperands, runs_bind_iff] at h
    obtain ⟨x, s₁, -, h⟩ := h
    obtain ⟨ys, s₂, hys, hpure⟩ := runs_bind_iff.mp h
    cases hpure
    rw [List.length_cons, List.length_cons, ih hys]

/-- If an instruction is read from the line that it is printed as, its operands are read from their
texts. -/
theorem Instruction.Printable.runs_operands {s s' : Scope} {i : Instruction} (h : i.Printable s)
    (hread : Runs (readLine i.text.toList) s i s') :
    Runs (readOperands i.toMnemonic 0 (i.operands.map fun x => x.text.toList)) s i.operands s' := by
  obtain ⟨xs, s₁, hxs, hpure⟩ := runs_bind_iff.mp (h.run_readLine.symm.trans hread)
  obtain ⟨hi, rfl⟩ : ofOperands i.toMnemonic i.guard xs = i ∧ s₁ = s' := by
    unfold Runs at hpure
    obtain ⟨hi, hs⟩ := Prod.mk.inj hpure
    exact ⟨Except.ok.inj hi, hs⟩
  -- the slots tell the operands apart, of which there are no more than four
  obtain ⟨hlen, h0, h1, h2, h3⟩ := slots_eq h.gapless
  have hlen' : xs.length ≤ 4 := by
    rw [length_of_runs_readOperands hxs, List.length_map]
    exact hlen
  have hslots : ∀ n : Nat, xs[n]? = i.operands[n]? := by
    intro n
    match n with
    | 0 => exact (congrArg Instruction.d hi).trans h0.symm
    | 1 => exact (congrArg Instruction.a hi).trans h1.symm
    | 2 => exact (congrArg Instruction.b hi).trans h2.symm
    | 3 => exact (congrArg Instruction.c hi).trans h3.symm
    | n + 4 => rw [List.getElem?_eq_none (by omega), List.getElem?_eq_none (by omega)]
  rwa [List.ext_getElem? hslots] at hxs

/-! ### Printed lines -/

/-- **A printed line gives its instruction again exactly if the operands are legible.**  The line
that was read has no brackets, and the registers in it have plain names. -/
theorem Kernel.parse_printed_iff {k k' : Kernel} {line : String} {i : Instruction}
    (hparse : k.parse line = (.ok i, k')) (hopen : '[' ∉ line.toList)
    (hname : ∀ r, i.Uses r → isRegisterName r.name.toList = true) :
    (k'.parse i.text).1 = .ok i ↔ ∀ x ∈ i.operands, x.Legible k'.scope := by
  have hscope : k.scope.parse line = (.ok i, k'.scope) := by
    obtain ⟨hok, hk'⟩ := Prod.mk.inj hparse
    exact Prod.ext hok (congrArg Kernel.scope hk')
  obtain ⟨hprintable, hcanonical⟩ := Instruction.printable_of_parse hscope hopen hname
  -- reading the text cuts no comment off it
  have hread : (k'.parse i.text).1 = .ok i ↔ ∃ s, Runs (readLine i.text.toList) k'.scope i s := by
    show ((readLine (beforeComment i.text.toList)).run.run k'.scope).1.mapError _ = .ok i ↔ _
    rw [hprintable.beforeComment_text, Fallible.mapError_eq_ok]
    constructor
    · exact fun h => ⟨_, Prod.ext h rfl⟩
    · rintro ⟨s, hs⟩
      exact congrArg Prod.fst hs
  rw [hread]
  constructor
  · rintro ⟨s, hs⟩
    exact legible_of_runs_readOperands (.refl _) (hprintable.runs_operands hs)
  · intro hlegible
    exact ⟨k'.scope, (hcanonical hlegible).runs_readLine hprintable.legible⟩

/-- A kernel that declares `%p`, `%r.3` and a register with the name of a lane. -/
def shadowingKernel : Kernel :=
  { name := "k", linkage := .none
    scope := ((({} : Scope).addRegister "%p" .pred).addRegister "%r.3" (.signed .w32)).addRegister
      "%tid.x" (.signed .w32) }

/-- The instruction of the line `@!%p add.sat.s32 %r.3, -129, %tid.y`. -/
def adding : Instruction :=
  { opcode := .add, type := .signed .w32, modifiers := .single 8
    guard := .inverse ⟨1, "%p"⟩
    d := some ⟨.signed .w32, .register ⟨2, "%r.3"⟩⟩
    a := some ⟨.signed .w32, .immediate (-129)⟩
    b := some ⟨.signed .w32, .special .tid .y⟩ }

theorem Kernel.parse_printed_adding :
    shadowingKernel.parse "@!%p add.s32.sat %r.3, -0x81, %tid.y;" = (.ok adding, shadowingKernel) ∧
      (∀ x ∈ adding.operands, x.Legible shadowingKernel.scope) ∧
      (shadowingKernel.parse adding.text).1 = .ok adding := by
  have hparse : shadowingKernel.parse "@!%p add.s32.sat %r.3, -0x81, %tid.y;" =
      (.ok adding, shadowingKernel) := by decide +kernel
  have hname : ∀ r, adding.Uses r → isRegisterName r.name.toList = true := by
    rintro r (⟨⟨⟩⟩ | ⟨x, hx, hr⟩)
    · decide
    · have hoperands : ∀ x ∈ adding.operands,
          x.form.register?.all (fun r => isRegisterName r.name.toList) = true := by decide
      have hall := hoperands x hx
      rwa [hr] at hall
  have hlegible : ∀ x ∈ adding.operands, x.Legible shadowingKernel.scope := by
    have hspecial : shadowingKernel.scope.idOf? "%tid.y" = none := by decide
    show ∀ x ∈ [_, _, _], _
    simp only [List.forall_mem_cons]
    exact ⟨trivial, ⟨by decide, by decide⟩, hspecial, fun x hx => by cases hx⟩
  exact ⟨hparse, hlegible, (parse_printed_iff hparse (by decide) hname).mpr hlegible⟩

/-- The instruction that moves an operand to `%r.3`. -/
def moving (x : Operand) : Instruction :=
  { opcode := .mov, type := x.type, d := some ⟨x.type, .register ⟨2, "%r.3"⟩⟩, a := some x }

/-- The kernel reads the instruction from the line, but not from the text of the instruction. -/
def Kernel.Misreads (k : Kernel) (line : String) (i : Instruction) : Prop :=
  k.parse line = (.ok i, k) ∧ (k.parse i.text).1 ≠ .ok i

instance (k : Kernel) (line : String) (i : Instruction) : Decidable (k.Misreads line i) :=
  inferInstanceAs (Decidable (_ ∧ _))

/-- A negative number without sign, raw bits of a double at a single, and a special register whose
first lane is a known name: the printed lines are refused, or read as something else. -/
theorem Kernel.parse_printed_illegible :
    shadowingKernel.Misreads "mov.u32 %r.3, -1" (moving ⟨.unsigned .w32, .immediate (-1)⟩) ∧
      shadowingKernel.Misreads "mov.f32 %r.3, 0d3FF0000000000000"
        (moving ⟨.float .single, .immediate 0x3FF0000000000000⟩) ∧
      shadowingKernel.Misreads "mov.u32 %r.3, %tid" (moving ⟨.unsigned .w32, .special .tid .x⟩) := by
  decide +kernel

end KernelIR.Source
