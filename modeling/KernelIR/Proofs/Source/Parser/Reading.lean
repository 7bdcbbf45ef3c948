import KernelIR.Proofs.Fallible
import KernelIR.Proofs.Source.Names
import KernelIR.Proofs.Source.Parser.Mnemonic
import KernelIR.Proofs.Source.Parser.Operand
import KernelIR.Source.Parser.Line
import Mathlib.Data.List.TakeWhile

/-!
# What lines are read as

`Scope.parse_readIn`: an instruction that is read from a line is what the line spells.  The line has
a guard, a mnemonic and operands (`LineParts`); every register of the instruction has the name that
stands in the guard or in the operand of its place, and the scope knows it by that name from then
on.  What is spelled like a declared register is never taken for a special one.  Reading changes the
scope in no other way than by numbering names.  That needs a tidy scope; `Scope.parse_spelled` says
what holds in every scope.

`Gives s m P` says of a reader that in the scope `s` it only numbers names, and that whatever it
gives has the property `P` in the scope it leaves.  There is one lemma for every way to put readers
together, and then one for every reader.
-/

namespace KernelIR.Source

/-! ### What a reader gives -/

section Gives

variable {ε ε' α β : Type} {s s' : Scope} {P : Scope → α → Prop}

/-- In the scope `s` the reader only numbers names, and what it gives has the property. -/
def Gives (s : Scope) (m : Reader ε α) (P : Scope → α → Prop) : Prop :=
  ∀ a s', Runs m s a s' → s.Interns s' ∧ P s' a

theorem gives_pure {a : α} (h : P s a) : Gives s (pure a : Reader ε α) P := by
  intro b s' hb
  cases hb
  exact ⟨.refl s, h⟩

theorem gives_throw (e : ε) : Gives s (throw e : Reader ε α) P := by
  intro b s' hb
  cases hb

theorem gives_get : Gives s (get : Reader ε Scope) fun s' a => s' = s ∧ a = s := by
  intro b s' hb
  cases hb
  exact ⟨.refl s, rfl, rfl⟩

theorem gives_liftM {x : Except ε α} (h : ∀ a, x = .ok a → P s a) :
    Gives s (liftM x : Reader ε α) P := by
  cases x with
  | error e => exact gives_throw e
  | ok a => exact gives_pure (h a rfl)

theorem gives_internName (name : String) :
    Gives s (internName name : Reader ε UInt32) fun s' id => s'.idOf? name = some id := by
  intro id s' h
  cases h
  exact ⟨.one s name, s.idOf?_intern name⟩

theorem Gives.bind {m : Reader ε α} {f : α → Reader ε β} {Q : Scope → β → Prop} (hm : Gives s m P)
    (hf : ∀ a s', s.Interns s' → P s' a → Gives s' (f a) Q) : Gives s (m >>= f) Q := by
  intro b s'' hb
  unfold Runs at hb
  rw [ExceptT.run_bind, StateT.run_bind] at hb
  cases hr : m.run.run s with
  | mk result s' =>
    rw [hr] at hb
    cases result with
    | error e => cases hb
    | ok a =>
      obtain ⟨hs', ha⟩ := hm a s' hr
      obtain ⟨hs'', hQ⟩ := hf a s' hs' ha b s'' hb
      exact ⟨hs'.trans hs'', hQ⟩

theorem gives_throw_bind (e : ε) (f : α → Reader ε β) {Q : Scope → β → Prop} :
    Gives s (throw e >>= f) Q :=
  (gives_throw (P := fun _ _ => False) e).bind fun _ _ _ h => absurd h id

theorem Gives.adapt {m : Reader ε α} (h : Gives s m P) (f : ε → ε') : Gives s (m.adapt f) P := by
  intro a s' ha
  have hrun : ((m.run.run s).1.mapError f, (m.run.run s).2) = (.ok a, s') := ha
  obtain ⟨hok, hs'⟩ := Prod.mk.inj hrun
  refine h a s' (Prod.ext (Fallible.mapError_eq_ok.mp hok) hs')

theorem Gives.imp {m : Reader ε α} (h : Gives s m P) {Q : Scope → α → Prop}
    (hQ : ∀ s' a, s.Interns s' → P s' a → Q s' a) : Gives s m Q := by
  intro a s' ha
  obtain ⟨hs', hP⟩ := h a s' ha
  exact ⟨hs', hQ s' a hs' hP⟩

end Gives

/-! ### Registers and operands -/

/-- The form is one that the text can spell: its register has the name in the text and is known to
the scope, a symbol is an identifier and is marked as a parameter exactly if it is one, and a
special register has a lane that it can have.  Only brackets hold an offset. -/
def Form.Spelled (s : Scope) (label : Bool) (text : List Char) : Form → Prop
  | .register r => r.Bound s ∧ text = r.name.toList
  | .indirect r offset =>
    r.Bound s ∧ ∃ inside offsetText, text = '[' :: inside ++ [']'] ∧
      splitOffset (Text.trim inside) = (r.name.toList, offsetText) ∧ offset? offsetText = .ok offset
  | .address name offset isParam =>
    isIdent name.toList = true ∧ isParam = s.isParam name ∧
      (text.head? = some '[' ∨ offset = 0 ∧ label = false ∧ name ≠ "_")
  | .label name => label = true ∧ isIdent name.toList = true ∧ name ≠ "_"
  | .special r lane => r ∈ Special.named ∧ if r.isVector then lane ∈ [Lane.x, .y, .z] else lane = .x
  | .immediate _ | .sink => True
  | .unknown _ => False

theorem Form.Spelled.interns {s s' : Scope} {label : Bool} {text : List Char} {form : Form}
    (h : form.Spelled s label text) (hs : s.Interns s') : form.Spelled s' label text := by
  cases form with
  | register r => exact ⟨h.1.interns hs, h.2⟩
  | indirect r offset => exact ⟨h.1.interns hs, h.2⟩
  | address name offset isParam => exact ⟨h.1, h.2.1.trans (hs.isParam name).symm, h.2.2⟩
  | label | special | immediate | sink | unknown => exact h

/-- What is read as a special register has the name of one, and a lane if it has lanes. -/
theorem specialForm?_eq_some {whole body : List Char} {form : Form}
    (h : specialForm? whole body = .ok (some form)) :
    ∃ r lane, form = .special r lane ∧ r ∈ Special.named ∧
      if r.isVector then lane ∈ [Lane.x, .y, .z] else lane = .x := by
  unfold specialForm? at h
  dsimp only at h
  split at h
  · cases h
  rename_i r hr
  have hnamed : r ∈ Special.named := List.mem_of_find?_eq_some hr
  -- without a lane the first one is meant, also for a register that is no vector
  split at h
  · cases h
    refine ⟨r, .x, rfl, hnamed, ?_⟩
    split_ifs
    · exact List.mem_cons_self
    · rfl
  · split_ifs at h with hvector
    split at h
    · rename_i lane hlane
      cases h
      refine ⟨r, lane, rfl, hnamed, ?_⟩
      rw [if_pos (by simpa using hvector)]
      exact List.mem_of_find?_eq_some hlane
    · cases h

/-- A spelling with a percent sign is a special register, if it is no name that is known, or a
register of that name. -/
theorem gives_readRegister (s : Scope) (label : Bool) (cs : List Char) :
    Gives s (readRegister cs) fun s' form => form.Spelled s' label cs ∧
      ((∃ r lane, form = .special r lane ∧ s'.idOf? (String.ofList cs) = none) ∨
        ∃ r, form = .register r) := by
  -- the name is numbered unless the spelling is that of a special register
  have hnamed : ∀ s₁, Gives s₁ (do
      if cs.length = 1 then throw .nameExpected
      return .register ⟨← internName (String.ofList cs), String.ofList cs⟩ :
        Reader OperandError Form) fun s' form => form.Spelled s' label cs ∧
      ((∃ r lane, form = .special r lane ∧ s'.idOf? (String.ofList cs) = none) ∨
        ∃ r, form = .register r) := by
    intro s₁
    split_ifs
    · exact gives_throw_bind _ _
    · refine (gives_internName _).bind fun id s₂ _ hid =>
        gives_pure ⟨⟨hid, ?_⟩, .inr ⟨_, rfl⟩⟩
      exact String.toList_ofList.symm
  unfold readRegister
  dsimp only
  refine gives_get.bind ?_
  rintro a s' - ⟨hs', ha⟩
  rw [hs', ha]
  split
  · refine (gives_pure (P := fun _ special => special = none) rfl).bind ?_
    rintro _ s₁ - rfl
    exact hnamed s₁
  · rename_i hnew
    have hform : Gives s (liftM (specialForm? cs (cs.drop 1)) : Reader OperandError _)
        fun s₁ special => s₁ = s ∧ specialForm? cs (cs.drop 1) = .ok special :=
      gives_liftM fun _ h => ⟨rfl, h⟩
    refine hform.bind ?_
    rintro special s₁ - ⟨hs₁, hspecial⟩
    rw [hs₁]
    split
    · obtain ⟨r, lane, rfl, hspelled⟩ := specialForm?_eq_some hspecial
      exact gives_pure ⟨hspelled, .inl ⟨r, lane, rfl, hnew⟩⟩
    · exact hnamed s

/-- The inside of an address is a register or a symbol with an offset. -/
theorem gives_readAddress (s : Scope) (label : Bool) (inside : List Char) :
    Gives s (readAddress inside) fun s' form =>
      form.Spelled s' label ('[' :: inside ++ [']']) ∧ ∀ r lane, form ≠ .special r lane := by
  unfold readAddress
  dsimp only
  refine (gives_liftM (P := fun _ v => offset? (splitOffset (Text.trim inside)).2 = .ok v)
    fun _ h => h).bind fun offset s₁ hs₁ hoffset => ?_
  -- a register or a symbol; special registers have no address
  split_ifs with hpercent hident
  · refine (gives_readRegister s₁ label _).bind fun form s₂ _ hform => ?_
    obtain ⟨hspelled, ⟨r, lane, rfl, -⟩ | ⟨r, rfl⟩⟩ := hform
    · exact gives_throw _
    · obtain ⟨hbound, hname⟩ := hspelled
      refine gives_pure ⟨⟨hbound, inside, _, rfl, Prod.ext hname rfl, hoffset⟩, ?_⟩
      rintro r lane ⟨⟩
  · refine gives_get.bind ?_
    rintro a s₂ - ⟨hs₂, ha⟩
    rw [hs₂, ha]
    refine gives_pure ⟨⟨?_, rfl, .inl rfl⟩, ?_⟩
    · rwa [String.toList_ofList]
    · rintro r lane ⟨⟩
  · exact gives_throw _

/-- **What is read from the text of an operand is a form that the text can spell**, and a special
register is not read where the text is a known name. -/
theorem gives_readForm (s : Scope) (t : DataType) (label : Bool) (text : List Char) :
    Gives s (readForm t label text) fun s' form => form.Spelled s' label text ∧
      ∀ r lane, form = .special r lane → s'.idOf? (String.ofList text) = none := by
  -- the second part only speaks of special registers, which two of the forms can be
  have hnone : ∀ {s' : Scope} {form : Form}, (∀ r lane, form ≠ .special r lane) →
      ∀ r lane, form = .special r lane → s'.idOf? (String.ofList text) = none :=
    fun hne r lane hform => absurd hform (hne r lane)
  unfold readForm
  split
  · exact gives_pure ⟨trivial, hnone (by rintro r lane ⟨⟩)⟩
  · rename_i inside
    split_ifs with hclosed
    · have hread := gives_readAddress s label inside.dropLast
      rw [List.cons_append, List.dropLast_append_getLast? _ hclosed] at hread
      exact hread.imp fun s' form _ h => ⟨h.1, hnone h.2⟩
    · exact gives_throw _
  · refine (gives_readRegister s label _).imp fun s' form _ h => ⟨h.1, ?_⟩
    rcases h.2 with ⟨r, lane, -, hnew⟩ | ⟨r, rfl⟩
    · exact fun _ _ _ => hnew
    · exact hnone (by rintro r lane ⟨⟩)
  · rename_i c rest hsink _ _
    split_ifs with hliteral hident hlabel
    · refine (gives_liftM (P := fun _ _ => True) fun _ _ => trivial).bind fun bits s₁ _ _ => ?_
      exact gives_pure ⟨trivial, hnone (by rintro r lane ⟨⟩)⟩
    · exact gives_throw _
    -- both readings of a bare name need that it is one and not the sink
    all_goals
      have hname : isIdent (String.ofList (c :: rest)).toList = true := by
        rw [String.toList_ofList]
        simpa using hident
      have hne : String.ofList (c :: rest) ≠ "_" := by
        intro h
        have hcs : c :: rest = ['_'] := by
          rw [← String.toList_ofList (l := c :: rest), h]
          rfl
        exact hsink (List.cons.inj hcs).1 (List.cons.inj hcs).2
    · exact gives_pure ⟨⟨hlabel, hname, hne⟩, hnone (by rintro r lane ⟨⟩)⟩
    · refine gives_get.bind ?_
      rintro a s₁ - ⟨hs₁, ha⟩
      rw [hs₁, ha]
      refine gives_pure ⟨⟨hname, rfl, .inr ⟨rfl, ?_, hne⟩⟩, hnone (by rintro r lane ⟨⟩)⟩
      simpa using hlabel
  · exact gives_throw _

/-- The form is of the vocabulary, its register is the one that the text spells and is known to the
scope, a special register is not spelled like a declared one, and a symbol is marked as a parameter
exactly if it is one. -/
def Form.ReadIn (s : Scope) (text : List Char) : Form → Prop
  | .register r => r.Bound s ∧ text = r.name.toList
  | .indirect r offset =>
    r.Bound s ∧ ∃ inside offsetText, text = '[' :: inside ++ [']'] ∧
      splitOffset (Text.trim inside) = (r.name.toList, offsetText) ∧ offset? offsetText = .ok offset
  | .address name _ isParam => isParam = s.isParam name
  | .special .. => ∀ r ∈ s.registers, r.name.toList ≠ text
  | .immediate _ | .label _ | .sink => True
  | .unknown _ => False

theorem Form.ReadIn.interns {s s' : Scope} {text : List Char} {form : Form}
    (h : form.ReadIn s text) (hs : s.Interns s') : form.ReadIn s' text := by
  cases form with
  | register r => exact ⟨h.1.interns hs, h.2⟩
  | indirect r offset => exact ⟨h.1.interns hs, h.2⟩
  | address name offset isParam => exact Eq.trans h (hs.isParam name).symm
  | special r lane =>
    unfold Form.ReadIn
    rw [hs.registers]
    exact h
  | immediate | label | sink => trivial
  | unknown code => exact h

/-- In a tidy scope a spelling that is not known is that of no declared register. -/
theorem Form.Spelled.readIn {s : Scope} (hs : s.Tidy) {label : Bool} {text : List Char} {form : Form}
    (h : form.Spelled s label text)
    (hnew : ∀ r lane, form = .special r lane → s.idOf? (String.ofList text) = none) :
    form.ReadIn s text := by
  cases form with
  | register r => exact h
  | indirect r offset => exact h
  | address name offset isParam => exact h.2.1
  | special r lane =>
    intro r' hr' hname
    have hknown := hs.declared r' hr'
    rw [← String.ofList_toList (s := r'.name), hname, hnew r lane rfl] at hknown
    cases hknown
  | immediate | label | sink => trivial
  | unknown code => exact h

/-- The operands are read from their texts, one for each, and have the types of their places.  What
holds of a form when it is read has to hold of it still when further names are numbered. -/
theorem gives_readOperands {Q : Scope → List Char → Form → Prop}
    (hQ : ∀ {s s' text form}, s.Interns s' → Q s text form → Q s' text form) (m : Mnemonic)
    (texts : List (List Char)) {s : Scope}
    (hread : ∀ s', s.Interns s' → ∀ t text,
      Gives s' (readForm t m.opcode.takesLabel text) fun s'' form => Q s'' text form) (j : Nat) :
    Gives s (readOperands m j texts) fun s' xs =>
      ∀ n x, xs[n]? = some x →
        x.type = m.operandType (j + n) ∧ ∃ text, texts[n]? = some text ∧ Q s' text x.form := by
  induction texts generalizing s j with
  | nil =>
    refine gives_pure fun n x hx => ?_
    cases hx
  | cons text texts ih =>
    unfold readOperands
    have hfirst : Gives s (readOperand (m.operandType j) m.opcode.takesLabel text) fun s' x =>
        x.type = m.operandType j ∧ Q s' text x.form := by
      refine (hread s (.refl s) _ text).bind fun form s₁ _ hform => ?_
      exact gives_pure ⟨rfl, hform⟩
    refine (hfirst.adapt _).bind fun x s₁ hs₁ hx => ?_
    refine (ih (fun s' hs' => hread s' (hs₁.trans hs')) (j + 1)).bind fun xs s₂ hs₂ hxs =>
      gives_pure fun n y hy => ?_
    -- what was read of the first operand has to survive the reading of the rest
    cases n with
    | zero =>
      cases hy
      exact ⟨hx.1, text, rfl, hQ hs₂ hx.2⟩
    | succ n =>
      obtain ⟨htype, hform⟩ := hxs n y hy
      rw [Nat.add_right_comm] at htype
      exact ⟨htype, hform⟩

/-! ### Guards -/

/-- The guard is of the vocabulary, and its register is the one that the text spells and is known to
the scope. -/
def Guard.ReadIn (s : Scope) (text : List Char) : Guard → Prop
  | .always => text = [] ∨ text = ['@', 'p', 't']
  | .never => text = ['@', '!', 'p', 't']
  | .straight r => r.Bound s ∧ text = '@' :: r.name.toList
  | .inverse r => r.Bound s ∧ text = '@' :: '!' :: r.name.toList
  | .unknown .. => False

theorem Guard.ReadIn.interns {s s' : Scope} {text : List Char} {g : Guard} (h : g.ReadIn s text)
    (hs : s.Interns s') : g.ReadIn s' text := by
  cases g with
  | always | never => exact h
  | straight r | inverse r => exact ⟨h.1.interns hs, h.2⟩
  | unknown code r => exact h

theorem gives_readPredicate (s : Scope) (inverse : Bool) (cs : List Char) :
    Gives s (readPredicate inverse cs) fun s' e =>
      ∃ text, cs = text ++ e.2 ∧
        e.1.ReadIn s' ((if inverse then ['@', '!'] else ['@']) ++ text) := by
  have hcs : cs = cs.takeWhile (!Text.isSpace ·) ++ cs.dropWhile (!Text.isSpace ·) :=
    List.takeWhile_append_dropWhile.symm
  unfold readPredicate
  dsimp only
  -- `pt`, no register, or a register; each with either sign
  split_ifs with hpt hinverse hinverse
  · refine gives_pure ⟨_, hcs, ?_⟩
    rw [← String.toList_ofList (l := cs.takeWhile _), hpt]
    rfl
  · refine gives_pure ⟨_, hcs, .inr ?_⟩
    rw [← String.toList_ofList (l := cs.takeWhile _), hpt]
    rfl
  · exact gives_throw_bind _ _
  · exact gives_throw_bind _ _
  · refine (gives_internName _).bind fun id s₁ _ hid => gives_pure ⟨_, hcs, hid, ?_⟩
    rw [String.toList_ofList]
    rfl
  · refine (gives_internName _).bind fun id s₁ _ hid => gives_pure ⟨_, hcs, hid, ?_⟩
    rw [String.toList_ofList]
    rfl

theorem gives_readGuard? (s : Scope) (cs : List Char) :
    Gives s (readGuard? cs) fun s' e => ∃ text, cs = text ++ e.2 ∧ e.1.ReadIn s' text := by
  unfold readGuard?
  split
  · rename_i rest
    unfold readGuard
    split
    · refine (gives_readPredicate s true _).imp fun s' e _ ⟨text, htext, hread⟩ => ?_
      exact ⟨_, congrArg (fun ds => '@' :: '!' :: ds) htext, hread⟩
    · refine (gives_readPredicate s false _).imp fun s' e _ ⟨text, htext, hread⟩ => ?_
      exact ⟨_, congrArg ('@' :: ·) htext, hread⟩
  · exact gives_pure ⟨[], rfl, .inl rfl⟩

/-! ### Mnemonics -/

/-- Opcode, types and tags are of the vocabulary, as far as they are there. -/
structure Mnemonic.Listed (m : Mnemonic) : Prop where
  opcode : m.opcode ∈ Opcode.named
  type : m.type ∈ .missing :: DataType.named
  sourceType : m.sourceType ∈ .missing :: DataType.named
  comparison : m.comparison ∈ .none :: Comparison.named
  atomic : m.atomic ∈ .none :: AtomicOp.named
  level : m.level ∈ .none :: FenceLevel.named

/-- The types of operands are those of the mnemonic, or predicates. -/
theorem Mnemonic.Listed.operandType {m : Mnemonic} (h : m.Listed) (n : Nat) :
    m.operandType n ∈ .missing :: DataType.named := by
  unfold Mnemonic.operandType
  split_ifs
  · decide
  · exact h.sourceType
  · decide
  · exact h.type

/-- **A mnemonic that is read is of the vocabulary.** -/
theorem Mnemonic.listed_of_mnemonic? {cs : List Char} {m : Mnemonic} (h : mnemonic? cs = .ok m) :
    m.Listed := by
  have hm := Mnemonic.canonical_of_mnemonic? h
  refine ⟨hm.opcode, ?_, ?_, ?_, ?_, ?_⟩
  · exact List.mem_cons.mpr hm.type
  · exact List.mem_cons.mpr hm.sourceType
  · exact List.mem_cons.mpr (hm.comparison.imp_right And.right)
  · exact List.mem_cons.mpr (hm.atomic.imp_right And.right)
  · exact List.mem_cons.mpr (hm.level.imp_right And.right)

/-! ### The registers of an instruction -/

/-- The register that a form spells, alone or as the base of an address. -/
def Form.register? : Form → Option RegisterUse
  | .register r | .indirect r _ => some r
  | .immediate _ | .address .. | .label _ | .special .. | .sink | .unknown _ => none

/-- The register that a guard spells. -/
def Guard.register? : Guard → Option RegisterUse
  | .straight r | .inverse r | .unknown _ r => some r
  | .always | .never => none

/-- The guard or an operand of the instruction spells the register. -/
def Instruction.Uses (i : Instruction) (r : RegisterUse) : Prop :=
  i.guard.register? = some r ∨ ∃ x ∈ i.operands, x.form.register? = some r

theorem Instruction.exists_slot_of_mem {i : Instruction} {x : Operand} (h : x ∈ i.operands) :
    ∃ n : Nat, i.slots[n]? = some (some x) := by
  obtain ⟨slot, hslot, hx⟩ := List.mem_filterMap.mp h
  cases hx
  exact List.mem_iff_getElem?.mp hslot

theorem Guard.ReadIn.bound {s : Scope} {text : List Char} {g : Guard} (h : g.ReadIn s text)
    {r : RegisterUse} (hr : g.register? = some r) : r.Bound s := by
  cases g with
  | always | never => cases hr
  | straight r' | inverse r' =>
    cases hr
    exact h.1
  | unknown code r' => exact h.elim

theorem Form.Spelled.bound {s : Scope} {label : Bool} {text : List Char} {form : Form}
    (h : form.Spelled s label text) {r : RegisterUse} (hr : form.register? = some r) : r.Bound s := by
  cases form with
  | register r' | indirect r' offset =>
    cases hr
    exact h.1
  | immediate | address | label | special | sink | unknown => cases hr

/-! ### Lines -/

/-- A line in parts. -/
structure LineParts where
  guard : List Char
  mnemonic : List Char
  operands : List (List Char)

/-- The parts are those of the line: blanks may stand around its guard, its mnemonic has none, and
its operands are what the rest is split into. -/
def LineParts.Of (cs : List Char) (p : LineParts) : Prop :=
  ∃ before between rest position,
    cs = before ++ (p.guard ++ (between ++ (p.mnemonic ++ rest))) ∧
      (∀ c ∈ before ++ between, Text.isSpace c) ∧ (∀ c ∈ p.mnemonic, endsMnemonic c = false) ∧
      splitOperands position rest = .ok p.operands

/-- The instruction is what the parts spell, in a scope that knows its registers. -/
structure Instruction.ReadIn (s : Scope) (p : LineParts) (i : Instruction) : Prop where
  mnemonic : mnemonic? p.mnemonic = .ok i.toMnemonic
  guard : i.guard.ReadIn s p.guard
  operands : ∀ n x, i.slots[n]? = some (some x) →
    x.type = i.operandType n ∧ ∃ text, p.operands[n]? = some text ∧ x.form.ReadIn s text

theorem Instruction.ReadIn.listed {s : Scope} {p : LineParts} {i : Instruction} (h : i.ReadIn s p) :
    i.toMnemonic.Listed :=
  Mnemonic.listed_of_mnemonic? h.mnemonic

theorem Instruction.ReadIn.interns {s s' : Scope} {p : LineParts} {i : Instruction}
    (h : i.ReadIn s p) (hs : s.Interns s') : i.ReadIn s' p := by
  refine ⟨h.mnemonic, h.guard.interns hs, fun n x hx => ?_⟩
  obtain ⟨htype, text, htext, hform⟩ := h.operands n x hx
  exact ⟨htype, text, htext, hform.interns hs⟩

/-- The instruction is what the parts spell, where the property says which forms the text of an
operand can spell. -/
structure Instruction.ReadBy (Q : Bool → List Char → Form → Prop) (s : Scope) (p : LineParts)
    (i : Instruction) : Prop where
  mnemonic : mnemonic? p.mnemonic = .ok i.toMnemonic
  guard : i.guard.ReadIn s p.guard
  gapless : (i.d = none → i.a = none) ∧ (i.a = none → i.b = none) ∧ (i.b = none → i.c = none)
  operands : ∀ n x, i.slots[n]? = some (some x) → x.type = i.operandType n ∧
    ∃ text, p.operands[n]? = some text ∧ Q i.opcode.takesLabel text x.form

/-- The slots of an instruction are filled from a list of operands. -/
theorem gapless_getElem? (xs : List Operand) :
    (xs[0]? = none → xs[1]? = none) ∧ (xs[1]? = none → xs[2]? = none) ∧
      (xs[2]? = none → xs[3]? = none) := by
  simp only [List.getElem?_eq_none_iff]
  omega

theorem gives_readLine {Q : Scope → Bool → List Char → Form → Prop}
    (hQ : ∀ {s s' label text form}, s.Interns s' → Q s label text form → Q s' label text form)
    {s : Scope} (hread : ∀ s', s.Interns s' → ∀ t label text,
      Gives s' (readForm t label text) fun s'' form => Q s'' label text form) (cs : List Char) :
    Gives s (readLine cs) fun s' i => ∃ p, LineParts.Of cs p ∧ i.ReadBy (Q s') s' p := by
  unfold readLine
  refine (gives_readGuard? s _).bind ?_
  rintro ⟨guard, rest⟩ s₁ hs₁ ⟨guardText, hguardText, hguard⟩
  dsimp only at hguardText hguard ⊢
  split_ifs
  · exact gives_throw_bind _ _
  refine (gives_liftM (P := fun _ m => mnemonic? _ = .ok m) fun _ h => h).bind
    fun m s₂ h₁₂ hm => ?_
  refine (gives_liftM (P := fun _ texts => splitOperands _ _ = .ok texts) fun _ h => h).bind
    fun texts s₃ h₂₃ htexts => ?_
  split_ifs
  · exact gives_throw_bind _ _
  have hs₃ := hs₁.trans (h₁₂.trans h₂₃)
  refine (gives_readOperands (Q := fun s' => Q s' m.opcode.takesLabel) hQ m texts
    (fun s' hs' t text => hread s' (hs₃.trans hs') t _ text) 0).bind
    fun xs s₄ h₃₄ hxs => gives_pure ?_
  refine ⟨⟨guardText, _, texts⟩, ⟨cs.takeWhile Text.isSpace, rest.takeWhile Text.isSpace, _, _,
    ?_, ?_, ?_, htexts⟩, ⟨hm, hguard.interns (h₁₂.trans (h₂₃.trans h₃₄)), gapless_getElem? xs, ?_⟩⟩
  · rw [List.takeWhile_append_dropWhile, List.takeWhile_append_dropWhile, ← hguardText,
      List.takeWhile_append_dropWhile]
  · intro c hc
    rcases List.mem_append.mp hc with hc | hc
    · exact List.mem_takeWhile_imp hc
    · exact List.mem_takeWhile_imp hc
  · intro c hc
    simpa using List.mem_takeWhile_imp hc
  · intro n x hx
    -- the four slots are the first four of the list
    have hslot : xs[n]? = some x := by
      match n with
      | 0 | 1 | 2 | 3 => exact Option.some.inj hx
      | n + 4 => cases hx
    have hread := hxs n x hslot
    rwa [Nat.zero_add] at hread

/-- A line that is accepted is a successful run of its reader. -/
theorem Scope.runs_of_parse {s s' : Scope} {line : String} {i : Instruction}
    (h : s.parse line = (.ok i, s')) : Runs (readLine (beforeComment line.toList)) s i s' := by
  obtain ⟨hok, hs'⟩ := Prod.mk.inj h
  exact Prod.ext (Fallible.mapError_eq_ok.mp hok) hs'

/-- **What is read from a line is spelled by its parts**, in every scope. -/
theorem Scope.parse_spelled {s s' : Scope} {line : String} {i : Instruction}
    (h : s.parse line = (.ok i, s')) :
    ∃ p, LineParts.Of (beforeComment line.toList) p ∧
      i.ReadBy (fun label text form => form.Spelled s' label text) s' p := by
  have hread : ∀ s₁, s.Interns s₁ → ∀ t label text, Gives s₁ (readForm t label text)
      fun s₂ form => form.Spelled s₂ label text := by
    intro s₁ _ t label text
    exact (gives_readForm s₁ t label text).imp fun s₂ form _ h => h.1
  exact (gives_readLine (Q := fun s' label text form => form.Spelled s' label text)
    (fun hs h => h.interns hs) hread _ i s' (runs_of_parse h)).2

/-- **The scope knows the registers of what is read** by their names and numbers. -/
theorem Scope.bound_of_parse {s s' : Scope} {line : String} {i : Instruction}
    (h : s.parse line = (.ok i, s')) {r : RegisterUse} (hr : i.Uses r) : r.Bound s' := by
  obtain ⟨p, -, hi⟩ := parse_spelled h
  rcases hr with hr | ⟨x, hx, hr⟩
  · exact hi.guard.bound hr
  · obtain ⟨n, hn⟩ := Instruction.exists_slot_of_mem hx
    obtain ⟨-, text, -, hspelled⟩ := hi.operands n x hn
    exact hspelled.bound hr

/-- **What is read from a line is what the line spells**, and reading only numbers names. -/
theorem Scope.parse_readIn {s s' : Scope} (hs : s.Tidy) {line : String} {i : Instruction}
    (h : s.parse line = (.ok i, s')) :
    s.Interns s' ∧ ∃ p, LineParts.Of (beforeComment line.toList) p ∧ i.ReadIn s' p := by
  have hread : ∀ s₁, s.Interns s₁ → ∀ t label text, Gives s₁ (readForm t label text)
      fun s₂ form => form.ReadIn s₂ text := by
    intro s₁ hs₁ t label text
    exact (gives_readForm s₁ t label text).imp fun s₂ form hs₂ h =>
      h.1.readIn (hs.interns (hs₁.trans hs₂)) h.2
  obtain ⟨hs', p, hp, hi⟩ := gives_readLine (Q := fun s' _ text form => form.ReadIn s' text)
    (fun hs h => h.interns hs) hread _ i s' (runs_of_parse h)
  exact ⟨hs', p, hp, hi.mnemonic, hi.guard, hi.operands⟩

end KernelIR.Source
