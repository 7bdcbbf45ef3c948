import KernelIR.Proofs.Source.Numbering
import KernelIR.Proofs.Source.Parser.Masking

/-!
# Names that are spelled like special registers

An operand that is spelled like a special register is one, unless the scope knows the spelling as
the name of a register (`Scope.Shadows`).  That is all that operands depend on, apart from
parameters and the numbers of registers: in two scopes that differ in some such names
(`Scope.Extends`) operands are read alike, one after the other, unless they mention one of these
names (`splits_readOperands`).  No operand adds such a name (`shadows_scopeAfter_readOperands`).

All operands come down to `readRegister` (`readForm_cases`).  Readers are compared by their
`outcome` and by the scope that they leave (`scopeAfter`), whether they fail or not.
-/

namespace KernelIR.Source

/-! ### Shadowed names -/

/-- The name is spelled like a special register: it begins with the name of one, up to a point. -/
def SpelledSpecial (name : String) : Prop :=
  (Special.ofName? (String.ofList (cutPoint (name.toList.drop 1)).1)).isSome

/-- The name is spelled like a special register, but the scope knows it as that of a register. -/
def Scope.Shadows (s : Scope) (name : String) : Prop :=
  SpelledSpecial name ∧ (s.idOf? name).isSome

theorem Scope.isSome_idOf?_intern (s : Scope) (name known : String) :
    ((s.intern name).2.idOf? known).isSome ↔ (s.idOf? known).isSome ∨ known = name := by
  constructor
  · intro h
    -- a known name leaves the scope as it is
    cases hname : s.idOf? name with
    | some id =>
      rw [intern_of_known hname] at h
      exact .inl h
    | none =>
      rw [intern_of_new hname] at h
      have hlookup : (List.lookup known ((name, s.highest + 1) :: s.names)).isSome := h
      rw [List.lookup_cons] at hlookup
      by_cases heq : known = name
      · exact .inr heq
      · rw [beq_eq_false_iff_ne.mpr heq] at hlookup
        exact .inl hlookup
  · rintro (h | rfl)
    · obtain ⟨id, hid⟩ := Option.isSome_iff_exists.mp h
      rw [idOf?_intern_of_known hid name]
      rfl
    · rw [idOf?_intern]
      rfl

theorem Scope.shadows_intern (s : Scope) (name known : String) :
    (s.intern name).2.Shadows known ↔ s.Shadows known ∨ SpelledSpecial known ∧ known = name := by
  unfold Shadows
  rw [isSome_idOf?_intern, and_or_left]

theorem specialForm?_eq_none_iff {whole body : List Char} :
    specialForm? whole body = .ok none ↔
      Special.ofName? (String.ofList (cutPoint body).1) = none := by
  unfold specialForm?
  dsimp only
  cases Special.ofName? (String.ofList (cutPoint body).1) with
  | none => simp
  | some r =>
    dsimp only
    refine ⟨fun h => ?_, fun h => by cases h⟩
    split at h
    · cases h
    · split_ifs at h
      split at h <;> cases h

theorem spelledSpecial_ofList_iff (cs : List Char) :
    SpelledSpecial (String.ofList cs) ↔ specialForm? cs (cs.drop 1) ≠ .ok none := by
  unfold SpelledSpecial
  rw [String.toList_ofList, Ne, specialForm?_eq_none_iff, Option.isSome_iff_ne_none]

/-! ### Outcomes of readers -/

section Outcome

variable {ε ε' α β : Type}

/-- What the reader gives in the scope, if it does not fail. -/
def outcome (m : Reader ε α) (s : Scope) : Option α :=
  (m.run.run s).1.toOption

/-- The scope that the reader leaves, be it with success or not. -/
def scopeAfter (m : Reader ε α) (s : Scope) : Scope :=
  (m.run.run s).2

theorem outcome_bind (m : Reader ε α) (f : α → Reader ε β) (s : Scope) :
    outcome (m >>= f) s = (outcome m s).bind fun a => outcome (f a) (scopeAfter m s) := by
  unfold outcome scopeAfter
  rw [ExceptT.run_bind, StateT.run_bind]
  cases m.run.run s with
  | mk result s' => cases result <;> rfl

theorem scopeAfter_bind (m : Reader ε α) (f : α → Reader ε β) (s : Scope) :
    scopeAfter (m >>= f) s =
      (outcome m s).elim (scopeAfter m s) fun a => scopeAfter (f a) (scopeAfter m s) := by
  unfold outcome scopeAfter
  rw [ExceptT.run_bind, StateT.run_bind]
  cases m.run.run s with
  | mk result s' => cases result <;> rfl

theorem scopeAfter_bind_pure (m : Reader ε α) (f : α → β) (s : Scope) :
    scopeAfter (m >>= fun a => pure (f a)) s = scopeAfter m s := by
  rw [scopeAfter_bind]
  cases outcome m s <;> rfl

theorem outcome_adapt (m : Reader ε α) (f : ε → ε') (s : Scope) :
    outcome (m.adapt f) s = outcome m s := by
  show ((m.run.run s).1.mapError f).toOption = (m.run.run s).1.toOption
  cases (m.run.run s).1 <;> rfl

end Outcome

/-! ### Registers -/

/-- Behind the question whether it is a special register, a register is numbered by its name. -/
def readNamed (cs : List Char) : Reader OperandError Form := do
  if cs.length = 1 then throw .nameExpected
  return .register ⟨← internName (String.ofList cs), String.ofList cs⟩

theorem run_readNamed {cs : List Char} (hlen : cs.length ≠ 1) (s : Scope) :
    (readNamed cs).run.run s =
      (.ok (.register ⟨(s.intern (String.ofList cs)).1, String.ofList cs⟩),
        (s.intern (String.ofList cs)).2) := by
  unfold readNamed
  rw [if_neg hlen]
  rfl

theorem run_readNamed_short {cs : List Char} (hlen : cs.length = 1) (s : Scope) :
    (readNamed cs).run.run s = (.error .nameExpected, s) := by
  unfold readNamed
  rw [if_pos hlen]
  rfl

theorem run_readRegister_of_known {cs : List Char} {s : Scope}
    (h : (s.idOf? (String.ofList cs)).isSome) :
    (readRegister cs).run.run s = (readNamed cs).run.run s := by
  obtain ⟨id, hid⟩ := Option.isSome_iff_exists.mp h
  unfold readRegister
  rw [Runs.run_bind (runs_get s)]
  dsimp only
  rw [hid]
  rfl

theorem run_readRegister_of_unknown {cs : List Char} {s : Scope}
    (h : s.idOf? (String.ofList cs) = none) :
    (readRegister cs).run.run s =
      ((liftM (specialForm? cs (cs.drop 1)) : Reader OperandError (Option Form)) >>= fun special =>
        special.elim (readNamed cs) pure).run.run s := by
  unfold readRegister
  rw [Runs.run_bind (runs_get s)]
  dsimp only
  rw [h]
  cases specialForm? cs (cs.drop 1) with
  | error e => rfl
  | ok special => cases special <;> rfl

/-- A register whose name is known, or not spelled like a special one, is numbered. -/
theorem run_readRegister_named {cs : List Char} {s : Scope}
    (h : SpelledSpecial (String.ofList cs) → s.Shadows (String.ofList cs)) :
    (readRegister cs).run.run s = (readNamed cs).run.run s := by
  cases hid : s.idOf? (String.ofList cs) with
  | some id => exact run_readRegister_of_known (by rw [hid]; rfl)
  | none =>
    have hspecial : specialForm? cs (cs.drop 1) = .ok none := by
      by_contra hne
      have hknown := (h ((spelledSpecial_ofList_iff cs).mpr hne)).2
      rw [hid] at hknown
      cases hknown
    rw [run_readRegister_of_unknown hid, hspecial]
    rfl

/-- Any other is a special register, if it is one. -/
theorem exists_run_readRegister_special {cs : List Char} (h : SpelledSpecial (String.ofList cs)) :
    ∃ x : Except OperandError Form, (∀ form, x = .ok form → form.register? = none) ∧
      ∀ s : Scope, ¬s.Shadows (String.ofList cs) → (readRegister cs).run.run s = (x, s) := by
  have hunknown : ∀ s : Scope, ¬s.Shadows (String.ofList cs) → s.idOf? (String.ofList cs) = none := by
    intro s hs
    rw [← Option.not_isSome_iff_eq_none]
    exact fun hknown => hs ⟨h, hknown⟩
  -- the spelling alone decides, and it may be a faulty one
  cases hspecial : specialForm? cs (cs.drop 1) with
  | error e =>
    refine ⟨.error e, ?_, fun s hs => ?_⟩
    · rintro form ⟨⟩
    · rw [run_readRegister_of_unknown (hunknown s hs), hspecial]
      rfl
  | ok special =>
    cases special with
    | none => exact absurd hspecial ((spelledSpecial_ofList_iff cs).mp h)
    | some form =>
      refine ⟨.ok form, ?_, fun s hs => ?_⟩
      · obtain ⟨r, lane, rfl, -⟩ := specialForm?_eq_some hspecial
        rintro form' ⟨⟩
        rfl
      · rw [run_readRegister_of_unknown (hunknown s hs), hspecial]
        rfl

/-- A single character is not the name of a special register. -/
theorem length_ne_one_of_spelledSpecial {cs : List Char} (h : SpelledSpecial (String.ofList cs)) :
    cs.length ≠ 1 := by
  intro hlen
  have hempty : (Special.ofName? (String.ofList (cutPoint []).1)).isSome = false := by decide
  obtain ⟨c, rfl⟩ := List.length_eq_one_iff.mp hlen
  unfold SpelledSpecial at h
  rw [String.toList_ofList, List.drop_one, List.tail_cons, hempty] at h
  cases h

/-! ### Scopes that differ in some names -/

/-- The scopes have the same parameters, and the second knows more of the names that are spelled
like special registers than the first: those with the given property. -/
structure Scope.Extends (E : String → Prop) (s₀ s₁ : Scope) : Prop where
  params : s₁.params = s₀.params
  shadows : ∀ name, s₁.Shadows name ↔ s₀.Shadows name ∨ E name
  new : ∀ name, E name → ¬s₀.Shadows name

/-- The form mentions no register with the property. -/
def Form.Avoids (E : String → Prop) (form : Form) : Prop :=
  ∀ r, form.register? = some r → ¬E r.name

section Readings

variable {E : String → Prop} {s₀ s₁ : Scope}

theorem Form.avoids_of_register?_eq_none {form : Form} (h : form.register? = none) :
    form.Avoids E := by
  intro r hr
  rw [h] at hr
  cases hr

/-- Reading a register changes nothing about the names that are spelled like special ones. -/
theorem shadows_scopeAfter_readRegister (cs : List Char) (s : Scope) (name : String) :
    (scopeAfter (readRegister cs) s).Shadows name ↔ s.Shadows name := by
  by_cases hnamed : SpelledSpecial (String.ofList cs) → s.Shadows (String.ofList cs)
  · unfold scopeAfter
    rw [run_readRegister_named hnamed]
    by_cases hlen : cs.length = 1
    · rw [run_readNamed_short hlen]
    · rw [run_readNamed hlen, Scope.shadows_intern]
      constructor
      · rintro (h | ⟨hspecial, rfl⟩)
        · exact h
        · exact hnamed hspecial
      · exact .inl
  · obtain ⟨hspecial, hs⟩ := Classical.not_imp.mp hnamed
    obtain ⟨x, -, hrun⟩ := exists_run_readRegister_special hspecial
    unfold scopeAfter
    rw [hrun s hs]

/-- **A register is read alike in both scopes**, unless its name is one of those in which they
differ.  Then it is a special register in the first, or it is refused, and a register of that name
in the second. -/
theorem readRegister_cases (h : s₀.Extends E s₁) (cs : List Char) :
    ((∀ form, outcome (readRegister cs) s₀ = some form → form.Avoids E) ∧
        (outcome (readRegister cs) s₁).map (·.mapRegister .bare) =
          (outcome (readRegister cs) s₀).map (·.mapRegister .bare)) ∨
      (∀ form, outcome (readRegister cs) s₀ = some form → form.register? = none) ∧
        ∃ r, outcome (readRegister cs) s₁ = some (.register r) ∧ E r.name := by
  by_cases hnamed : SpelledSpecial (String.ofList cs) → s₀.Shadows (String.ofList cs)
  · -- a register in the first scope is one in the second, which knows no fewer names
    left
    have hnamed₁ : SpelledSpecial (String.ofList cs) → s₁.Shadows (String.ofList cs) :=
      fun hspecial => (h.shadows _).mpr (.inl (hnamed hspecial))
    have hnot : ¬E (String.ofList cs) := by
      intro hE
      have hspecial := ((h.shadows _).mpr (.inr hE)).1
      exact h.new _ hE (hnamed hspecial)
    unfold outcome
    rw [run_readRegister_named hnamed, run_readRegister_named hnamed₁]
    by_cases hlen : cs.length = 1
    · rw [run_readNamed_short hlen, run_readNamed_short hlen]
      refine ⟨?_, rfl⟩
      rintro form ⟨⟩
    · rw [run_readNamed hlen, run_readNamed hlen]
      refine ⟨?_, rfl⟩
      rintro form ⟨⟩ r ⟨⟩
      exact hnot
  · -- otherwise the spelling decides, unless the second scope has the name in addition
    obtain ⟨hspecial, hs₀⟩ := Classical.not_imp.mp hnamed
    obtain ⟨x, hx, hrun⟩ := exists_run_readRegister_special hspecial
    have hnone : ∀ form, outcome (readRegister cs) s₀ = some form → form.register? = none := by
      intro form hform
      unfold outcome at hform
      rw [hrun s₀ hs₀] at hform
      exact hx form (Fallible.toOption_eq_some.mp hform)
    by_cases hE : E (String.ofList cs)
    · right
      refine ⟨hnone, ⟨(s₁.intern (String.ofList cs)).1, String.ofList cs⟩, ?_, hE⟩
      have hs₁ : s₁.Shadows (String.ofList cs) := (h.shadows _).mpr (.inr hE)
      unfold outcome
      rw [run_readRegister_named (fun _ => hs₁),
        run_readNamed (length_ne_one_of_spelledSpecial hspecial)]
      rfl
    · left
      refine ⟨fun form hform => Form.avoids_of_register?_eq_none (hnone form hform), ?_⟩
      have hs₁ : ¬s₁.Shadows (String.ofList cs) := by
        rw [h.shadows]
        exact not_or.mpr ⟨hs₀, hE⟩
      unfold outcome
      rw [hrun s₀ hs₀, hrun s₁ hs₁]

end Readings

/-! ### Operands -/

/-- The reader gives no register, leaves the scope as it is, and depends on the parameters alone. -/
def Registerless (m : Reader OperandError Form) : Prop :=
  ∃ x : List Param → Except OperandError Form, (∀ ps form, x ps = .ok form → form.register? = none) ∧
    ∀ s, m.run.run s = (x s.params, s)

/-- A register in brackets is the base of an address; another form is refused there. -/
def addressed (base : List Char) (offset : Int) : Form → Reader OperandError Form
  | .register r => return .indirect r offset
  | _ => throw (.registerExpected base)

theorem registerless_throw (e : OperandError) : Registerless (throw e) := by
  refine ⟨fun _ => .error e, ?_, fun s => rfl⟩
  rintro ps form ⟨⟩

theorem registerless_pure (form : Form) (h : form.register? = none) : Registerless (pure form) := by
  refine ⟨fun _ => .ok form, ?_, fun s => rfl⟩
  rintro ps form' ⟨⟩
  exact h

/-- The inside of brackets is an address at a register, or has no register. -/
theorem readAddress_cases (inside : List Char) :
    Registerless (readAddress inside) ∨ ∃ base offset, ∀ s,
      (readAddress inside).run.run s = (readRegister base >>= addressed base offset).run.run s := by
  unfold readAddress
  dsimp only
  cases offset? (splitOffset (Text.trim inside)).2 with
  | error e => exact .inl (registerless_throw e)
  | ok offset =>
    have hoffset : ∀ (f : Int → Reader OperandError Form) (s : Scope),
        ((liftM (Except.ok offset : Except OperandError Int) : Reader OperandError Int) >>= f).run.run
          s = (f offset).run.run s := fun f s => Runs.run_bind (runs_liftM rfl s) f
    -- only a base that begins with `%` is read as a register
    split_ifs with hpercent hident
    · refine .inr ⟨(splitOffset (Text.trim inside)).1, offset, fun s => ?_⟩
      rw [hoffset]
      rfl
    · refine .inl ⟨fun ps => .ok (.address (String.ofList (splitOffset (Text.trim inside)).1) offset
        (ps.any (·.name = String.ofList (splitOffset (Text.trim inside)).1))), ?_, fun s => ?_⟩
      · rintro ps form ⟨⟩
        rfl
      · rw [hoffset]
        rfl
    · exact .inl (registerless_throw _)

/-- An operand is a register, an address at a register, or has no register. -/
theorem readForm_cases (t : DataType) (label : Bool) (text : List Char) :
    Registerless (readForm t label text) ∨ readForm t label text = readRegister text ∨
      ∃ base offset, ∀ s, (readForm t label text).run.run s =
        (readRegister base >>= addressed base offset).run.run s := by
  unfold readForm
  -- a register can stand alone or in brackets; the other forms have none
  split
  · exact .inl (registerless_pure _ rfl)
  · rename_i inside
    split_ifs
    · rcases readAddress_cases inside.dropLast with h | h
      · exact .inl h
      · exact .inr (.inr h)
    · exact .inl (registerless_throw _)
  · exact .inr (.inl rfl)
  · rename_i c rest _ _ _
    left
    split_ifs
    · cases literal? t (c :: rest) with
      | error e => exact registerless_throw e
      | ok bits => exact registerless_pure (.immediate bits) rfl
    · exact registerless_throw _
    · exact registerless_pure _ rfl
    · refine ⟨fun ps => .ok (.address (String.ofList (c :: rest)) 0
        (ps.any (·.name = String.ofList (c :: rest)))), ?_, fun s => rfl⟩
      rintro ps form ⟨⟩
      rfl
  · exact .inl (registerless_throw _)

theorem scopeAfter_addressed (base : List Char) (offset : Int) (form : Form) (s : Scope) :
    scopeAfter (addressed base offset form) s = s := by
  cases form <;> rfl

/-- Operands add no name that is spelled like a special register. -/
theorem shadows_scopeAfter_readForm (t : DataType) (label : Bool) (text : List Char) (s : Scope)
    (name : String) : (scopeAfter (readForm t label text) s).Shadows name ↔ s.Shadows name := by
  rcases readForm_cases t label text with ⟨x, -, hrun⟩ | h | ⟨base, offset, hrun⟩
  · unfold scopeAfter
    rw [hrun]
  · rw [h]
    exact shadows_scopeAfter_readRegister text s name
  · have hscope : scopeAfter (readForm t label text) s = scopeAfter (readRegister base) s := by
      unfold scopeAfter
      rw [hrun]
      show scopeAfter (readRegister base >>= addressed base offset) s = _
      rw [scopeAfter_bind]
      cases outcome (readRegister base) s with
      | none => rfl
      | some form => exact scopeAfter_addressed base offset form _
    rw [hscope]
    exact shadows_scopeAfter_readRegister base s name

theorem scopeAfter_readOperand_adapt {ε : Type} (f : OperandError → ε) (t : DataType) (label : Bool)
    (text : List Char) (s : Scope) :
    scopeAfter ((readOperand t label text).adapt f) s = scopeAfter (readForm t label text) s :=
  scopeAfter_bind_pure (readForm t label text) (Operand.mk t) s

theorem shadows_scopeAfter_readOperands (m : Mnemonic) (texts : List (List Char)) (j : Nat)
    (s : Scope) (name : String) :
    (scopeAfter (readOperands m j texts) s).Shadows name ↔ s.Shadows name := by
  induction texts generalizing j s with
  | nil => exact Iff.rfl
  | cons text texts ih =>
    have hfirst := shadows_scopeAfter_readForm (m.operandType j) m.opcode.takesLabel text s name
    rw [readOperands, scopeAfter_bind, scopeAfter_readOperand_adapt]
    cases outcome ((readOperand (m.operandType j) m.opcode.takesLabel text).adapt
        (LineError.operand j)) s with
    | none => exact hfirst
    | some x =>
      rw [Option.elim_some, scopeAfter_bind_pure]
      exact (ih (j + 1) _).trans hfirst

/-- What is read in two scopes is the same, or else the second reading gives something that the
first cannot give. -/
def Splits {α : Type} (P : α → Prop) (x y : Option α) : Prop :=
  (∀ a, x = some a → P a) ∧ (y = x ∨ ∃ b, y = some b ∧ ¬P b)

section Splits

variable {E : String → Prop} {s₀ s₁ : Scope}

theorem splits_self {α : Type} {P : α → Prop} {x : Option α} (h : ∀ a, x = some a → P a) :
    Splits P x x :=
  ⟨h, .inl rfl⟩

/-- Readings that split alike are put together. -/
theorem Splits.bind_map {α β γ : Type} {P : α → Prop} {Q : β → Prop} {R : γ → Prop}
    {x₀ x₁ : Option α} {y₀ y₁ : Option β} (hx : Splits P x₀ x₁) (hy : Splits Q y₀ y₁)
    {g : α → β → γ} (hR : ∀ a b, R (g a b) ↔ P a ∧ Q b) :
    Splits R (x₀.bind fun a => y₀.map (g a)) (x₁.bind fun a => y₁.map (g a)) := by
  obtain ⟨hP, hx⟩ := hx
  obtain ⟨hQ, hy⟩ := hy
  constructor
  · intro c hc
    obtain ⟨a, ha, hc⟩ := Option.bind_eq_some_iff.mp hc
    obtain ⟨b, hb, rfl⟩ := Option.map_eq_some_iff.mp hc
    exact (hR a b).mpr ⟨hP a ha, hQ b hb⟩
  · -- one part that differs is enough, as long as the other one is there
    rcases hy with rfl | ⟨b, rfl, hb⟩
    · rcases hx with rfl | ⟨a, rfl, ha⟩
      · exact .inl rfl
      · -- the second reading may still fail later; then the first fails as well
        cases y₁ with
        | none =>
          left
          cases x₀ <;> rfl
        | some b => exact .inr ⟨g a b, rfl, fun h => ha ((hR a b).mp h).1⟩
    · cases x₁ with
      | none =>
        left
        rcases hx with rfl | ⟨a, ha, -⟩
        · rfl
        · cases ha
      | some a => exact .inr ⟨g a b, rfl, fun h => hb ((hR a b).mp h).2⟩

theorem Splits.map {α β : Type} {P : α → Prop} {Q : β → Prop} {x₀ x₁ : Option α}
    (h : Splits P x₀ x₁) {g : α → β} (hQ : ∀ a, x₀ = some a ∨ x₁ = some a → (Q (g a) ↔ P a)) :
    Splits Q (x₀.map g) (x₁.map g) := by
  constructor
  · intro b hb
    obtain ⟨a, ha, rfl⟩ := Option.map_eq_some_iff.mp hb
    exact (hQ a (.inl ha)).mpr (h.1 a ha)
  · rcases h.2 with rfl | ⟨a, ha, hnot⟩
    · exact .inl rfl
    · exact .inr ⟨g a, by rw [ha]; rfl, fun hg => hnot ((hQ a (.inr ha)).mp hg)⟩

theorem Form.avoids_bare_iff {form : Form} : (form.mapRegister .bare).Avoids E ↔ form.Avoids E := by
  unfold Avoids
  rw [register?_mapRegister]
  cases form.register? with
  | none => simp
  | some r => simp [RegisterUse.bare]

theorem outcome_addressed_bare (base : List Char) (offset : Int) (form : Form) (s s' : Scope) :
    (outcome (addressed base offset form) s).map (·.mapRegister .bare) =
      outcome (addressed base offset (form.mapRegister .bare)) s' := by
  cases form <;> rfl

theorem register?_of_addressed {base : List Char} {offset : Int} {form a : Form} {s : Scope}
    (h : outcome (addressed base offset form) s = some a) : a.register? = form.register? := by
  cases form with
  | register r =>
    cases h
    rfl
  | indirect | immediate | address | label | special | sink | unknown => cases h

/-- A register is read alike in both scopes, unless it has a name in which they differ. -/
theorem splits_readRegister (h : s₀.Extends E s₁) (cs : List Char) :
    Splits (Form.Avoids E) ((outcome (readRegister cs) s₀).map (·.mapRegister .bare))
      ((outcome (readRegister cs) s₁).map (·.mapRegister .bare)) := by
  have havoids : ∀ x : Option Form, (∀ form, x = some form → form.Avoids E) →
      ∀ a, x.map (·.mapRegister .bare) = some a → a.Avoids E := by
    intro x hx a ha
    obtain ⟨form, hform, rfl⟩ := Option.map_eq_some_iff.mp ha
    exact Form.avoids_bare_iff.mpr (hx form hform)
  rcases readRegister_cases h cs with ⟨hform, heq⟩ | ⟨hnone, r, hr, hE⟩
  · exact ⟨havoids _ hform, .inl heq⟩
  · refine ⟨havoids _ fun form hform => Form.avoids_of_register?_eq_none (hnone form hform),
      .inr ⟨.register r.bare, ?_, fun hr => hr r.bare rfl hE⟩⟩
    rw [hr]
    rfl

/-- **An operand is read alike in both scopes**, unless it mentions a name in which they differ. -/
theorem splits_readForm (h : s₀.Extends E s₁) (t : DataType) (label : Bool) (text : List Char) :
    Splits (Form.Avoids E) ((outcome (readForm t label text) s₀).map (·.mapRegister .bare))
      ((outcome (readForm t label text) s₁).map (·.mapRegister .bare)) := by
  rcases readForm_cases t label text with ⟨x, hx, hrun⟩ | hform | ⟨base, offset, hrun⟩
  · -- without a register, the parameters are all that is looked at
    have houtcome : ∀ s, outcome (readForm t label text) s = (x s.params).toOption := by
      intro s
      unfold outcome
      rw [hrun]
    rw [houtcome, houtcome, h.params]
    refine splits_self fun a ha => ?_
    obtain ⟨form, hform, rfl⟩ := Option.map_eq_some_iff.mp ha
    have hok : x s₀.params = .ok form := Fallible.toOption_eq_some.mp hform
    exact Form.avoids_bare_iff.mpr (Form.avoids_of_register?_eq_none (hx _ form hok))
  · rw [hform]
    exact splits_readRegister h text
  · -- behind the register it is the same in both scopes
    have houtcome : ∀ s, (outcome (readForm t label text) s).map (·.mapRegister .bare) =
        ((outcome (readRegister base) s).map (·.mapRegister .bare)).bind fun form =>
          outcome (addressed base offset form) s₀ := by
      intro s
      have hbind : outcome (readForm t label text) s =
          outcome (readRegister base >>= addressed base offset) s := by
        unfold outcome
        rw [hrun]
      rw [hbind, outcome_bind]
      cases outcome (readRegister base) s with
      | none => rfl
      | some form => exact outcome_addressed_bare base offset form _ s₀
    rw [houtcome, houtcome]
    constructor
    · intro a ha
      obtain ⟨form, hform, ha⟩ := Option.bind_eq_some_iff.mp ha
      have havoids := (splits_readRegister h base).1 form hform
      intro r hr
      rw [register?_of_addressed ha] at hr
      exact havoids r hr
    · rcases readRegister_cases h base with ⟨-, heq⟩ | ⟨-, r, hr, hE⟩
      · exact .inl (by rw [heq])
      · refine .inr ⟨.indirect r.bare offset, ?_, fun hr => hr r.bare rfl hE⟩
        rw [hr]
        rfl

/-- Scopes go on to differ in the same names when an operand is read. -/
theorem Scope.Extends.readForm (h : s₀.Extends E s₁) (t : DataType) (label : Bool)
    (text : List Char) :
    (scopeAfter (readForm t label text) s₀).Extends E (scopeAfter (readForm t label text) s₁) := by
  have hinterns := numbers_readForm t label text
  refine ⟨?_, fun name => ?_, fun name hE => ?_⟩
  · have h₀ : (scopeAfter (Source.readForm t label text) s₀).params = s₀.params := (hinterns s₀).params
    have h₁ : (scopeAfter (Source.readForm t label text) s₁).params = s₁.params := (hinterns s₁).params
    rw [h₀, h₁, h.params]
  · rw [shadows_scopeAfter_readForm, shadows_scopeAfter_readForm]
    exact h.shadows name
  · rw [shadows_scopeAfter_readForm]
    exact h.new name hE

/-- The first operand is read, and then the others in the scope that it leaves. -/
theorem outcome_readOperands_cons (m : Mnemonic) (j : Nat) (text : List Char)
    (texts : List (List Char)) (s : Scope) :
    (outcome (readOperands m j (text :: texts)) s).map (List.map (·.mapRegister .bare)) =
      ((outcome (readForm (m.operandType j) m.opcode.takesLabel text) s).map
        (·.mapRegister .bare)).bind fun form =>
          ((outcome (readOperands m (j + 1) texts)
            (scopeAfter (readForm (m.operandType j) m.opcode.takesLabel text) s)).map
              (List.map (·.mapRegister .bare))).map (⟨m.operandType j, form⟩ :: ·) := by
  rw [readOperands, outcome_bind, outcome_adapt, scopeAfter_readOperand_adapt, readOperand,
    outcome_bind]
  cases outcome (readForm (m.operandType j) m.opcode.takesLabel text) s with
  | none => rfl
  | some form =>
    show (outcome (readOperands m (j + 1) texts >>= fun xs => pure _) _).map _ = _
    rw [outcome_bind]
    cases outcome (readOperands m (j + 1) texts)
      (scopeAfter (readForm (m.operandType j) m.opcode.takesLabel text) s) <;> rfl

/-- **Operands are read alike in both scopes**, unless one mentions a name in which they differ. -/
theorem splits_readOperands (h : s₀.Extends E s₁) (m : Mnemonic) (texts : List (List Char)) (j : Nat) :
    Splits (fun xs : List Operand => ∀ x ∈ xs, x.form.Avoids E)
      ((outcome (readOperands m j texts) s₀).map (List.map (·.mapRegister .bare)))
      ((outcome (readOperands m j texts) s₁).map (List.map (·.mapRegister .bare))) := by
  induction texts generalizing j s₀ s₁ with
  | nil =>
    refine splits_self ?_
    rintro xs ⟨⟩ x hx
    cases hx
  | cons text texts ih =>
    rw [outcome_readOperands_cons, outcome_readOperands_cons]
    exact (splits_readForm h _ _ text).bind_map (ih (h.readForm _ _ text) (j + 1))
      fun form xs => List.forall_mem_cons

end Splits

end KernelIR.Source
