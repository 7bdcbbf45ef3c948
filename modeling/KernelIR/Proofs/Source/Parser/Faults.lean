import KernelIR.Proofs.Source.Parser.Independence

/-!
# What lines are refused for

`hasText_readLine`: no line is refused because an operand has no text.  The splitter gives no empty
texts (`ne_nil_of_splitOperands`), and the texts that it gives are all that operands are read from:
a line is taken apart before its operands are read (`readLine_eq_parts`), and what goes wrong until
then is not about operands (`LineError.Early`).  `Refuses` says of a reader that all its faults have
a property; the faults of composed readers are those of their parts.
-/

namespace KernelIR.Source

open Text (isSpace)
open Fallible (FailsOnly failsOnly_ok failsOnly_error)

/-! ### No operand is empty -/

theorem ne_nil_of_finishOperand {start : Nat} {cs text : List Char}
    (h : finishOperand start cs = .ok text) : text ≠ [] := by
  unfold finishOperand at h
  dsimp only at h
  split_ifs at h with hempty
  cases h
  exact fun heq => hempty (List.isEmpty_iff.mpr heq)

/-- What is split off is never empty. -/
theorem ne_nil_of_splitFrom {position start depth : Nat} {current rest : List Char}
    {texts : List (List Char)} (h : splitFrom position start depth current rest = .ok texts) :
    ∀ text ∈ texts, text ≠ [] := by
  induction rest generalizing position start depth current texts with
  | nil =>
    rw [splitFrom] at h
    obtain ⟨last, hlast, h⟩ := Fallible.bind_eq_ok.mp h
    split_ifs at h
    cases h
    exact List.forall_mem_singleton.mpr (ne_nil_of_finishOperand hlast)
  | cons c rest ih =>
    rw [splitFrom] at h
    split_ifs at h
    · exact ih h
    · exact ih h
    · -- a comma outside of brackets ends an operand; any other character goes on with it
      obtain ⟨first, hfirst, h⟩ := Fallible.bind_eq_ok.mp h
      obtain ⟨more, hmore, h⟩ := Fallible.bind_eq_ok.mp h
      cases h
      exact List.forall_mem_cons.mpr ⟨ne_nil_of_finishOperand hfirst, ih hmore⟩
    · exact ih h

theorem ne_nil_of_splitOperands {position : Nat} {rest : List Char} {texts : List (List Char)}
    (h : splitOperands position rest = .ok texts) : ∀ text ∈ texts, text ≠ [] := by
  unfold splitOperands at h
  dsimp only at h
  split_ifs at h
  · cases h
    exact List.forall_mem_nil _
  · exact ne_nil_of_splitFrom h

/-! ### What operands are read from -/

/-- The fault is found before any operand is read. -/
def LineError.Early : LineError → Prop
  | .operand _ _ => False
  | _ => True

theorem early_mnemonic? (cs : List Char) : FailsOnly LineError.Early (mnemonic? cs) := by
  -- neither step of a mnemonic looks at an operand, so its errors are early ones
  have hadd : ∀ draft suffix, FailsOnly LineError.Early (MnemonicDraft.add draft suffix) := by
    intro draft suffix
    unfold MnemonicDraft.add
    dsimp only
    split
    · exact failsOnly_ok _ _
    · split
      · exact failsOnly_ok _ _
      · split
        · exact failsOnly_ok _ _
        · exact failsOnly_error trivial
  have hfinish : ∀ draft : MnemonicDraft, FailsOnly LineError.Early draft.finish := by
    intro draft
    unfold MnemonicDraft.finish
    dsimp only
    split
    · exact failsOnly_ok _ _
    · exact failsOnly_ok _ _
    · exact failsOnly_ok _ _
    · exact failsOnly_error trivial
  unfold mnemonic?
  split
  · exact failsOnly_error trivial
  · split
    · exact failsOnly_error trivial
    · exact (FailsOnly.foldlM hadd _ _).bind fun draft _ => hfinish draft

theorem early_finishOperand (start : Nat) (cs : List Char) :
    FailsOnly LineError.Early (finishOperand start cs) := by
  unfold finishOperand
  dsimp only
  split_ifs
  · exact failsOnly_error trivial
  · exact failsOnly_ok _ _

theorem early_splitFrom (position start depth : Nat) (current rest : List Char) :
    FailsOnly LineError.Early (splitFrom position start depth current rest) := by
  induction rest generalizing position start depth current with
  | nil =>
    rw [splitFrom]
    refine (early_finishOperand _ _).bind fun last _ => ?_
    split_ifs
    · exact failsOnly_ok _ _
    · exact failsOnly_error trivial
  | cons c rest ih =>
    rw [splitFrom]
    split_ifs
    · exact ih _ _ _ _
    · exact failsOnly_error trivial
    · exact ih _ _ _ _
    · refine (early_finishOperand _ _).bind fun first _ => ?_
      exact (ih _ _ _ _).bind fun more _ => failsOnly_ok _ _
    · exact ih _ _ _ _

theorem early_splitOperands (position : Nat) (rest : List Char) :
    FailsOnly LineError.Early (splitOperands position rest) := by
  unfold splitOperands
  dsimp only
  split_ifs
  · exact failsOnly_ok _ _
  · exact early_splitFrom _ _ _ _ _

theorem readLine_eq_parts (cs : List Char) :
    readLine cs = readGuard? (cs.dropWhile isSpace) >>= fun guarded =>
      liftM (bodyParts cs guarded.2) >>= readParts guarded.1 := by
  rw [readLine_eq]
  congr 1
  funext guarded s
  exact run_readBody cs guarded s

theorem early_bodyParts (cs rest : List Char) : FailsOnly LineError.Early (bodyParts cs rest) := by
  unfold bodyParts
  dsimp only
  split_ifs
  · exact failsOnly_error trivial
  · refine (early_mnemonic? _).bind fun m _ => (early_splitOperands _ _).bind fun texts _ => ?_
    split_ifs
    · exact failsOnly_error trivial
    · exact failsOnly_ok _ _

/-! ### What readers can fail with -/

section Refuses

variable {ε ε' α β : Type} {P : ε → Prop}

/-- In whatever scope, all faults of the reader have the property. -/
def Refuses (P : ε → Prop) (m : Reader ε α) : Prop :=
  ∀ s, FailsOnly P (m.run.run s).1

theorem refuses_pure (a : α) : Refuses P (pure a) :=
  fun _ => failsOnly_ok P a

theorem refuses_throw {e : ε} (h : P e) : Refuses P (throw e : Reader ε α) :=
  fun _ => failsOnly_error h

theorem refuses_get : Refuses P (get : Reader ε Scope) :=
  fun s => failsOnly_ok P s

theorem refuses_internName (name : String) : Refuses P (internName name : Reader ε UInt32) :=
  fun s => failsOnly_ok P (s.intern name).1

theorem refuses_liftM {x : Except ε α} (h : FailsOnly P x) : Refuses P (liftM x : Reader ε α) := by
  cases x with
  | error e => exact refuses_throw (h e rfl)
  | ok a => exact refuses_pure a

theorem Refuses.bind {m : Reader ε α} {f : α → Reader ε β} (hm : Refuses P m)
    (hf : ∀ a, Refuses P (f a)) : Refuses P (m >>= f) := by
  intro s
  cases hrun : m.run.run s with
  | mk result s' =>
    cases result with
    | error e =>
      have he := hm s e (by rw [hrun])
      rw [ExceptT.run_bind, StateT.run_bind, hrun]
      exact failsOnly_error he
    | ok a =>
      rw [Runs.run_bind hrun]
      exact hf a s'

theorem Refuses.adapt {Q : ε' → Prop} {m : Reader ε α} {g : ε → ε'} (hm : Refuses P m)
    (hg : ∀ e, P e → Q (g e)) : Refuses Q (m.adapt g) :=
  fun s => (hm s).mapError hg

end Refuses

/-- The fault is not that an operand has no text. -/
def OperandError.HasText (e : OperandError) : Prop := e ≠ .unexpected []

theorem hasText_literal? (t : DataType) (s : List Char) :
    FailsOnly OperandError.HasText (literal? t s) := by
  have hraw : ∀ limit digits, FailsOnly OperandError.HasText (rawBits? limit digits) := by
    intro limit digits
    unfold rawBits?
    split
    · exact failsOnly_ok _ _
    · exact failsOnly_error nofun
  have hfloat : ∀ w, FailsOnly OperandError.HasText (floatLiteral? w s) := by
    intro w
    unfold floatLiteral?
    split
    · exact failsOnly_error nofun
    · cases w with
      | half => exact failsOnly_error nofun
      | single | double => exact failsOnly_ok _ _
  -- all that is not a float is read as an integer, with its sign first
  have hinteger : FailsOnly OperandError.HasText
      (if s.head? = some '-' then negativeLiteral? t s else positiveLiteral? t s) := by
    unfold negativeLiteral? positiveLiteral?
    dsimp only
    -- the sign chooses the range, not the kind of error
    split_ifs
    · split
      · exact failsOnly_error nofun
      · split_ifs
        · exact failsOnly_error nofun
        · exact failsOnly_ok _ _
    · split
      · exact failsOnly_error nofun
      · split_ifs
        · exact failsOnly_error nofun
        · exact failsOnly_ok _ _
  have htyped : FailsOnly OperandError.HasText (typedLiteral? t s) := by
    unfold typedLiteral?
    cases t with
    | float w => exact hfloat w
    | _ => exact hinteger
  unfold literal?
  split
  · split_ifs
    · exact hraw _ _
    · exact hraw _ _
    · exact htyped
  · exact htyped

theorem hasText_readRegister (s : List Char) : Refuses OperandError.HasText (readRegister s) := by
  have hspecial : FailsOnly OperandError.HasText (specialForm? s (s.drop 1)) := by
    unfold specialForm?
    dsimp only
    split
    · exact failsOnly_ok _ _
    · split
      · exact failsOnly_ok _ _
      · split_ifs
        · exact failsOnly_error nofun
        · split
          · exact failsOnly_ok _ _
          · exact failsOnly_error nofun
  have hname : Refuses OperandError.HasText (do
      return Form.register ⟨← internName (String.ofList s), String.ofList s⟩) :=
    (refuses_internName _).bind fun id => refuses_pure _
  unfold readRegister
  refine refuses_get.bind fun scope => ?_
  dsimp only
  split
  on_goal 1 => refine (refuses_pure none).bind fun special => ?_
  on_goal 2 => refine (refuses_liftM hspecial).bind fun special => ?_
  -- what follows does not depend on how it became known whether the register is a special one
  all_goals
    cases special with
    | some form => exact refuses_pure form
    | none =>
      dsimp only
      split_ifs
      · exact (refuses_throw nofun).bind fun _ => hname
      · exact hname

theorem hasText_readAddress (inside : List Char) :
    Refuses OperandError.HasText (readAddress inside) := by
  have hoffset : ∀ s, FailsOnly OperandError.HasText (offset? s) := by
    intro s
    unfold offset?
    -- the base is a register, a name or neither
    split_ifs
    · exact failsOnly_ok _ _
    · split
      · exact failsOnly_ok _ _
      · exact failsOnly_error nofun
  unfold readAddress
  dsimp only
  refine (refuses_liftM (hoffset _)).bind fun offset => ?_
  split_ifs
  · refine (hasText_readRegister _).bind fun form => ?_
    split
    · exact refuses_pure _
    · exact refuses_throw nofun
  · exact refuses_get.bind fun scope => refuses_pure _
  · exact refuses_throw nofun

/-- **Only an empty text is refused for being empty.** -/
theorem hasText_readOperand {s : List Char} (h : s ≠ []) (t : DataType) (label : Bool) :
    Refuses OperandError.HasText (readOperand t label s) := by
  have hform : Refuses OperandError.HasText (readForm t label s) := by
    unfold readForm
    split
    · exact refuses_pure _
    · split_ifs
      · exact hasText_readAddress _
      · exact refuses_throw nofun
    · exact hasText_readRegister _
    · split_ifs
      · exact (refuses_liftM (hasText_literal? t _)).bind fun bits => refuses_pure _
      · exact refuses_throw fun he => h (OperandError.unexpected.inj he)
      · exact refuses_pure _
      · exact refuses_get.bind fun scope => refuses_pure _
    · exact absurd rfl h
  exact hform.bind fun form => refuses_pure _

/-- The fault is not that an operand has no text. -/
def LineError.HasText (e : LineError) : Prop := ∀ j, e ≠ .operand j (.unexpected [])

theorem LineError.Early.hasText {e : LineError} (h : e.Early) : e.HasText := by
  rintro j rfl
  exact h

theorem hasText_readOperands (m : Mnemonic) {texts : List (List Char)}
    (h : ∀ text ∈ texts, text ≠ []) (j : Nat) :
    Refuses LineError.HasText (readOperands m j texts) := by
  induction texts generalizing j with
  | nil => exact refuses_pure []
  | cons text texts ih =>
    obtain ⟨htext, htexts⟩ := List.forall_mem_cons.mp h
    have hfirst := (hasText_readOperand htext (m.operandType j) m.opcode.takesLabel).adapt
      (g := LineError.operand j) (Q := LineError.HasText) fun e he j' heq =>
        he (LineError.operand.inj heq).2
    exact hfirst.bind fun x => (ih htexts (j + 1)).bind fun xs => refuses_pure _

theorem hasText_readGuard? (cs : List Char) : Refuses LineError.HasText (readGuard? cs) := by
  have hpredicate : ∀ inverse cs, Refuses LineError.HasText (readPredicate inverse cs) := by
    intro inverse cs
    unfold readPredicate
    dsimp only
    -- `pt` with either sign, then what is no register, then a register
    split_ifs
    · exact refuses_pure _
    · exact refuses_pure _
    · exact (refuses_throw nofun).bind fun _ => (refuses_internName _).bind fun id => refuses_pure _
    · exact (refuses_throw nofun).bind fun _ => (refuses_internName _).bind fun id => refuses_pure _
    · exact (refuses_internName _).bind fun id => refuses_pure _
    · exact (refuses_internName _).bind fun id => refuses_pure _
  unfold readGuard?
  split
  · unfold readGuard
    split
    · exact hpredicate true _
    · exact hpredicate false _
  · exact refuses_pure _

/-- **No line is refused for an operand without a text.** -/
theorem hasText_readLine (cs : List Char) : Refuses LineError.HasText (readLine cs) := by
  rw [readLine_eq_parts]
  refine (hasText_readGuard? _).bind fun guarded => ?_
  cases hparts : bodyParts cs guarded.2 with
  | error e => exact refuses_throw (early_bodyParts cs guarded.2 e hparts).hasText
  | ok parts =>
    have htexts := ne_nil_of_splitOperands (bodyParts_eq_ok.mp hparts).2.2.1
    have hoperands := hasText_readOperands parts.1 htexts 0
    exact (hoperands.bind fun xs => refuses_pure _ : Refuses _ (readParts guarded.1 parts))

end KernelIR.Source
