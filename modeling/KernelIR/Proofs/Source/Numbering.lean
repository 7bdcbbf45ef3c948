import KernelIR.Proofs.Source.Parser.Reading
import KernelIR.Source.Module

/-!
# The numbers of register names

A kernel is made by declaring parameters and registers, by putting in records of registers by hand,
and by reading lines (`Kernel.Edit`).  The names that it knows are listed with the latest first, so
the list is the record of all numbers that were ever given.

`Kernel.numbering_of_edits`: as long as no number reaches the last one, a name keeps its number,
different names have different numbers, and a new number is above all that were given before and
above all that the declared registers carry at that moment.  A line, be it accepted or not, does
nothing but to number names.

The last part is about readers that fail as well (`Numbers`), in contrast to `Gives`.  The others
rest on one step: `Scope.intern` gives the successor of the largest number in use, and below the
last number the successor is larger (`Scope.Ordered.intern`).
-/

namespace KernelIR.Source

/-! ### Readers number names -/

section Numbers

variable {ε ε' α β : Type}

/-- Whatever comes of it, the reader changes the scope only by numbering names. -/
def Numbers (m : Reader ε α) : Prop :=
  ∀ s : Scope, s.Interns (m.run.run s).2

theorem numbers_pure (a : α) : Numbers (pure a : Reader ε α) :=
  fun s => .refl s

theorem numbers_throw (e : ε) : Numbers (throw e : Reader ε α) :=
  fun s => .refl s

theorem numbers_throw_bind (e : ε) (f : α → Reader ε β) : Numbers (throw e >>= f) :=
  fun s => .refl s

theorem numbers_get : Numbers (get : Reader ε Scope) :=
  fun s => .refl s

theorem numbers_liftM (x : Except ε α) : Numbers (liftM x : Reader ε α) := by
  cases x with
  | error e => exact numbers_throw e
  | ok a => exact numbers_pure a

theorem numbers_internName (name : String) : Numbers (internName name : Reader ε UInt32) :=
  fun s => .one s name

theorem Numbers.bind {m : Reader ε α} {f : α → Reader ε β} (hm : Numbers m)
    (hf : ∀ a, Numbers (f a)) : Numbers (m >>= f) := by
  intro s
  have hs := hm s
  rw [ExceptT.run_bind, StateT.run_bind]
  cases hr : m.run.run s with
  | mk result s' =>
    rw [hr] at hs
    cases result with
    | error e => exact hs
    | ok a => exact hs.trans (hf a s')

theorem Numbers.adapt {m : Reader ε α} (hm : Numbers m) (f : ε → ε') : Numbers (m.adapt f) :=
  hm

end Numbers

theorem numbers_readRegister (cs : List Char) : Numbers (readRegister cs) := by
  -- the reading of a name, which both branches below end in
  have hnamed : Numbers (do
      if cs.length = 1 then throw .nameExpected
      return .register ⟨← internName (String.ofList cs), String.ofList cs⟩ :
        Reader OperandError Form) := by
    split_ifs
    · exact numbers_throw_bind _ _
    · exact (numbers_internName _).bind fun _ => numbers_pure _
  unfold readRegister
  dsimp only
  refine numbers_get.bind fun s => ?_
  split
  · rw [pure_bind]
    exact hnamed
  · refine (numbers_liftM _).bind fun special => ?_
    cases special with
    | none => exact hnamed
    | some form => exact numbers_pure form

theorem numbers_readAddress (inside : List Char) : Numbers (readAddress inside) := by
  unfold readAddress
  dsimp only
  refine (numbers_liftM _).bind fun offset => ?_
  split_ifs
  · refine (numbers_readRegister _).bind fun form => ?_
    split
    · exact numbers_pure _
    · exact numbers_throw _
  · exact numbers_get.bind fun _ => numbers_pure _
  · exact numbers_throw _

theorem numbers_readForm (t : DataType) (label : Bool) (text : List Char) :
    Numbers (readForm t label text) := by
  unfold readForm
  split
  · exact numbers_pure _
  · split_ifs
    · exact numbers_readAddress _
    · exact numbers_throw _
  · exact numbers_readRegister _
  · split_ifs
    · exact (numbers_liftM _).bind fun _ => numbers_pure _
    · exact numbers_throw _
    · exact numbers_pure _
    · exact numbers_get.bind fun _ => numbers_pure _
  · exact numbers_throw _

theorem numbers_readOperands (m : Mnemonic) (texts : List (List Char)) (j : Nat) :
    Numbers (readOperands m j texts) := by
  induction texts generalizing j with
  | nil => exact numbers_pure _
  | cons text texts ih =>
    unfold readOperands
    have hfirst : Numbers (readOperand (m.operandType j) m.opcode.takesLabel text) :=
      (numbers_readForm _ _ _).bind fun _ => numbers_pure _
    exact (hfirst.adapt _).bind fun _ => (ih (j + 1)).bind fun _ => numbers_pure _

theorem numbers_readPredicate (inverse : Bool) (cs : List Char) :
    Numbers (readPredicate inverse cs) := by
  unfold readPredicate
  dsimp only
  split_ifs
  · exact numbers_pure _
  · exact numbers_pure _
  · exact numbers_throw_bind _ _
  · exact numbers_throw_bind _ _
  · exact (numbers_internName _).bind fun _ => numbers_pure _
  · exact (numbers_internName _).bind fun _ => numbers_pure _

theorem numbers_readGuard? (cs : List Char) : Numbers (readGuard? cs) := by
  unfold readGuard?
  split
  · unfold readGuard
    split
    · exact numbers_readPredicate true _
    · exact numbers_readPredicate false _
  · exact numbers_pure _

theorem numbers_readLine (cs : List Char) : Numbers (readLine cs) := by
  unfold readLine
  refine (numbers_readGuard? _).bind fun e => ?_
  dsimp only
  -- what follows the guard, for any way to divide the rest of the line
  have hrest : ∀ word tail, Numbers (do
      let m ← liftM (mnemonic? word)
      let texts ← liftM (splitOperands (Text.byteLength cs - Text.byteLength tail) tail)
      if 4 < texts.length then throw (.tooManyOperands texts.length)
      let xs ← readOperands m 0 texts
      return { m with guard := e.1, d := xs[0]?, a := xs[1]?, b := xs[2]?, c := xs[3]? } :
        Reader LineError Instruction) := by
    intro word tail
    refine (numbers_liftM _).bind fun m => (numbers_liftM _).bind fun texts => ?_
    have hread := (numbers_readOperands m texts 0).bind (f := fun xs => (pure
      { m with guard := e.1, d := xs[0]?, a := xs[1]?, b := xs[2]?, c := xs[3]? } :
        Reader LineError Instruction)) fun _ => numbers_pure _
    split_ifs
    · exact numbers_throw_bind _ _
    · exact hread
  split_ifs
  · exact numbers_throw_bind _ _
  · exact hrest _ _

/-- Reading a line only numbers names, also if the line is wrong. -/
theorem Scope.interns_parse (s : Scope) (line : String) : s.Interns (s.parse line).2 :=
  numbers_readLine _ s

/-! ### The order of numbers -/

namespace Scope

variable {s s' : Scope}

/-- No number in use has reached the last one. -/
def BelowLast (s : Scope) : Prop :=
  (∀ e ∈ s.names, e.2.toNat < 2 ^ 32 - 1) ∧ ∀ r ∈ s.registers, r.id.toNat < 2 ^ 32 - 1

instance (s : Scope) : Decidable s.BelowLast :=
  inferInstanceAs (Decidable (_ ∧ _))

theorem BelowLast.of_subset (h : s'.BelowLast) (hnames : s.names ⊆ s'.names)
    (hregisters : s.registers ⊆ s'.registers) : s.BelowLast :=
  ⟨fun e he => h.1 e (hnames he), fun r hr => h.2 r (hregisters hr)⟩

/-- Numbers were given in increasing order, to names that had none; the latest name comes first. -/
structure Ordered (s : Scope) : Prop where
  nodup : (s.names.map Prod.fst).Nodup
  descending : s.names.Pairwise fun later earlier => earlier.2 < later.2
  /-- the number that was given last is that of the latest name -/
  last : s.lastId = (s.names.head?.map Prod.snd).getD 0

theorem ordered_empty : Ordered {} :=
  ⟨List.nodup_nil, .nil, rfl⟩

/-- The scope behind has further names in front, with numbers above all that were in use. -/
def AddsAbove (s s' : Scope) : Prop :=
  ∃ fresh, s'.names = fresh ++ s.names ∧
    ∀ e ∈ fresh, (∀ e' ∈ s.names, e'.2 < e.2) ∧ ∀ r ∈ s.registers, r.id < e.2

/-- The largest of some numbers is bounded by what bounds them all. -/
theorem foldl_max_le_iff {rs : List Register} {last n : UInt32} :
    rs.foldl (fun last r => max last r.id) last ≤ n ↔ last ≤ n ∧ ∀ r ∈ rs, r.id ≤ n := by
  have hmax : ∀ a b : UInt32, max a b ≤ n ↔ a ≤ n ∧ b ≤ n := by
    intro a b
    show (if a ≤ b then b else a) ≤ n ↔ _
    simp only [UInt32.le_iff_toNat_le]
    split_ifs <;> omega
  induction rs generalizing last with
  | nil => simp
  | cons r rs ih =>
    rw [List.foldl_cons, List.forall_mem_cons, ← and_assoc, ← hmax]
    exact ih

theorem highest_le_iff {n : UInt32} :
    s.highest ≤ n ↔ s.lastId ≤ n ∧ ∀ r ∈ s.registers, r.id ≤ n :=
  foldl_max_le_iff

namespace Ordered

/-- The number that was given last is not below any other. -/
theorem le_lastId (h : s.Ordered) {e : String × UInt32} (he : e ∈ s.names) : e.2 ≤ s.lastId := by
  have hlast := h.last
  have hdesc := h.descending
  cases hnames : s.names with
  | nil =>
    rw [hnames] at he
    cases he
  | cons e₀ es =>
    rw [hnames] at he hlast hdesc
    rw [show s.lastId = e₀.2 from hlast]
    rcases List.mem_cons.mp he with rfl | he
    · exact UInt32.le_refl _
    · exact UInt32.le_of_lt ((List.pairwise_cons.mp hdesc).1 e he)

/-- Below the last number, the largest number in use has a successor. -/
theorem toNat_highest_succ (h : s.Ordered) (hbelow : s.BelowLast) :
    (s.highest + 1).toNat = s.highest.toNat + 1 := by
  have hlast : s.lastId.toNat < 2 ^ 32 - 1 := by
    rw [h.last]
    -- the last id is that of the first entry of the list, or zero
    cases hnames : s.names with
    | nil => decide
    | cons e es =>
      refine hbelow.1 e ?_
      rw [hnames]
      exact List.mem_cons_self
  have hle : s.highest ≤ 0xfffffffe := by
    rw [highest_le_iff, UInt32.le_iff_toNat_le]
    refine ⟨Nat.le_of_lt_succ hlast, fun r hr => ?_⟩
    rw [UInt32.le_iff_toNat_le]
    exact Nat.le_of_lt_succ (hbelow.2 r hr)
  rw [UInt32.le_iff_toNat_le] at hle
  rw [UInt32.toNat_add]
  exact Nat.mod_eq_of_lt (Nat.lt_of_le_of_lt (Nat.succ_le_succ hle) (by decide))

/-- **A new number is above all numbers in use.** -/
theorem lt_highest_succ (h : s.Ordered) (hbelow : s.BelowLast) :
    (∀ e ∈ s.names, e.2 < s.highest + 1) ∧ ∀ r ∈ s.registers, r.id < s.highest + 1 := by
  have hsucc := h.toNat_highest_succ hbelow
  obtain ⟨hlast, hregisters⟩ := highest_le_iff.mp (UInt32.le_refl s.highest)
  constructor
  · intro e he
    have hle := h.le_lastId he
    rw [UInt32.le_iff_toNat_le] at hle hlast
    rw [UInt32.lt_iff_toNat_lt, hsucc]
    omega
  · intro r hr
    have hle := hregisters r hr
    rw [UInt32.le_iff_toNat_le] at hle
    rw [UInt32.lt_iff_toNat_lt, hsucc]
    omega

/-- One more name keeps the numbers in order. -/
theorem intern (h : s.Ordered) (hbelow : s.BelowLast) (name : String) :
    (s.intern name).2.Ordered := by
  cases hname : s.idOf? name with
  | some id => rwa [intern_of_known hname]
  | none =>
    rw [intern_of_new hname]
    refine ⟨List.nodup_cons.mpr ⟨?_, h.nodup⟩,
      List.pairwise_cons.mpr ⟨(h.lt_highest_succ hbelow).1, h.descending⟩, rfl⟩
    rw [← lookup_isSome_iff_mem]
    show ¬(s.idOf? name).isSome
    rw [hname]
    decide

/-- **Different names have different numbers.** -/
theorem name_eq (h : s.Ordered) {name name' : String} {id : UInt32} (hid : s.idOf? name = some id)
    (hid' : s.idOf? name' = some id) : name = name' := by
  -- as the numbers of the table are all different, the two entries are one
  have hnodup : (s.names.map Prod.snd).Nodup := by
    refine List.pairwise_map.mpr (h.descending.imp fun hlt heq => ?_)
    rw [heq] at hlt
    exact UInt32.lt_irrefl _ hlt
  have heq := List.inj_on_of_nodup_map hnodup (mem_of_lookup hid) (mem_of_lookup hid') rfl
  exact congrArg Prod.fst heq

end Ordered

/-- The names that are known stay where they are. -/
theorem Interns.names (h : s.Interns s') : ∃ fresh, s'.names = fresh ++ s.names := by
  induction h with
  | refl => exact ⟨[], rfl⟩
  | @step s' name _ ih =>
    obtain ⟨fresh, hfresh⟩ := ih
    cases hname : s'.idOf? name with
    | some id => exact ⟨fresh, by rw [intern_of_known hname, hfresh]⟩
    | none => exact ⟨(name, s'.highest + 1) :: fresh, by rw [intern_of_new hname, hfresh]; rfl⟩

/-- **Numbering names keeps the numbers in order**, and every new one is above all in use. -/
theorem Interns.ordered (h : s.Interns s') (hs : s.Ordered) (hbelow : s'.BelowLast) :
    s'.Ordered ∧ s.AddsAbove s' := by
  induction h with
  | refl => exact ⟨hs, [], rfl, fun e he => absurd he List.not_mem_nil⟩
  | @step s' name hinterns ih =>
    -- the bound holds of the scope before the last name as well
    obtain ⟨fresh', hfresh'⟩ := (one s' name).names
    have hbefore : s'.BelowLast := by
      refine hbelow.of_subset ?_ ?_
      · rw [hfresh']
        exact List.subset_append_right _ _
      · rw [registers_intern]
        exact List.Subset.refl _
    obtain ⟨hordered, fresh, hnames, hfresh⟩ := ih hbefore
    refine ⟨hordered.intern hbefore name, ?_⟩
    cases hname : s'.idOf? name with
    | some id =>
      rw [intern_of_known hname]
      exact ⟨fresh, hnames, hfresh⟩
    | none =>
      rw [intern_of_new hname]
      obtain ⟨habove, hregisters⟩ := hordered.lt_highest_succ hbefore
      refine ⟨(name, s'.highest + 1) :: fresh, by rw [hnames]; rfl, fun e he => ?_⟩
      rcases List.mem_cons.mp he with rfl | he
      · refine ⟨fun e' he' => habove e' ?_, fun r hr => hregisters r ?_⟩
        · rw [hnames]
          exact List.mem_append_right _ he'
        · rwa [hinterns.registers]
      · exact hfresh e he

end Scope

/-! ### Edits of a kernel -/

namespace Kernel

/-- What is done to a kernel before it is complete. -/
inductive Edit
  /-- declares a parameter -/
  | param (name : String) (type : DataType)
  /-- declares a register under a name -/
  | register (name : String) (type : DataType)
  /-- puts in the record of a register by hand -/
  | record (r : Register)
  /-- reads a line, which may be wrong -/
  | line (text : String)

/-- The kernel after an edit. -/
def edit (k : Kernel) : Edit → Kernel
  | .param name type => { k with scope := k.scope.addParam name type }
  | .register name type => { k with scope := k.scope.addRegister name type }
  | .record r => { k with scope := k.scope.addRecord r }
  | .line text => (k.parse text).2

/-- The kernel after some edits. -/
def edited (k : Kernel) (es : List Edit) : Kernel :=
  es.foldl edit k

variable {k : Kernel} {es : List Edit}

theorem edited_append (k : Kernel) (es es' : List Edit) :
    k.edited (es ++ es') = (k.edited es).edited es' :=
  List.foldl_append

/-- **What an edit does to names**: it numbers some, and declares registers after that. -/
theorem edit_cases (k : Kernel) (e : Edit) : ∃ s, k.scope.Interns s ∧
    (k.edit e).scope.names = s.names ∧ (k.edit e).scope.lastId = s.lastId ∧
    s.registers ⊆ (k.edit e).scope.registers := by
  cases e with
  | param name type => exact ⟨k.scope, .refl _, rfl, rfl, List.Subset.refl _⟩
  | register name type =>
    exact ⟨_, .one k.scope name, rfl, rfl, List.subset_append_left _ _⟩
  | record r => exact ⟨k.scope, .refl _, rfl, rfl, List.subset_append_left _ _⟩
  | line text =>
    exact ⟨_, k.scope.interns_parse text, rfl, rfl, List.Subset.refl _⟩

theorem idOf?_edit (e : Edit) {name : String} {id : UInt32} (h : k.scope.idOf? name = some id) :
    (k.edit e).scope.idOf? name = some id := by
  obtain ⟨s, hs, hnames, -, -⟩ := k.edit_cases e
  rw [Scope.idOf?, hnames]
  exact hs.idOf? h

theorem belowLast_of_edit {e : Edit} (h : (k.edit e).scope.BelowLast) : k.scope.BelowLast := by
  obtain ⟨s, hs, hnames, -, hregisters⟩ := k.edit_cases e
  obtain ⟨fresh, hfresh⟩ := hs.names
  refine h.of_subset ?_ ?_
  · rw [hnames, hfresh]
    exact List.subset_append_right _ _
  · rw [← hs.registers]
    exact hregisters

/-- **An edit keeps the numbers in order**, and every new one is above all in use. -/
theorem ordered_edit {e : Edit} (h : k.scope.Ordered) (hbelow : (k.edit e).scope.BelowLast) :
    (k.edit e).scope.Ordered ∧ k.scope.AddsAbove (k.edit e).scope := by
  obtain ⟨s, hs, hnames, hlast, hregisters⟩ := k.edit_cases e
  have hbelow' : s.BelowLast := by
    refine hbelow.of_subset ?_ hregisters
    rw [hnames]
    exact List.Subset.refl _
  obtain ⟨hordered, fresh, hfresh, habove⟩ := hs.ordered h hbelow'
  refine ⟨⟨?_, ?_, ?_⟩, fresh, hnames.trans hfresh, habove⟩
  · rw [hnames]
    exact hordered.nodup
  · rw [hnames]
    exact hordered.descending
  · rw [hnames, hlast]
    exact hordered.last

theorem idOf?_edited (es : List Edit) {name : String} {id : UInt32}
    (h : k.scope.idOf? name = some id) : (k.edited es).scope.idOf? name = some id := by
  induction es generalizing k with
  | nil => exact h
  | cons e es ih => exact ih (idOf?_edit e h)

theorem belowLast_of_edited (h : (k.edited es).scope.BelowLast) : k.scope.BelowLast := by
  induction es generalizing k with
  | nil => exact h
  | cons e es ih => exact belowLast_of_edit (ih h)

theorem ordered_edited (h : k.scope.Ordered) (hbelow : (k.edited es).scope.BelowLast) :
    (k.edited es).scope.Ordered := by
  induction es generalizing k with
  | nil => exact h
  | cons e es ih => exact ih (ordered_edit h (belowLast_of_edited hbelow)).1 hbelow

/-- A kernel that is made from nothing by edits. -/
def made (name : String) (linkage : Attribute) (es : List Edit) : Kernel :=
  edited { name, linkage } es

theorem ordered_made {name : String} {linkage : Attribute}
    (hbelow : (made name linkage es).scope.BelowLast) : (made name linkage es).scope.Ordered :=
  ordered_edited Scope.ordered_empty hbelow

/-- What a line leaves as it is, and what it gives. -/
theorem parse_numbers (k : Kernel) (text : String) :
    (k.parse text).2.scope.registers = k.scope.registers ∧
      (k.parse text).2.scope.params = k.scope.params ∧ (k.parse text).2.graph = k.graph ∧
      ∀ (i : Instruction) (r : RegisterUse), (k.parse text).1 = .ok i → i.Uses r →
        (k.parse text).2.scope.idOf? r.name = some r.id := by
  have hinterns := k.scope.interns_parse text
  refine ⟨hinterns.registers, hinterns.params, rfl, fun i r hi hr => ?_⟩
  exact Scope.bound_of_parse (Prod.ext hi rfl) hr

/-- **The numbers of register names.**  If no number reaches the last one while a kernel is made by
any edits, names keep their numbers and have different ones, and every edit gives larger numbers
than all that were given or declared before.  Lines do nothing else, be they accepted or not; the
registers of an instruction and of a declaration carry the numbers of their names. -/
theorem numbering_of_edits {name : String} {linkage : Attribute} {es : List Edit}
    (hbelow : (made name linkage es).scope.BelowLast) :
    (∀ before after, es = before ++ after → ∀ n id,
      (made name linkage before).scope.idOf? n = some id →
        (made name linkage es).scope.idOf? n = some id) ∧
    (∀ n n' id, (made name linkage es).scope.idOf? n = some id →
      (made name linkage es).scope.idOf? n' = some id → n = n') ∧
    (made name linkage es).scope.names.Pairwise (fun later earlier => earlier.2 < later.2) ∧
    (∀ before e after, es = before ++ e :: after →
      (made name linkage before).scope.AddsAbove ((made name linkage before).edit e).scope) ∧
    (∀ (k : Kernel) n type, ∃ id, (k.edit (.register n type)).scope.idOf? n = some id ∧
      (k.edit (.register n type)).scope.registers = k.scope.registers ++ [⟨id, type, n⟩]) ∧
    ∀ (k : Kernel) text, (k.parse text).2.scope.registers = k.scope.registers ∧
      (k.parse text).2.scope.params = k.scope.params ∧ (k.parse text).2.graph = k.graph ∧
      ∀ (i : Instruction) (r : RegisterUse), (k.parse text).1 = .ok i → i.Uses r →
        (k.parse text).2.scope.idOf? r.name = some r.id := by
  have hordered := ordered_made hbelow
  refine ⟨?_, fun n n' id => hordered.name_eq, hordered.descending, ?_, ?_, parse_numbers⟩
  · rintro before after rfl n id hid
    rw [made, edited_append]
    exact idOf?_edited after hid
  · rintro before e after rfl
    -- the bound goes back from the whole run to the scope right after the edit
    have hafter : ((made name linkage before).edit e).scope.BelowLast := by
      rw [made, edited_append] at hbelow
      exact belowLast_of_edited hbelow
    exact (ordered_edit (ordered_made (belowLast_of_edit hafter)) hafter).2
  · intro k n type
    refine ⟨(k.scope.intern n).1, k.scope.idOf?_intern n, ?_⟩
    have hregisters := k.scope.registers_intern n
    exact congrArg (· ++ [_]) hregisters

/-- A register, a record by hand with a larger number, a line that is wrong after two new names, and
a line that is accepted. -/
def sampleEdits : List Edit :=
  [.register "%a" (.unsigned .w32), .record ⟨6, .pred, "%h"⟩, .line "mov.u32 %b, %c, ?",
    .param "n" (.unsigned .w32), .record ⟨3, .pred, "%g"⟩, .line "@%p add.u32 %a, %b, %d"]

theorem numbering_of_sampleEdits :
    (made "k" .none sampleEdits).scope.BelowLast ∧
      (made "k" .none sampleEdits).scope.names =
        [("%d", 10), ("%p", 9), ("%c", 8), ("%b", 7), ("%a", 1)] ∧
      (made "k" .none (sampleEdits.take 2)).scope.AddsAbove
        ((made "k" .none (sampleEdits.take 2)).edit (.line "mov.u32 %b, %c, ?")).scope := by
  have hbelow : (made "k" .none sampleEdits).scope.BelowLast := by decide +kernel
  refine ⟨hbelow, by decide +kernel, ?_⟩
  exact (numbering_of_edits hbelow).2.2.2.1 (sampleEdits.take 2) (.line "mov.u32 %b, %c, ?")
    (sampleEdits.drop 3) rfl

end Kernel

end KernelIR.Source
