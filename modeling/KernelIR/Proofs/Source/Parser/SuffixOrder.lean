import KernelIR.Proofs.Source.Parser.Mnemonic

/-!
# The order of suffixes

`mnemonic?_eq_ok_iff_of_perm`: what a mnemonic is read as does not depend on the order of its
suffixes, as long as the types among them keep theirs.  The exceptions are two different address
spaces, of which the later counts, and on a `setp` two different comparisons, of which the first
counts.

A suffix belongs to one vocabulary (`Suffix.ofName`); only comparisons may be modifiers as well.
What it does to a mnemonic depends on nothing but the opcode and the part that it sets
(`Suffix.apply`), so two suffixes that set different parts can be exchanged (`Suffix.apply_comm`).
Types are gathered in a list of their own, and for the rest a fold of steps that commute does not
see a permutation.
-/

namespace KernelIR.Source

/-! ### What a suffix is -/

/-- What a suffix can be taken for. -/
inductive Suffix
  /-- a comparison, which may be a modifier as well -/
  | comparison (c : Comparison) (n : Option Modifiers)
  | atomic (a : AtomicOp)
  | level (l : FenceLevel)
  | uniform
  | space (a : Space)
  | type (t : DataType)
  | modifier (n : Modifiers)
  | unknown
deriving DecidableEq

namespace Suffix

/-- What a name can be taken for. -/
def ofName (s : String) : Suffix :=
  match Comparison.ofName? s with
  | some c => .comparison c (Modifiers.ofName? s)
  | none =>
    match AtomicOp.ofName? s with
    | some a => .atomic a
    | none =>
      match FenceLevel.ofName? s with
      | some l => .level l
      | none =>
        if s = "uni" then .uniform
        else match Space.ofName? s with
          | some a => .space a
          | none =>
            match DataType.ofName? s with
            | some t => .type t
            | none =>
              match Modifiers.ofName? s with
              | some n => .modifier n
              | none => .unknown

/-- The type that a suffix is. -/
def type? : Suffix → Option DataType
  | .type t => some t
  | _ => none

/-- What a suffix sets as the tag of an opcode. -/
def tag (op : Opcode) : Suffix → Option (Mnemonic → Mnemonic)
  | .comparison c _ => if op = .setp then some ({ · with comparison := c }) else none
  | .atomic a => if op = .atom then some ({ · with atomic := a }) else none
  | .level l => if op = .membar then some ({ · with level := l }) else none
  | _ => none

/-- What a suffix does where it is no tag.  A type leaves the rest of the mnemonic alone. -/
def plain (op : Opcode) : Suffix → Option (Mnemonic → Mnemonic)
  | .comparison _ n => n.map fun n m => { m with modifiers := m.modifiers.union n }
  | .atomic _ | .level _ | .unknown => none
  | .uniform =>
    if op = .bra ∨ op = .ret ∨ op = .call then some ({ · with uniform := true }) else none
  | .space a => some ({ · with space := a })
  | .type _ => some id
  | .modifier n => some fun m => { m with modifiers := m.modifiers.union n }

/-- Whether an opcode that takes a tag has none yet. -/
def untagged (op : Opcode) (m : Mnemonic) : Bool :=
  if op = .setp then m.comparison = .none
  else if op = .atom then m.atomic = .none
  else if op = .membar then m.level = .none
  else false

/-- What a suffix makes of a mnemonic, apart from its types. -/
def apply (op : Opcode) (m : Mnemonic) (x : Suffix) : Option Mnemonic :=
  ((if untagged op m then x.tag op else none).or (x.plain op)).map (· m)

end Suffix

/-! ### Vocabularies -/

/-- What is found by a name has it, and is listed. -/
theorem eq_name_of_find? {α : Type} {name : α → String} {l : List α} {s : String} {a : α}
    (h : l.find? (name · = s) = some a) : s = name a ∧ a ∈ l := by
  have hname : name a = s := by simpa using List.find?_some h
  exact ⟨hname.symm, List.mem_of_find?_eq_some h⟩

/-- A comparison is no other tag, no space and no type. -/
theorem separate_comparison {s : String} {c : Comparison} (h : Comparison.ofName? s = some c) :
    AtomicOp.ofName? s = none ∧ FenceLevel.ofName? s = none ∧ s ≠ "uni" ∧ Space.ofName? s = none ∧
      DataType.ofName? s = none := by
  have hall : ∀ c ∈ Comparison.named, AtomicOp.ofName? c.name = none ∧
      FenceLevel.ofName? c.name = none ∧ c.name ≠ "uni" ∧ Space.ofName? c.name = none ∧
      DataType.ofName? c.name = none := by
    decide
  obtain ⟨rfl, hc⟩ := eq_name_of_find? h
  exact hall c hc

/-- An atomic operation is nothing else. -/
theorem separate_atomic {s : String} {a : AtomicOp} (h : AtomicOp.ofName? s = some a) :
    a ≠ .none ∧ FenceLevel.ofName? s = none ∧ s ≠ "uni" ∧ Space.ofName? s = none ∧
      DataType.ofName? s = none ∧ Modifiers.ofName? s = none := by
  have hall : ∀ a ∈ AtomicOp.named, a ≠ .none ∧ FenceLevel.ofName? a.name = none ∧
      a.name ≠ "uni" ∧ Space.ofName? a.name = none ∧ DataType.ofName? a.name = none ∧
      Modifiers.ofName? a.name = none := by
    decide
  obtain ⟨rfl, ha⟩ := eq_name_of_find? h
  exact hall a ha

/-- A fence level is nothing else. -/
theorem separate_level {s : String} {l : FenceLevel} (h : FenceLevel.ofName? s = some l) :
    l ≠ .none ∧ s ≠ "uni" ∧ Space.ofName? s = none ∧ DataType.ofName? s = none ∧
      Modifiers.ofName? s = none := by
  have hall : ∀ l ∈ FenceLevel.named, l ≠ .none ∧ l.name ≠ "uni" ∧ Space.ofName? l.name = none ∧
      DataType.ofName? l.name = none ∧ Modifiers.ofName? l.name = none := by
    decide
  obtain ⟨rfl, hl⟩ := eq_name_of_find? h
  exact hall l hl

theorem separate_uniform : Space.ofName? "uni" = none ∧ DataType.ofName? "uni" = none ∧
    Modifiers.ofName? "uni" = none := by
  decide

theorem separate_space {s : String} {a : Space} (h : Space.ofName? s = some a) :
    DataType.ofName? s = none := by
  have hall : ∀ a ∈ Space.named, DataType.ofName? a.name = none := by
    decide
  obtain ⟨rfl, ha⟩ := eq_name_of_find? h
  exact hall a ha

namespace Suffix

/-- The name can be taken for the suffix. -/
inductive Spells (s : String) : Suffix → Prop
  | comparison {c : Comparison} (h : Comparison.ofName? s = some c) :
      Spells s (.comparison c (Modifiers.ofName? s))
  | atomic {a : AtomicOp} (h : AtomicOp.ofName? s = some a) : Spells s (.atomic a)
  | level {l : FenceLevel} (h : FenceLevel.ofName? s = some l) : Spells s (.level l)
  | uniform (h : s = "uni") : Spells s .uniform
  | space {a : Space} (h : Space.ofName? s = some a) : Spells s (.space a)
  | type {t : DataType} (h : DataType.ofName? s = some t) : Spells s (.type t)
  | modifier {n : Modifiers} (h : DataType.ofName? s = none) : Spells s (.modifier n)
  | unknown (h : DataType.ofName? s = none) : Spells s .unknown

theorem spells_ofName (s : String) : Spells s (ofName s) := by
  unfold ofName
  split
  · exact .comparison ‹_›
  split
  · exact .atomic ‹_›
  split
  · exact .level ‹_›
  split_ifs
  · exact .uniform ‹_›
  split
  · exact .space ‹_›
  split
  · exact .type ‹_›
  split
  · exact .modifier ‹_›
  · exact .unknown ‹_›

/-- A suffix is a type if its name is one. -/
theorem Spells.type?_eq {s : String} {x : Suffix} (h : Spells s x) :
    x.type? = DataType.ofName? s := by
  cases h with
  | comparison h => exact (separate_comparison h).2.2.2.2.symm
  | atomic h => exact (separate_atomic h).2.2.2.2.1.symm
  | level h => exact (separate_level h).2.2.2.1.symm
  | uniform h =>
    subst h
    exact separate_uniform.2.1.symm
  | space h => exact (separate_space h).symm
  | type h | modifier h | unknown h => exact h.symm

end Suffix

namespace MnemonicDraft

open Suffix (tag plain untagged)

/-- **A suffix is taken in as what it is**: a type goes to the types, and anything else changes the
rest of the mnemonic. -/
theorem toOption_add (draft : MnemonicDraft) (s : List Char) :
    (draft.add s).toOption =
      ((Suffix.ofName (String.ofList s)).apply draft.mnemonic.opcode draft.mnemonic).map
        (⟨·, draft.types ++ (Suffix.ofName (String.ofList s)).type?.toList⟩) := by
  obtain ⟨m, ts⟩ := draft
  unfold add Suffix.ofName Suffix.apply
  dsimp only
  generalize String.ofList s = name
  -- one vocabulary after the other, in the order in which a suffix is tried
  cases hc : Comparison.ofName? name with
  | some c =>
    obtain ⟨ha, hl, hu, hs, ht⟩ := separate_comparison hc
    rw [uniform?_eq_none hu, space?, hs, ht, modifier?, tag?, hc, ha, hl]
    by_cases hsetp : m.opcode = .setp ∧ m.comparison = .none
    · simp [tag, Suffix.type?, untagged, hsetp, Except.toOption]
    · have htag : (if untagged m.opcode m then tag m.opcode (.comparison c (Modifiers.ofName? name))
          else none) = none := by
        by_cases hop : m.opcode = .setp <;> simp_all [tag, untagged]
      rw [htag]
      cases Modifiers.ofName? name <;> simp [plain, Suffix.type?, hsetp, Except.toOption]
  | none =>
  cases ha : AtomicOp.ofName? name with
  | some a =>
    obtain ⟨-, hl, hu, hs, ht, hn⟩ := separate_atomic ha
    rw [uniform?_eq_none hu, space?, hs, ht, modifier?, hn, tag?, hc, ha, hl]
    by_cases hop : m.opcode = .atom <;> by_cases htag : m.atomic = .none <;>
      simp [tag, plain, untagged, Suffix.type?, hop, htag, Except.toOption]
  | none =>
  cases hl : FenceLevel.ofName? name with
  | some l =>
    obtain ⟨-, hu, hs, ht, hn⟩ := separate_level hl
    rw [uniform?_eq_none hu, space?, hs, ht, modifier?, hn, tag?, hc, ha, hl]
    by_cases hop : m.opcode = .membar <;> by_cases htag : m.level = .none <;>
      simp [tag, plain, untagged, Suffix.type?, hop, htag, Except.toOption]
  | none =>
  rw [tag?_eq_none (fun _ _ => hc) ha hl, Option.none_or]
  by_cases hu : name = "uni"
  · subst hu
    obtain ⟨hs, ht, hn⟩ := separate_uniform
    rw [space?, hs, ht, modifier?, hn, uniform?]
    by_cases huniform : m.opcode = .bra ∨ m.opcode = .ret ∨ m.opcode = .call <;>
      simp [tag, plain, Suffix.type?, huniform, Except.toOption]
  rw [uniform?_eq_none hu, space?, modifier?, if_neg hu]
  cases hs : Space.ofName? name with
  | some a => simp [tag, plain, Suffix.type?, Except.toOption]
  | none =>
  cases ht : DataType.ofName? name with
  | some t => simp [tag, plain, Suffix.type?, Except.toOption]
  | none =>
  cases Modifiers.ofName? name <;> simp [tag, plain, Suffix.type?, Except.toOption]

end MnemonicDraft

/-! ### Exchanging two suffixes -/

theorem Modifiers.union_right_comm (m n n' : Modifiers) :
    (m.union n).union n' = (m.union n').union n := by
  unfold union
  rw [BitVec.or_assoc, BitVec.or_comm n.word, ← BitVec.or_assoc]

namespace Suffix

variable {op : Opcode} {x y : Suffix} {u v : Mnemonic → Mnemonic}

/-- What a suffix does that is no tag is to add a modifier, to set `uni` or a space, or nothing. -/
theorem plain_cases (h : x.plain op = some u) :
    (∃ n, u = fun m => { m with modifiers := m.modifiers.union n }) ∨
      (u = fun m => { m with uniform := true }) ∨
      (∃ a, x = .space a ∧ u = fun m => { m with space := a }) ∨ u = id := by
  cases x with
  -- outside of its opcode the name of a comparison may be that of a modifier
  | comparison c n =>
    obtain ⟨n, -, rfl⟩ := Option.map_eq_some_iff.mp h
    exact .inl ⟨n, rfl⟩
  | modifier n =>
    cases h
    exact .inl ⟨n, rfl⟩
  | uniform =>
    rw [plain] at h
    split_ifs at h
    cases h
    exact .inr (.inl rfl)
  | space a =>
    cases h
    exact .inr (.inr (.inl ⟨a, rfl, rfl⟩))
  | type t =>
    cases h
    exact .inr (.inr (.inr rfl))
  | atomic | level | unknown => cases h

/-- What a suffix does as a tag is to set the tag of the opcode. -/
theorem tag_cases (h : x.tag op = some u) :
    (op = .setp ∧ ∃ c n, x = .comparison c n ∧ u = fun m => { m with comparison := c }) ∨
      (op = .atom ∧ ∃ a, x = .atomic a ∧ u = fun m => { m with atomic := a }) ∨
      (op = .membar ∧ ∃ l, x = .level l ∧ u = fun m => { m with level := l }) := by
  cases x with
  | comparison c n =>
    rw [tag] at h
    split_ifs at h with hop
    cases h
    exact .inl ⟨hop, c, n, rfl, rfl⟩
  | atomic a =>
    rw [tag] at h
    split_ifs at h with hop
    cases h
    exact .inr (.inl ⟨hop, a, rfl, rfl⟩)
  | level l =>
    rw [tag] at h
    split_ifs at h with hop
    cases h
    exact .inr (.inr ⟨hop, l, rfl, rfl⟩)
  | uniform | space | type | modifier | unknown => cases h

/-- Suffixes that are no tags can be exchanged, unless both are spaces. -/
theorem plain_comm (hx : x.plain op = some u) (hy : y.plain op = some v)
    (h : ∀ a b, x = .space a → y = .space b → a = b) (m : Mnemonic) : u (v m) = v (u m) := by
  rcases plain_cases hx with ⟨n, rfl⟩ | rfl | ⟨a, rfl, rfl⟩ | rfl
  · rcases plain_cases hy with ⟨n', rfl⟩ | rfl | ⟨b, rfl, rfl⟩ | rfl
    · dsimp only
      rw [Modifiers.union_right_comm]
    all_goals rfl
  · rcases plain_cases hy with ⟨n', rfl⟩ | rfl | ⟨b, rfl, rfl⟩ | rfl <;> rfl
  · rcases plain_cases hy with ⟨n', rfl⟩ | rfl | ⟨b, rfl, rfl⟩ | rfl
    · rfl
    · rfl
    · rw [h a b rfl rfl]
    · rfl
  · rfl

/-- A tag sets another part than what is no tag. -/
theorem tag_plain_comm (hx : x.tag op = some u) (hy : y.plain op = some v) (m : Mnemonic) :
    u (v m) = v (u m) := by
  rcases tag_cases hx with ⟨-, c, n, -, rfl⟩ | ⟨-, a, -, rfl⟩ | ⟨-, l, -, rfl⟩ <;>
    rcases plain_cases hy with ⟨n', rfl⟩ | rfl | ⟨b, -, rfl⟩ | rfl <;> rfl

/-- What is no tag does not set the tag. -/
theorem untagged_plain (hx : x.plain op = some u) (m : Mnemonic) :
    untagged op (u m) = untagged op m := by
  rcases plain_cases hx with ⟨n, rfl⟩ | rfl | ⟨a, -, rfl⟩ | rfl <;> rfl

/-- A suffix with a tag that is not taken as the tag is taken as what it is besides. -/
theorem apply_of_plain {m : Mnemonic} (h : untagged op m = true → x.tag op = none) :
    apply op m x = (x.plain op).map (· m) := by
  unfold apply
  split_ifs with huntagged
  · rw [h huntagged, Option.none_or]
  · rw [Option.none_or]

theorem apply_of_tag {m : Mnemonic} (h : untagged op m = true) (hx : x.tag op = some u) :
    apply op m x = some (u m) := by
  rw [apply, if_pos h, hx]
  rfl

/-- Whether a suffix can be told from a missing tag. -/
def Proper : Suffix → Prop
  | .atomic a => a ≠ .none
  | .level l => l ≠ .none
  | _ => True

theorem Spells.proper {s : String} (h : Spells s x) : x.Proper := by
  cases h with
  | atomic h => exact (separate_atomic h).1
  | level h => exact (separate_level h).1
  | comparison | uniform | space | type | modifier | unknown => trivial

/-- An operation or a level leaves its opcode no further tag. -/
theorem untagged_tag (hproper : x.Proper) (hop : op ≠ .setp) (hx : x.tag op = some u)
    (m : Mnemonic) : untagged op (u m) = false := by
  rcases tag_cases hx with ⟨h, -⟩ | ⟨rfl, a, rfl, rfl⟩ | ⟨rfl, l, rfl, rfl⟩
  · exact absurd h hop
  · exact decide_eq_false hproper
  · exact decide_eq_false hproper

/-- Only a comparison is something besides a tag. -/
theorem plain_of_tag (hop : op ≠ .setp) (hx : x.tag op = some u) : x.plain op = none := by
  rcases tag_cases hx with ⟨h, -⟩ | ⟨-, a, rfl, -⟩ | ⟨-, l, rfl, -⟩
  · exact absurd h hop
  · rfl
  · rfl

/-- Of two operations or two levels the second is refused. -/
theorem apply_eq_none_of_tag (hproper : x.Proper) (hop : op ≠ .setp) (hx : x.tag op = some u)
    (hy : y.tag op = some v) (m : Mnemonic) : apply op (u m) y = none := by
  have hfalse := untagged_tag hproper hop hx m
  rw [apply_of_plain (fun h => absurd (hfalse.symm.trans h) Bool.false_ne_true),
    plain_of_tag hop hy, Option.map_none]

theorem comparison_of_tag (hx : x.tag .setp = some u) : ∃ c n, x = .comparison c n := by
  rcases tag_cases hx with ⟨-, c, n, h, -⟩ | ⟨h, -⟩ | ⟨h, -⟩
  · exact ⟨c, n, h⟩
  · cases h
  · cases h

/-- Two suffixes are not different address spaces, nor on a `setp` different comparisons. -/
structure Exchangeable (op : Opcode) (x y : Suffix) : Prop where
  space : ∀ a b, x = .space a → y = .space b → a = b
  comparison : op = .setp → ∀ c n c' n', x = .comparison c n → y = .comparison c' n' → x = y

/-- A tag that is taken can be exchanged with what is no tag. -/
theorem apply_comm_of_tag {m : Mnemonic} (h : untagged op m = true) (hx : x.tag op = some u)
    (hy : y.tag op = none) :
    (apply op m x).bind (apply op · y) = (apply op m y).bind (apply op · x) := by
  have hplain : ∀ m, apply op m y = (y.plain op).map (· m) := fun m => apply_of_plain fun _ => hy
  rw [apply_of_tag h hx, Option.bind_some, hplain, hplain]
  cases hv : y.plain op with
  | none => rfl
  | some v =>
    rw [Option.map_some, Option.map_some, Option.bind_some,
      apply_of_tag ((untagged_plain hv m).trans h) hx, tag_plain_comm hx hv]

/-- Two suffixes that are both taken as no tag can be exchanged. -/
theorem apply_comm_of_plain {m : Mnemonic} (hx : untagged op m = true → x.tag op = none)
    (hy : untagged op m = true → y.tag op = none)
    (h : ∀ a b, x = .space a → y = .space b → a = b) :
    (apply op m x).bind (apply op · y) = (apply op m y).bind (apply op · x) := by
  rw [apply_of_plain hx, apply_of_plain hy]
  -- neither order helps a suffix that means nothing
  cases hu : x.plain op with
  | none =>
    cases hv : y.plain op with
    | none => rfl
    | some v =>
      have hx' : untagged op (v m) = true → x.tag op = none := by rwa [untagged_plain hv]
      rw [Option.map_none, Option.bind_none, Option.map_some, Option.bind_some,
        apply_of_plain hx', hu, Option.map_none]
  | some u =>
    have hy' : untagged op (u m) = true → y.tag op = none := by rwa [untagged_plain hu]
    cases hv : y.plain op with
    | none =>
      rw [Option.map_some, Option.bind_some, apply_of_plain hy', hv, Option.map_none,
        Option.map_none, Option.bind_none]
    | some v =>
      have hx' : untagged op (v m) = true → x.tag op = none := by rwa [untagged_plain hv]
      rw [Option.map_some, Option.bind_some, Option.map_some, Option.bind_some,
        apply_of_plain hy', apply_of_plain hx', hu, hv, Option.map_some, Option.map_some,
        plain_comm hu hv h]

/-- **Two suffixes can be exchanged**, whatever the mnemonic says so far. -/
theorem apply_comm (hx : x.Proper) (hy : y.Proper) (h : Exchangeable op x y) (m : Mnemonic) :
    (apply op m x).bind (apply op · y) = (apply op m y).bind (apply op · x) := by
  by_cases huntagged : untagged op m = true
  · cases hu : x.tag op with
    | none =>
      cases hv : y.tag op with
      | none => exact apply_comm_of_plain (fun _ => hu) (fun _ => hv) h.space
      | some v => exact (apply_comm_of_tag huntagged hv hu).symm
    | some u =>
      cases hv : y.tag op with
      | none => exact apply_comm_of_tag huntagged hu hv
      | some v =>
        -- of two tags the second is refused, except for comparisons, which are the same one here
        by_cases hop : op = .setp
        · subst hop
          obtain ⟨c, n, hxc⟩ := comparison_of_tag hu
          obtain ⟨c', n', hyc⟩ := comparison_of_tag hv
          rw [h.comparison rfl c n c' n' hxc hyc]
        · rw [apply_of_tag huntagged hu, apply_of_tag huntagged hv, Option.bind_some,
            Option.bind_some, apply_eq_none_of_tag hx hop hu hv, apply_eq_none_of_tag hy hop hv hu]
  · have hplain : ∀ z : Suffix, untagged op m = true → z.tag op = none :=
      fun _ h' => absurd h' huntagged
    exact apply_comm_of_plain (hplain x) (hplain y) h.space

/-! ### All suffixes of a mnemonic -/

/-- Takes a suffix in, unless one before it was refused. -/
def take (op : Opcode) (o : Option Mnemonic) (s : List Char) : Option Mnemonic :=
  o.bind ((ofName (String.ofList s)).apply op ·)

theorem opcode_apply {m m' : Mnemonic} (h : x.apply op m = some m') : m'.opcode = m.opcode := by
  obtain ⟨u, hu, rfl⟩ := Option.map_eq_some_iff.mp h
  rcases Option.or_eq_some_iff.mp hu with htag | ⟨-, hplain⟩
  · rw [Option.ite_none_right_eq_some] at htag
    rcases tag_cases htag.2 with ⟨-, c, n, -, rfl⟩ | ⟨-, a, -, rfl⟩ | ⟨-, l, -, rfl⟩ <;> rfl
  · rcases plain_cases hplain with ⟨n, rfl⟩ | rfl | ⟨a, -, rfl⟩ | rfl <;> rfl

theorem foldl_take_none (ss : List (List Char)) : ss.foldl (take op) none = none := by
  induction ss with
  | nil => rfl
  | cons s ss ih => exact ih

end Suffix

open Suffix (take)

/-- **The suffixes of a mnemonic are taken in apart from its types.** -/
theorem MnemonicDraft.toOption_foldlM_add (ss : List (List Char)) (draft : MnemonicDraft) :
    (ss.foldlM add draft).toOption =
      (ss.foldl (take draft.mnemonic.opcode) (some draft.mnemonic)).map
        (⟨·, draft.types ++ ss.filterMap fun s => DataType.ofName? (String.ofList s)⟩) := by
  -- a draft collects types beside the mnemonic, and they do not affect each other
  induction ss generalizing draft with
  | nil =>
    rw [List.filterMap_nil, List.append_nil]
    rfl
  | cons s ss ih =>
    rw [List.foldlM_cons, Fallible.toOption_bind, toOption_add, List.foldl_cons, take,
      Option.bind_some, (Suffix.spells_ofName _).type?_eq]
    cases happly : (Suffix.ofName (String.ofList s)).apply draft.mnemonic.opcode draft.mnemonic with
    | none =>
      rw [Suffix.foldl_take_none]
      rfl
    | some m =>
      rw [Option.map_some, Option.bind_some, ih, Suffix.opcode_apply happly, List.append_assoc,
        List.filterMap_cons]
      cases DataType.ofName? (String.ofList s) <;> rfl

/-- Whether a suffix spells an address space. -/
def namesSpace (s : List Char) : Bool :=
  (Space.ofName? (String.ofList s)).isSome

/-- Whether a suffix spells a comparison. -/
def namesComparison (s : List Char) : Bool :=
  (Comparison.ofName? (String.ofList s)).isSome

/-- Whether a suffix spells a type. -/
def namesType (s : List Char) : Bool :=
  (DataType.ofName? (String.ofList s)).isSome

theorem filterMap_ofName?_eq_filter (ss : List (List Char)) :
    (ss.filter namesType).filterMap (fun s => DataType.ofName? (String.ofList s)) =
      ss.filterMap fun s => DataType.ofName? (String.ofList s) := by
  rw [List.filterMap_filter]
  congr 1
  funext s
  rw [namesType]
  cases DataType.ofName? (String.ofList s) <;> rfl

/-- Suffixes can be exchanged if they are not two different address spaces, nor on a `setp` two
different comparisons. -/
theorem Suffix.exchangeable_ofName {op : Opcode} {s t : List Char}
    (hspace : namesSpace s = true → namesSpace t = true → s = t)
    (hcomparison : op = .setp → namesComparison s = true → namesComparison t = true → s = t) :
    Exchangeable op (ofName (String.ofList s)) (ofName (String.ofList t)) := by
  have hs := spells_ofName (String.ofList s)
  have ht := spells_ofName (String.ofList t)
  constructor
  · intro a b ha hb
    rw [ha] at hs
    rw [hb] at ht
    cases hs with | space hs =>
    cases ht with | space ht =>
    rw [hspace (Option.isSome_of_eq_some hs) (Option.isSome_of_eq_some ht), ht] at hs
    exact (Option.some.inj hs).symm
  · intro hop c n c' n' hc hc'
    rw [hc] at hs
    rw [hc'] at ht
    cases hs with | comparison hs =>
    cases ht with | comparison ht =>
    rw [hcomparison hop (Option.isSome_of_eq_some hs) (Option.isSome_of_eq_some ht)]

theorem Suffix.take_comm {op : Opcode} {s t : List Char}
    (h : Exchangeable op (ofName (String.ofList s)) (ofName (String.ofList t)))
    (o : Option Mnemonic) : take op (take op o s) t = take op (take op o t) s := by
  cases o with
  | none => rfl
  | some m => exact apply_comm (spells_ofName _).proper (spells_ofName _).proper h m

/-- **The order of suffixes does not matter**, as long as the types among them keep theirs: with its
suffixes in another order a mnemonic is accepted or refused as before, and read as the same.  No two
of the suffixes may be different address spaces, nor, behind `setp`, different comparisons. -/
theorem mnemonic?_eq_ok_iff_of_perm {name : List Char} {ss ss' : List (List Char)}
    (hname : '.' ∉ name) (hss : ∀ s ∈ ss, '.' ∉ s) (hperm : ss.Perm ss')
    (htypes : ss.filter namesType = ss'.filter namesType)
    (hspace : ∀ s ∈ ss, ∀ t ∈ ss, namesSpace s = true → namesSpace t = true → s = t)
    (hcomparison : Opcode.ofName? (String.ofList name) = some .setp →
      ∀ s ∈ ss, ∀ t ∈ ss, namesComparison s = true → namesComparison t = true → s = t)
    (m : Mnemonic) :
    mnemonic? (name ++ ss.flatMap ('.' :: ·)) = .ok m ↔
      mnemonic? (name ++ ss'.flatMap ('.' :: ·)) = .ok m := by
  have hss' : ∀ s ∈ ss', '.' ∉ s := fun s hs => hss s (hperm.mem_iff.mpr hs)
  rw [mnemonic?, mnemonic?, splitAt_dotted hname hss, splitAt_dotted hname hss']
  dsimp only
  cases hop : Opcode.ofName? (String.ofList name) with
  | none => exact Iff.rfl
  | some op =>
    rw [hop] at hcomparison
    -- any two suffixes of the list can be exchanged, so the order does not matter
    have hfold : ss.foldl (take op) (some { opcode := op }) =
        ss'.foldl (take op) (some { opcode := op }) := by
      refine hperm.foldl_eq' (fun s hs t ht o => ?_) _
      refine Suffix.take_comm (Suffix.exchangeable_ofName (hspace s hs t ht) ?_) o
      rintro rfl
      exact hcomparison rfl s hs t ht
    have hdraft : (ss.foldlM MnemonicDraft.add { mnemonic := { opcode := op } }).toOption =
        (ss'.foldlM MnemonicDraft.add { mnemonic := { opcode := op } }).toOption := by
      rw [MnemonicDraft.toOption_foldlM_add, MnemonicDraft.toOption_foldlM_add,
        ← filterMap_ofName?_eq_filter ss, htypes, filterMap_ofName?_eq_filter, hfold]
    rw [← Fallible.toOption_eq_some, ← Fallible.toOption_eq_some, Fallible.toOption_bind,
      Fallible.toOption_bind, hdraft]

/-- `lo` is the comparison of a `setp` wherever it stands, and of two types the first counts. -/
theorem mnemonic?_setp_lo_last :
    mnemonic? "setp.u32.shared.sat.s64.lo".toList = .ok
      { opcode := .setp, type := .unsigned .w32, sourceType := .signed .w64,
        modifiers := .single 8, space := .shared, comparison := .lo } := by
  refine (@mnemonic?_eq_ok_iff_of_perm "setp".toList
    (["lo", "sat", "shared", "u32", "s64"].map String.toList)
    (["u32", "shared", "sat", "s64", "lo"].map String.toList)
    (by decide) (by decide) (by decide) (by decide) (by decide) (by decide) _).mp ?_
  decide

-- of two different comparisons the first counts, and the second is a modifier
example : mnemonic? "setp.lo.hi.u32".toList ≠ mnemonic? "setp.hi.lo.u32".toList := by
  decide

end KernelIR.Source
