import KernelIR.Proofs.Fallible
import KernelIR.Proofs.Source.Parser.Split
import KernelIR.Source.Parser.Mnemonic
import Mathlib.Algebra.Group.Nat.Defs

/-!
# Mnemonics read back

`mnemonic?_text`: a mnemonic whose parts have names, and whose opcode takes the tags that it
carries, is read back from its text.  The text is the opcode and the suffixes behind points, which
`splitAt_dotted` takes apart again; then every suffix is taken in by the part that wrote it, because
no two vocabularies share a name.  The one exception are `lo` and `hi`, comparisons and modifiers at
once: a comparison that is there stands in front of them, and without one a `setp` must not carry
them.

`Mnemonic.canonical_of_mnemonic?`: every mnemonic that is read is of this kind, because each suffix
that is taken in keeps it so (`MnemonicDraft.Canonical.add`).
-/

namespace KernelIR.Source

open Text (splitAt)

/-! ### Points -/

theorem splitAt_of_not_mem {mark : Char} {cs : List Char} (h : mark ∉ cs) :
    splitAt mark cs = [cs] := by
  induction cs with
  | nil => rfl
  | cons c cs ih =>
    rw [List.mem_cons, not_or] at h
    rw [splitAt, if_neg (Ne.symm h.1), ih h.2]

theorem splitAt_append {mark : Char} {cs : List Char} (h : mark ∉ cs) (rest : List Char) :
    splitAt mark (cs ++ mark :: rest) = cs :: splitAt mark rest := by
  induction cs with
  | nil => rw [List.nil_append, splitAt, if_pos rfl]
  | cons c cs ih =>
    rw [List.mem_cons, not_or] at h
    rw [List.cons_append, splitAt, if_neg (Ne.symm h.1), ih h.2]

/-- Parts behind a mark are taken apart at the mark. -/
theorem splitAt_dotted {mark : Char} {head : List Char} {parts : List (List Char)}
    (hhead : mark ∉ head) (hparts : ∀ p ∈ parts, mark ∉ p) :
    splitAt mark (head ++ parts.flatMap (mark :: ·)) = head :: parts := by
  induction parts generalizing head with
  | nil => rw [List.flatMap_nil, List.append_nil, splitAt_of_not_mem hhead]
  | cons p parts ih =>
    rw [List.flatMap_cons, List.cons_append, splitAt_append hhead,
      ih (hparts p List.mem_cons_self) (fun q hq => hparts q (List.mem_cons_of_mem p hq))]

theorem toList_concat (ss : List String) : (Text.concat ss).toList = ss.flatMap String.toList := by
  induction ss with
  | nil => rfl
  | cons s ss ih => rw [Text.concat, String.toList_append, ih, List.flatMap_cons]

theorem Mnemonic.toList_text (m : Mnemonic) :
    m.text.toList = m.opcode.name.toList ++ (m.suffixes.map String.toList).flatMap ('.' :: ·) := by
  have hdot : ∀ s : String, ("." ++ s).toList = '.' :: s.toList := fun s => by
    rw [String.toList_append]; rfl
  rw [Mnemonic.text, String.toList_append, toList_concat, List.flatMap_map, List.flatMap_map]
  simp only [hdot]

/-! ### Vocabularies -/

theorem Opcode.ofName?_name : ∀ op ∈ Opcode.named, Opcode.ofName? op.name = some op := by
  decide

theorem Comparison.ofName?_name : ∀ c ∈ named, c.name ≠ "" ∧ ofName? c.name = some c := by
  decide

theorem AtomicOp.ofName?_name : ∀ a ∈ named, a.name ≠ "" ∧ ofName? a.name = some a := by
  decide

theorem FenceLevel.ofName?_name : ∀ l ∈ named, l.name ≠ "" ∧ ofName? l.name = some l := by
  decide

theorem Space.ofName?_name : ∀ a ∈ named, a.name ≠ "" ∧ ofName? a.name = some a := by
  decide

theorem DataType.ofName?_name : ∀ t ∈ named, t.name ≠ "" ∧ ofName? t.name = some t := by
  decide

theorem DataType.mem_of_ofName? {name : String} {t : DataType} (h : DataType.ofName? name = some t) :
    t ∈ DataType.named :=
  List.mem_of_find?_eq_some h

theorem Modifiers.ofName?_mem_zipIdx :
    ∀ p ∈ allNames.zipIdx, p.1 ∈ allNames ∧ ofName? p.1 = some (single p.2) := by
  decide

/-- Whether a name is neither a comparison nor an atomic operation nor a fence level nor `uni`. -/
def isUntagged (s : String) : Bool :=
  (Comparison.ofName? s).isNone && (AtomicOp.ofName? s).isNone && (FenceLevel.ofName? s).isNone &&
    s != "uni"

theorem Space.isUntagged_name : ∀ a ∈ named, isUntagged a.name = true := by
  decide

theorem DataType.isUntagged_name :
    ∀ t ∈ named, isUntagged t.name = true ∧ Space.ofName? t.name = none := by
  decide

/-- Only `lo` and `hi` are modifiers and something else. -/
theorem Modifiers.separate : ∀ s ∈ allNames, s ≠ "" ∧ AtomicOp.ofName? s = none ∧
    FenceLevel.ofName? s = none ∧ s ≠ "uni" ∧ Space.ofName? s = none ∧ DataType.ofName? s = none ∧
    (s ≠ "lo" → s ≠ "hi" → Comparison.ofName? s = none) := by
  decide

/-! ### Taking in one name -/

namespace MnemonicDraft

/-- Takes a name in, unless it is empty. -/
def addName (draft : MnemonicDraft) (s : String) : Except LineError MnemonicDraft :=
  if s = "" then .ok draft else draft.add s.toList

theorem foldlM_add_filter (ss : List String) (draft : MnemonicDraft) :
    ((ss.filter (· ≠ "")).map String.toList).foldlM add draft = ss.foldlM addName draft := by
  induction ss generalizing draft with
  | nil => rfl
  | cons s ss ih =>
    by_cases hs : s = ""
    · rw [List.filter_cons_of_neg (by simp [hs]), List.foldlM_cons, addName, if_pos hs]
      exact ih draft
    · rw [List.filter_cons_of_pos (by simp [hs]), List.map_cons, List.foldlM_cons,
        List.foldlM_cons, addName, if_neg hs]
      cases draft.add s.toList with
      | error e => rfl
      | ok d => exact ih d

variable {m : Mnemonic} {ts : List DataType} {s : String}

/-- A name is no tag if it is in none of the vocabularies of tags that are still open. -/
theorem tag?_eq_none (hc : m.opcode = .setp → m.comparison = .none → Comparison.ofName? s = none)
    (ha : AtomicOp.ofName? s = none) (hl : FenceLevel.ofName? s = none) : tag? m s = none := by
  unfold tag?
  split_ifs with h1 h2 h3
  · rw [hc h1.1 h1.2]; rfl
  · rw [ha]; rfl
  · rw [hl]; rfl
  · rfl

theorem uniform?_eq_none (h : s ≠ "uni") : uniform? m s = none := by
  rw [uniform?, if_neg (fun hu => h hu.1)]

theorem tag?_uniform?_eq_none_of_isUntagged (h : isUntagged s = true) :
    tag? m s = none ∧ uniform? m s = none := by
  simp only [isUntagged, Bool.and_eq_true, Option.isNone_iff_eq_none, bne_iff_ne] at h
  obtain ⟨⟨⟨hc, ha⟩, hl⟩, hu⟩ := h
  exact ⟨tag?_eq_none (fun _ _ => hc) ha hl, uniform?_eq_none hu⟩

/-- What a name adds that is a tag, `uni` or an address space. -/
theorem addName_of_or {m' : Mnemonic} (hs : s ≠ "")
    (h : (tag? m s).or ((uniform? m s).or (space? m s)) = some m') :
    addName ⟨m, ts⟩ s = .ok ⟨m', ts⟩ := by
  rw [addName, if_neg hs, add]
  simp only [String.ofList_toList]
  rw [h]

/-- What a name adds that is a type. -/
theorem addName_of_type {t : DataType} (hs : s ≠ "") (htag : tag? m s = none)
    (huni : uniform? m s = none) (hspace : Space.ofName? s = none)
    (h : DataType.ofName? s = some t) :
    addName ⟨m, ts⟩ s = .ok ⟨m, ts ++ [t]⟩ := by
  rw [addName, if_neg hs, add]
  simp only [String.ofList_toList]
  rw [htag, huni, space?, hspace]
  simp only [Option.map_none, Option.or_none]
  rw [h]

/-- What a name adds that is a modifier. -/
theorem addName_of_modifier {n : Modifiers} (hs : s ≠ "") (htag : tag? m s = none)
    (huni : uniform? m s = none) (hspace : Space.ofName? s = none)
    (htype : DataType.ofName? s = none) (h : Modifiers.ofName? s = some n) :
    addName ⟨m, ts⟩ s = .ok ⟨{ m with modifiers := m.modifiers.union n }, ts⟩ := by
  rw [addName, if_neg hs, add]
  simp only [String.ofList_toList]
  rw [htag, huni, space?, hspace]
  simp only [Option.map_none, Option.or_none]
  rw [htype, modifier?, h]
  rfl

/-! ### Taking in the parts of a mnemonic -/

theorem addName_comparison {c : Comparison} (hm : m.comparison = .none)
    (h : c = .none ∨ m.opcode = .setp ∧ c ∈ Comparison.named) :
    addName ⟨m, ts⟩ c.name = .ok ⟨{ m with comparison := c }, ts⟩ := by
  rcases h with rfl | ⟨hop, hc⟩
  · cases m
    subst hm
    rfl
  · obtain ⟨hne, hname⟩ := Comparison.ofName?_name c hc
    refine addName_of_or hne ?_
    rw [tag?, if_pos ⟨hop, hm⟩, hname]
    rfl

theorem addName_atomic {a : AtomicOp} (hm : m.atomic = .none)
    (h : a = .none ∨ m.opcode = .atom ∧ a ∈ AtomicOp.named) :
    addName ⟨m, ts⟩ a.name = .ok ⟨{ m with atomic := a }, ts⟩ := by
  rcases h with rfl | ⟨hop, ha⟩
  · cases m
    subst hm
    rfl
  · obtain ⟨hne, hname⟩ := AtomicOp.ofName?_name a ha
    refine addName_of_or hne ?_
    rw [tag?, if_neg (fun h => absurd (hop.symm.trans h.1) (by decide)), if_pos ⟨hop, hm⟩, hname]
    rfl

theorem addName_level {l : FenceLevel} (hm : m.level = .none)
    (h : l = .none ∨ m.opcode = .membar ∧ l ∈ FenceLevel.named) :
    addName ⟨m, ts⟩ l.name = .ok ⟨{ m with level := l }, ts⟩ := by
  rcases h with rfl | ⟨hop, hl⟩
  · cases m
    subst hm
    rfl
  · obtain ⟨hne, hname⟩ := FenceLevel.ofName?_name l hl
    refine addName_of_or hne ?_
    rw [tag?, if_neg (fun h => absurd (hop.symm.trans h.1) (by decide)),
      if_neg (fun h => absurd (hop.symm.trans h.1) (by decide)), if_pos ⟨hop, hm⟩, hname]
    rfl

theorem foldlM_addName_uniform {u : Bool} (hm : m.uniform = false)
    (h : u = true → m.opcode = .bra ∨ m.opcode = .ret ∨ m.opcode = .call) :
    (if u then ["uni"] else []).foldlM addName ⟨m, ts⟩ = .ok ⟨{ m with uniform := u }, ts⟩ := by
  cases u with
  | false =>
    cases m
    subst hm
    rfl
  | true =>
    have htag : tag? m "uni" = none :=
      tag?_eq_none (fun _ _ => by decide) (by decide) (by decide)
    have hadd : addName ⟨m, ts⟩ "uni" = .ok ⟨{ m with uniform := true }, ts⟩ :=
      addName_of_or (by decide) (by rw [htag, uniform?, if_pos ⟨rfl, h rfl⟩]; rfl)
    rw [if_pos rfl, List.foldlM_cons, hadd]
    rfl

theorem addName_space {a : Space} (hm : m.space = .generic)
    (h : a = .generic ∨ a ∈ Space.named) :
    addName ⟨m, ts⟩ a.name = .ok ⟨{ m with space := a }, ts⟩ := by
  rcases h with rfl | ha
  · cases m
    subst hm
    rfl
  · obtain ⟨hne, hname⟩ := Space.ofName?_name a ha
    obtain ⟨htag, huni⟩ := tag?_uniform?_eq_none_of_isUntagged (m := m) (Space.isUntagged_name a ha)
    refine addName_of_or hne ?_
    rw [htag, huni, space?, hname]
    rfl

theorem foldlM_addName_type {t : DataType} (h : t = .missing ∨ t ∈ DataType.named) :
    (if t = .missing then [] else [t.name]).foldlM addName ⟨m, ts⟩ =
      .ok ⟨m, ts ++ if t = .missing then [] else [t]⟩ := by
  rcases h with rfl | ht
  · rw [if_pos rfl, if_pos rfl, List.append_nil]; rfl
  · have hmissing : t ≠ .missing := by
      rintro rfl
      exact absurd ht (by decide)
    obtain ⟨hne, hname⟩ := DataType.ofName?_name t ht
    obtain ⟨huntagged, hspace⟩ := DataType.isUntagged_name t ht
    obtain ⟨htag, huni⟩ := tag?_uniform?_eq_none_of_isUntagged (m := m) huntagged
    rw [if_neg hmissing, if_neg hmissing, List.foldlM_cons,
      addName_of_type hne htag huni hspace hname]
    rfl

/-! ### Taking in the modifiers -/

/-- Adds to a set those members of `word` that are listed. -/
def gather (word : BitVec 32) (listed : List (String × Nat)) (start : Modifiers) : Modifiers :=
  listed.foldl (fun n p => if word.getLsbD p.2 then n.union (.single p.2) else n) start

theorem getLsbD_single (j : Nat) {k : Nat} (hk : k < 32) :
    (Modifiers.single j).word.getLsbD k = decide (j = k) := by
  rw [Modifiers.single, BitVec.getLsbD_ofNat]
  show (decide (k < 32) && (2 ^ j).testBit k) = decide (j = k)
  rw [decide_eq_true hk, Bool.true_and, Nat.testBit_two_pow]

theorem getLsbD_gather (word : BitVec 32) (listed : List (String × Nat)) (start : Modifiers)
    {k : Nat} (hk : k < 32) :
    (gather word listed start).word.getLsbD k =
      (start.word.getLsbD k || (word.getLsbD k && listed.any (·.2 == k))) := by
  induction listed generalizing start with
  | nil => simp [gather]
  | cons p listed ih =>
    have hcons : gather word (p :: listed) start =
        gather word listed (if word.getLsbD p.2 then start.union (.single p.2) else start) := rfl
    rw [hcons, ih, List.any_cons]
    -- the head of the list sets the bit in question or another one
    by_cases hp : p.2 = k
    · rw [hp, beq_self_eq_true, Bool.true_or, Bool.and_true]
      cases hw : word.getLsbD k with
      | false => rw [if_neg (by decide), Bool.false_and]
      | true =>
        rw [if_pos rfl, Modifiers.union, BitVec.getLsbD_or, getLsbD_single k hk]
        simp
    · rw [beq_eq_false_iff_ne.mpr hp, Bool.false_or]
      cases hw : word.getLsbD p.2 with
      | false => rw [if_neg (by decide)]
      | true =>
        rw [if_pos rfl, Modifiers.union, BitVec.getLsbD_or, getLsbD_single p.2 hk,
          decide_eq_false hp, Bool.or_false]

/-- A set of known modifiers is gathered from its own members. -/
theorem gather_allNames {m : Modifiers} (h : m.word.toNat < 2 ^ Modifiers.allNames.length) :
    gather m.word Modifiers.allNames.zipIdx .empty = m := by
  have hword : (gather m.word Modifiers.allNames.zipIdx .empty).word = m.word := by
    apply BitVec.eq_of_getLsbD_eq
    intro k hk
    rw [getLsbD_gather _ _ _ hk]
    have hempty : Modifiers.empty.word.getLsbD k = false := by simp [Modifiers.empty]
    rw [hempty, Bool.false_or]
    -- a bit with a name is collected, and one without is not set
    by_cases hk18 : k < Modifiers.allNames.length
    · have hany : Modifiers.allNames.zipIdx.any (·.2 == k) = true := by
        have hlen : Modifiers.allNames.length = 18 := rfl
        rw [hlen] at hk18
        revert k
        decide
      rw [hany, Bool.and_true]
    · have hbit : m.word.getLsbD k = false :=
        Nat.testBit_lt_two_pow (Nat.lt_of_lt_of_le h (Nat.pow_le_pow_right (by decide) (by omega)))
      rw [hbit, Bool.false_and]
  exact congrArg Modifiers.mk hword

theorem foldlM_addName_listed (word : BitVec 32) (listed : List (String × Nat))
    (hlisted : ∀ p ∈ listed, p ∈ Modifiers.allNames.zipIdx)
    (horder : m.opcode = .setp → m.comparison = .none →
      ∀ p ∈ listed, word.getLsbD p.2 = true → p.1 ≠ "lo" ∧ p.1 ≠ "hi") :
    (listed.filterMap fun (name, j) => if word.getLsbD j then some name else none).foldlM addName
      ⟨m, ts⟩ = .ok ⟨{ m with modifiers := gather word listed m.modifiers }, ts⟩ := by
  -- for any mnemonic, since each name that is read changes it
  induction listed generalizing m with
  | nil => rfl
  | cons p listed ih =>
    obtain ⟨name, j⟩ := p
    have htail : ∀ p ∈ listed, p ∈ Modifiers.allNames.zipIdx :=
      fun p hp => hlisted p (List.mem_cons_of_mem _ hp)
    cases hw : word.getLsbD j with
    | false =>
      rw [List.filterMap_cons_none (by simp [hw]), ih htail
        (fun ho hc p hp => horder ho hc p (List.mem_cons_of_mem _ hp))]
      simp [gather, hw]
    | true =>
      have hmem := hlisted (name, j) List.mem_cons_self
      obtain ⟨hname, hof⟩ := Modifiers.ofName?_mem_zipIdx _ hmem
      -- no reading that comes before that of modifiers takes the name
      obtain ⟨hne, hatomic, hlevel, huni, hspace, htype, hcomparison⟩ :=
        Modifiers.separate name hname
      have htag : tag? m name = none := tag?_eq_none (fun ho hc =>
        hcomparison (horder ho hc (name, j) List.mem_cons_self hw).1
          (horder ho hc (name, j) List.mem_cons_self hw).2) hatomic hlevel
      rw [List.filterMap_cons_some (b := name) (by simp [hw]), List.foldlM_cons,
        addName_of_modifier hne htag (uniform?_eq_none huni) hspace htype hof]
      show List.foldlM addName ⟨{ m with modifiers := m.modifiers.union (.single j) }, ts⟩
        (listed.filterMap _) = _
      rw [ih (m := { m with modifiers := m.modifiers.union (.single j) }) htail
        (fun ho hc p hp => horder ho hc p (List.mem_cons_of_mem _ hp))]
      simp [gather, hw]

/-- The names of a set of known modifiers are taken in as the set. -/
theorem foldlM_addName_modifiers {n : Modifiers} (hm : m.modifiers = .empty)
    (hn : n.word.toNat < 2 ^ Modifiers.allNames.length)
    (horder : m.opcode = .setp → m.comparison = .none → "lo" ∉ n.names ∧ "hi" ∉ n.names) :
    n.names.foldlM addName ⟨m, ts⟩ = .ok ⟨{ m with modifiers := n }, ts⟩ := by
  rw [Modifiers.names, foldlM_addName_listed _ _ (fun _ hp => hp), hm, gather_allNames hn]
  intro hop hc p hp hw
  have hmem : p.1 ∈ n.names := List.mem_filterMap.mpr ⟨p, hp, by simp [hw]⟩
  constructor
  · intro hlo
    exact (horder hop hc).1 (hlo ▸ hmem)
  · intro hhi
    exact (horder hop hc).2 (hhi ▸ hmem)

end MnemonicDraft

/-! ### Canonical mnemonics -/

/-- A mnemonic that its text determines: all of its parts have names, the opcode takes the tags, and
a `setp` without a comparison has no modifier that would be read as one. -/
structure Mnemonic.Canonical (m : Mnemonic) : Prop where
  opcode : m.opcode ∈ Opcode.named
  comparison : m.comparison = .none ∨ m.opcode = .setp ∧ m.comparison ∈ Comparison.named
  atomic : m.atomic = .none ∨ m.opcode = .atom ∧ m.atomic ∈ AtomicOp.named
  level : m.level = .none ∨ m.opcode = .membar ∧ m.level ∈ FenceLevel.named
  uniform : m.uniform = true → m.opcode = .bra ∨ m.opcode = .ret ∨ m.opcode = .call
  unordered : m.opcode = .setp → m.comparison = .none →
    "lo" ∉ m.modifiers.names ∧ "hi" ∉ m.modifiers.names
  modifiers : m.modifiers.word.toNat < 2 ^ Modifiers.allNames.length
  space : m.space = .generic ∨ m.space ∈ Space.named
  type : m.type = .missing ∨ m.type ∈ DataType.named
  sourceType : m.sourceType = .missing ∨ m.sourceType ∈ DataType.named
  typed : m.sourceType ≠ .missing → m.type ≠ .missing

namespace Mnemonic

/-- The types of a mnemonic, as far as they are there. -/
def types (m : Mnemonic) : List DataType :=
  (if m.type = .missing then [] else [m.type]) ++
    if m.sourceType = .missing then [] else [m.sourceType]

/-- A mnemonic without its types. -/
def untyped (m : Mnemonic) : Mnemonic :=
  { m with type := .missing, sourceType := .missing }

/-- The suffixes of a canonical mnemonic are taken in as its parts. -/
theorem foldlM_add_suffixes {m : Mnemonic} (h : m.Canonical) :
    (m.suffixes.map String.toList).foldlM MnemonicDraft.add { mnemonic := { opcode := m.opcode } } =
      .ok ⟨m.untyped, m.types⟩ := by
  rw [suffixes, MnemonicDraft.foldlM_add_filter]
  -- what has been taken in after each group of suffixes
  let m1 : Mnemonic := { opcode := m.opcode, comparison := m.comparison }
  let m2 : Mnemonic := { m1 with atomic := m.atomic }
  let m3 : Mnemonic := { m2 with level := m.level }
  let m4 : Mnemonic := { m3 with uniform := m.uniform }
  let m5 : Mnemonic := { m4 with modifiers := m.modifiers }
  have htags : [m.comparison.name, m.atomic.name, m.level.name].foldlM MnemonicDraft.addName
      ⟨{ opcode := m.opcode }, []⟩ = .ok ⟨m3, []⟩ := by
    have h1 : MnemonicDraft.addName ⟨{ opcode := m.opcode }, []⟩ m.comparison.name =
        .ok ⟨m1, []⟩ := MnemonicDraft.addName_comparison rfl h.comparison
    have h2 : MnemonicDraft.addName ⟨m1, []⟩ m.atomic.name = .ok ⟨m2, []⟩ :=
      MnemonicDraft.addName_atomic rfl h.atomic
    have h3 : MnemonicDraft.addName ⟨m2, []⟩ m.level.name = .ok ⟨m3, []⟩ :=
      MnemonicDraft.addName_level rfl h.level
    rw [List.foldlM_cons, h1]
    show List.foldlM MnemonicDraft.addName ⟨m1, []⟩ _ = _
    rw [List.foldlM_cons, h2]
    show List.foldlM MnemonicDraft.addName ⟨m2, []⟩ _ = _
    rw [List.foldlM_cons, h3]
    rfl
  have huniform : (if m.uniform then ["uni"] else []).foldlM MnemonicDraft.addName ⟨m3, []⟩ =
      .ok ⟨m4, []⟩ := MnemonicDraft.foldlM_addName_uniform rfl h.uniform
  have hmodifiers : m.modifiers.names.foldlM MnemonicDraft.addName ⟨m4, []⟩ = .ok ⟨m5, []⟩ :=
    MnemonicDraft.foldlM_addName_modifiers rfl h.modifiers h.unordered
  have hspace : [m.space.name].foldlM MnemonicDraft.addName ⟨m5, []⟩ = .ok ⟨m.untyped, []⟩ := by
    rw [List.foldlM_cons, MnemonicDraft.addName_space (m := m5) rfl h.space]
    rfl
  have htype : (if m.type = .missing then [] else [m.type.name]).foldlM MnemonicDraft.addName
      ⟨m.untyped, []⟩ = .ok ⟨m.untyped, if m.type = .missing then [] else [m.type]⟩ :=
    MnemonicDraft.foldlM_addName_type h.type
  have hsource : (if m.sourceType = .missing then [] else [m.sourceType.name]).foldlM
      MnemonicDraft.addName ⟨m.untyped, if m.type = .missing then [] else [m.type]⟩ =
      .ok ⟨m.untyped, m.types⟩ := MnemonicDraft.foldlM_addName_type h.sourceType
  -- the parts are read in the order in which the suffixes are written
  have huntyped := Fallible.foldlM_append_ok (Fallible.foldlM_append_ok htags huniform) hmodifiers
  have htyped := Fallible.foldlM_append_ok (Fallible.foldlM_append_ok huntyped hspace) htype
  exact Fallible.foldlM_append_ok htyped hsource

theorem finish_untyped_types {m : Mnemonic} (h : m.Canonical) :
    MnemonicDraft.finish ⟨m.untyped, m.types⟩ = .ok m := by
  have htyped := h.typed
  obtain ⟨op, t, source, modifiers, space, comparison, atomic, level, uniform⟩ := m
  rw [types, untyped]
  dsimp only at htyped ⊢
  by_cases ht : t = .missing
  · have hs : source = .missing := by
      by_contra hs
      exact htyped hs ht
    rw [if_pos ht, if_pos hs, ht, hs]
    rfl
  · by_cases hs : source = .missing
    · rw [if_neg ht, if_pos hs, hs]
      rfl
    · rw [if_neg ht, if_neg hs]
      rfl

/-! ### Characters of a mnemonic -/

theorem all_isIdentRest_invalid : "invalid".toList.all isIdentRest = true := by decide

theorem all_isIdentRest_opcode (op : Opcode) : op.name.toList.all isIdentRest = true := by
  cases op with
  | unknown => exact all_isIdentRest_invalid
  | _ => decide

theorem all_isIdentRest_modifiers (n : Modifiers) :
    ∀ s ∈ n.names, s.toList.all isIdentRest = true := by
  have hall : ∀ s ∈ Modifiers.allNames, s.toList.all isIdentRest = true := by decide
  intro s hs
  obtain ⟨⟨name, j⟩, hp, hw⟩ := List.mem_filterMap.mp hs
  dsimp only at hw
  split_ifs at hw
  cases hw
  exact hall s (Modifiers.ofName?_mem_zipIdx _ hp).1

/-- Suffixes consist of letters and digits. -/
theorem all_isIdentRest_suffixes (m : Mnemonic) :
    ∀ s ∈ m.suffixes, s.toList.all isIdentRest = true := by
  have hcomparison : m.comparison.name.toList.all isIdentRest = true := by
    cases m.comparison with
    | unknown => exact all_isIdentRest_invalid
    | _ => decide
  have hatomic : m.atomic.name.toList.all isIdentRest = true := by
    cases m.atomic with
    | unknown => exact all_isIdentRest_invalid
    | _ => decide
  have hlevel : m.level.name.toList.all isIdentRest = true := by
    cases m.level with
    | unknown => exact all_isIdentRest_invalid
    | _ => decide
  have hspace : m.space.name.toList.all isIdentRest = true := by
    cases m.space with
    | unknown => exact all_isIdentRest_invalid
    | _ => decide
  have htype : ∀ t : DataType, t.name.toList.all isIdentRest = true := by
    intro t
    cases t with
    | unknown => exact all_isIdentRest_invalid
    | missing => decide
    | pred => decide
    | _ w => cases w <;> decide
  intro s hs
  have h := (List.mem_filter.mp hs).1
  simp only [List.mem_append, List.mem_cons, List.not_mem_nil, or_false] at h
  -- in the order in which they are written
  rcases h with ((((((rfl | rfl | rfl) | h) | h) | rfl) | h) | h)
  · exact hcomparison
  · exact hatomic
  · exact hlevel
  · split_ifs at h
    · rw [List.mem_singleton.mp h]; decide
    · cases h
  · exact all_isIdentRest_modifiers _ s h
  · exact hspace
  · split_ifs at h
    · cases h
    · rw [List.mem_singleton.mp h]; exact htype _
  · split_ifs at h
    · cases h
    · rw [List.mem_singleton.mp h]; exact htype _

/-- A mnemonic consists of letters, digits and points. -/
theorem isNameChar_of_mem_text {m : Mnemonic} {c : Char} (hc : c ∈ m.text.toList) :
    isNameChar c = true := by
  rw [toList_text, List.mem_append, List.mem_flatMap] at hc
  rcases hc with hc | ⟨p, hp, hc⟩
  · exact isNameChar_of_isIdentRest (List.all_eq_true.mp (all_isIdentRest_opcode _) c hc)
  · obtain ⟨s, hs, rfl⟩ := List.mem_map.mp hp
    rcases List.mem_cons.mp hc with rfl | hc
    · decide
    · exact isNameChar_of_isIdentRest (List.all_eq_true.mp (all_isIdentRest_suffixes m s hs) c hc)

theorem toList_text_ne_nil (m : Mnemonic) : m.text.toList ≠ [] := by
  have hopcode : m.opcode.name.toList ≠ [] := by
    cases m.opcode with
    | unknown => exact (by decide : "invalid".toList ≠ [])
    | _ => decide
  rw [toList_text]
  exact List.append_ne_nil_of_left_ne_nil hopcode _

end Mnemonic

/-- **A canonical mnemonic is read back from its text.** -/
theorem mnemonic?_text {m : Mnemonic} (h : m.Canonical) : mnemonic? m.text.toList = .ok m := by
  have hdot : ∀ cs : List Char, cs.all isIdentRest = true → '.' ∉ cs := by
    intro cs hcs hmem
    exact absurd (List.all_eq_true.mp hcs '.' hmem) (by decide)
  have hparts : ∀ p ∈ m.suffixes.map String.toList, '.' ∉ p := by
    intro p hp
    obtain ⟨s, hs, rfl⟩ := List.mem_map.mp hp
    exact hdot _ (m.all_isIdentRest_suffixes s hs)
  rw [mnemonic?, Mnemonic.toList_text,
    splitAt_dotted (hdot _ (Mnemonic.all_isIdentRest_opcode _)) hparts]
  dsimp only
  rw [String.ofList_toList, Opcode.ofName?_name _ h.opcode]
  dsimp only
  rw [Mnemonic.foldlM_add_suffixes h]
  exact Mnemonic.finish_untyped_types h

/-! ### What is read is canonical -/

namespace Modifiers

/-- The modifiers of a union are those of its parts. -/
theorem mem_names_union {m : Modifiers} {j : Nat} {name : String}
    (h : name ∈ (m.union (single j)).names) : name ∈ m.names ∨ allNames[j]? = some name := by
  obtain ⟨⟨name', k⟩, hmem, hbit⟩ := List.mem_filterMap.mp h
  have hname := List.mk_mem_zipIdx_iff_getElem?.mp hmem
  have hk : k < 32 := Nat.lt_trans (List.getElem?_eq_some_iff.mp hname).1 (by decide)
  dsimp only at hbit
  split_ifs at hbit with hword
  cases hbit
  rw [union, BitVec.getLsbD_or, MnemonicDraft.getLsbD_single j hk, Bool.or_eq_true,
    decide_eq_true_eq] at hword
  rcases hword with hword | rfl
  · exact .inl (List.mem_filterMap.mpr ⟨(name, k), hmem, by simp [hword]⟩)
  · exact .inr hname

theorem ofName?_eq_some {s : String} {n : Modifiers} (h : ofName? s = some n) :
    ∃ j, n = single j ∧ allNames[j]? = some s := by
  obtain ⟨j, hj, rfl⟩ := Option.map_eq_some_iff.mp h
  obtain ⟨hlt, hs, -⟩ := List.findIdx?_eq_some_iff_getElem.mp hj
  refine ⟨j, rfl, ?_⟩
  rw [List.getElem?_eq_getElem hlt, of_decide_eq_true hs]

/-- Known modifiers stay known in a union. -/
theorem toNat_union_single_lt {m : Modifiers} (h : m.word.toNat < 2 ^ allNames.length) {j : Nat}
    (hj : j < allNames.length) : (m.union (single j)).word.toNat < 2 ^ allNames.length := by
  have hpow : 2 ^ j < 2 ^ allNames.length := Nat.pow_lt_pow_right (by decide) hj
  rw [union, BitVec.toNat_or]
  refine Nat.or_lt_two_pow h ?_
  rw [single, BitVec.toNat_ofNat]
  exact Nat.lt_of_le_of_lt (Nat.mod_le _ _) hpow

end Modifiers

namespace MnemonicDraft

/-- What was taken in so far is canonical, and the types are still apart. -/
structure Canonical (draft : MnemonicDraft) : Prop where
  mnemonic : draft.mnemonic.Canonical
  type : draft.mnemonic.type = .missing
  sourceType : draft.mnemonic.sourceType = .missing
  types : ∀ t ∈ draft.types, t ∈ DataType.named

variable {draft draft' : MnemonicDraft} {m m' : Mnemonic}

theorem canonical_of_tag? {name : String} (h : tag? m name = some m') (hm : m.Canonical) :
    m'.Canonical ∧ m'.type = m.type ∧ m'.sourceType = m.sourceType := by
  have hnone : Comparison.none ∉ Comparison.named := by decide
  unfold tag? at h
  split_ifs at h with hsetp hatom hmembar
  · obtain ⟨c, hc, rfl⟩ := Option.map_eq_some_iff.mp h
    have hmem : c ∈ Comparison.named := List.mem_of_find?_eq_some hc
    refine ⟨{ hm with comparison := .inr ⟨hsetp.1, hmem⟩, unordered := ?_ }, rfl, rfl⟩
    rintro - rfl
    exact absurd hmem hnone
  · obtain ⟨a, ha, rfl⟩ := Option.map_eq_some_iff.mp h
    exact ⟨{ hm with atomic := .inr ⟨hatom.1, List.mem_of_find?_eq_some ha⟩ }, rfl, rfl⟩
  · obtain ⟨l, hl, rfl⟩ := Option.map_eq_some_iff.mp h
    exact ⟨{ hm with level := .inr ⟨hmembar.1, List.mem_of_find?_eq_some hl⟩ }, rfl, rfl⟩

theorem canonical_of_uniform? {name : String} (h : uniform? m name = some m') (hm : m.Canonical) :
    m'.Canonical ∧ m'.type = m.type ∧ m'.sourceType = m.sourceType := by
  unfold uniform? at h
  split_ifs at h with huni
  cases h
  exact ⟨{ hm with uniform := fun _ => huni.2 }, rfl, rfl⟩

theorem canonical_of_space? {name : String} (h : space? m name = some m') (hm : m.Canonical) :
    m'.Canonical ∧ m'.type = m.type ∧ m'.sourceType = m.sourceType := by
  obtain ⟨a, ha, rfl⟩ := Option.map_eq_some_iff.mp h
  exact ⟨{ hm with space := .inr (List.mem_of_find?_eq_some ha) }, rfl, rfl⟩

/-- A `setp` without a comparison takes `lo` and `hi` as its comparison, so no modifier of it has
such a name. -/
theorem canonical_of_modifier? {name : String} (htag : tag? m name = none)
    (h : modifier? m name = some m') (hm : m.Canonical) :
    m'.Canonical ∧ m'.type = m.type ∧ m'.sourceType = m.sourceType := by
  obtain ⟨n, hn, rfl⟩ := Option.map_eq_some_iff.mp h
  obtain ⟨j, rfl, hj⟩ := Modifiers.ofName?_eq_some hn
  have hlt : j < Modifiers.allNames.length := (List.getElem?_eq_some_iff.mp hj).1
  have hknown := Modifiers.toNat_union_single_lt hm.modifiers hlt
  refine ⟨{ hm with modifiers := hknown, unordered := ?_ }, rfl, rfl⟩
  intro hsetp hnone
  rw [tag?, if_pos ⟨hsetp, hnone⟩, Option.map_eq_none_iff] at htag
  -- `lo` and `hi` are comparisons too, and would have been read as such
  have hcompares : ∀ ordered ∈ ["lo", "hi"], Comparison.ofName? ordered ≠ none := by decide
  have hother : ∀ ordered ∈ ["lo", "hi"], ordered ∉ (m.modifiers.union (.single j)).names := by
    intro ordered hordered hmem
    -- the name was there before, or it is the one just read
    rcases Modifiers.mem_names_union hmem with hold | hnew
    · have hfree := hm.unordered hsetp hnone
      simp only [List.mem_cons, List.not_mem_nil, or_false] at hordered
      rcases hordered with rfl | rfl
      · exact hfree.1 hold
      · exact hfree.2 hold
    · rw [hj] at hnew
      cases hnew
      exact absurd htag (hcompares name hordered)
  exact ⟨hother "lo" (by decide), hother "hi" (by decide)⟩

/-- **One more suffix keeps what was taken in canonical.** -/
theorem Canonical.add {suffix : List Char} (h : draft.Canonical)
    (hadd : draft.add suffix = .ok draft') : draft'.Canonical := by
  have hmnemonic : ∀ m', m'.Canonical ∧ m'.type = draft.mnemonic.type ∧
      m'.sourceType = draft.mnemonic.sourceType → Canonical { draft with mnemonic := m' } :=
    fun m' hm' => ⟨hm'.1, hm'.2.1.trans h.type, hm'.2.2.trans h.sourceType, h.types⟩
  unfold MnemonicDraft.add at hadd
  dsimp only at hadd
  split at hadd
  · rename_i m' hm'
    cases hadd
    apply hmnemonic
    -- the readings are tried in turn: tag, `uni`, space
    rcases Option.or_eq_some_iff.mp hm' with htag | ⟨-, hm'⟩
    · exact canonical_of_tag? htag h.mnemonic
    rcases Option.or_eq_some_iff.mp hm' with huniform | ⟨-, hspace⟩
    · exact canonical_of_uniform? huniform h.mnemonic
    · exact canonical_of_space? hspace h.mnemonic
  · rename_i hnone
    split at hadd
    · rename_i t ht
      cases hadd
      -- a type is only collected here; the end of the mnemonic decides what it is for
      refine ⟨h.mnemonic, h.type, h.sourceType, fun t' ht' => ?_⟩
      rcases List.mem_append.mp ht' with ht' | ht'
      · exact h.types t' ht'
      · rw [List.mem_singleton.mp ht']
        exact DataType.mem_of_ofName? ht
    · split at hadd
      · rename_i m' hm'
        cases hadd
        exact hmnemonic m' (canonical_of_modifier? (Option.or_eq_none_iff.mp hnone).1 hm' h.mnemonic)
      · cases hadd

/-- The finished mnemonic is canonical. -/
theorem Canonical.finish (h : draft.Canonical) (hfinish : draft.finish = .ok m) : m.Canonical := by
  have hmissing : ∀ t ∈ DataType.named, t ≠ .missing := by decide
  have htypes := h.types
  unfold MnemonicDraft.finish at hfinish
  dsimp only at hfinish
  -- no type, one, two, or too many
  split at hfinish
  · cases hfinish
    exact h.mnemonic
  · rename_i t heq
    cases hfinish
    rw [heq] at htypes
    have ht := htypes t List.mem_cons_self
    exact { h.mnemonic with type := .inr ht, typed := fun _ => hmissing t ht }
  · rename_i t t' heq
    cases hfinish
    rw [heq] at htypes
    have ht := htypes t List.mem_cons_self
    exact { h.mnemonic with
      type := .inr ht
      sourceType := .inr (htypes t' (List.mem_cons_of_mem _ List.mem_cons_self))
      typed := fun _ => hmissing t ht }
  · cases hfinish

end MnemonicDraft

/-- **A mnemonic that is read is canonical.** -/
theorem Mnemonic.canonical_of_mnemonic? {cs : List Char} {m : Mnemonic} (h : mnemonic? cs = .ok m) :
    m.Canonical := by
  unfold mnemonic? at h
  split at h
  · cases h
  · split at h
    · cases h
    · rename_i op hop
      obtain ⟨draft, hdraft, h⟩ := Fallible.bind_eq_ok.mp h
      -- the opcode alone is canonical, and each suffix keeps it so
      have hstart : MnemonicDraft.Canonical { mnemonic := { opcode := op } } := by
        refine ⟨⟨List.mem_of_find?_eq_some hop, .inl rfl, .inl rfl, .inl rfl, ?_, ?_, ?_, .inl rfl,
          .inl rfl, .inl rfl, ?_⟩, rfl, rfl, fun t ht => ?_⟩
        · rintro ⟨⟩
        · intro _ _
          exact (by decide : "lo" ∉ Modifiers.empty.names ∧ "hi" ∉ Modifiers.empty.names)
        · exact (by decide : Modifiers.empty.word.toNat < 2 ^ Modifiers.allNames.length)
        · intro hsource
          exact absurd rfl hsource
        · cases ht
      have hcanonical := Fallible.foldlM_keeps (fun _ _ _ hadd hd => hd.add hadd) hdraft hstart
      exact hcanonical.finish h

end KernelIR.Source
