import KernelIR.Proofs.Virtual.Representation

/-!
# Joins as lists of pairs

A `phi` selects one of its sources by the block that control came from, a `psi` by a predicate.
Both keep sources and keys in two lists of their own.  `joins_of_run`: whatever is done to such
instructions, the two lists together are one list of pairs (`Join.pairs?`), to which a pair is added
at the end and from which the first one with a key is removed.  `JoinEdit.expect` says this on lists
of pairs alone, for all instructions of a workspace, so that a copy and its original go separate
ways.

`Join.Lists` relates an instruction to its pairs.  It holds of every join that operations can make
(`Instr.closed_paired`), and one edit takes it to the expected pairs (`map_pairs?_perform`).
-/

namespace KernelIR.Virtual

/-! ### Kinds of joins -/

/-- The instructions that select one of several sources. -/
inductive Join
  | phi
  | psi

namespace Join

/-- What selects a source: the number of the block that control came from, or a predicate. -/
def Key : Join → Type
  | phi => Int
  | psi => Predicate

instance : (J : Join) → DecidableEq J.Key
  | phi => inferInstanceAs (DecidableEq Int)
  | psi => inferInstanceAs (DecidableEq Predicate)

/-- The shape of the joins of a kind. -/
def shape : Join → Shape
  | phi => .phi
  | psi => .psi

/-- What only the joins of a kind have. -/
def part : Join → Part
  | phi => .phiSources
  | psi => .psiSources

/-- The keys of an instruction. -/
def keys : (J : Join) → Instr → List J.Key
  | phi, x => x.sourceBlocks
  | psi, x => x.sourcePredicates

/-- The instruction with other sources and keys. -/
def withSources : (J : Join) → Instr → List (Option Operand) → List J.Key → Instr
  | phi, x, extra, keys => { x with extra, sourceBlocks := keys }
  | psi, x, extra, keys => { x with extra, sourcePredicates := keys }

/-- Adds a source with its key. -/
def addition : (J : Join) → Option Register → J.Key → Change
  | phi, r, block => .addPhiSource r block
  | psi, r, p => .addPsiSource p r

/-- Removes the first source with a key. -/
def removal : (J : Join) → J.Key → Change
  | phi, block => .removePhiSource block
  | psi, p => .removePsiSource p

section WithSources

variable (J : Join) (x : Instr) (extra extra' : List (Option Operand)) (ks ks' : List J.Key)

theorem keys_withSources : J.keys (J.withSources x extra ks) = ks := by
  cases J <;> rfl

theorem extra_withSources : (J.withSources x extra ks).extra = extra := by
  cases J <;> rfl

theorem withSources_withSources :
    J.withSources (J.withSources x extra ks) extra' ks' = J.withSources x extra' ks' := by
  cases J <;> rfl

theorem withSources_self : J.withSources x x.extra (J.keys x) = x := by
  cases J <;> rfl

theorem result_addition (r : Option Register) (key : J.Key) :
    (J.addition r key).result x =
      J.withSources x (x.extra ++ [some (.register r)]) (J.keys x ++ [key]) := by
  cases J <;> rfl

theorem result_removal (key : J.Key) :
    (J.removal key).result x = ((J.keys x).idxOf? key).elim x fun j =>
      J.withSources x (x.extra.eraseIdx j) ((J.keys x).eraseIdx j) := by
  cases J <;> rfl

end WithSources

variable {J : Join} {x y : Instr} {key : J.Key}

/-- A change of the sources is refused by all instructions but the joins of the kind. -/
theorem refused_iff {c : Change} (hpart : c.part? = some J.part) (hfits : c.misfits x = false) :
    c.Refused x ↔ x.shape ≠ J.shape := by
  have hshapes : J.part.shapes = [J.shape] := by cases J <;> rfl
  simp [Change.Refused, hpart, hfits, mem_parts_iff, hshapes]

theorem refused_addition_iff (r : Option Register) :
    (J.addition r key).Refused x ↔ x.shape ≠ J.shape :=
  refused_iff (by cases J <;> rfl) (by cases J <;> rfl)

theorem refused_removal_iff : (J.removal key).Refused x ↔ x.shape ≠ J.shape :=
  refused_iff (by cases J <;> rfl) (by cases J <;> rfl)

end Join

/-- The instruction after a change, accepted or refused. -/
def Change.outcome (c : Change) (x : Instr) : Instr :=
  (c.apply x).toOption.getD x

section Outcome

variable {c : Change} {x : Instr}

theorem Change.outcome_of_refused (h : c.Refused x) : c.outcome x = x := by
  obtain ⟨d, hd⟩ := apply_eq_error_iff.mpr h
  rw [outcome, hd]
  rfl

theorem Change.outcome_of_not_refused (h : ¬c.Refused x) : c.outcome x = c.result x := by
  rw [outcome, apply_eq_ok_iff.mpr ⟨h, rfl⟩]
  rfl

theorem Change.shape_outcome (c : Change) (x : Instr) : (c.outcome x).shape = x.shape := by
  by_cases h : c.Refused x
  · rw [outcome_of_refused h]
  · rw [outcome_of_not_refused h, Instr.shape, (apply_keeps (apply_eq_ok_iff.mpr ⟨h, rfl⟩)).1]
    rfl

theorem Join.outcome_addition {J : Join} (hshape : x.shape = J.shape) (r : Option Register)
    (key : J.Key) : (J.addition r key).outcome x = (J.addition r key).result x :=
  Change.outcome_of_not_refused (by rwa [refused_addition_iff, not_not])

theorem Join.outcome_removal {J : Join} (hshape : x.shape = J.shape) (key : J.Key) :
    (J.removal key).outcome x = (J.removal key).result x :=
  Change.outcome_of_not_refused (by rwa [refused_removal_iff, not_not])

end Outcome

/-! ### Pairs -/

/-- The register that a slot holds. -/
def heldRegister? : Option Operand → Option (Option Register)
  | some (.register r) => some r
  | _ => none

/-- The registers that an instruction selects from. -/
def Instr.sources (x : Instr) : List (Option Register) :=
  x.extra.filterMap heldRegister?

namespace Join

variable {J : Join} {x y : Instr} {key : J.Key} {ps : List (Option Register × J.Key)}

/-- The sources of an instruction with their keys; none if it is no join of the kind. -/
def pairs? (J : Join) (x : Instr) : Option (List (Option Register × J.Key)) :=
  if x.shape = J.shape then some (x.sources.zip (J.keys x)) else none

/-- The instruction has these sources and keys, and nothing else stands among them. -/
structure Lists (J : Join) (x : Instr) (ps : List (Option Register × J.Key)) : Prop where
  extra : x.extra = ps.map fun p => some (.register p.1)
  keys : J.keys x = ps.map Prod.snd

theorem Lists.sources (h : J.Lists x ps) : x.sources = ps.map Prod.fst := by
  rw [Instr.sources, h.extra, List.filterMap_map, ← List.filterMap_eq_map]
  rfl

theorem Lists.pairs?_eq (h : J.Lists x ps) (hshape : x.shape = J.shape) : J.pairs? x = some ps := by
  rw [pairs?, if_pos hshape, h.sources, h.keys, ← List.zip_of_prod rfl rfl]

/-- Behind its guard, a join reads its sources and nothing else. -/
theorem operandsRead_eq (hshape : x.shape = J.shape) : x.operandsRead = x.extra := by
  have hfixed : x.fixedReads = [] := by
    rw [Instr.fixedReads, hshape]
    cases J <;> rfl
  rw [Instr.operandsRead, hfixed]
  rfl

/-- What keeps both lists keeps the pairs. -/
theorem Lists.of_eq (h : J.Lists x ps) (hextra : y.extra = x.extra) (hkeys : J.keys y = J.keys x) :
    J.Lists y ps :=
  ⟨hextra.trans h.extra, hkeys.trans h.keys⟩

theorem Lists.destination (h : J.Lists x ps) (o : Option Operand) :
    J.Lists ((Change.destination o).result x) ps := by
  unfold Change.result
  split_ifs
  · exact h.of_eq rfl (by cases J <;> rfl)
  · exact h.of_eq rfl (by cases J <;> rfl)

theorem lists_withSources {extra : List (Option Operand)}
    (hextra : extra = ps.map fun p => some (.register p.1)) :
    J.Lists (J.withSources x extra (ps.map Prod.snd)) ps := by
  rw [← extra_withSources J x extra (ps.map Prod.snd)] at hextra
  exact ⟨hextra, keys_withSources ..⟩

theorem Lists.addition (h : J.Lists x ps) (r : Option Register) (key : J.Key) :
    J.Lists ((J.addition r key).result x) (ps ++ [(r, key)]) := by
  have hkeys : J.keys x ++ [key] = (ps ++ [(r, key)]).map Prod.snd := by
    rw [h.keys, List.map_append]
    rfl
  rw [result_addition, hkeys]
  refine lists_withSources ?_
  rw [h.extra, List.map_append]
  rfl

/-- The first key that is met stands where the first pair with it does. -/
theorem Lists.idxOf?_keys (h : J.Lists x ps) (key : J.Key) :
    (J.keys x).idxOf? key = ps.findIdx? (·.2 = key) := by
  rw [h.keys, List.idxOf?, List.findIdx?_map]
  rfl

theorem Lists.removal (h : J.Lists x ps) (key : J.Key) :
    J.Lists ((J.removal key).result x) (ps.eraseP (·.2 = key)) := by
  rw [result_removal, h.idxOf?_keys, List.eraseP_eq_eraseIdx]
  cases ps.findIdx? (·.2 = key) with
  | none => exact h
  | some j =>
    have hkeys : (J.keys x).eraseIdx j = (ps.eraseIdx j).map Prod.snd := by
      rw [h.keys, List.eraseIdx_map]
    show J.Lists (J.withSources x (x.extra.eraseIdx j) ((J.keys x).eraseIdx j)) (ps.eraseIdx j)
    rw [hkeys]
    refine lists_withSources ?_
    rw [h.extra, List.eraseIdx_map]

/-- **A source with a new key is removed without a trace.** -/
theorem Lists.removal_addition (h : J.Lists x ps) (r : Option Register) (hkey : key ∉ J.keys x) :
    (J.removal key).result ((J.addition r key).result x) = x := by
  have hlength : (J.keys x).length = x.extra.length := by
    rw [h.keys, h.extra, List.length_map, List.length_map]
  -- the key is found behind all others, where it was put
  have hfound : (J.keys x ++ [key]).idxOf? key = some (J.keys x).length := by
    rw [List.idxOf?_eq_some_iff]
    refine ⟨by simp, by simp, fun j hj => ?_⟩
    rw [List.getElem_append_left hj]
    exact fun heq => hkey (heq ▸ List.getElem_mem hj)
  rw [result_addition, result_removal, keys_withSources, extra_withSources, hfound]
  show J.withSources (J.withSources ..) (List.eraseIdx _ _) (List.eraseIdx _ _) = x
  rw [withSources_withSources, eraseIdx_concat, hlength, eraseIdx_concat, withSources_self]

end Join

namespace Instr

variable {x : Instr}

/-- If the instruction is a join, it lists pairs. -/
def Paired (x : Instr) : Prop :=
  ∀ J : Join, x.shape = J.shape → ∃ ps, J.Lists x ps

/-- A join lists the pairs that are seen in it. -/
theorem Paired.lists {J : Join} {ps : List (Option Register × J.Key)} (h : x.Paired)
    (hps : J.pairs? x = some ps) : x.shape = J.shape ∧ J.Lists x ps := by
  have hshape : x.shape = J.shape := by
    by_contra hshape
    rw [Join.pairs?, if_neg hshape] at hps
    cases hps
  obtain ⟨qs, hqs⟩ := h J hshape
  rw [hqs.pairs?_eq hshape] at hps
  cases hps
  exact ⟨hshape, hqs⟩

/-- **Changes leave joins that list pairs.** -/
theorem Paired.result (h : x.Paired) {c : Change} (hc : ¬c.Refused x) : (c.result x).Paired := by
  intro J hshape
  rw [← Change.outcome_of_not_refused hc, Change.shape_outcome] at hshape
  obtain ⟨ps, hps⟩ := h J hshape
  -- the shape has what is changed, and joins have nothing but a destination and sources
  have hpart : ∀ p, c.part? = some p → J.shape ∈ p.shapes := by
    intro p hp
    by_contra hlacks
    rw [← hshape] at hlacks
    exact hc (.inl ⟨p, hp, fun hmem => hlacks ((mem_parts_iff p x.shape).mp hmem)⟩)
  cases c with
  | guard | tags => exact ⟨ps, hps.of_eq rfl (by cases J <;> rfl)⟩
  | destination o => exact ⟨ps, hps.destination o⟩
  | a | b | c | target | addReturn | addArgument =>
    have hmem := hpart _ rfl
    cases J <;> exact absurd hmem (by decide)
  | addPhiSource r block =>
    cases J with
    | phi => exact ⟨_, hps.addition r block⟩
    | psi => exact absurd (hpart _ rfl) (by decide)
  | removePhiSource block =>
    cases J with
    | phi => exact ⟨_, hps.removal block⟩
    | psi => exact absurd (hpart _ rfl) (by decide)
  | addPsiSource p r =>
    cases J with
    | phi => exact absurd (hpart _ rfl) (by decide)
    | psi => exact ⟨_, hps.addition r p⟩
  | removePsiSource p =>
    cases J with
    | phi => exact absurd (hpart _ rfl) (by decide)
    | psi => exact ⟨_, hps.removal p⟩

/-- **All joins list pairs**, and are kept as the shape says. -/
theorem closed_paired : Closed fun x => x.Represented ∧ x.Paired where
  clear x := ⟨represented_clear x, fun J _ => ⟨[], rfl, by cases J <;> rfl⟩⟩
  setBlock x b h := by
    refine ⟨h.1.setBlock b, fun J hshape => ?_⟩
    obtain ⟨ps, hps⟩ := h.2 J hshape
    exact ⟨ps, hps.of_eq rfl (by cases J <;> rfl)⟩
  change x c y h hy := by
    obtain ⟨hc, rfl⟩ := Change.apply_eq_ok_iff.mp hy
    exact ⟨h.1.result hc, h.2.result hc⟩
  clone x h := by
    rw [h.1.clone_eq]
    exact h

end Instr

/-! ### Edits of the joins in a workspace -/

/-- What can be done to the joins of a kind, each known by its place. -/
inductive JoinEdit (J : Join)
  | add (i : Nat) (r : Option Register) (key : J.Key)
  | remove (i : Nat) (key : J.Key)
  | setDestination (i : Nat) (o : Option Operand)
  | setGuard (i : Nat) (p : Predicate)
  | clone (i : Nat)

namespace JoinEdit

variable {J : Join}

/-- The operation that an edit is. -/
def operation : JoinEdit J → Operation
  | add i r key => .changeInstr i (J.addition r key)
  | remove i key => .changeInstr i (J.removal key)
  | setDestination i o => .changeInstr i (.destination o)
  | setGuard i p => .changeInstr i (.guard p)
  | clone i => .cloneInstr i

/-- What an edit does to the pairs of all instructions: a pair is added at the end of a list, or the
first one with the key is removed, or a list is copied. -/
def expect (lists : List (Option (List (Option Register × J.Key)))) :
    JoinEdit J → List (Option (List (Option Register × J.Key)))
  | add i r key => lists.modify i (Option.map (· ++ [(r, key)]))
  | remove i key => lists.modify i (Option.map (·.eraseP (·.2 = key)))
  | setDestination .. | setGuard .. => lists
  | clone i => lists ++ [lists.getD i none]

end JoinEdit

namespace Workspace

open Instr (Represented Paired)

variable {J : Join} {w : Workspace}

/-- What some edits leave of a workspace, one after another. -/
def edited (w : Workspace) (edits : List (JoinEdit J)) : Workspace :=
  w.after (edits.map JoinEdit.operation)

theorem instr_of_getElem? {i : Nat} {x : Instr} (h : w.instrs[i]? = some x) : w.instr i = x := by
  rw [instr, List.getD_eq_getElem?_getD, h]
  rfl

/-- A change of an instruction counts only for the one that it is applied to. -/
theorem changeInstr_congr {i : Nat} {h h' : Instr → Instr}
    (heq : ∀ x, w.instrs[i]? = some x → h x = h' x) : w.changeInstr i h = w.changeInstr i h' := by
  have hmodify : w.instrs.modify i h = w.instrs.modify i h' := by
    refine List.ext_getElem? fun j => ?_
    rw [List.getElem?_modify, List.getElem?_modify]
    by_cases hj : i = j
    · subst hj
      cases hx : w.instrs[i]? with
      | none => rfl
      | some x => simp [heq x hx]
    · simp [hj]
  rw [changeInstr, changeInstr, hmodify]

theorem changeInstr_changeInstr (w : Workspace) (i : Nat) (h h' : Instr → Instr) :
    (w.changeInstr i h).changeInstr i h' = w.changeInstr i (h' ∘ h) := by
  rw [changeInstr, changeInstr, changeInstr, List.modify_modify_eq]

theorem changeInstr_id (w : Workspace) (i : Nat) : w.changeInstr i id = w := by
  rw [changeInstr, List.modify_id]

/-- A change of an instruction leaves its outcome in place of it. -/
theorem perform_changeInstr_eq (w : Workspace) (i : Nat) (c : Change) :
    (Operation.perform w (.changeInstr i c)).2 = w.changeInstr i c.outcome := by
  cases hy : c.apply (w.instr i) with
  | error d =>
    rw [Operation.perform_changeInstr_of_error hy]
    refine (w.changeInstr_id i).symm.trans (changeInstr_congr fun x hx => ?_)
    rw [← instr_of_getElem? hx, Change.outcome, hy]
    rfl
  | ok y =>
    rw [Operation.perform_changeInstr hy]
    refine changeInstr_congr fun x hx => ?_
    rw [← instr_of_getElem? hx, Change.outcome, hy]
    rfl

/-- A change of one instruction takes its pairs where it takes those of every join. -/
theorem map_pairs?_changeInstr (hw : w.Holds fun x => x.Represented ∧ x.Paired) (i : Nat)
    {c : Change} {g : List (Option Register × J.Key) → List (Option Register × J.Key)}
    (hc : ∀ x ps, x.shape = J.shape → J.Lists x ps → J.Lists (c.outcome x) (g ps)) :
    (Operation.perform w (.changeInstr i c)).2.instrs.map J.pairs? =
      (w.instrs.map J.pairs?).modify i (Option.map g) := by
  have hpairs : ∀ x ∈ w.instrs, J.pairs? (c.outcome x) = (J.pairs? x).map g := by
    intro x hx
    -- an instruction of another shape has no pairs, before and after
    by_cases hshape : x.shape = J.shape
    · obtain ⟨ps, hps⟩ := (hw x hx).2 J hshape
      rw [hps.pairs?_eq hshape, (hc x ps hshape hps).pairs?_eq ((c.shape_outcome x).trans hshape)]
      rfl
    · have hshape' : (c.outcome x).shape ≠ J.shape := by rwa [c.shape_outcome]
      rw [Join.pairs?, Join.pairs?, if_neg hshape, if_neg hshape']
      rfl
  rw [perform_changeInstr_eq]
  refine List.ext_getElem? fun j => ?_
  rw [changeInstr, List.getElem?_map, List.getElem?_modify, List.getElem?_modify, List.getElem?_map]
  cases hx : w.instrs[j]? with
  | none => rfl
  | some x =>
    have hx' := hpairs x (List.mem_of_getElem? hx)
    by_cases hj : i = j
    · simpa [hj] using hx'
    · simp [hj]

/-- **One edit gives the pairs that are expected.** -/
theorem map_pairs?_perform (hw : w.Holds fun x => x.Represented ∧ x.Paired) (e : JoinEdit J) :
    (e.operation.perform w).2.instrs.map J.pairs? = e.expect (w.instrs.map J.pairs?) := by
  cases e with
  | add i r key =>
    refine map_pairs?_changeInstr hw i fun x ps hshape hps => ?_
    rw [Join.outcome_addition hshape]
    exact hps.addition r key
  | remove i key =>
    refine map_pairs?_changeInstr hw i fun x ps hshape hps => ?_
    rw [Join.outcome_removal hshape]
    exact hps.removal key
  | setDestination i o =>
    refine (map_pairs?_changeInstr hw i (g := id) fun x ps _ hps => ?_).trans ?_
    · by_cases hrefused : (Change.destination o).Refused x
      · rwa [Change.outcome_of_refused hrefused]
      · rw [Change.outcome_of_not_refused hrefused]
        exact hps.destination o
    · rw [Option.map_id, List.modify_id]
      rfl
  | setGuard i p =>
    refine (map_pairs?_changeInstr hw i (g := id) fun x ps _ hps => ?_).trans ?_
    · exact hps.of_eq rfl (by cases J <;> rfl)
    · rw [Option.map_id, List.modify_id]
      rfl
  | clone i =>
    have hclone : (w.instr i).clone = w.instr i := (hw.instr Instr.closed_paired i).1.clone_eq
    have hget : J.pairs? (w.instr i) = (w.instrs.map J.pairs?).getD i none := by
      rw [List.getD_eq_getElem?_getD, List.getElem?_map]
      cases hx : w.instrs[i]? with
      | none =>
        -- behind the last instruction there is none that joins
        rw [instr, List.getD_eq_getElem?_getD, hx]
        cases J <;> rfl
      | some x =>
        rw [instr_of_getElem? hx]
        rfl
    show (w.instrs ++ [(w.instr i).clone]).map J.pairs? = _ ++ [_]
    rw [List.map_append, hclone, ← hget]
    rfl

/-- **Any number of edits give the pairs that are expected.** -/
theorem map_pairs?_edited (hw : w.Holds fun x => x.Represented ∧ x.Paired)
    (edits : List (JoinEdit J)) :
    (w.edited edits).instrs.map J.pairs? = edits.foldl JoinEdit.expect (w.instrs.map J.pairs?) := by
  induction edits generalizing w with
  | nil => rfl
  | cons e edits ih =>
    rw [List.foldl_cons, ← map_pairs?_perform hw e]
    exact ih (hw.perform Instr.closed_paired e.operation)

/-- Adding and removing a source with a new key leaves the workspace as it was. -/
theorem edited_add_remove (hw : w.Holds fun x => x.Represented ∧ x.Paired) (i : Nat)
    (r : Option Register) {key : J.Key} (hkey : key ∉ J.keys (w.instr i)) :
    w.edited [.add i r key, .remove i key] = w := by
  show (Operation.perform (Operation.perform w (.changeInstr i (J.addition r key))).2
    (.changeInstr i (J.removal key))).2 = w
  rw [perform_changeInstr_eq, perform_changeInstr_eq, changeInstr_changeInstr]
  refine Eq.trans (changeInstr_congr fun x hx => ?_) (w.changeInstr_id i)
  rw [instr_of_getElem? hx] at hkey
  by_cases hshape : x.shape = J.shape
  · obtain ⟨ps, hps⟩ := (hw x (List.mem_of_getElem? hx)).2 J hshape
    have hadded := Join.outcome_addition hshape r key
    have hshape' : ((J.addition r key).result x).shape = J.shape := by
      rw [← hadded, Change.shape_outcome, hshape]
    rw [Function.comp, hadded, Join.outcome_removal hshape']
    exact hps.removal_addition r hkey
  · -- an instruction of another shape refuses both edits
    have hrefused : (J.addition r key).Refused x := (Join.refused_addition_iff r).mpr hshape
    rw [Function.comp, Change.outcome_of_refused hrefused]
    exact Change.outcome_of_refused (Join.refused_removal_iff.mpr hshape)

/-- **Joins are lists of pairs.**  Take any workspace that operations make, and do to its joins of
one kind what can be done, in any order: add and remove sources, set destinations and guards, make
copies.  Then the sources of each join with their keys are what comes of adding pairs at the end of
a list, removing the first pair with a key, if there is one, and copying lists.  What a join reads
behind its guard are its sources in that order, and each has its key.  Adding a source with a new
key and removing it again restores everything. -/
theorem joins_of_run (J : Join) (name : String) (ops : List Operation) (edits : List (JoinEdit J)) :
    ((made name ops).edited edits).instrs.map J.pairs? =
        edits.foldl JoinEdit.expect ((made name ops).instrs.map J.pairs?) ∧
      (∀ x ∈ ((made name ops).edited edits).instrs, ∀ ps, J.pairs? x = some ps →
        x.reads.tail = ps.map (fun p => some (.register p.1)) ∧ J.keys x = ps.map Prod.snd) ∧
      ∀ (i : Nat) (r : Option Register) (key : J.Key),
        key ∉ J.keys (((made name ops).edited edits).instr i) →
          ((made name ops).edited edits).edited [.add i r key, .remove i key] =
            (made name ops).edited edits := by
  have hmade := holds_of_run Instr.closed_paired name ops
  have hedited : ((made name ops).edited edits).Holds fun x => x.Represented ∧ x.Paired :=
    after_keeps (P := (Holds · _)) (fun _ op h => h.perform Instr.closed_paired op) hmade _
  refine ⟨map_pairs?_edited hmade edits, fun x hx ps hps => ?_, fun i r key hkey => ?_⟩
  · obtain ⟨hshape, hlists⟩ := (hedited x hx).2.lists hps
    exact ⟨(Join.operandsRead_eq hshape).trans hlists.extra, hlists.keys⟩
  · exact edited_add_remove hedited i r hkey

/-- A `phi` gets three sources, two of them for one block, and a destination that is no register is
refused; then it is copied, and original and copy lose different sources. -/
def sampleJoinEdits : List (JoinEdit .phi) :=
  [.add 0 none (1 : Int), .add 0 (some default) (2 : Int), .add 0 (some default) (1 : Int),
    .setDestination 0 (some (.address none)), .clone 0, .remove 0 (1 : Int), .remove 1 (2 : Int),
    .remove 1 (5 : Int)]

theorem joins_of_sampleJoinEdits :
    ((made "m" [.newInstr .phi none]).edited sampleJoinEdits).instrs.map Join.phi.pairs? =
        [some [(some default, (2 : Int)), (some default, (1 : Int))],
          some [(none, (1 : Int)), (some default, (1 : Int))]] ∧
      (7 : Int) ∉ (((made "m" [.newInstr .phi none]).edited sampleJoinEdits).instr 1).sourceBlocks ∧
      ((made "m" [.newInstr .phi none]).edited sampleJoinEdits).edited
          (J := .phi) [.add 1 none (7 : Int), .remove 1 (7 : Int)] =
        (made "m" [.newInstr .phi none]).edited sampleJoinEdits := by
  obtain ⟨hpairs, -, hrestored⟩ := joins_of_run .phi "m" [.newInstr .phi none] sampleJoinEdits
  have hkey : (7 : Int) ∉
      (((made "m" [.newInstr .phi none]).edited sampleJoinEdits).instr 1).sourceBlocks := by
    decide +kernel
  exact ⟨hpairs.trans rfl, hkey, hrestored 1 none (7 : Int) hkey⟩

end Workspace

end KernelIR.Virtual
