import KernelIR.Proofs.Virtual.Listing

/-!
# Who holds an instruction

Blocks list instructions, and an instruction has the number of a block.  The two are kept up
separately: what is attached twice is listed twice, and a block that is removed with its code leaves
its number to what it listed.

`coherent_iff_orderly`: in the runs of one function the two agree at all times (`Coherent`) exactly
if all operations are orderly (`Operation.Orderly`): nothing is attached that is listed, nothing
that is listed is erased from a block that is not, and blocks are removed without code.  That the
numbers of blocks are their places (`OneFunction`) tells where an instruction is listed from the
number that it has.

What an orderly operation can do is said once, by `orderly_cases`; it keeps what is listed tidy
(`tidy_perform`), and what is taken out without a block (`settled_perform`).
-/

namespace KernelIR.Virtual

/-! ### Along a run -/

namespace Operation

/-- Whether an operation makes a function. -/
def makesFunction : Operation → Bool
  | newFunction .. => true
  | _ => false

/-- The operation makes no function, and what it puts into a block is there, as is the block. -/
def Within (w : Workspace) (op : Operation) : Prop :=
  op.makesFunction = false ∧
    ∀ a ∈ op.attachment?, a.1 < w.instrs.length ∧ a.2 < w.blocks.length

instance (w : Workspace) (op : Operation) : Decidable (op.Within w) :=
  inferInstanceAs (Decidable (_ ∧ _))

end Operation

namespace Workspace

/-- Every operation of a run is as `P` says of it and the workspace that it finds. -/
def Along (P : Workspace → Operation → Prop) (w : Workspace) : List Operation → Prop
  | [] => True
  | op :: ops => P w op ∧ Along P (op.perform w).2 ops

instance along_decidable {P : Workspace → Operation → Prop} [∀ w op, Decidable (P w op)] :
    (w : Workspace) → (ops : List Operation) → Decidable (w.Along P ops)
  | _, [] => isTrue trivial
  | w, op :: ops =>
    have : Decidable ((op.perform w).2.Along P ops) := along_decidable _ ops
    inferInstanceAs (Decidable (P w op ∧ (op.perform w).2.Along P ops))

variable {P : Workspace → Operation → Prop} {w w' : Workspace} {f i b position : Nat}
  {op : Operation} {ops : List Operation}

theorem along_append (w : Workspace) (ops ops' : List Operation) :
    w.Along P (ops ++ ops') ↔ w.Along P ops ∧ (w.after ops).Along P ops' := by
  induction ops generalizing w with
  | nil => simp [Along, after]
  | cons op ops ih =>
    simp only [List.cons_append, Along, ih, and_assoc]
    rfl

theorem along_iff : w.Along P ops ↔
    ∀ front op back, ops = front ++ op :: back → P (w.after front) op := by
  constructor
  · rintro h front op back rfl
    exact ((along_append w front _).mp h).2.1
  · intro h
    induction ops generalizing w with
    | nil => exact trivial
    | cons op ops ih =>
      refine ⟨h [] op ops rfl, ih fun front op' back heq => ?_⟩
      exact h (op :: front) op' back (by rw [heq]; rfl)

/-! ### One function -/

/-- There is one function, and its counter and the numbers of its blocks are places. -/
structure OneFunction (w : Workspace) : Prop extends w.Owned where
  functions : w.functions.length = 1
  next : (w.function 0).nextBlock = w.blocks.length
  ids : ∀ b < w.blocks.length, (w.block b).id = b

theorem oneFunction_withFunction (title name : String) (linkage : Linkage) :
    (withFunction { name := title } name linkage).OneFunction where
  toOwned := (owned_empty title).withFunction name linkage
  functions := rfl
  next := rfl
  ids b hb := by
    obtain rfl | rfl : b = 0 ∨ b = 1 := by
      have hlt : b < 2 := hb
      omega
    · rfl
    · rfl

theorem SameLayout.oneFunction (h : w.SameLayout w') (hone : w.OneFunction) : w'.OneFunction where
  toOwned := h.owned hone.toOwned
  functions := h.functions.trans hone.functions
  next := by rw [h.next, h.blocks, hone.next]
  ids b hb := by
    rw [h.ids]
    exact hone.ids b (h.blocks ▸ hb)

theorem OneFunction.eq_zero (h : w.OneFunction) (hf : f < w.functions.length) : f = 0 := by
  have hfunctions := h.functions
  omega

theorem OneFunction.withBlock (h : w.OneFunction) {p : Nat} {before : Option Nat}
    (hp : w.position? f before = some p) (name : String) : (w.withBlock f p name).OneFunction where
  toOwned := h.toOwned.withBlock hp name
  functions := length_functions_withBlock.trans h.functions
  next := by
    obtain rfl := h.eq_zero (lt_of_position? hp)
    rw [function_withBlock (lt_of_position? hp), length_blocks_withBlock, h.next]
  ids b hb := by
    obtain rfl := h.eq_zero (lt_of_position? hp)
    rw [length_blocks_withBlock] at hb
    rw [block_withBlock]
    split_ifs with hnew
    · rw [h.next, hnew]
    · exact h.ids b (by omega)

theorem OneFunction.withoutBlock (h : w.OneFunction) {p : Nat}
    (hp : w.removable? f b = some p) : (w.withoutBlock f b p).OneFunction where
  toOwned := h.toOwned.withoutBlock hp
  functions := length_functions_withoutBlock.trans h.functions
  next := by
    rw [length_blocks_withoutBlock, ← h.next, function_withoutBlock]
    split_ifs <;> rfl
  ids b' hb := by
    rw [length_blocks_withoutBlock] at hb
    rw [block_withoutBlock]
    split_ifs <;> exact h.ids b' hb

theorem oneFunction_perform (h : w.OneFunction) (hwithin : op.Within w) :
    (op.perform w).2.OneFunction := by
  have hmove := w.move_perform op
  generalize (op.perform w).2 = w' at hmove ⊢
  cases hmove with
  | quiet hquiet => exact hquiet.sameLayout.oneFunction h
  | function => cases hwithin.1
  | block hp name => exact h.withBlock hp name
  | removal hp => exact h.withoutBlock hp
  | attachment => exact (sameLayout_attached ..).oneFunction h
  | erasure => exact (sameLayout_detached ..).oneFunction h

/-- What is listed is there. -/
def Placed (w : Workspace) : Prop :=
  ∀ b, ∀ i ∈ (w.block b).code, i < w.instrs.length

theorem placed_perform (h : w.Placed) (hwithin : op.Within w) : (op.perform w).2.Placed := by
  have hmove := w.move_perform op
  generalize (op.perform w).2 = w' at hmove ⊢
  -- whatever a block lists after the step, it listed before or has just been given
  intro b i hi
  cases hmove with
  | quiet hquiet =>
    rw [block, hquiet.blocks] at hi
    exact Nat.lt_of_lt_of_le (h b i hi) hquiet.instrs
  | function => cases hwithin.1
  | block hp name =>
    rw [block_withBlock] at hi
    split_ifs at hi
    · cases hi
    · exact h b i hi
  | removal hp =>
    rw [block_withoutBlock] at hi
    rw [length_instrs_withoutBlock]
    split_ifs at hi
    · cases hi
    · exact h b i hi
  | attachment ha hposition =>
    rw [block_attached] at hi
    rw [length_instrs_attached]
    split_ifs at hi
    · rcases List.eq_or_mem_of_mem_insertIdx hi with rfl | hi
      · exact (hwithin.2 _ ha.1).1
      · exact h b i hi
    · exact h b i hi
  | erasure hmem =>
    rw [block_detached] at hi
    rw [length_instrs_detached]
    split_ifs at hi
    · exact h b i (List.mem_of_mem_erase hi)
    · exact h b i hi

/-- A workspace as runs of one function leave it. -/
structure Regular (w : Workspace) : Prop extends w.OneFunction where
  placed : w.Placed

theorem regular_perform (h : w.Regular) (hwithin : op.Within w) : (op.perform w).2.Regular where
  toOneFunction := oneFunction_perform h.toOneFunction hwithin
  placed := placed_perform h.placed hwithin

theorem regular_after (h : w.Regular) (hwithin : w.Along Operation.Within ops) :
    (w.after ops).Regular := by
  induction ops generalizing w with
  | nil => exact h
  | cons op ops ih => exact ih (regular_perform h hwithin.1) hwithin.2

/-! ### Tidy workspaces -/

/-- The instructions that a function lists are tidy: each is listed once, and it has the number of
the block that lists it. -/
structure Tidy (w : Workspace) (f : Nat) : Prop where
  once : (w.listing f).Nodup
  agrees : ∀ b ∈ (w.function f).blocks, ∀ i ∈ (w.block b).code,
    (w.instr i).block = some (w.block b).id

theorem Tidy.attached (h : w.Tidy f) (howned : w.Owned) (hi : i < w.instrs.length)
    (hposition : position ≤ (w.block b).code.length) (hnew : i ∉ w.listing f) :
    (w.attached i b position).Tidy f := by
  constructor
  · by_cases hb : b ∈ (w.function f).blocks
    · rw [(listing_attached howned hb hposition).nodup_iff, List.nodup_cons]
      exact ⟨hnew, h.once⟩
    · rw [listing_attached_of_not_mem hb]
      exact h.once
  · intro b' hb' j hj
    have hid : ((w.attached i b position).block b').id = (w.block b').id :=
      (sameLayout_attached w i b position).ids b'
    rw [block_attached] at hj
    rw [hid, instr_attached]
    by_cases hij : i = j
    · subst hij
      -- it is new, so the block that lists it is the one that it was put into
      have hb : b = b' ∧ b' < w.blocks.length := by
        by_contra hb
        rw [if_neg hb] at hj
        exact hnew (mem_listing.mpr ⟨b', hb', hj⟩)
      rw [if_pos ⟨rfl, hi⟩, hb.1]
    · have hold : j ∈ (w.block b').code := by
        split_ifs at hj
        · exact (List.eq_or_mem_of_mem_insertIdx hj).resolve_left (Ne.symm hij)
        · exact hj
      rw [if_neg fun hj => hij hj.1]
      exact h.agrees b' hb' j hold

theorem Tidy.detached (h : w.Tidy f) (howned : w.Owned) (hmem : i ∈ (w.block b).code)
    (hlisted : i ∈ w.listing f → b ∈ (w.function f).blocks) :
    (w.detached i b).Tidy f := by
  -- once erased the instruction is listed nowhere, since it was listed once
  have hgone : i ∉ (w.detached i b).listing f ∧ ((w.detached i b).listing f).Nodup := by
    by_cases hb : b ∈ (w.function f).blocks
    · exact List.nodup_cons.mp ((listing_detached howned hb hmem).nodup_iff.mp h.once)
    · rw [listing_detached_of_not_mem hb]
      exact ⟨mt hlisted hb, h.once⟩
  refine ⟨hgone.2, ?_⟩
  intro b' hb' j hj
  have hij : i ≠ j := by
    rintro rfl
    exact hgone.1 (mem_listing.mpr ⟨b', hb', hj⟩)
  have hid : ((w.detached i b).block b').id = (w.block b').id :=
    (sameLayout_detached w i b).ids b'
  have hold : j ∈ (w.block b').code := by
    rw [block_detached] at hj
    split_ifs at hj
    · exact List.mem_of_mem_erase hj
    · exact hj
  rw [hid, instr_detached, if_neg fun hj => hij hj.1]
  exact h.agrees b' hb' j hold

end Workspace

open Workspace

/-! ### Orderly operations -/

namespace Operation

variable {w : Workspace} {f i b : Nat} {op : Operation}

/-- The operation is orderly for a function: it attaches only what is not listed, erases what is
listed only from a block that is, and removes only blocks without code. -/
def Orderly (f : Nat) (w : Workspace) : Operation → Prop
  | appendInstr i _ => i ∉ w.listing f
  | insertInstr i b position => ¬offRange w b position → i ∉ w.listing f
  | eraseInstr i b => i ∈ (w.block b).code → i ∈ w.listing f → b ∈ (w.function f).blocks
  | removeBlock g b => (w.removable? g b).isSome → (w.block b).code = []
  | _ => True

instance (f : Nat) (w : Workspace) : (op : Operation) → Decidable (op.Orderly f w)
  | appendInstr .. => inferInstanceAs (Decidable (_ ∉ _))
  | insertInstr .. => inferInstanceAs (Decidable (¬_ → _ ∉ _))
  | eraseInstr .. => inferInstanceAs (Decidable (_ ∈ _ → _ ∈ _ → _ ∈ _))
  | removeBlock .. => inferInstanceAs (Decidable (_ = true → _ = _))
  | newFunction .. | removeFunction .. | setLinkage .. | newGlobal .. | removeGlobal ..
  | setInit .. | addConstant .. | newBlock .. | newRegister .. | newArgument .. | newInstr ..
  | cloneInstr .. | changeInstr .. | askInstr .. => isTrue trivial

theorem Attaches.not_mem (ha : op.Attaches w i b) (h : op.Orderly f w) : i ∉ w.listing f := by
  obtain ⟨hop, hdone⟩ := ha
  cases op with
  | appendInstr i' b' =>
    obtain ⟨rfl, rfl⟩ := Prod.mk.inj (Option.some.inj hop)
    exact h
  | insertInstr i' b' position =>
    obtain ⟨rfl, rfl⟩ := Prod.mk.inj (Option.some.inj hop)
    refine h fun hoff => ?_
    rw [perform_insertInstr, if_pos hoff] at hdone
    cases hdone
  | _ => cases hop

end Operation

namespace Workspace

variable {w w' : Workspace} {f i b position : Nat} {op : Operation} {ops : List Operation}

/-- What a function lists is undisturbed from `w` to `w'`: the listing is the same, in the same
blocks, and instructions have the same block. -/
structure Undisturbed (w w' : Workspace) (f : Nat) : Prop where
  listing : w'.listing f = w.listing f
  blocks : ∀ b ∈ (w'.function f).blocks, ∀ i ∈ (w'.block b).code,
    b ∈ (w.function f).blocks ∧ i ∈ (w.block b).code
  ids : ∀ b < w.blocks.length, (w'.block b).id = (w.block b).id
  instrs : w.instrs.length ≤ w'.instrs.length
  homes : ∀ i < w.instrs.length, (w'.instr i).block = (w.instr i).block

theorem Quiet.undisturbed (h : w.Quiet w') (f : Nat) : w.Undisturbed w' f := by
  have hblock : ∀ b, w'.block b = w.block b := fun b => congrArg (·.getD b default) h.blocks
  refine ⟨?_, ?_, ?_, h.instrs, h.homes⟩
  · exact listing_congr (h.lists f) fun b _ => by rw [hblock]
  · intro b hb i hi
    rw [h.lists] at hb
    rw [hblock] at hi
    exact ⟨hb, hi⟩
  · intro b _
    rw [hblock]

theorem undisturbed_withBlock (h : w.Owned) {p : Nat} {before : Option Nat}
    (hp : w.position? f before = some p) (name : String) :
    w.Undisturbed (w.withBlock f p name) f := by
  refine ⟨listing_withBlock h hp name, ?_, ?_, Nat.le_refl _, fun _ _ => rfl⟩
  · intro b hb i hi
    rw [block_withBlock] at hi
    split_ifs at hi with hnew
    · cases hi
    · obtain ⟨front, q, back, -, hlist, hlist'⟩ := split_withBlock hp name
      rw [hlist', List.perm_middle.mem_iff, ← hlist] at hb
      exact ⟨List.mem_of_ne_of_mem hnew hb, hi⟩
  · intro b hb
    rw [block_withBlock, if_neg (Nat.ne_of_lt hb)]

theorem undisturbed_withoutBlock {p : Nat} (hp : w.removable? f b = some p)
    (hcode : (w.block b).code = []) : w.Undisturbed (w.withoutBlock f b p) f := by
  refine ⟨listing_withoutBlock hp hcode, ?_, ?_, ?_, ?_⟩
  · intro b' hb' i hi
    rw [block_withoutBlock] at hi
    split_ifs at hi
    · cases hi
    · obtain ⟨front, back, -, -, hlist, hlist'⟩ := split_withoutBlock hp
      rw [hlist, List.perm_middle.mem_iff]
      exact ⟨List.mem_cons_of_mem _ (hlist' ▸ hb'), hi⟩
  · intro b' _
    rw [block_withoutBlock]
    split_ifs <;> rfl
  · exact Nat.le_of_eq length_instrs_withoutBlock.symm
  · exact fun j _ => instr_cleared ..

/-- **What an orderly operation does**: it disturbs nothing, attaches what is not listed, or erases
something that is listed in no other block. -/
theorem orderly_cases (hone : w.OneFunction) (hwithin : op.Within w) (horderly : op.Orderly 0 w) :
    w.Undisturbed (op.perform w).2 0 ∨
    (∃ i b position, op.Attaches w i b ∧ i < w.instrs.length ∧ i ∉ w.listing 0 ∧
      position ≤ (w.block b).code.length ∧ (op.perform w).2 = w.attached i b position) ∨
    ∃ i b, i ∈ (w.block b).code ∧ (i ∈ w.listing 0 → b ∈ (w.function 0).blocks) ∧
      (op.perform w).2 = w.detached i b := by
  have hmove := w.move_perform op
  generalize (op.perform w).2 = w' at hmove ⊢
  -- of the moves, those that touch no listed instruction are the first case
  cases hmove with
  | quiet hquiet => exact .inl (hquiet.undisturbed 0)
  | function => cases hwithin.1
  | block hp name =>
    obtain rfl := hone.eq_zero (lt_of_position? hp)
    exact .inl (undisturbed_withBlock hone.toOwned hp name)
  | removal hp =>
    obtain rfl := hone.eq_zero (lt_of_removable? hp)
    exact .inl (undisturbed_withoutBlock hp (horderly (by rw [hp]; rfl)))
  | attachment ha hposition =>
    exact .inr (.inl ⟨_, _, _, ha, (hwithin.2 _ ha.1).1, ha.not_mem horderly, hposition, rfl⟩)
  | erasure hmem => exact .inr (.inr ⟨_, _, hmem, horderly hmem, rfl⟩)

theorem tidy_perform (h : w.Regular) (htidy : w.Tidy 0)
    (hwithin : op.Within w) (horderly : op.Orderly 0 w) : (op.perform w).2.Tidy 0 := by
  obtain hstill | ⟨i, b, position, -, hi, hnew, hposition, hw⟩ | ⟨i, b, hmem, hlisted, hw⟩ :=
    orderly_cases h.toOneFunction hwithin horderly
  · refine ⟨hstill.listing ▸ htidy.once, ?_⟩
    intro b hb i hi
    obtain ⟨hb, hi⟩ := hstill.blocks b hb i hi
    rw [hstill.homes i (h.placed b i hi), hstill.ids b (h.lt_blocks hb)]
    exact htidy.agrees b hb i hi
  · rw [hw]
    exact htidy.attached h.toOwned hi hposition hnew
  · rw [hw]
    exact htidy.detached h.toOwned hmem hlisted

/-- An instruction is settled if it is listed or has no block. -/
def Settled (w : Workspace) (f i : Nat) : Prop :=
  i < w.instrs.length ∧ (i ∈ w.listing f ∨ (w.instr i).block = none)

theorem settled_perform (hone : w.OneFunction) (hwithin : op.Within w)
    (horderly : op.Orderly 0 w) (h : w.Settled 0 i) (hop : ∀ b, ¬op.Attaches w i b) :
    (op.perform w).2.Settled 0 i := by
  obtain ⟨hi, hsettled⟩ := h
  obtain hstill | ⟨j, b, position, ha, -, -, hposition, hw⟩ | ⟨j, b, hmem, -, hw⟩ :=
    orderly_cases hone hwithin horderly
  · refine ⟨Nat.lt_of_lt_of_le hi hstill.instrs, ?_⟩
    rw [hstill.listing, hstill.homes i hi]
    exact hsettled
  · -- another instruction is attached, so this one stays where it is
    have hij : j ≠ i := by
      rintro rfl
      exact hop b ha
    rw [hw]
    refine ⟨by rwa [length_instrs_attached], ?_⟩
    rw [instr_attached, if_neg fun h => hij h.1]
    refine hsettled.imp_left fun hlisted => ?_
    by_cases hb : b ∈ (w.function 0).blocks
    · rw [(listing_attached hone.toOwned hb hposition).mem_iff]
      exact List.mem_cons_of_mem _ hlisted
    · rwa [listing_attached_of_not_mem hb]
  · rw [hw]
    refine ⟨by rwa [length_instrs_detached], ?_⟩
    rw [instr_detached]
    -- an erased instruction has no block any more
    by_cases hij : j = i
    · rw [if_pos ⟨hij, hi⟩]
      exact .inr rfl
    · rw [if_neg fun h => hij h.1]
      refine hsettled.imp_left fun hlisted => ?_
      by_cases hb : b ∈ (w.function 0).blocks
      · rw [(listing_detached hone.toOwned hb hmem).mem_iff] at hlisted
        exact List.mem_of_ne_of_mem (Ne.symm hij) hlisted
      · rwa [listing_detached_of_not_mem hb]

theorem tidy_after (h : w.Regular) (htidy : w.Tidy 0) (hwithin : w.Along Operation.Within ops)
    (horderly : w.Along (Operation.Orderly 0) ops) : (w.after ops).Tidy 0 := by
  induction ops generalizing w with
  | nil => exact htidy
  | cons op ops ih =>
    have hstep := tidy_perform h htidy hwithin.1 horderly.1
    exact ih (regular_perform h hwithin.1) hstep hwithin.2 horderly.2

theorem settled_after (h : w.Regular) (hsettled : w.Settled 0 i)
    (hwithin : w.Along Operation.Within ops) (horderly : w.Along (Operation.Orderly 0) ops)
    (hops : w.Along (fun w op => ∀ b, ¬op.Attaches w i b) ops) : (w.after ops).Settled 0 i := by
  induction ops generalizing w with
  | nil => exact hsettled
  | cons op ops ih =>
    have hstep := settled_perform h.toOneFunction hwithin.1 horderly.1 hsettled hops.1
    exact ih (regular_perform h hwithin.1) hstep hwithin.2 horderly.2 hops.2

/-! ### Coherent runs -/

/-- A run is coherent for a function, as it stands: what the function lists is tidy, and what it
listed at some moment and does not list now has no block, unless it has been attached since. -/
structure Coherent (start : Workspace) (f : Nat) (ops : List Operation) : Prop
    extends (start.after ops).Tidy f where
  loose : ∀ earlier later, ops = earlier ++ later → ∀ i ∈ (start.after earlier).listing f,
    i ∉ (start.after ops).listing f →
    (start.after earlier).Along (fun w op => ∀ b, ¬op.Attaches w i b) later →
    ((start.after ops).instr i).block = none

theorem Coherent.suffix {front : List Operation} (h : w.Coherent f (front ++ ops)) :
    (w.after front).Coherent f ops := by
  have hafter := w.after_append front
  refine ⟨hafter ops ▸ h.toTidy, ?_⟩
  rintro earlier later rfl i hi hgone hops
  have hloose := h.loose (front ++ earlier) later (List.append_assoc ..).symm i
  rw [hafter, hafter] at hloose
  exact hloose hi hgone hops

theorem coherent_of_orderly (h : w.Regular) (htidy : w.Tidy 0)
    (hwithin : w.Along Operation.Within ops) (horderly : w.Along (Operation.Orderly 0) ops) :
    w.Coherent 0 ops where
  toTidy := tidy_after h htidy hwithin horderly
  loose := by
    rintro earlier later rfl i hlisted hgone hops
    rw [along_append] at hwithin horderly
    rw [after_append] at hgone ⊢
    have hregular := regular_after h hwithin.1
    obtain ⟨b, -, hi⟩ := mem_listing.mp hlisted
    have hsettled : (w.after earlier).Settled 0 i := ⟨hregular.placed b i hi, .inl hlisted⟩
    have hnow := settled_after hregular hsettled hwithin.2 horderly.2 hops
    exact hnow.2.resolve_left hgone

/-- An instruction that is tidy where it is listed is not attached elsewhere. -/
theorem not_mem_of_tidy_attached (h : w.OneFunction)
    (htidy : (w.attached i b position).Tidy 0) (hi : i < w.instrs.length)
    (hb : b < w.blocks.length) (hposition : position ≤ (w.block b).code.length) :
    i ∉ w.listing 0 := by
  intro hmem
  by_cases hlisted : b ∈ (w.function 0).blocks
  · have honce := htidy.once
    rw [(listing_attached h.toOwned hlisted hposition).nodup_iff] at honce
    exact (List.nodup_cons.mp honce).1 hmem
  · -- its number is now that of `b`, but another block lists it
    obtain ⟨b', hb', hi'⟩ := mem_listing.mp hmem
    have hne : b ≠ b' := by
      rintro rfl
      exact hlisted hb'
    have hagrees := htidy.agrees b' hb' i
    rw [block_attached, instr_attached, if_neg fun h => hne h.1, if_pos ⟨rfl, hi⟩] at hagrees
    have hid := Option.some.inj (hagrees hi')
    rw [h.ids b hb, h.ids b' (h.lt_blocks hb')] at hid
    exact hne hid

/-- What a removed block listed is listed no more. -/
theorem not_mem_listing_withoutBlock (h : w.OneFunction) (htidy : w.Tidy 0) {p : Nat}
    (hp : w.removable? 0 b = some p) (hi : i ∈ (w.block b).code) :
    i ∉ (w.withoutBlock 0 b p).listing 0 := by
  obtain ⟨front, back, -, -, hlist, hlist'⟩ := split_withoutBlock hp
  have hb : b ∈ (w.function 0).blocks := by simp [hlist]
  intro hmem
  obtain ⟨b', hb', hi'⟩ := mem_listing.mp hmem
  rw [block_withoutBlock] at hi'
  split_ifs at hi' with heq
  · cases hi'
  · have hold : b' ∈ (w.function 0).blocks := by
      rw [hlist, List.perm_middle.mem_iff]
      exact List.mem_cons_of_mem _ (hlist' ▸ hb')
    have hids : (w.block b).id = (w.block b').id :=
      Option.some.inj ((htidy.agrees b hb i hi).symm.trans (htidy.agrees b' hold i hi'))
    rw [h.ids b (h.lt_blocks hb), h.ids b' (h.lt_blocks hold)] at hids
    exact heq ⟨hids, h.lt_blocks hold⟩

theorem orderly_of_coherent (h : w.Regular) (hwithin : op.Within w) (htidy : w.Tidy 0)
    (hcoherent : w.Coherent 0 [op]) : op.Orderly 0 w := by
  have htidy' : (op.perform w).2.Tidy 0 := hcoherent.toTidy
  cases op with
  | appendInstr i b =>
    obtain ⟨hi, hb⟩ := hwithin.2 (i, b) rfl
    rw [Operation.perform_appendInstr] at htidy'
    exact not_mem_of_tidy_attached h.toOneFunction htidy' hi hb (Nat.le_refl _)
  | insertInstr i b position =>
    intro hoff
    obtain ⟨hi, hb⟩ := hwithin.2 (i, b) rfl
    rw [Operation.perform_insertInstr, if_neg hoff] at htidy'
    have hposition : position.toNat ≤ (w.block b).code.length := by
      unfold Operation.offRange at hoff
      omega
    exact not_mem_of_tidy_attached h.toOneFunction htidy' hi hb hposition
  | eraseInstr i b =>
    intro hmem hlisted
    by_contra hb
    rw [Operation.perform_eraseInstr, if_pos hmem] at htidy'
    -- it has lost its number, but another block lists it
    obtain ⟨b', hb', hi'⟩ := mem_listing.mp hlisted
    have hne : b ≠ b' := by
      rintro rfl
      exact hb hb'
    have hagrees := htidy'.agrees b' hb' i
    rw [block_detached, instr_detached, if_neg fun h => hne h.1,
      if_pos ⟨rfl, h.placed b' i hi'⟩] at hagrees
    cases hagrees hi'
  | removeBlock f b =>
    intro hsome
    obtain ⟨p, hp⟩ := Option.isSome_iff_exists.mp hsome
    obtain rfl := h.eq_zero (lt_of_removable? hp)
    have hb := List.mem_of_getElem? (exists_of_removable? hp).2.2
    rw [List.eq_nil_iff_forall_not_mem]
    intro i hi
    -- it keeps the number of the block, which lists it no more
    have hnone := hcoherent.loose [] [.removeBlock 0 b] rfl i (mem_listing.mpr ⟨b, hb, hi⟩)
    rw [show w.after [.removeBlock 0 b] = w.withoutBlock 0 b p from
      congrArg Prod.snd (Operation.perform_removeBlock hp)] at hnone
    have hgone := not_mem_listing_withoutBlock h.toOneFunction htidy hp hi
    have hhome : ((w.withoutBlock 0 b p).instr i).block = (w.instr i).block := instr_cleared ..
    have hblock := hnone hgone ⟨fun _ ha => (nomatch ha.1), trivial⟩
    rw [hhome, htidy.agrees b hb i hi] at hblock
    cases hblock
  | _ => exact trivial

theorem code_withFunction (title name : String) (linkage : Linkage) (b : Nat) :
    ((withFunction { name := title } name linkage).block b).code = [] := by
  rw [block_withFunction]
  split_ifs <;> rfl

theorem regular_withFunction (title name : String) (linkage : Linkage) :
    (withFunction { name := title } name linkage).Regular where
  toOneFunction := oneFunction_withFunction title name linkage
  placed b i hi := by
    rw [code_withFunction] at hi
    cases hi

theorem tidy_withFunction (title name : String) (linkage : Linkage) :
    (withFunction { name := title } name linkage).Tidy 0 where
  once := by
    rw [listing, List.flatMap_eq_nil_iff.mpr fun b _ => code_withFunction title name linkage b]
    exact List.nodup_nil
  agrees b _ i hi := by
    rw [code_withFunction] at hi
    cases hi

/-- **Ownership is coherent exactly in orderly runs.**  In the runs of one function, what is listed
is tidy at all times, and what is taken out has no block until it is attached again, exactly if
nothing is attached that is listed, nothing that is listed is erased from a block that is not, and
only blocks without code are removed. -/
theorem coherent_iff_orderly (title name : String) (linkage : Linkage) (ops : List Operation)
    (h : (made title [.newFunction name linkage]).Along Operation.Within ops) :
    (∀ done, done <+: ops → (made title [.newFunction name linkage]).Coherent 0 done) ↔
      (made title [.newFunction name linkage]).Along (Operation.Orderly 0) ops := by
  have hmade : made title [.newFunction name linkage] =
      withFunction { name := title } name linkage :=
    congrArg Prod.snd (Operation.perform_newFunction _ name linkage)
  rw [hmade] at h ⊢
  have hregular := regular_withFunction title name linkage
  have htidy := tidy_withFunction title name linkage
  constructor
  · -- a step is orderly because the run is coherent before it and after it
    intro hcoherent
    rw [along_iff]
    rintro front op back rfl
    rw [along_append] at h
    have hfront := hcoherent front (List.prefix_append ..)
    have hstep := hcoherent (front ++ [op]) (by simp)
    exact orderly_of_coherent (regular_after hregular h.1) h.2.1 hfront.toTidy hstep.suffix
  · -- a beginning of an orderly run is orderly
    rintro horderly done ⟨rest, rfl⟩
    rw [along_append] at h horderly
    exact coherent_of_orderly hregular htidy h.1 horderly.1

/-- A function with a block between entry and exit, and an instruction in it. -/
def sampleStart : List Operation :=
  [.newBlock 0 none "b", .newInstr .ret (some 2), .newInstr .bar (some 2), .appendInstr 0 2]

/-- Two instructions are put into a block, one of them is moved to the entry by way of an erasure,
and the block is removed once it is empty. -/
def sampleRun : List Operation :=
  sampleStart ++ [.insertInstr 1 2 0, .eraseInstr 0 2, .appendInstr 0 0, .eraseInstr 1 2,
    .removeBlock 0 2]

theorem coherent_sampleRun :
    (made "m" [.newFunction "k" .external]).Along Operation.Within sampleRun ∧
      ∀ done, done <+: sampleRun → (made "m" [.newFunction "k" .external]).Coherent 0 done := by
  have hwithin : (made "m" [.newFunction "k" .external]).Along Operation.Within sampleRun := by
    decide +kernel
  refine ⟨hwithin, (coherent_iff_orderly "m" "k" .external sampleRun hwithin).mpr ?_⟩
  decide +kernel

/-- A block that is removed with its code leaves its number to what it listed; and what is attached
a second time is listed twice. -/
theorem not_coherent_sampleStart :
    ((made "m" [.newFunction "k" .external]).Along Operation.Within
        (sampleStart ++ [.removeBlock 0 2]) ∧
      ¬(made "m" [.newFunction "k" .external]).Coherent 0 (sampleStart ++ [.removeBlock 0 2])) ∧
    (made "m" [.newFunction "k" .external]).Along Operation.Within
        (sampleStart ++ [.appendInstr 0 0]) ∧
      ¬(made "m" [.newFunction "k" .external]).Coherent 0 (sampleStart ++ [.appendInstr 0 0]) := by
  refine ⟨⟨by decide +kernel, fun h => ?_⟩, by decide +kernel, fun h => ?_⟩
  · have hnone := h.loose sampleStart [.removeBlock 0 2] rfl 0 (by decide +kernel)
      (by decide +kernel) ⟨fun _ ha => (nomatch ha.1), trivial⟩
    exact absurd hnone (by decide +kernel)
  · exact absurd h.once (by decide +kernel)

end Workspace

end KernelIR.Virtual
