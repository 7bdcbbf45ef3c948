import KernelIR.Proofs.Virtual.Layout

/-!
# The blocks of a function

A function is made with an entry and an exit, and its list of blocks is edited in between.
`blockList_of_run`: in every run, whatever else is done to the workspace,

* the list is `InOrder`: the entry stands first and the exit last, the numbers of the blocks are
  distinct and below the counter of the function, and the blocks are those that it owns;
* it is edited as its `Edits` say: a new block stands right before the block that it was made for, and
  the blocks that can be removed are the listed ones other than entry and exit;
* it `Foresees` all later operations: numbers are not used again, the blocks that stay keep their
  order, and a removed block has neither owner nor code.

All rests on `list_cases`, which says what one operation can do to the list of a function.
-/

namespace KernelIR.Virtual

namespace Workspace

variable {w w' : Workspace} {f b p : Nat} {before : Option Nat}

/-! ### The list of one function -/

/-- **What an operation does to the list of a function**: it leaves it alone, puts a new block
between two neighbours, numbered by the counter, or takes out a block that has neighbours on both
sides, and its code with it. -/
theorem list_cases (hf : f < w.functions.length) (op : Operation) :
    (((op.perform w).2.function f).blocks = (w.function f).blocks ∧
      ((op.perform w).2.function f).nextBlock = (w.function f).nextBlock) ∨
    (∃ front q back, front ≠ [] ∧ (w.function f).blocks = front ++ q :: back ∧
      ((op.perform w).2.function f).blocks = front ++ w.blocks.length :: q :: back ∧
      ((op.perform w).2.function f).nextBlock = (w.function f).nextBlock + 1 ∧
      ((op.perform w).2.block w.blocks.length).id = (w.function f).nextBlock) ∨
    ∃ front b back, front ≠ [] ∧ back ≠ [] ∧ (w.function f).blocks = front ++ b :: back ∧
      ((op.perform w).2.function f).blocks = front ++ back ∧
      ((op.perform w).2.function f).nextBlock = (w.function f).nextBlock ∧
      (b < w.blocks.length → ((op.perform w).2.block b).code = []) := by
  obtain hsame | ⟨name, linkage, hw⟩ | ⟨g, before, name, p, hp, hw⟩ | ⟨g, b, p, hp, hw⟩ :=
    w.layout_cases op
  · exact .inl ⟨hsame.lists f, hsame.next f⟩
  · -- a new function is none of the old ones
    rw [hw, function_withFunction, if_neg (Nat.ne_of_lt hf)]
    exact .inl ⟨rfl, rfl⟩
  · rw [hw]
    -- an edit of another function leaves this list alone
    by_cases hg : f = g
    · subst hg
      obtain ⟨front, q, back, hfront, hlist, hlist'⟩ := split_withBlock hp name
      refine .inr (.inl ⟨front, q, back, hfront, hlist, hlist', ?_, ?_⟩)
      · rw [function_withBlock hf]
      · rw [block_withBlock, if_pos rfl]
    · rw [function_withBlock_of_ne hg]
      exact .inl ⟨rfl, rfl⟩
  · rw [hw]
    by_cases hg : f = g
    · subst hg
      obtain ⟨front, back, hfront, hback, hlist, hlist'⟩ := split_withoutBlock hp
      refine .inr (.inr ⟨front, b, back, hfront, hback, hlist, hlist', ?_, ?_⟩)
      · rw [function_withoutBlock, if_pos ⟨rfl, hf⟩]
      · intro hlt
        rw [block_withoutBlock, if_pos ⟨rfl, hlt⟩]
    · rw [function_withoutBlock_of_ne hg]
      exact .inl ⟨rfl, rfl⟩

/-- Nothing is lost from `w` to `w'`, blocks keep their numbers, and a block keeps its owner or has
none. -/
structure Grows (w w' : Workspace) : Prop where
  functions : w.functions.length ≤ w'.functions.length
  blocks : w.blocks.length ≤ w'.blocks.length
  ids : ∀ b < w.blocks.length, (w'.block b).id = (w.block b).id
  owners : ∀ b < w.blocks.length,
    (w'.block b).owner = (w.block b).owner ∨ (w'.block b).owner = none

theorem grows_perform (w : Workspace) (op : Operation) : w.Grows (op.perform w).2 := by
  obtain hsame | ⟨name, linkage, hw⟩ | ⟨f, before, name, p, hp, hw⟩ | ⟨f, b, p, hp, hw⟩ :=
    w.layout_cases op
  · exact ⟨Nat.le_of_eq hsame.functions.symm, Nat.le_of_eq hsame.blocks.symm, fun b _ => hsame.ids b,
      fun b _ => .inl (hsame.owners b)⟩
  · have hold : ∀ b < w.blocks.length, (w.withFunction name linkage).block b = w.block b := by
      intro b hb
      rw [block_withFunction, if_neg (by omega), if_neg (by omega)]
    rw [hw]
    refine ⟨by simp [withFunction], by simp [withFunction], ?_, ?_⟩ <;> grind
  · have hold : ∀ b < w.blocks.length, (w.withBlock f p name).block b = w.block b := by
      intro b hb
      rw [block_withBlock, if_neg (Nat.ne_of_lt hb)]
    rw [hw]
    have hlength : w.blocks.length ≤ (w.withBlock f p name).blocks.length := by
      rw [length_blocks_withBlock]
      omega
    refine ⟨Nat.le_of_eq length_functions_withBlock.symm, hlength, ?_, ?_⟩ <;> grind
  · rw [hw]
    refine ⟨Nat.le_of_eq length_functions_withoutBlock.symm,
      Nat.le_of_eq length_blocks_withoutBlock.symm, ?_, ?_⟩
    · intro b' _
      rw [block_withoutBlock]
      split_ifs <;> rfl
    · intro b' _
      rw [block_withoutBlock]
      split_ifs
      · -- a removed block is left without an owner
        exact .inr rfl
      · exact .inl rfl

/-- How the list of a function goes on from `w` to `w'`: of the blocks of `w` it lists some, in the
old order, and the others are numbered from the counter on. -/
structure Continues (w w' : Workspace) (f : Nat) : Prop extends w.Grows w' where
  next : (w.function f).nextBlock ≤ (w'.function f).nextBlock
  order : ((w'.function f).blocks.filter (· < w.blocks.length)).Sublist (w.function f).blocks
  fresh : ∀ b ∈ (w'.function f).blocks,
    b < w.blocks.length ∨ (w.function f).nextBlock ≤ (w'.block b).id

theorem Continues.mem (h : w.Continues w' f) (hb : b ∈ (w'.function f).blocks)
    (hlt : b < w.blocks.length) : b ∈ (w.function f).blocks :=
  h.order.subset (List.mem_filter.mpr ⟨hb, decide_eq_true hlt⟩)

theorem continues_refl (h : w.Owned) (f : Nat) : w.Continues w f where
  functions := Nat.le_refl _
  blocks := Nat.le_refl _
  ids _ _ := rfl
  owners _ _ := .inl rfl
  next := Nat.le_refl _
  order := List.filter_sublist
  fresh _ hb := .inl (h.lt_blocks hb)

theorem Continues.trans {w₁ w₂ : Workspace} (h : w.Continues w₁ f) (h' : w₁.Continues w₂ f) :
    w.Continues w₂ f where
  functions := Nat.le_trans h.functions h'.functions
  blocks := Nat.le_trans h.blocks h'.blocks
  ids b hb := (h'.ids b (Nat.lt_of_lt_of_le hb h.blocks)).trans (h.ids b hb)
  owners b hb := by
    have hold := h.owners b hb
    have hnew := h'.owners b (Nat.lt_of_lt_of_le hb h.blocks)
    grind
  next := Nat.le_trans h.next h'.next
  order := by
    -- what is left of `w` in the end is what was left of `w` half-way
    have hhalf : (w₂.function f).blocks.filter (· < w.blocks.length) =
        ((w₂.function f).blocks.filter (· < w₁.blocks.length)).filter (· < w.blocks.length) := by
      have hblocks := h.blocks
      rw [List.filter_filter]
      refine List.filter_congr fun b _ => ?_
      grind
    rw [hhalf]
    exact (h'.order.filter _).trans h.order
  fresh b hb := by
    rcases h'.fresh b hb with hlt | hid
    · have hhalf := h.fresh b (h'.mem hb hlt)
      rwa [← h'.ids b hlt] at hhalf
    · exact .inr (Nat.le_trans h.next hid)

theorem continues_perform (h : w.Owned) (hf : f < w.functions.length) (op : Operation) :
    w.Continues (op.perform w).2 f := by
  have hgrows := w.grows_perform op
  have hlt : ∀ b ∈ (w.function f).blocks, b < w.blocks.length := fun b hb => h.lt_blocks hb
  obtain ⟨hlist', hnext⟩ | ⟨front, q, back, -, hlist, hlist', hnext, hid⟩ |
    ⟨front, b, back, -, -, hlist, hlist', hnext, -⟩ := list_cases hf op
  · -- the list is what it was
    refine ⟨hgrows, Nat.le_of_eq hnext.symm, ?_, ?_⟩
    · rw [hlist']
      exact List.filter_sublist
    · rw [hlist']
      exact fun b hb => .inl (hlt b hb)
  · refine ⟨hgrows, by omega, ?_, ?_⟩
    · -- the new block is the only one that the filter drops
      have hfilter : (front ++ w.blocks.length :: q :: back).filter (· < w.blocks.length) =
          (front ++ q :: back).filter (· < w.blocks.length) := by
        simp [List.filter_append]
      rw [hlist', hfilter, ← hlist]
      exact List.filter_sublist
    · intro b hb
      rw [hlist', List.perm_middle.mem_iff, ← hlist] at hb
      rcases List.mem_cons.mp hb with rfl | hb
      · exact .inr (Nat.le_of_eq hid.symm)
      · exact .inl (hlt b hb)
  · refine ⟨hgrows, Nat.le_of_eq hnext.symm, ?_, ?_⟩
    · rw [hlist', hlist]
      refine List.filter_sublist.trans ?_
      exact List.Sublist.append_left (List.sublist_cons_self ..) _
    · intro b' hb'
      have hold : b' ∈ (w.function f).blocks := by
        rw [hlist, List.perm_middle.mem_iff]
        exact List.mem_cons_of_mem _ (hlist' ▸ hb')
      exact .inl (hlt b' hold)

/-- **How the list of a function goes on in a run.** -/
theorem continues_after (h : w.Owned) (hf : f < w.functions.length) (ops : List Operation) :
    w.Continues (w.after ops) f := by
  induction ops generalizing w with
  | nil => exact continues_refl h f
  | cons op ops ih =>
    have hstep := continues_perform h hf op
    have hf' := Nat.lt_of_lt_of_le hf hstep.functions
    exact hstep.trans (ih (owned_perform h op) hf')

/-! ### Entry and exit -/

/-- The list of a function is in order: it starts with the entry, numbered zero, and ends with the
exit, numbered one; the numbers of its blocks are distinct and below the counter; and the listed
blocks are those that the function owns. -/
structure InOrder (w : Workspace) (f entry exit : Nat) : Prop where
  first : (w.function f).blocks.head? = some entry
  last : (w.function f).blocks.getLast? = some exit
  firstId : (w.block entry).id = 0
  lastId : (w.block exit).id = 1
  distinct : ((w.function f).blocks.map fun b => (w.block b).id).Nodup
  below : ∀ b ∈ (w.function f).blocks, (w.block b).id < (w.function f).nextBlock
  owned : ∀ b, b ∈ (w.function f).blocks ↔ (w.block b).owner = some f

theorem inOrder_withFunction (h : w.Owned) (name : String) (linkage : Linkage) :
    (w.withFunction name linkage).InOrder w.functions.length w.blocks.length
      (w.blocks.length + 1) := by
  have hfunction := w.function_withFunction name linkage w.functions.length
  rw [if_pos rfl] at hfunction
  have hentry := w.block_withFunction name linkage w.blocks.length
  have hexit := w.block_withFunction name linkage (w.blocks.length + 1)
  rw [if_neg (by omega), if_pos rfl] at hentry
  rw [if_pos rfl] at hexit
  constructor
  case owned => exact (h.withFunction name linkage).owner _
  all_goals simp [hfunction, hentry, hexit]

theorem InOrder.lt_functions {entry exit : Nat} (h : w.InOrder f entry exit) :
    f < w.functions.length :=
  lt_functions_of_mem (List.mem_of_head? h.first)

theorem ends_perform (hf : f < w.functions.length) (op : Operation) :
    ((op.perform w).2.function f).blocks.head? = (w.function f).blocks.head? ∧
      ((op.perform w).2.function f).blocks.getLast? = (w.function f).blocks.getLast? := by
  obtain ⟨hlist', -⟩ | ⟨front, q, back, hfront, hlist, hlist', -⟩ |
    ⟨front, b, back, hfront, hback, hlist, hlist', -⟩ := list_cases hf op
  · rw [hlist']
    exact ⟨rfl, rfl⟩
  · rw [hlist, hlist', List.head?_append_of_ne_nil _ hfront, List.head?_append_of_ne_nil _ hfront]
    simp [List.getLast?_append]
  · obtain ⟨x, back, rfl⟩ := List.exists_cons_of_ne_nil hback
    rw [hlist, hlist', List.head?_append_of_ne_nil _ hfront, List.head?_append_of_ne_nil _ hfront]
    simp [List.getLast?_append]

/-- The numbers stay distinct and below the counter, for a new block takes the number of the counter
and moves it on. -/
theorem numbers_perform (howned : w.Owned) (hf : f < w.functions.length) (op : Operation)
    (hdistinct : ((w.function f).blocks.map fun b => (w.block b).id).Nodup)
    (hbelow : ∀ b ∈ (w.function f).blocks, (w.block b).id < (w.function f).nextBlock) :
    (((op.perform w).2.function f).blocks.map fun b => ((op.perform w).2.block b).id).Nodup ∧
      ∀ b ∈ ((op.perform w).2.function f).blocks,
        ((op.perform w).2.block b).id < ((op.perform w).2.function f).nextBlock := by
  -- a block keeps its number, so the facts about the old list hold after the step too
  have hids : ∀ b ∈ (w.function f).blocks, ((op.perform w).2.block b).id = (w.block b).id :=
    fun b hb => (w.grows_perform op).ids b (howned.lt_blocks hb)
  have hdistinct' : ((w.function f).blocks.map fun b => ((op.perform w).2.block b).id).Nodup := by
    rwa [List.map_congr_left hids]
  have hbelow' : ∀ b ∈ (w.function f).blocks,
      ((op.perform w).2.block b).id < (w.function f).nextBlock := by
    intro b hb
    rw [hids b hb]
    exact hbelow b hb
  obtain ⟨hlist', hnext⟩ | ⟨front, q, back, -, hlist, hlist', hnext, hid⟩ |
    ⟨front, b, back, -, -, hlist, hlist', hnext, -⟩ := list_cases hf op
  · rw [hlist', hnext]
    exact ⟨hdistinct', hbelow'⟩
  · have hperm : ((op.perform w).2.function f).blocks.Perm
        (w.blocks.length :: (w.function f).blocks) := by
      rw [hlist, hlist']
      exact List.perm_middle
    constructor
    · -- all old numbers are below the counter, which is the new one
      rw [(hperm.map _).nodup_iff, List.map_cons, List.nodup_cons, hid]
      refine ⟨?_, hdistinct'⟩
      intro hmem
      obtain ⟨b, hb, hbid⟩ := List.mem_map.mp hmem
      exact Nat.ne_of_lt (hbelow' b hb) hbid
    · intro b hb
      rcases List.mem_cons.mp (hperm.mem_iff.mp hb) with rfl | hb
      · omega
      · have hold := hbelow' b hb
        omega
  · -- removal takes one block out of the list
    have hsublist : ((op.perform w).2.function f).blocks.Sublist (w.function f).blocks := by
      rw [hlist, hlist']
      exact List.Sublist.append_left (List.sublist_cons_self ..) _
    refine ⟨(hsublist.map _).nodup hdistinct', ?_⟩
    intro b' hb'
    rw [hnext]
    exact hbelow' b' (hsublist.subset hb')

theorem inOrder_perform {entry exit : Nat} (h : w.InOrder f entry exit) (howned : w.Owned)
    (op : Operation) : (op.perform w).2.InOrder f entry exit := by
  have hids := (w.grows_perform op).ids
  obtain ⟨hfirst, hlast⟩ := ends_perform h.lt_functions op
  obtain ⟨hdistinct, hbelow⟩ := numbers_perform howned h.lt_functions op h.distinct h.below
  exact
    { first := hfirst.trans h.first
      last := hlast.trans h.last
      firstId := (hids entry (howned.lt_blocks (List.mem_of_head? h.first))).trans h.firstId
      lastId := (hids exit (howned.lt_blocks (List.mem_of_getLast? h.last))).trans h.lastId
      distinct := hdistinct
      below := hbelow
      owned := (owned_perform howned op).owner f }

theorem inOrder_after {entry exit : Nat} (h : w.InOrder f entry exit) (howned : w.Owned)
    (ops : List Operation) : (w.after ops).InOrder f entry exit := by
  induction ops generalizing w with
  | nil => exact h
  | cons op ops ih => exact ih (inOrder_perform h howned op) (owned_perform howned op)

/-! ### Making and removing blocks in order -/

section Edits

variable {entry exit : Nat}

theorem InOrder.nodup (h : w.InOrder f entry exit) : (w.function f).blocks.Nodup :=
  List.Nodup.of_map _ h.distinct

theorem InOrder.first_iff (h : w.InOrder f entry exit)
    (hp : (w.function f).blocks[p]? = some b) : p = 0 ↔ b = entry := by
  have hfirst := h.first
  rw [List.head?_eq_getElem?] at hfirst
  constructor
  · rintro rfl
    exact Option.some.inj (hp.symm.trans hfirst)
  · rintro rfl
    have hlt := (List.getElem?_eq_some_iff.mp hp).1
    exact (List.getElem?_inj hlt h.nodup).mp (hp.trans hfirst.symm)

theorem InOrder.last_iff (h : w.InOrder f entry exit)
    (hp : (w.function f).blocks[p]? = some b) :
    p + 1 = (w.function f).blocks.length ↔ b = exit := by
  have hlast := h.last
  rw [List.getLast?_eq_getElem?] at hlast
  have hlt := (List.getElem?_eq_some_iff.mp hp).1
  constructor
  · intro hlength
    rw [← hlength, Nat.add_sub_cancel] at hlast
    exact Option.some.inj (hp.symm.trans hlast)
  · rintro rfl
    have hplace := (List.getElem?_inj hlt h.nodup).mp (hp.trans hlast.symm)
    omega

theorem InOrder.getElem?_wanted (h : w.InOrder f entry exit) (hp : w.wanted? f before = some p) :
    (w.function f).blocks[p]? = some (before.getD exit) := by
  cases before with
  | none =>
    obtain rfl := Option.some.inj hp
    rw [← List.getLast?_eq_getElem?]
    exact h.last
  | some b => exact getElem?_of_idxOf? hp

theorem InOrder.position?_eq_none_iff (h : w.InOrder f entry exit) (before : Option Nat) :
    w.position? f before = none ↔
      ¬(before.getD exit ∈ (w.function f).blocks ∧ before.getD exit ≠ entry) := by
  cases hwanted : w.wanted? f before with
  | none =>
    have hforeign : before.getD exit ∉ (w.function f).blocks := by
      cases before with
      | none => cases hwanted
      | some b => exact List.idxOf?_eq_none_iff.mp hwanted
    simp [position?, hwanted, hforeign]
  | some p =>
    have hp := h.getElem?_wanted hwanted
    simp [position?, hwanted, List.mem_of_getElem? hp, h.first_iff hp]

theorem InOrder.removable?_eq_none_iff (h : w.InOrder f entry exit) (b : Nat) :
    w.removable? f b = none ↔ ¬(b ∈ (w.function f).blocks ∧ b ≠ entry ∧ b ≠ exit) := by
  cases hidx : (w.function f).blocks.idxOf? b with
  | none => simp [removable?, hidx, List.idxOf?_eq_none_iff.mp hidx]
  | some p =>
    have hp := getElem?_of_idxOf? hidx
    simp [removable?, hidx, List.mem_of_getElem? hp, h.first_iff hp, h.last_iff hp]

/-- The block before which a new one is made is the one that was asked for. -/
theorem InOrder.blocks_withBlock (h : w.InOrder f entry exit)
    (hp : w.position? f before = some p) (name : String) :
    ∃ front back, (w.function f).blocks = front ++ before.getD exit :: back ∧
      ((w.withBlock f p name).function f).blocks =
        front ++ w.blocks.length :: before.getD exit :: back := by
  have hwanted := (Option.filter_eq_some_iff.mp hp).1
  obtain ⟨front, back, hlist, -, hinsert, -⟩ := exists_split (h.getElem?_wanted hwanted)
  refine ⟨front, back, hlist, ?_⟩
  rw [function_withBlock h.lt_functions]
  exact hinsert _

theorem InOrder.blocks_withoutBlock (h : w.InOrder f entry exit)
    (hp : w.removable? f b = some p) :
    ((w.withoutBlock f b p).function f).blocks = (w.function f).blocks.erase b := by
  obtain ⟨front, back, -, -, hlist, hlist'⟩ := split_withoutBlock hp
  have hfront : b ∉ front := by
    have hnodup := h.nodup
    rw [hlist] at hnodup
    intro hmem
    exact List.disjoint_of_nodup_append hnodup hmem List.mem_cons_self
  rw [hlist', hlist, List.erase_append_right _ hfront, List.erase_cons_head]

/-- How a function is edited: a block is made right before the one that it is asked to precede,
which is the exit unless another is given, and refused if that one is not listed or is the entry;
and the blocks that it gives up are the listed ones other than entry and exit. -/
structure Edits (w : Workspace) (f entry exit : Nat) : Prop where
  makes : ∀ before name, before.getD exit ∈ (w.function f).blocks → before.getD exit ≠ entry →
    (Operation.perform w (.newBlock f before name)).1 = .ok (.place w.blocks.length) ∧
    (Operation.perform w (.newBlock f before name)).2.block w.blocks.length =
      { id := (w.function f).nextBlock, name, owner := some f } ∧
    ∃ front back, (w.function f).blocks = front ++ before.getD exit :: back ∧
      ((Operation.perform w (.newBlock f before name)).2.function f).blocks =
        front ++ w.blocks.length :: before.getD exit :: back
  refuses : ∀ before name, before.getD exit ∉ (w.function f).blocks ∨ before.getD exit = entry →
    ∃ d, Operation.perform w (.newBlock f before name) = (.error d, w)
  removes : ∀ b,
    (Operation.perform w (.removeBlock f b)).1 =
      .ok (.flag (decide (b ∈ (w.function f).blocks ∧ b ≠ entry ∧ b ≠ exit))) ∧
    ((Operation.perform w (.removeBlock f b)).2.function f).blocks =
      if b ∈ (w.function f).blocks ∧ b ≠ entry ∧ b ≠ exit then (w.function f).blocks.erase b
      else (w.function f).blocks

theorem InOrder.edits (h : w.InOrder f entry exit) : w.Edits f entry exit where
  makes before name hmem hne := by
    have hsome : w.position? f before ≠ none := by
      rw [ne_eq, h.position?_eq_none_iff]
      exact not_not_intro ⟨hmem, hne⟩
    obtain ⟨p, hp⟩ := Option.ne_none_iff_exists'.mp hsome
    rw [Operation.perform_newBlock name hp]
    refine ⟨rfl, ?_, h.blocks_withBlock hp name⟩
    rw [block_withBlock, if_pos rfl]
  refuses before name hrefused := by
    refine Operation.perform_newBlock_of_none name ?_
    rw [h.position?_eq_none_iff]
    grind
  removes b := by
    have hiff := h.removable?_eq_none_iff b
    -- the answer says whether the block has been there to remove
    cases hp : w.removable? f b with
    | none =>
      have hkept := hiff.mp hp
      rw [Operation.perform_removeBlock_of_none hp, decide_eq_false hkept, if_neg hkept]
      exact ⟨rfl, rfl⟩
    | some p =>
      have hgone : b ∈ (w.function f).blocks ∧ b ≠ entry ∧ b ≠ exit := by
        by_contra hkept
        rw [hiff.mpr hkept] at hp
        cases hp
      rw [Operation.perform_removeBlock hp, decide_eq_true hgone, if_pos hgone]
      exact ⟨rfl, h.blocks_withoutBlock hp⟩

end Edits

/-! ### Blocks that are given up -/

/-- A block without code has none until something is put into it. -/
theorem code_perform {op : Operation} (hcode : (w.block b).code = [])
    (hop : ∀ i, op.attachment? ≠ some (i, b)) : ((op.perform w).2.block b).code = [] := by
  have hmove := w.move_perform op
  generalize (op.perform w).2 = w' at hmove ⊢
  cases hmove with
  | quiet h =>
    rw [block, h.blocks]
    exact hcode
  | function name linkage => grind [block_withFunction]
  | block h name => grind [block_withBlock]
  | removal h => grind [block_withoutBlock]
  | @attachment _ i b' position h _ =>
    -- attaching to this block is excluded
    have hne : b' ≠ b := by
      rintro rfl
      exact hop i h.1
    rw [block_attached, if_neg fun h => hne h.1]
    exact hcode
  | @erasure i b' =>
    rw [block_detached]
    split_ifs
    · exact congrArg (List.erase · i) hcode
    · exact hcode

theorem code_after {ops : List Operation} (hcode : (w.block b).code = [])
    (hops : ∀ op ∈ ops, ∀ i, op.attachment? ≠ some (i, b)) : ((w.after ops).block b).code = [] := by
  induction ops generalizing w with
  | nil => exact hcode
  | cons op ops ih =>
    rw [List.forall_mem_cons] at hops
    exact ih (code_perform hcode hops.1) hops.2

/-- A block that leaves the list of a function leaves its code behind. -/
theorem code_of_unlisted (h : w.Owned) {op : Operation} (hb : b ∈ (w.function f).blocks)
    (hb' : b ∉ ((op.perform w).2.function f).blocks) : ((op.perform w).2.block b).code = [] := by
  obtain ⟨hlist', -⟩ | ⟨front, q, back, -, hlist, hlist', -⟩ |
    ⟨front, x, back, -, -, hlist, hlist', -, hcode⟩ := list_cases (lt_functions_of_mem hb) op
  · exact absurd (hlist' ▸ hb) hb'
  · refine absurd ?_ hb'
    rw [hlist', List.perm_middle.mem_iff, ← hlist]
    exact List.mem_cons_of_mem _ hb
  · rw [hlist'] at hb'
    have hlt := h.lt_blocks hb
    rw [hlist, List.perm_middle.mem_iff, List.mem_cons] at hb
    obtain rfl := hb.resolve_right hb'
    exact hcode hlt

theorem code_of_unlisted_after (h : w.Owned) {ops : List Operation}
    (hb : b ∈ (w.function f).blocks) (hb' : b ∉ ((w.after ops).function f).blocks)
    (hops : ∀ op ∈ ops, ∀ i, op.attachment? ≠ some (i, b)) : ((w.after ops).block b).code = [] := by
  induction ops generalizing w with
  | nil => exact absurd hb hb'
  | cons op ops ih =>
    rw [List.forall_mem_cons] at hops
    -- it goes with this operation or with a later one
    by_cases hstay : b ∈ ((op.perform w).2.function f).blocks
    · exact ih (owned_perform h op) hstay hb' hops.2
    · show (((op.perform w).2.after ops).block b).code = []
      exact code_after (code_of_unlisted h hb hstay) hops.2

/-! ### Every function -/

/-- What the blocks that a function lists have to expect of later operations: a block keeps its
number, which no other block gets; the blocks that stay keep their order; and a block that goes has
no owner, and no code unless some is put into it. -/
structure Foresees (w : Workspace) (f : Nat) (later : List Operation) : Prop where
  ids : ∀ b ∈ (w.function f).blocks, ((w.after later).block b).id = (w.block b).id
  below : ∀ b ∈ (w.function f).blocks, (w.block b).id < ((w.after later).function f).nextBlock
  unique : ∀ b ∈ (w.function f).blocks, ∀ b' ∈ ((w.after later).function f).blocks,
    ((w.after later).block b').id = (w.block b).id → b' = b
  order : (((w.after later).function f).blocks.filter (· ∈ (w.function f).blocks)).Sublist
    (w.function f).blocks
  orphaned : ∀ b ∈ (w.function f).blocks, b ∉ ((w.after later).function f).blocks →
    ((w.after later).block b).owner = none
  emptied : ∀ b ∈ (w.function f).blocks, b ∉ ((w.after later).function f).blocks →
    (∀ op ∈ later, ∀ i, op.attachment? ≠ some (i, b)) → ((w.after later).block b).code = []

theorem InOrder.foresees {entry exit : Nat} (h : w.InOrder f entry exit) (howned : w.Owned)
    (later : List Operation) : w.Foresees f later := by
  have howned' := owned_after howned later
  have hlater := continues_after howned h.lt_functions later
  have hlt : ∀ b ∈ (w.function f).blocks, b < w.blocks.length := fun b hb => howned.lt_blocks hb
  constructor
  case ids => exact fun b hb => hlater.ids b (hlt b hb)
  case below => exact fun b hb => Nat.lt_of_lt_of_le (h.below b hb) hlater.next
  case unique =>
    intro b hb b' hb' hid
    -- a block of the later list is an old one or has a number from the counter on
    rcases hlater.fresh b' hb' with hold | hnew
    · rw [hlater.ids b' hold] at hid
      exact List.inj_on_of_nodup_map h.distinct (hlater.mem hb' hold) hb hid
    · have hold := h.below b hb
      omega
  case order =>
    refine List.Sublist.trans ?_ hlater.order
    refine List.monotone_filter_right _ fun b hb => ?_
    exact decide_eq_true (hlt b (of_decide_eq_true hb))
  case orphaned =>
    intro b hb hb'
    -- a block that keeps its owner is still listed by it
    rcases hlater.owners b (hlt b hb) with hsame | hnone
    · rw [(howned.owner f b).mp hb] at hsame
      exact absurd ((howned'.owner f b).mpr hsame) hb'
    · exact hnone
  case emptied => exact fun b hb hb' hops => code_of_unlisted_after howned hb hb' hops

/-- **The blocks of a function in every run.**  Whatever is done before a function is made, with it
and with all others afterwards: its list is in order, is edited as it should be, and foresees what
all later operations do to it. -/
theorem blockList_of_run (title : String) (earlier : List Operation) (name : String)
    (linkage : Linkage) (ops : List Operation) :
    let start := made title earlier
    let born := Operation.perform start (.newFunction name linkage)
    let f := start.functions.length
    let entry := start.blocks.length
    let exit := start.blocks.length + 1
    born.1 = .ok (.place f) ∧ (born.2.after ops).InOrder f entry exit ∧
      (born.2.after ops).Edits f entry exit ∧ ∀ later, (born.2.after ops).Foresees f later := by
  intro start born f entry exit
  have hstart : start.Owned := owned_after (owned_empty title) earlier
  -- the function is born in order, and every operation keeps the order
  have hborn : born = (.ok (.place f), start.withFunction name linkage) :=
    Operation.perform_newFunction start name linkage
  have howned : born.2.Owned := owned_perform hstart _
  have horder : born.2.InOrder f entry exit := by
    rw [hborn]
    exact inOrder_withFunction hstart name linkage
  have horder' := inOrder_after horder howned ops
  refine ⟨by rw [hborn], horder', horder'.edits, ?_⟩
  exact fun later => horder'.foresees (owned_after howned ops) later

end Workspace

end KernelIR.Virtual
