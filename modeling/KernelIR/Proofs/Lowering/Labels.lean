import KernelIR.Proofs.Lowering.Acceptance
import KernelIR.Proofs.Lowering.Classified
import KernelIR.Proofs.Lowering.Naming
import Mathlib.Data.List.NodupEquivFin

/-!
# Labels of blocks

A block without a label is named after its number.  Nothing keeps these names for such blocks: a
label of the form `$BB3` may be given to any block, and where it is given and block three has none,
both have it.  `redeclares_iff_clash`: where the labels that a description gives are different, and
none is that of the entry or the exit, this is the only way in which two blocks can get one label,
and the only reason for which lowering says that a block is declared twice.

The labels of a loaded kernel are those that the blocks get when they are added one after the other
(`KernelDescription.map_label_of_load`).  Among these a label occurs twice exactly if it clashes
(`duplicate_labelled_iff`).  On the other side, only the declaration of blocks can report such a
label: what parameters, registers and code can fail with are other causes.
-/

namespace KernelIR

/-! ### The labels that blocks get -/

namespace Source

namespace Graph

/-- The labels that blocks get which are added in order with the given ones. -/
def labelled (labels : List String) : List String :=
  labels.mapIdx fun i label => blockLabel label i

theorem labelled_concat (labels : List String) (label : String) :
    labelled (labels ++ [label]) = labelled labels ++ [blockLabel label labels.length] :=
  List.mapIdx_concat

theorem blockLabel_empty (index : Nat) : blockLabel "" index = "$BB" ++ Text.decimal (index + 2) :=
  if_pos rfl

theorem blockLabel_of_ne {label : String} (h : label ≠ "") (index : Nat) :
    blockLabel label index = label :=
  if_neg h

theorem map_label_addBlock (g : Graph) (label : String) :
    (g.addBlock label).blocks.map Block.label =
      g.blocks.map Block.label ++ [blockLabel label g.blocks.length] := by
  rw [addBlock, List.map_append]
  rfl

theorem map_label_addInstruction (g : Graph) (index : Nat) (i : Instruction) :
    (g.addInstruction index i).blocks.map Block.label = g.blocks.map Block.label := by
  refine List.ext_getElem? fun j => ?_
  rw [addInstruction, List.getElem?_map, List.getElem?_modify, List.getElem?_map]
  by_cases hj : index = j <;> cases g.blocks[j]? <;> simp [hj]

/-- One more block gets its label. -/
theorem map_label_addBlock_of_labelled {g : Graph} {labels : List String}
    (h : g.blocks.map Block.label = labelled labels) (label : String) :
    (g.addBlock label).blocks.map Block.label = labelled (labels ++ [label]) := by
  have hlength : g.blocks.length = labels.length := by
    rw [← List.length_map Block.label, h, labelled, List.length_mapIdx]
  rw [map_label_addBlock, h, hlength, labelled_concat]

/-- **Blocks that are added in order get these labels.** -/
theorem map_label_addBlocks (labels : List String) :
    (labels.foldl addBlock {}).blocks.map Block.label = labelled labels := by
  induction labels using List.reverseRecOn with
  | nil => rfl
  | append_singleton labels label ih =>
    rw [List.foldl_append]
    exact map_label_addBlock_of_labelled ih label

/-- **A label is given twice exactly if it is that of a block which has none and of one which has
it**, where the labels that there are are different. -/
theorem duplicate_labelled_iff {labels : List String} (h : (labels.filter (· ≠ "")).Nodup)
    (label : String) :
    (labelled labels).Duplicate label ↔
      label ∈ labels ∧ ∃ i, labels[i]? = some "" ∧ label = "$BB" ++ Text.decimal (i + 2) := by
  have hget : ∀ (i : Nat) (hi : i < (labelled labels).length) (hi' : i < labels.length),
      (labelled labels)[i] = blockLabel labels[i] i :=
    fun _ _ _ => List.getElem_mapIdx
  have hlength : (labelled labels).length = labels.length := List.length_mapIdx
  rw [List.duplicate_iff_exists_distinct_get]
  constructor
  · rintro ⟨⟨i, hi⟩, ⟨j, hj⟩, hij, hli, hlj⟩
    have hij : i < j := hij
    rw [List.get_eq_getElem, hget i hi (by omega)] at hli
    rw [List.get_eq_getElem, hget j hj (by omega)] at hlj
    -- a label is written or made from the place, so a repetition pairs one of each
    by_cases hempty : labels[i] = "" <;> by_cases hempty' : labels[j] = ""
    · -- two blocks without a label have different numbers
      rw [hempty, blockLabel_empty] at hli
      rw [hempty', blockLabel_empty] at hlj
      have := Lowering.stem_decimal_inj (hli.symm.trans hlj)
      omega
    · rw [blockLabel_of_ne hempty'] at hlj
      rw [hempty, blockLabel_empty] at hli
      exact ⟨hlj ▸ List.getElem_mem _, i, List.getElem?_eq_some_iff.mpr ⟨_, hempty⟩, hli⟩
    · rw [blockLabel_of_ne hempty] at hli
      rw [hempty', blockLabel_empty] at hlj
      exact ⟨hli ▸ List.getElem_mem _, j, List.getElem?_eq_some_iff.mpr ⟨_, hempty'⟩, hlj⟩
    · -- two blocks with labels have different ones
      rw [blockLabel_of_ne hempty] at hli
      rw [blockLabel_of_ne hempty'] at hlj
      have hne := List.pairwise_iff_getElem.mp (List.pairwise_filter.mp h) i j (by omega) (by omega) hij
      exact absurd (hli.symm.trans hlj) (hne (by simpa using hempty) (by simpa using hempty'))
  · rintro ⟨hmem, i, hi, hlabel⟩
    obtain ⟨j, hj, hj'⟩ := List.getElem_of_mem hmem
    obtain ⟨hlt, hi⟩ := List.getElem?_eq_some_iff.mp hi
    have hne : label ≠ "" := by
      rw [hlabel]
      exact Lowering.stem_decimal_ne_empty _
    have hli : label = (labelled labels)[i] := by rw [hget i _ hlt, hi, blockLabel_empty, hlabel]
    have hlj : label = (labelled labels)[j] := by
      rw [hget j _ hj, hj', blockLabel_of_ne hne]
    -- the two places differ, as only one of them has a written label
    rcases Nat.lt_trichotomy i j with hij | rfl | hij
    · exact ⟨⟨i, by omega⟩, ⟨j, by omega⟩, hij, hli, hlj⟩
    · exact absurd (hj'.symm.trans hi) hne
    · exact ⟨⟨j, by omega⟩, ⟨i, by omega⟩, hij, hlj, hli⟩

end Graph

/-! ### Loaded kernels -/

/-- A line leaves the labels of the blocks as they are. -/
theorem Kernel.map_label_of_loadLine {index : Nat} {k k' : Kernel} {line : String}
    (h : k.loadLine index line = .ok k') :
    k'.graph.blocks.map Block.label = k.graph.blocks.map Block.label := by
  have hgraph := Kernel.parse_graph k line
  unfold Kernel.loadLine at h
  split at h
  · cases h
  · rename_i i k₁ hparse
    rw [hparse] at hgraph
    cases h
    show (k₁.graph.addInstruction index i).blocks.map Block.label = _
    rw [Graph.map_label_addInstruction, hgraph]

theorem Kernel.map_label_of_loadBlock {k k' : Kernel} {d : BlockDescription}
    (h : k.loadBlock d = .ok k') :
    k'.graph.blocks.map Block.label = (k.graph.addBlock d.label).blocks.map Block.label := by
  refine Fallible.foldlM_keeps
    (P := fun k₁ => k₁.graph.blocks.map Block.label = (k.graph.addBlock d.label).blocks.map _) ?_ h rfl
  intro k₁ line k₂ hline hk₁
  rw [Kernel.map_label_of_loadLine hline, hk₁]

namespace KernelDescription

/-- The labels that a description gives to the blocks, empty where it gives none. -/
def labels (d : KernelDescription) : List String :=
  d.blocks.map (·.label)

/-- The labels that the blocks of a description get. -/
def blockLabels (d : KernelDescription) : List String :=
  (d.labels.foldl Graph.addBlock {}).blocks.map Block.label

/-- The labels that there are tell blocks apart, also from the entry and the exit. -/
structure WellLabelled (d : KernelDescription) : Prop where
  nodup : (d.labels.filter (· ≠ "")).Nodup
  entry : "entry" ∉ d.labels
  exit : "exit" ∉ d.labels

instance (d : KernelDescription) : Decidable d.WellLabelled :=
  decidable_of_iff
    ((d.labels.filter (· ≠ "")).Nodup ∧ "entry" ∉ d.labels ∧ "exit" ∉ d.labels)
    ⟨fun h => ⟨h.1, h.2.1, h.2.2⟩, fun h => ⟨h.nodup, h.entry, h.exit⟩⟩

/-- The label is given to a block, and a block without a label is named so after its number. -/
def Clash (d : KernelDescription) (label : String) : Prop :=
  label ∈ d.labels ∧ ∃ i, d.labels[i]? = some "" ∧ label = "$BB" ++ Text.decimal (i + 2)

variable {d : KernelDescription}

theorem duplicate_blockLabels_iff (h : d.WellLabelled) (label : String) :
    d.blockLabels.Duplicate label ↔ d.Clash label := by
  rw [blockLabels, Graph.map_label_addBlocks, Graph.duplicate_labelled_iff h.nodup, Clash]

theorem nodup_blockLabels_iff (h : d.WellLabelled) :
    d.blockLabels.Nodup ↔ ∀ label, ¬d.Clash label := by
  rw [List.nodup_iff_forall_not_duplicate]
  exact forall_congr' fun label => not_congr (duplicate_blockLabels_iff h label)

/-- No block gets a label that none has and that begins otherwise than those after numbers. -/
theorem not_mem_blockLabels {label : String} (h : label ∉ d.labels)
    (hhead : label.toList.head? ≠ some '$') : label ∉ d.blockLabels := by
  rw [blockLabels, Graph.map_label_addBlocks, Graph.labelled, List.mem_mapIdx]
  rintro ⟨i, hi, heq⟩
  by_cases hempty : d.labels[i] = ""
  · rw [hempty, Graph.blockLabel_empty] at heq
    rw [← heq, String.toList_append] at hhead
    exact hhead rfl
  · rw [Graph.blockLabel_of_ne hempty] at heq
    exact h (heq ▸ List.getElem_mem hi)

/-- **The blocks of a loaded kernel have the labels that they get when they are added.** -/
theorem map_label_of_load {k : Kernel} (h : d.load = .ok k) :
    k.graph.blocks.map Block.label = d.blockLabels := by
  unfold KernelDescription.load at h
  split at h
  · obtain ⟨k₁, h₁, h⟩ := Fallible.bind_eq_ok.mp h
    obtain ⟨k₂, h₂, h⟩ := Fallible.bind_eq_ok.mp h
    obtain ⟨k₃, h₃, h⟩ := Fallible.bind_eq_ok.mp h
    cases h
    have hgraph₁ : k₁.graph = {} :=
      Fallible.foldlM_keeps (P := fun k => k.graph = {})
        (fun _ _ _ hp hk => (Kernel.loadParam_graph hp).trans hk) h₁ rfl
    have hgraph₂ : k₂.graph = {} :=
      Fallible.foldlM_keeps (P := fun k => k.graph = {})
        (fun _ _ _ hr hk => (Kernel.loadRegister_graph hr).trans hk) h₂ hgraph₁
    rw [Graph.map_label_link, blockLabels, Graph.map_label_addBlocks, labels]
    -- the history of the fold is the list of the blocks that are added
    refine Fallible.foldlM_history (P := fun bs k =>
      k.graph.blocks.map Block.label = Graph.labelled (bs.map (·.label))) ?_ h₃ ?_
    · intro bs b k k' hb hk
      rw [Kernel.map_label_of_loadBlock hb, List.map_append]
      exact Graph.map_label_addBlock_of_labelled hk b.label
    · rw [hgraph₂]
      rfl
  · cases h

end KernelDescription

end Source

/-! ### Faults about blocks that are declared twice -/

namespace Lowering

/-- The cause is not that a block is declared twice. -/
def Cause.Other (c : Cause) : Prop := ∀ label, c ≠ .redeclaredBlock label

theorem Cause.OfCode.other {c : Cause} (h : c.OfCode) : c.Other := by
  rintro label rfl
  exact h

/-- A label that cannot be declared is reserved or comes twice. -/
theorem duplicate_of_declareBlock {labels : List String} {f : Fault}
    (h : labels.foldlM declareBlock [] = .error f) :
    ∃ label, f.cause = .redeclaredBlock label ∧
      (label ∈ ["entry", "exit"] ∧ label ∈ labels ∨ labels.Duplicate label) := by
  obtain ⟨done, label, rest, known, rfl, hdone, hlabel⟩ := Fallible.exists_of_foldlM_eq_error h
  obtain ⟨rfl, -⟩ := numbered_of_declareBlock hdone
  unfold declareBlock at hlabel
  split_ifs at hlabel with hbad
  cases hlabel
  refine ⟨label, rfl, ?_⟩
  have hmem : label ∈ done ++ label :: rest := by simp
  rcases hbad with rfl | rfl | hknown
  · exact .inl ⟨by decide, hmem⟩
  · exact .inl ⟨by decide, hmem⟩
  · rw [lookup_isSome_iff_mem, map_fst_numberedLabels] at hknown
    refine .inr (List.duplicate_iff_sublist.mpr ?_)
    exact (List.singleton_sublist.mpr hknown).append (List.singleton_sublist.mpr List.mem_cons_self)

section Kernel

variable {o : Options} {globals : List Virtual.Global} {k : Source.Kernel}

/-- **Only the declaration of blocks reports that one is declared twice**, and it is made behind
those of the parameters and registers. -/
theorem lowerKernel_redeclares_iff {label : String} :
    (∃ f, lowerKernel o globals k = .error f ∧ f.cause = .redeclaredBlock label) ↔
      (∃ arguments, lowerParams k.scope.params = .ok arguments) ∧
      (∃ registers, lowerRegisters o.stem k.scope.registers = .ok registers) ∧
      ∃ f, (bodyLabels k.graph).foldlM declareBlock [] = .error f ∧
        f.cause = .redeclaredBlock label := by
  unfold lowerKernel openKernel bodyLabels
  constructor
  · rintro ⟨f, hf, hcause⟩
    rcases Fallible.bind_eq_error.mp hf with hopen | ⟨opening, -, hcode⟩
    · -- only the declaration of the blocks can fail for this reason
      rcases Fallible.bind_eq_error.mp hopen with h | ⟨arguments, harguments, hopen⟩
      · exact absurd hcause (failsOnly_lowerParams (fun _ hc => hc.other) _ f h label)
      rcases Fallible.bind_eq_error.mp hopen with h | ⟨registers, hregisters, hopen⟩
      · have hother := failsOnly_lowerRegisters (fun _ hc => hc.other) (fun _ => nofun) _ _ f h
        exact absurd hcause (hother label)
      rcases Fallible.bind_eq_error.mp hopen with h | ⟨blocks, -, hopen⟩
      · exact ⟨⟨arguments, harguments⟩, ⟨registers, hregisters⟩, f, h, hcause⟩
      · cases hopen
    · -- nor does the code, once the kernel is open
      rcases Fallible.bind_eq_error.mp hcode with h | ⟨p, -, h⟩
      · have hbody := (failsWith_lowerBlocks k.graph opening.scope opening.body).mono
          fun _ hc => hc.other
        exact absurd hcause (hbody opening.frame f h label)
      · cases h
  · rintro ⟨⟨arguments, harguments⟩, ⟨registers, hregisters⟩, f, hf, hcause⟩
    refine ⟨f, Fallible.bind_eq_error.mpr (.inl ?_), hcause⟩
    refine Fallible.bind_eq_error.mpr (.inr ⟨arguments, harguments, ?_⟩)
    refine Fallible.bind_eq_error.mpr (.inr ⟨registers, hregisters, ?_⟩)
    exact Fallible.bind_eq_error.mpr (.inl hf)

variable {d : Source.KernelDescription}

theorem bodyLabels_of_load (hk : d.load = .ok k) : bodyLabels k.graph = d.blockLabels := by
  rw [bodyLabels_of_sequence (Source.KernelDescription.load_linked hk).sequence_eq,
    Source.KernelDescription.map_label_of_load hk]

/-- A label of a loaded kernel that is reported clashes. -/
theorem clash_of_lowerKernel (hk : d.load = .ok k) (hd : d.WellLabelled) {f : Fault} {label : String}
    (hf : lowerKernel o globals k = .error f) (hcause : f.cause = .redeclaredBlock label) :
    d.Clash label := by
  obtain ⟨-, -, f', hf', hcause'⟩ := lowerKernel_redeclares_iff.mp ⟨f, hf, hcause⟩
  rw [bodyLabels_of_load hk] at hf'
  obtain ⟨label', hlabel', hwhy⟩ := duplicate_of_declareBlock hf'
  rw [hcause', Cause.redeclaredBlock.injEq] at hlabel'
  subst hlabel'
  rcases hwhy with ⟨hreserved, hmem⟩ | hduplicate
  · have hends : ∀ l ∈ ["entry", "exit"], l ∉ d.blockLabels := by
      simp only [List.forall_mem_cons, List.not_mem_nil, false_implies, implies_true, and_true]
      exact ⟨Source.KernelDescription.not_mem_blockLabels hd.entry (by decide),
        Source.KernelDescription.not_mem_blockLabels hd.exit (by decide)⟩
    exact absurd hmem (hends label hreserved)
  · exact (Source.KernelDescription.duplicate_blockLabels_iff hd label).mp hduplicate

/-- **A loaded kernel is refused for blocks that are declared twice if there is a clash** and its
parameters and registers are not refused before. -/
theorem exists_lowerKernel_redeclares_iff (hk : d.load = .ok k) (hd : d.WellLabelled) :
    (∃ f label, lowerKernel o globals k = .error f ∧ f.cause = .redeclaredBlock label) ↔
      (∃ label, d.Clash label) ∧ (∃ arguments, lowerParams k.scope.params = .ok arguments) ∧
        ∃ registers, lowerRegisters o.stem k.scope.registers = .ok registers := by
  constructor
  · rintro ⟨f, label, hf, hcause⟩
    obtain ⟨harguments, hregisters, -⟩ := lowerKernel_redeclares_iff.mp ⟨f, hf, hcause⟩
    exact ⟨⟨label, clash_of_lowerKernel hk hd hf hcause⟩, harguments, hregisters⟩
  · rintro ⟨⟨label, hclash⟩, harguments, hregisters⟩
    have hduplicate := (Source.KernelDescription.duplicate_blockLabels_iff hd label).mpr hclash
    cases hf : (bodyLabels k.graph).foldlM declareBlock [] with
    -- declared labels are distinct, which a clash excludes
    | ok known =>
      have hnodup := (exists_declareBlock_iff.mp ⟨known, hf⟩).1
      rw [bodyLabels_of_load hk] at hnodup
      exact absurd hnodup hduplicate.not_nodup
    | error f =>
      obtain ⟨label', hcause, -⟩ := duplicate_of_declareBlock hf
      obtain ⟨f', hf', hcause'⟩ :=
        lowerKernel_redeclares_iff.mpr ⟨harguments, hregisters, f, hf, hcause⟩
      exact ⟨f', label', hf', hcause'⟩

end Kernel

/-- A fault of a module about a block that is declared twice is one of its kernels. -/
theorem exists_of_lower_redeclares {o : Options} {m : Source.Module} {f : Fault} {label : String}
    (hf : lower o m = .error f) (hcause : f.cause = .redeclaredBlock label) :
    ∃ globals, ∃ k ∈ m.kernels, ∃ f', lowerKernel o globals k = .error f' ∧
      f'.cause = .redeclaredBlock label := by
  unfold lower at hf
  rcases Fallible.bind_eq_error.mp hf with h | ⟨globals, -, hf⟩
  · exact absurd hcause (failsOnly_lowerGlobals (fun _ hc => hc.other) _ f h label)
  rcases Fallible.bind_eq_error.mp hf with h | ⟨functions, -, hf⟩
  · obtain ⟨k, hk, h⟩ := Fallible.exists_of_mapM_eq_error h
    obtain ⟨f', hf', rfl⟩ := Fallible.mapError_eq_error.mp h
    exact ⟨globals, k, hk, f', hf', hcause⟩
  · cases hf

/-- **Generated labels clash only with labels of their own form.**  Let every kernel of a
description have different labels, none of them that of the entry or the exit, and any number of
blocks without.  Then the blocks of a kernel get different labels exactly if no label that is given
is that of a block without one.  A loaded kernel has these labels, and lowering it reports a block
that is declared twice exactly if there is such a label and nothing is wrong with the parameters and
registers.  If lowering the module reports such a block, its label is one of these. -/
theorem redeclares_iff_clash {d : Source.Description} (hd : ∀ e ∈ d.kernels, e.WellLabelled) :
    (∀ e ∈ d.kernels, e.blockLabels.Nodup ↔ ∀ label, ¬e.Clash label) ∧
      ∀ path m, d.load path = .ok m → ∀ o : Options,
        List.Forall₂ (fun e k => k.graph.blocks.map Source.Block.label = e.blockLabels ∧
          ∀ globals,
            (∃ f label, lowerKernel o globals k = .error f ∧ f.cause = .redeclaredBlock label) ↔
              (∃ label, e.Clash label) ∧
                (∃ arguments, lowerParams k.scope.params = .ok arguments) ∧
                ∃ registers, lowerRegisters o.stem k.scope.registers = .ok registers)
          d.kernels m.kernels ∧
        ∀ f label, lower o m = .error f → f.cause = .redeclaredBlock label →
          ∃ e ∈ d.kernels, e.Clash label := by
  refine ⟨fun e he => Source.KernelDescription.nodup_blockLabels_iff (hd e he), ?_⟩
  intro path m hm o
  have hload := (Source.Description.load_forall₂ hm).2
  constructor
  · refine List.forall₂_iff_get.mpr ⟨hload.length_eq, fun j hj hj' => ?_⟩
    have hk := hload.get hj hj'
    exact ⟨Source.KernelDescription.map_label_of_load hk, fun globals =>
      exists_lowerKernel_redeclares_iff hk (hd _ (List.get_mem _ _))⟩
  · -- the module fails in one of its kernels, and that one has the clash
    intro f label hf hcause
    obtain ⟨globals, k, hk, f', hf', hcause'⟩ := exists_of_lower_redeclares hf hcause
    obtain ⟨e, he, hload⟩ := exists_of_forall₂_right hload hk
    exact ⟨e, he, clash_of_lowerKernel hload (hd e he) hf' hcause'⟩

/-- Two blocks without a label and one whose label only looks like theirs. -/
def unlabelledKernel : Source.KernelDescription :=
  { name := "f", linkage := "", params := [], registers := []
    blocks := [⟨"A", []⟩, ⟨"", []⟩, ⟨"$BB2", []⟩, ⟨"", ["bra $BB3"]⟩] }

/-- A block with the label that the next one gets without being given it. -/
def clashingKernel : Source.KernelDescription :=
  { name := "k", linkage := "", params := [], registers := []
    blocks := [⟨"$BB3", ["ret"]⟩, ⟨"", ["ret"]⟩] }

/-- A kernel whose labels are kept apart, and one whose labels are not. -/
def clashingModule : Source.Description :=
  { kernels := [unlabelledKernel, clashingKernel] }

/-- A description that evaluates to a fault is loaded and not lowered. -/
theorem exists_fault_of_any (d : Source.Description) (path : String) (f : Fault)
    (h : ((d.load path).toOption.any fun m => ((lower {} m).map fun _ => ()) = .error f) = true) :
    ∃ m, d.load path = .ok m ∧ lower {} m = .error f := by
  cases hm : d.load path with
  | error e =>
    rw [hm] at h
    cases h
  | ok m =>
    rw [hm] at h
    have hmap : ((lower {} m).map fun _ => ()) = .error f := of_decide_eq_true h
    refine ⟨m, rfl, ?_⟩
    cases hv : lower {} m with
    | error e =>
      rw [hv] at hmap
      cases hmap
      rfl
    | ok v =>
      rw [hv] at hmap
      cases hmap

theorem clashingModule_redeclares_iff :
    (∀ label, ¬unlabelledKernel.Clash label) ∧ ¬clashingKernel.blockLabels.Nodup ∧
      ∃ m f, clashingModule.load "m" = .ok m ∧ lower {} m = .error f ∧
        f.cause = .redeclaredBlock "$BB3" ∧ ∃ e ∈ clashingModule.kernels, e.Clash "$BB3" := by
  have hwell : ∀ e ∈ clashingModule.kernels, e.WellLabelled := by decide +kernel
  obtain ⟨hnodup, hlowered⟩ := redeclares_iff_clash hwell
  have hfirst : unlabelledKernel ∈ clashingModule.kernels := List.mem_cons_self
  obtain ⟨m, hm, hf⟩ := exists_fault_of_any clashingModule "m"
    { path := [.kernel "k"], cause := .redeclaredBlock "$BB3" } (by decide +kernel)
  refine ⟨(hnodup _ hfirst).mp (by decide +kernel), by decide +kernel, m, _, hm, hf, rfl, ?_⟩
  exact (hlowered "m" m hm {}).2 _ "$BB3" hf rfl

/-- Labels that are different clash with one that a block gets. -/
theorem clashingKernel_redeclared :
    clashingKernel.WellLabelled ∧ ¬clashingKernel.blockLabels.Nodup ∧
      ∃ m f, Source.Description.load { kernels := [clashingKernel] } "m.yaml" = .ok m ∧
        lower {} m = .error f ∧ f.message =
          "kernel k: basic block $BB3 redeclared in this function: malformed input" := by
  refine ⟨by decide +kernel, by decide +kernel, ?_⟩
  obtain ⟨m, hm, hf⟩ := exists_fault_of_any { kernels := [clashingKernel] } "m.yaml"
    { path := [.kernel "k"], cause := .redeclaredBlock "$BB3" } (by decide +kernel)
  exact ⟨m, _, hm, hf, by decide +kernel⟩

end Lowering

end KernelIR
