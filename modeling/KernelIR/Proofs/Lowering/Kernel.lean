import KernelIR.Lowering.Kernel
import KernelIR.Proofs.Lowering.Frame
import KernelIR.Proofs.Table
import Mathlib.Data.List.Induction

/-!
# Images of kernels

`Opened` says what opening a kernel gives: arguments and registers that stand for the parameters and
registers in order, the registers numbered by their places, and the labels of the body numbered from
two, all different and none of them `entry` or `exit`.  `Lowered` says what lowering gives: the
blocks of the body between an empty entry and an empty exit, each with the number and label of its
node and with one rendered instruction for each of its instructions, made in one run through all
blocks.
-/

namespace KernelIR.Lowering

open Virtual (Argument Register Instr)

/-! ### Parameters -/

/-- The argument has the name of the parameter and the image of its type. -/
def IsArgumentOf (p : Source.Param) (a : Argument) : Prop :=
  ∃ t, lowerType p.type = .ok t ∧ a = { type := some t, name := p.name }

theorem forall₂_lowerParams {ps : List Source.Param} {as : List Argument}
    (h : lowerParams ps = .ok as) : List.Forall₂ IsArgumentOf ps as := by
  refine (Fallible.mapM_eq_ok.mp h).imp fun p a hp => ?_
  split at hp
  · rename_i t ht
    cases hp
    exact ⟨t, ht, rfl⟩
  · cases hp

/-! ### Registers -/

/-- The entry belongs to the register: it is known by the number of the register, has the image of
its type, and a name made of that number. -/
def IsRegisterOf (stem : String) (r : Source.Register) (e : UInt32 × Register) : Prop :=
  e.1 = r.id ∧ (∃ t, lowerType r.type = .ok t ∧ e.2.type = some t) ∧
    e.2.name = stem ++ Text.decimal r.id.toNat

/-- The declared registers in order, all under different numbers. -/
structure Declared (stem : String) (rs : List Source.Register)
    (known : List (UInt32 × Register)) : Prop where
  forall₂ : List.Forall₂ (IsRegisterOf stem) rs known
  numbered : Numbered (known.map Prod.snd)
  nodup : (known.map Prod.fst).Nodup

/-- One more register is declared behind the others. -/
theorem Declared.concat {stem : String} {rs : List Source.Register} {r : Source.Register}
    {known known' : List (UInt32 × Register)} (h : Declared stem rs known)
    (hr : lowerRegister stem known r = .ok known') : Declared stem (rs ++ [r]) known' := by
  unfold lowerRegister at hr
  dsimp only at hr
  split_ifs at hr with hknown
  split at hr
  · cases hr
  · rename_i t ht
    cases hr
    refine ⟨List.rel_append h.forall₂ (.cons ⟨rfl, ⟨t, ht, rfl⟩, rfl⟩ .nil), ?_, ?_⟩
    · rw [List.map_append]
      exact h.numbered.concat (List.length_map _).symm (List.length_map _).symm
    · exact nodup_concat _ h.nodup hknown

/-- **The registers are declared in order.** -/
theorem declared_of_lowerRegisters {stem : String} {rs : List Source.Register}
    {known : List (UInt32 × Register)} (h : lowerRegisters stem rs = .ok known) :
    Declared stem rs known := by
  unfold lowerRegisters at h
  induction rs using List.reverseRecOn generalizing known with
  | nil =>
    cases h
    exact ⟨.nil, numbered_nil, List.nodup_nil⟩
  | append_singleton rs r ih =>
    rw [List.foldlM_append, Fallible.bind_eq_ok] at h
    obtain ⟨known₁, h₁, h⟩ := h
    rw [List.foldlM_cons, Fallible.bind_eq_ok] at h
    obtain ⟨known₂, h₂, h⟩ := h
    cases h
    exact (ih h₁).concat h₂

/-! ### Blocks -/

/-- Labels with their numbers, which start at two. -/
def numberedLabels (labels : List String) : List (String × Nat) :=
  labels.mapIdx fun j label => (label, j + 2)

theorem map_fst_numberedLabels (labels : List String) :
    (numberedLabels labels).map Prod.fst = labels := by
  refine List.ext_getElem? fun j => ?_
  rw [numberedLabels, List.getElem?_map, List.getElem?_mapIdx]
  cases labels[j]? <;> rfl

/-- The numbers of labels beside what the labels are from. -/
theorem zip_numberedLabels {α : Type} (label : α → String) (ns : List α) :
    ((numberedLabels (ns.map label)).map Prod.snd).zip ns = ns.mapIdx fun j n => (j + 2, n) := by
  refine List.ext_getElem? fun j => ?_
  rw [List.zip, List.getElem?_zipWith, numberedLabels, List.getElem?_map, List.getElem?_mapIdx,
    List.getElem?_map, List.getElem?_mapIdx]
  cases ns[j]? <;> rfl

/-- A label that has a number is the one at the place two before it. -/
theorem lookup_numberedLabels {labels : List String} {label : String} {id : Nat}
    (h : (numberedLabels labels).lookup label = some id) :
    ∃ j, labels[j]? = some label ∧ id = j + 2 := by
  obtain ⟨j, hj, heq⟩ := List.mem_mapIdx.mp (mem_of_lookup h)
  cases heq
  exact ⟨j, List.getElem?_eq_getElem hj, rfl⟩

/-- **The labels of the body are numbered in order**; they are all different and not reserved. -/
theorem numbered_of_declareBlock {labels : List String} {known : List (String × Nat)}
    (h : labels.foldlM declareBlock [] = .ok known) :
    known = numberedLabels labels ∧ labels.Nodup ∧ "entry" ∉ labels ∧ "exit" ∉ labels := by
  -- from the end of the list, where the label stands that is declared last
  induction labels using List.reverseRecOn generalizing known with
  | nil =>
    cases h
    exact ⟨rfl, List.nodup_nil, List.not_mem_nil, List.not_mem_nil⟩
  | append_singleton labels label ih =>
    rw [List.foldlM_append, Fallible.bind_eq_ok] at h
    obtain ⟨known₁, h₁, h⟩ := h
    rw [List.foldlM_cons, Fallible.bind_eq_ok] at h
    obtain ⟨known₂, h₂, h⟩ := h
    cases h
    obtain ⟨rfl, hnodup, hentry, hexit⟩ := ih h₁
    have hfst := map_fst_numberedLabels labels
    unfold declareBlock at h₂
    split_ifs at h₂ with hnew
    rw [not_or, not_or] at hnew
    obtain ⟨hne, hnx, hlookup⟩ := hnew
    cases h₂
    refine ⟨?_, ?_, ?_, ?_⟩
    · rw [numberedLabels, numberedLabels, List.mapIdx_concat, List.length_mapIdx]
    · have := nodup_concat 0 (by rw [hfst]; exact hnodup) hlookup
      rwa [List.map_append, hfst] at this
    · rw [List.mem_append, List.mem_singleton, not_or]
      exact ⟨hentry, Ne.symm hne⟩
    · rw [List.mem_append, List.mem_singleton, not_or]
      exact ⟨hexit, Ne.symm hnx⟩

/-! ### Opening -/

/-- The labels of the nodes that become blocks. -/
def bodyLabels (g : Source.Graph) : List String :=
  (bodyNodes g).map g.label

/-- What opening a kernel gives. -/
structure Opened (o : Options) (globals : List Virtual.Global) (k : Source.Kernel)
    (opening : Opening) : Prop where
  globals : opening.scope.globals = globals
  arguments : List.Forall₂ IsArgumentOf k.scope.params opening.scope.arguments
  registers : Declared o.stem k.scope.registers opening.scope.registers
  blocks : opening.scope.blocks = numberedLabels (bodyLabels k.graph)
  nodup : (bodyLabels k.graph).Nodup
  entry : "entry" ∉ bodyLabels k.graph
  exit : "exit" ∉ bodyLabels k.graph
  frame : opening.frame = { registers := opening.scope.registers.map Prod.snd }
  body : opening.body = (bodyNodes k.graph).mapIdx fun j n => (j + 2, n)

theorem opened_of_openKernel {o : Options} {globals : List Virtual.Global} {k : Source.Kernel}
    {opening : Opening} (h : openKernel o globals k = .ok opening) : Opened o globals k opening := by
  unfold openKernel at h
  obtain ⟨arguments, harguments, h⟩ := Fallible.bind_eq_ok.mp h
  obtain ⟨registers, hregisters, h⟩ := Fallible.bind_eq_ok.mp h
  obtain ⟨blocks, hblocks, h⟩ := Fallible.bind_eq_ok.mp h
  cases h
  obtain ⟨rfl, hnodup, hentry, hexit⟩ := numbered_of_declareBlock hblocks
  exact {
    globals := rfl
    arguments := forall₂_lowerParams harguments
    registers := declared_of_lowerRegisters hregisters
    blocks := rfl
    nodup := hnodup
    entry := hentry
    exit := hexit
    frame := rfl
    body := zip_numberedLabels k.graph.label (bodyNodes k.graph) }

/-! ### Lowering -/

theorem yields_lowerBlock {g : Source.Graph} {s : Scope} {block : Nat} {n : Source.Node}
    {fr fr' : Frame} {b : Virtual.Block} :
    Yields (lowerBlock g s block n) fr b fr' ↔
      b.id = block ∧ b.name = g.label n ∧
        Run (lowerInstruction s block) fr (g.code n) b.code fr' := by
  unfold lowerBlock
  simp only [yields_bind, yields_within, yields_mapM, yields_pure]
  constructor
  · rintro ⟨code, _, hcode, rfl, rfl⟩
    exact ⟨rfl, rfl, hcode⟩
  · rintro ⟨hid, hname, hcode⟩
    obtain ⟨id, name, code⟩ := b
    cases hid
    cases hname
    exact ⟨code, fr', hcode, rfl, rfl⟩

theorem renders_of_lowerInstruction {s : Scope} {block : Nat} {i : Source.Instruction}
    {fr fr' : Frame} {x : Instr} (h : Yields (lowerInstruction s block i) fr x fr') :
    s.Renders block i fr x fr' :=
  Scope.renders_of_yields (yields_within.mp h)

/-- What lowering a kernel gives, from its opening on. -/
structure Lowered (o : Options) (globals : List Virtual.Global) (k : Source.Kernel)
    (opening : Opening) (blocks : List Virtual.Block) (fr : Frame) (f : Virtual.Function) :
    Prop where
  opened : Opened o globals k opening
  run : Run (fun p => lowerBlock k.graph opening.scope p.1 p.2) opening.frame opening.body blocks fr
  function : f = assembleFunction k opening.scope.arguments fr.registers blocks

/-- **A lowered kernel is opened and then lowered block by block.** -/
theorem lowered_of_lowerKernel {o : Options} {globals : List Virtual.Global} {k : Source.Kernel}
    {f : Virtual.Function} (h : lowerKernel o globals k = .ok f) :
    ∃ opening blocks fr, Lowered o globals k opening blocks fr f := by
  unfold lowerKernel at h
  obtain ⟨opening, hopening, h⟩ := Fallible.bind_eq_ok.mp h
  obtain ⟨⟨blocks, fr⟩, hrun, h⟩ := Fallible.bind_eq_ok.mp h
  cases h
  exact ⟨opening, blocks, fr, opened_of_openKernel hopening, yields_mapM.mp hrun, rfl⟩

/-! ### Frames -/

/-- The frame of an opened kernel holds the declared registers. -/
theorem Opened.covers {o : Options} {globals : List Virtual.Global} {k : Source.Kernel}
    {opening : Opening} (h : Opened o globals k opening) : opening.frame.Covers opening.scope := by
  rw [h.frame]
  refine ⟨h.registers.numbered, fun e he => List.mem_map_of_mem he, ?_⟩
  intro e he
  cases he

theorem grows_of_lowerBlock {g : Source.Graph} {s : Scope} {block : Nat} {n : Source.Node}
    {fr fr' : Frame} {b : Virtual.Block} (h : Yields (lowerBlock g s block n) fr b fr') :
    fr.Grows s fr' := by
  obtain ⟨-, -, hcode⟩ := yields_lowerBlock.mp h
  refine (hcode.between ?_).1
  intro i fr₁ x fr₂ hx
  exact (renders_of_lowerInstruction hx).grows

/-- Every block is lowered from a frame that the opening has grown to. -/
theorem Lowered.between {o : Options} {globals : List Virtual.Global} {k : Source.Kernel}
    {opening : Opening} {blocks : List Virtual.Block} {fr : Frame} {f : Virtual.Function}
    (h : Lowered o globals k opening blocks fr f) :
    opening.frame.Grows opening.scope fr ∧
      List.Forall₂ (fun p b => ∃ fr₁ fr₂, opening.frame.Grows opening.scope fr₁ ∧
        Yields (lowerBlock k.graph opening.scope p.1 p.2) fr₁ b fr₂ ∧
        fr₂.Grows opening.scope fr) opening.body blocks :=
  h.run.between fun _ _ _ _ hb => grows_of_lowerBlock hb

/-- The registers of the scope are the first ones of the function. -/
theorem Lowered.registers {o : Options} {globals : List Virtual.Global} {k : Source.Kernel}
    {opening : Opening} {blocks : List Virtual.Block} {fr : Frame} {f : Virtual.Function}
    (h : Lowered o globals k opening blocks fr f) :
    opening.scope.registers.map Prod.snd <+: f.registers := by
  have hgrows := h.between.1.registers
  rw [h.opened.frame] at hgrows
  rw [h.function]
  exact hgrows

end KernelIR.Lowering
