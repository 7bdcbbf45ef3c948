import KernelIR.Proofs.Lowering.Correspondence
import KernelIR.Proofs.Lowering.Success
import KernelIR.Proofs.Source.Loaded

/-!
# Which modules are lowered

`exists_lower_iff_accepted`: a loaded module is lowered exactly if it is accepted.  Acceptance is
stated on the source alone (`Accepted`): about the types and names of the declarations, and for
every instruction about its guard, its mnemonic and the names in reach (`StaticScope.Accepts`).

Lowering resolves registers by the numbers that loading gave to their names, so `Accepted` has the
choice of what tells registers apart.  By their numbers the theorem holds without condition.  By
their names it holds as long as a kernel has fewer names than there are numbers, for then different
names have different numbers.
-/

namespace KernelIR

/-- A declared register as it is mentioned. -/
def Source.Register.use (r : Source.Register) : Source.RegisterUse :=
  ⟨r.id, r.name⟩

namespace Lowering

/-! ### What is accepted -/

/-- The names in reach of the instructions of a kernel. -/
structure StaticScope (κ : Type) where
  /-- what tells registers apart -/
  key : Source.RegisterUse → κ
  registers : List κ
  params : List String
  globals : List String
  labels : List String

namespace StaticScope

/-- The names in reach of the instructions of a kernel of a module. -/
def of {κ : Type} (key : Source.RegisterUse → κ) (m : Source.Module) (k : Source.Kernel) :
    StaticScope κ where
  key := key
  registers := k.scope.registers.map fun r => key r.use
  params := k.scope.params.map (·.name)
  globals := m.globals.map (·.name)
  labels := k.graph.blocks.map (·.label)

variable {κ : Type} (st : StaticScope κ)

/-- The operand is there and can be lowered. -/
def Translates (o : Option Source.Operand) : Prop :=
  ∃ x, o = some x ∧
    match x.form with
    | .register r | .indirect r _ => st.key r ∈ st.registers
    | .immediate _ => x.type ≠ .float .half
    | .address name offset _ =>
      offset = 0 ∧ (name ∈ st.params ∨ name ∈ st.globals ∨ name ∈ st.labels)
    | .label name => name ∈ st.labels
    | .special .. | .sink => True
    | .unknown _ => False

/-- The operand denotes a block: it is a label, or a symbol without an offset that is neither a
parameter nor a global. -/
def DenotesBlock (o : Option Source.Operand) : Prop :=
  ∃ x, o = some x ∧
    match x.form with
    | .label name => name ∈ st.labels
    | .address name offset _ =>
      offset = 0 ∧ name ∉ st.params ∧ name ∉ st.globals ∧ name ∈ st.labels
    | _ => False

/-- The guard holds always or never, or depends on a declared register. -/
def AcceptsGuard : Source.Guard → Prop
  | .always | .never => True
  | .straight r | .inverse r | .unknown _ r => st.key r ∈ st.registers

/-- The instruction can be lowered. -/
def Accepts (i : Source.Instruction) : Prop :=
  st.AcceptsGuard i.guard ∧
    match i.opcode with
    | .ret | .exit | .bar => True
    | .bra => st.DenotesBlock i.d
    | .membar => i.level ≠ .none
    | .setp =>
      i.comparison ≠ .none ∧ st.Translates i.d ∧ st.Translates i.a ∧ st.Translates i.b
    | .atom =>
      i.atomic ≠ .none ∧ st.Translates i.d ∧ st.Translates i.a ∧ st.Translates i.b ∧
        (i.c = none ∨ st.Translates i.c)
    | .add | .and | .or | .shl | .sub | .xor | .mul | .div | .rem | .shr =>
      st.Translates i.d ∧ st.Translates i.a ∧ st.Translates i.b
    | .not =>
      st.Translates i.d ∧ st.Translates i.a ∧ i.type ≠ .missing ∧ i.type ≠ .float .half
    | .ld | .ldu | .mov | .st => st.Translates i.d ∧ st.Translates i.a
    | .cvt =>
      i.modifiers = .empty ∧ (i.type.isInt ∨ i.type.isFloat) ∧
        (i.sourceType.isInt ∨ i.sourceType.isFloat) ∧ st.Translates i.d ∧ st.Translates i.a
    | .call | .mad | .selp | .unknown _ => False

end StaticScope

/-- The kernel of the module can be lowered. -/
structure AcceptedKernel {κ : Type} (key : Source.RegisterUse → κ) (m : Source.Module)
    (k : Source.Kernel) : Prop where
  params : ∀ p ∈ k.scope.params, p.type ≠ .float .half
  registers : ∀ r ∈ k.scope.registers, r.type ≠ .float .half
  distinct : (StaticScope.of key m k).registers.Nodup
  labels : (StaticScope.of key m k).labels.Nodup
  entry : "entry" ∉ (StaticScope.of key m k).labels
  exit : "exit" ∉ (StaticScope.of key m k).labels
  code : ∀ b ∈ k.graph.blocks, ∀ i ∈ b.code, (StaticScope.of key m k).Accepts i

/-- The module can be lowered. -/
structure Accepted {κ : Type} (key : Source.RegisterUse → κ) (m : Source.Module) : Prop where
  globals : ∀ g ∈ m.globals, g.type ≠ .float .half
  kernels : ∀ k ∈ m.kernels, AcceptedKernel key m k

/-! ### Types and tags -/

theorem exists_lowerType_iff {t : Source.DataType} (ht : t ∈ .missing :: Source.DataType.named) :
    (∃ v, lowerType t = .ok v) ↔ t ≠ .missing ∧ t ≠ .float .half := by
  cases t with
  | missing => simp [lowerType, valueType?]
  | pred | bits w | signed w | unsigned w => simp [lowerType, valueType?]
  | float w => cases w <;> simp [lowerType, valueType?]
  | unknown code => simp [Source.DataType.named] at ht

theorem exists_lowerType_iff_of_named {t : Source.DataType} (ht : t ∈ Source.DataType.named) :
    (∃ v, lowerType t = .ok v) ↔ t ≠ .float .half := by
  rw [exists_lowerType_iff (List.mem_cons_of_mem _ ht), and_iff_right]
  rintro rfl
  exact absurd ht (by decide)

theorem exists_literalType_iff {t : Source.DataType} (ht : t ∈ .missing :: Source.DataType.named) :
    (∃ v, Scope.literalType t = .ok v) ↔ t ≠ .float .half := by
  unfold Scope.literalType
  split_ifs with hmissing
  · simp [hmissing]
  · rw [exists_lowerType_iff ht, and_iff_right hmissing]

theorem exists_lowerComparison_iff {c : Source.Comparison}
    (hc : c ∈ .none :: Source.Comparison.named) (t : Source.DataType) :
    (∃ v, lowerComparison c t = .ok v) ↔ c ≠ .none := by
  cases c with
  | unknown code => simp [Source.Comparison.named] at hc
  | _ => simp [lowerComparison]

theorem exists_lowerAtomic_iff {a : Source.AtomicOp} (ha : a ∈ .none :: Source.AtomicOp.named) :
    (∃ v, lowerAtomic a = .ok v) ↔ a ≠ .none := by
  cases a with
  | unknown code => simp [Source.AtomicOp.named] at ha
  | _ => simp [lowerAtomic]

theorem exists_lowerLevel_iff {l : Source.FenceLevel} (hl : l ∈ .none :: Source.FenceLevel.named) :
    (∃ v, lowerLevel l = .ok v) ↔ l ≠ .none := by
  cases l with
  | unknown code => simp [Source.FenceLevel.named] at hl
  | _ => simp [lowerLevel]

theorem exists_conversion_iff {dst src : Source.DataType} :
    (∃ op, conversion dst src = .ok op) ↔
      (dst.isInt ∨ dst.isFloat) ∧ (src.isInt ∨ src.isFloat) := by
  have hconvertible : ∀ t, convertible t = true ↔ t.isInt ∨ t.isFloat := by
    intro t
    rw [convertible, Bool.or_eq_true, or_comm]
  rw [← hconvertible, ← hconvertible]
  unfold conversion
  cases convertible dst <;> cases convertible src <;> simp

/-! ### From the scope of lowering to the source -/

/-- The scope of lowering knows what is in reach of the kernel: registers by their numbers,
everything else by its name. -/
structure Reflects (s : Scope) (k : Source.Kernel) (st : StaticScope UInt32) : Prop where
  key : st.key = Source.RegisterUse.id
  registers : ∀ id, (s.registers.lookup id).isSome ↔ id ∈ st.registers
  params : ∀ name, k.scope.isParam name = true ↔ name ∈ st.params
  arguments : ∀ name, (s.arguments.find? (·.name = name)).isSome ↔ name ∈ st.params
  globals : ∀ name, (s.globals.findIdx? (·.name = name)).isSome ↔ name ∈ st.globals
  labels : ∀ name, (s.blocks.lookup name).isSome ↔ name ∈ st.labels

namespace Reflects

variable {s : Scope} {k : Source.Kernel} {st : StaticScope UInt32} {text : List Char}
  {p : Source.LineParts}

theorem symbol_iff (h : Reflects s k st) (name : String) :
    (∃ y, s.symbol name (k.scope.isParam name) = .ok y) ↔
      name ∈ st.params ∨ name ∈ st.globals ∨ name ∈ st.labels := by
  rw [← h.globals, ← h.labels]
  unfold Scope.symbol
  by_cases hparam : k.scope.isParam name = true
  · have hargument := (h.arguments name).mpr ((h.params name).mp hparam)
    obtain ⟨a, ha⟩ := Option.isSome_iff_exists.mp hargument
    rw [if_pos hparam, ha]
    simp [← h.params, hparam]
  · rw [if_neg hparam, ← h.params]
    cases s.globals.findIdx? (·.name = name) with
    | some j => simp
    | none => cases s.blocks.lookup name <;> simp [hparam]

/-- An operand that is read from a line has an image if it can be lowered. -/
theorem resolves_iff (h : Reflects s k st) {x : Source.Operand}
    (htype : x.type ∈ .missing :: Source.DataType.named) (hform : x.form.ReadIn k.scope text) :
    s.ResolvesSlot (some x) ↔ st.Translates (some x) := by
  obtain ⟨t, form⟩ := x
  have hslot : s.ResolvesSlot (some ⟨t, form⟩) ↔ s.Resolves ⟨t, form⟩ := by
    simp [Scope.ResolvesSlot]
  rw [hslot]
  simp only [StaticScope.Translates, Option.some.injEq, exists_eq_left']
  unfold Scope.Resolves
  cases form with
  | register r | indirect r offset =>
    rw [h.key]
    exact h.registers r.id
  -- a literal needs no declaration, only a type that has literals
  | immediate bits => exact exists_literalType_iff htype
  | address name offset isParam =>
    -- reading has decided whether the name is that of a parameter
    obtain rfl : isParam = k.scope.isParam name := hform
    exact and_congr_right fun _ => h.symbol_iff name
  | label name => exact h.labels name
  | special r lane | sink => exact Iff.rfl
  | unknown code => exact Iff.rfl

/-- An operand that is read from a line stands for a block if it denotes one. -/
theorem targets_iff (h : Reflects s k st) {x : Source.Operand}
    (hform : x.form.ReadIn k.scope text) : s.Targets (some x) ↔ st.DenotesBlock (some x) := by
  obtain ⟨t, form⟩ := x
  simp only [Scope.Targets, StaticScope.DenotesBlock, Option.some.injEq, exists_eq_left']
  cases form with
  | label name => exact h.labels name
  | address name offset isParam =>
    obtain rfl : isParam = k.scope.isParam name := hform
    refine and_congr_right fun _ => ?_
    have hparam : k.scope.isParam name = false ↔ name ∉ st.params := by
      rw [← h.params, Bool.not_eq_true]
    have hglobal : s.globals.findIdx? (·.name = name) = none ↔ name ∉ st.globals := by
      rw [← h.globals, Option.not_isSome_iff_eq_none]
    rw [hparam, hglobal, h.labels]
  | _ => exact Iff.rfl

theorem guard_iff (h : Reflects s k st) (g : Source.Guard) :
    (∃ p, s.guard g = .ok p) ↔ st.AcceptsGuard g := by
  cases g with
  | always | never => exact iff_of_true ⟨_, rfl⟩ trivial
  | straight r | inverse r | unknown code r =>
    have hr : (∃ v, s.register r = .ok v) ↔ st.key r ∈ st.registers := by
      rw [h.key, Scope.exists_register_iff]
      exact h.registers r.id
    show (∃ p, (s.register r).map _ = .ok p) ↔ st.key r ∈ st.registers
    rw [← hr]
    cases s.register r <;> simp [Except.map]

/-- **An instruction that is read from a line is accepted by the scope if it can be lowered.** -/
theorem accepts_iff (h : Reflects s k st) {i : Source.Instruction} (hi : i.ReadIn k.scope p) :
    s.Accepts i ↔ st.Accepts i := by
  -- the types of operands are listed because those of the mnemonic are
  have hslot : ∀ (n : Nat) o, i.slots[n]? = some o → (s.ResolvesSlot o ↔ st.Translates o) := by
    intro n o ho
    cases o with
    | none => simp [Scope.ResolvesSlot, StaticScope.Translates]
    | some x =>
      obtain ⟨htype, text, -, hform⟩ := hi.operands n x ho
      refine h.resolves_iff ?_ hform
      rw [htype]
      exact hi.listed.operandType n
  have hd := hslot 0 i.d rfl
  have ha := hslot 1 i.a rfl
  have hb := hslot 2 i.b rfl
  have hc := hslot 3 i.c rfl
  have htarget : s.Targets i.d ↔ st.DenotesBlock i.d := by
    cases hsome : i.d with
    | none => simp [Scope.Targets, StaticScope.DenotesBlock]
    | some x =>
      obtain ⟨-, text, -, hform⟩ := hi.operands 0 x (congrArg some hsome)
      exact h.targets_iff hform
  unfold Scope.Accepts StaticScope.Accepts
  rw [h.guard_iff]
  refine and_congr_right fun _ => ?_
  -- the plan of an opcode is there unless a tag or a type forbids it
  unfold plan
  cases hop : i.opcode <;> dsimp only
  case ret | exit | bar => simp [Scope.AcceptsUnder]
  case bra => simpa [Scope.AcceptsUnder] using htarget
  case membar =>
    refine Iff.trans (Fallible.exists_map_eq_ok_and (R := True) fun _ => Iff.rfl) ?_
    rw [exists_lowerLevel_iff hi.listed.level, and_true]
  case setp =>
    rw [← exists_lowerComparison_iff hi.listed.comparison i.type, ← hd, ← ha, ← hb]
    exact Fallible.exists_map_eq_ok_and fun _ => Iff.rfl
  case atom =>
    rw [← exists_lowerAtomic_iff hi.listed.atomic, ← hd, ← ha, ← hb, ← hc]
    exact Fallible.exists_map_eq_ok_and fun _ => Iff.rfl
  case add | and | or | shl | sub | xor | mul | div | rem | shr =>
    simp [Scope.AcceptsUnder, hd, ha, hb]
  case not =>
    simp [Scope.AcceptsUnder, hd, ha, exists_lowerType_iff hi.listed.type]
  case ld | ldu | mov | st => simp [Scope.AcceptsUnder, hd, ha]
  case cvt =>
    split_ifs with hmodifiers
    · rw [and_iff_right hmodifiers, ← and_assoc, ← exists_conversion_iff, ← hd, ← ha]
      exact Fallible.exists_map_eq_ok_and fun _ => Iff.rfl
    · simp [hmodifiers]
  all_goals simp

end Reflects

/-- **The scope of an opened kernel knows what is in reach of the kernel.** -/
theorem Opened.reflects {o : Options} {globals : List Virtual.Global} {m : Source.Module}
    {k : Source.Kernel} {opening : Opening} (h : Opened o globals k opening)
    (hlinked : k.graph.Linked) (hglobals : globals.map (·.name) = m.globals.map (·.name)) :
    Reflects opening.scope k (StaticScope.of Source.RegisterUse.id m k) where
  key := rfl
  registers id := by
    -- the table of the opened kernel has the declared ids, in their order
    have hids : opening.scope.registers.map Prod.fst = k.scope.registers.map (·.id) :=
      map_eq_of_forall₂ (fun _ _ he => he.1) h.registers.forall₂
    rw [lookup_isSome_iff_mem, hids]
    rfl
  params name := by
    simp [Source.Scope.isParam, StaticScope.of]
  arguments name := by
    have hnames : opening.scope.arguments.map (·.name) = k.scope.params.map (·.name) := by
      refine map_eq_of_forall₂ (fun p a ha => ?_) h.arguments
      obtain ⟨t, -, rfl⟩ := ha
      rfl
    show _ ↔ name ∈ k.scope.params.map (·.name)
    rw [← hnames]
    simp
  globals name := by
    show _ ↔ name ∈ m.globals.map (·.name)
    rw [← hglobals, h.globals]
    simp
  labels name := by
    rw [lookup_isSome_iff_mem, h.blocks, map_fst_numberedLabels,
      bodyLabels_of_sequence hlinked.sequence_eq]
    rfl

/-! ### Kernels -/

/-- The nodes of the body are the blocks of the graph. -/
theorem Opened.forall_body_iff {o : Options} {globals : List Virtual.Global} {k : Source.Kernel}
    {opening : Opening} (h : Opened o globals k opening) (hlinked : k.graph.Linked)
    {P : Source.Instruction → Prop} :
    (∀ e ∈ opening.body, ∀ i ∈ k.graph.code e.2, P i) ↔ ∀ b ∈ k.graph.blocks, ∀ i ∈ b.code, P i := by
  -- the body numbers block `j` by `j + 2`, behind the entry and the exit
  have hcode : ∀ (j : Nat) (hj : j < k.graph.blocks.length),
      k.graph.code (.block j) = k.graph.blocks[j].code := by
    intro j hj
    simp [Source.Graph.code, hj]
  rw [h.body, bodyNodes_of_sequence hlinked.sequence_eq]
  constructor
  · intro hall b hb i hi
    obtain ⟨j, hj, rfl⟩ := List.getElem_of_mem hb
    refine hall (j + 2, .block j) ?_ i (by rwa [hcode j hj])
    exact List.mem_mapIdx.mpr ⟨j, by simpa using hj, by simp⟩
  · intro hall e he i hi
    obtain ⟨j, hj, rfl⟩ := List.mem_mapIdx.mp he
    have hj' : j < k.graph.blocks.length := by simpa using hj
    have hnode : ((List.range k.graph.blocks.length).map Source.Node.block)[j] = .block j := by simp
    rw [hnode, hcode j hj'] at hi
    exact hall _ (List.getElem_mem hj') i hi

section Loaded

variable {d : Source.KernelDescription} {k : Source.Kernel}

/-- The instructions of a loaded kernel are read from lines. -/
theorem readIn_of_load (hk : d.load = .ok k) {b : Source.Block} (hb : b ∈ k.graph.blocks)
    {i : Source.Instruction} (hi : i ∈ b.code) : ∃ p, i.ReadIn k.scope p := by
  have hholds := Source.KernelDescription.holds_of_load hk
  obtain ⟨e, -, hcode⟩ := exists_of_forall₂_right hholds.blocks hb
  obtain ⟨line, -, hline⟩ := exists_of_forall₂_right hcode hi
  obtain ⟨p, -, hp⟩ := hline.readIn
  exact ⟨p, hp⟩

/-- **A loaded kernel is lowered if it is accepted**, registers being told apart by their
numbers. -/
theorem exists_lowerKernel_iff_accepted (hk : d.load = .ok k) {globals : List Virtual.Global}
    {m : Source.Module} (hglobals : globals.map (·.name) = m.globals.map (·.name)) (o : Options) :
    (∃ f, lowerKernel o globals k = .ok f) ↔ AcceptedKernel Source.RegisterUse.id m k := by
  have hholds := Source.KernelDescription.holds_of_load hk
  have hlinked := Source.KernelDescription.load_linked hk
  have hparamType : ∀ p ∈ k.scope.params, p.type ∈ Source.DataType.named := by
    intro p hp
    obtain ⟨e, -, -, htype⟩ := exists_of_forall₂_right hholds.params hp
    exact Source.DataType.mem_of_ofName? htype
  have hregisterType : ∀ r ∈ k.scope.registers, r.type ∈ Source.DataType.named := by
    intro r hr
    obtain ⟨e, -, -, htype⟩ := exists_of_forall₂_right hholds.registers hr
    exact Source.DataType.mem_of_ofName? htype
  -- the scope of the opening reflects the static scope, whatever the opening is
  have hcode : ∀ opening, openKernel o globals k = .ok opening →
      ((∀ e ∈ opening.body, ∀ i ∈ k.graph.code e.2, opening.scope.Accepts i) ↔
        ∀ b ∈ k.graph.blocks, ∀ i ∈ b.code,
          (StaticScope.of Source.RegisterUse.id m k).Accepts i) := by
    intro opening hopening
    have hopened := opened_of_openKernel hopening
    rw [hopened.forall_body_iff hlinked]
    refine forall₂_congr fun b hb => forall₂_congr fun i hi => ?_
    obtain ⟨p, hread⟩ := readIn_of_load hk hb hi
    exact (hopened.reflects hlinked hglobals).accepts_iff hread
  have hopen : (∃ opening, openKernel o globals k = .ok opening) ↔ _ := exists_openKernel_iff
  rw [bodyLabels_of_sequence hlinked.sequence_eq] at hopen
  rw [exists_lowerKernel_iff]
  constructor
  · rintro ⟨opening, hopening, haccepts⟩
    obtain ⟨hparams, ⟨hregisters, hnodup⟩, hlabels, hentry, hexit⟩ := hopen.mp ⟨opening, hopening⟩
    exact {
      params := fun p hp => (exists_lowerType_iff_of_named (hparamType p hp)).mp (hparams p hp)
      registers := fun r hr =>
        (exists_lowerType_iff_of_named (hregisterType r hr)).mp (hregisters r hr)
      distinct := hnodup
      labels := hlabels
      entry := hentry
      exit := hexit
      code := (hcode opening hopening).mp haccepts }
  · intro h
    have hparams : ∀ p ∈ k.scope.params, ∃ t, lowerType p.type = .ok t := fun p hp =>
      (exists_lowerType_iff_of_named (hparamType p hp)).mpr (h.params p hp)
    have hregisters : ∀ r ∈ k.scope.registers, ∃ t, lowerType r.type = .ok t := fun r hr =>
      (exists_lowerType_iff_of_named (hregisterType r hr)).mpr (h.registers r hr)
    obtain ⟨opening, hopening⟩ :=
      hopen.mpr ⟨hparams, ⟨hregisters, h.distinct⟩, h.labels, h.entry, h.exit⟩
    exact ⟨opening, hopening, (hcode opening hopening).mpr h.code⟩

/-! ### Names for numbers -/

/-- Static scopes that differ in what tells registers apart accept the same instructions, if they
declare the same of the registers that a kernel knows. -/
theorem StaticScope.accepts_congr {κ κ' : Type} (st : StaticScope κ) (st' : StaticScope κ')
    {s : Source.Scope} {p : Source.LineParts}
    (hregisters : ∀ r : Source.RegisterUse, r.Bound s →
      (st.key r ∈ st.registers ↔ st'.key r ∈ st'.registers))
    (hparams : st.params = st'.params) (hglobals : st.globals = st'.globals)
    (hlabels : st.labels = st'.labels) {i : Source.Instruction} (hi : i.ReadIn s p) :
    st.Accepts i ↔ st'.Accepts i := by
  have hslot : ∀ (n : Nat) o, i.slots[n]? = some o → (st.Translates o ↔ st'.Translates o) := by
    intro n o ho
    refine exists_congr fun x => and_congr_right fun hx => ?_
    subst hx
    obtain ⟨-, text, -, hform⟩ := hi.operands n x ho
    rw [hparams, hglobals, hlabels]
    -- only a register is looked up by its key; the other forms go by name in both scopes
    cases hx : x.form with
    | register r | indirect r offset =>
      rw [hx] at hform
      exact hregisters r hform.1
    | _ => exact Iff.rfl
  have hblock : st.DenotesBlock i.d ↔ st'.DenotesBlock i.d := by
    unfold StaticScope.DenotesBlock
    rw [hparams, hglobals, hlabels]
  have hguard : st.AcceptsGuard i.guard ↔ st'.AcceptsGuard i.guard := by
    have hread := hi.guard
    cases hg : i.guard with
    | always | never => exact Iff.rfl
    | straight r | inverse r =>
      rw [hg] at hread
      exact hregisters r hread.1
    -- reading never gives a guard of an unknown kind
    | unknown code r =>
      rw [hg] at hread
      exact absurd hread id
  unfold StaticScope.Accepts
  rw [hguard, hblock, hslot 0 i.d rfl, hslot 1 i.a rfl, hslot 2 i.b rfl, hslot 3 i.c rfl]

/-- **Names tell registers apart as numbers do**, if there are enough numbers. -/
theorem acceptedKernel_name_iff (hk : d.load = .ok k) (hsize : k.scope.names.length < UInt32.size)
    (m : Source.Module) :
    AcceptedKernel Source.RegisterUse.name m k ↔ AcceptedKernel Source.RegisterUse.id m k := by
  have htidy := (Source.KernelDescription.holds_of_load hk).tidy
  have hbound : ∀ r ∈ k.scope.registers, r.use.Bound k.scope := htidy.declared
  -- names and ids of bound registers identify each other as long as ids do not wrap
  have hregisters : ∀ r : Source.RegisterUse, r.Bound k.scope →
      (r.name ∈ k.scope.registers.map (fun r => r.use.name) ↔
        r.id ∈ k.scope.registers.map (fun r => r.use.id)) := by
    intro r hr
    rw [List.mem_map, List.mem_map]
    refine exists_congr fun r' => and_congr_right fun hr' => ?_
    exact ((hbound r' hr').id_eq_iff htidy hsize hr).symm
  have hdistinct : (k.scope.registers.map (fun r => r.use.name)).Nodup ↔
      (k.scope.registers.map (fun r => r.use.id)).Nodup := by
    rw [List.Nodup, List.Nodup, List.pairwise_map, List.pairwise_map]
    refine List.Pairwise.iff_of_mem fun hr hr' => ?_
    exact not_congr ((hbound _ hr).id_eq_iff htidy hsize (hbound _ hr')).symm
  have hcode : ∀ b ∈ k.graph.blocks, ∀ i ∈ b.code,
      ((StaticScope.of Source.RegisterUse.name m k).Accepts i ↔
        (StaticScope.of Source.RegisterUse.id m k).Accepts i) := by
    intro b hb i hi
    obtain ⟨p, hread⟩ := readIn_of_load hk hb hi
    exact StaticScope.accepts_congr (.of _ m k) (.of _ m k) hregisters rfl rfl rfl hread
  constructor
  · intro h
    exact { h with
      distinct := hdistinct.mp h.distinct
      code := fun b hb i hi => (hcode b hb i hi).mp (h.code b hb i hi) }
  · intro h
    exact { h with
      distinct := hdistinct.mpr h.distinct
      code := fun b hb i hi => (hcode b hb i hi).mpr (h.code b hb i hi) }

end Loaded

/-! ### Modules -/

section Module

variable {d : Source.Description} {path : String} {m : Source.Module}

theorem exists_load_of_mem (hm : d.load path = .ok m) {k : Source.Kernel} (hk : k ∈ m.kernels) :
    ∃ e : Source.KernelDescription, e.load = .ok k := by
  obtain ⟨e, -, he⟩ := exists_of_forall₂_right (Source.Description.load_forall₂ hm).2 hk
  exact ⟨e, he⟩

/-- A loaded module is lowered if it is accepted, registers being told apart by their numbers. -/
theorem exists_lower_iff_accepted_by_id (hm : d.load path = .ok m) (o : Options) :
    (∃ v, lower o m = .ok v) ↔ Accepted Source.RegisterUse.id m := by
  have hglobalType : ∀ g ∈ m.globals, g.type ∈ Source.DataType.named := by
    intro g hg
    obtain ⟨e, -, he⟩ := exists_of_forall₂_right (Source.Description.load_forall₂ hm).1 hg
    exact Source.DataType.mem_of_ofName? (Source.GlobalDescription.ofName?_of_load he)
  -- a kernel depends on the lowered globals through their names only
  have hkernel : ∀ globals, lowerGlobals m.globals = .ok globals → ∀ k ∈ m.kernels,
      ((∃ f, lowerKernel o globals k = .ok f) ↔ AcceptedKernel Source.RegisterUse.id m k) := by
    intro globals hok k hk
    have hnames : globals.map (·.name) = m.globals.map (·.name) := by
      refine map_eq_of_forall₂ (fun g x hx => ?_) (Fallible.mapM_eq_ok.mp hok)
      exact (isGlobalOf_of_lowerGlobal (Fallible.mapError_eq_ok.mp hx)).name
    obtain ⟨e, he⟩ := exists_load_of_mem hm hk
    exact exists_lowerKernel_iff_accepted he hnames o
  rw [exists_lower_iff]
  constructor
  · rintro ⟨globals, hok, hall⟩
    refine ⟨fun g hg => ?_, fun k hk => (hkernel globals hok k hk).mp (hall k hk)⟩
    have htype := exists_lowerGlobals_iff.mp ⟨globals, hok⟩ g hg
    exact (exists_lowerType_iff_of_named (hglobalType g hg)).mp htype
  · intro h
    have htypes : ∀ g ∈ m.globals, ∃ t, lowerType g.type = .ok t := fun g hg =>
      (exists_lowerType_iff_of_named (hglobalType g hg)).mpr (h.globals g hg)
    obtain ⟨globals, hok⟩ := exists_lowerGlobals_iff.mpr htypes
    exact ⟨globals, hok, fun k hk => (hkernel globals hok k hk).mpr (h.kernels k hk)⟩

theorem accepted_name_iff (hm : d.load path = .ok m)
    (hsize : ∀ k ∈ m.kernels, k.scope.names.length < UInt32.size) :
    Accepted Source.RegisterUse.name m ↔ Accepted Source.RegisterUse.id m := by
  have hkernel : ∀ k ∈ m.kernels, (AcceptedKernel Source.RegisterUse.name m k ↔
      AcceptedKernel Source.RegisterUse.id m k) := by
    intro k hk
    obtain ⟨e, he⟩ := exists_load_of_mem hm hk
    exact acceptedKernel_name_iff he (hsize k hk) m
  constructor
  · intro h
    exact ⟨h.globals, fun k hk => (hkernel k hk).mp (h.kernels k hk)⟩
  · intro h
    exact ⟨h.globals, fun k hk => (hkernel k hk).mpr (h.kernels k hk)⟩

end Module

/-- **A loaded module is lowered exactly if it is accepted.**  Registers are told apart by the
numbers that loading gave to their names; where a kernel has fewer names than there are numbers,
that is by their names. -/
theorem exists_lower_iff_accepted {d : Source.Description} {path : String} {m : Source.Module}
    (hm : d.load path = .ok m) (o : Options) :
    ((∃ v, lower o m = .ok v) ↔ Accepted Source.RegisterUse.id m) ∧
      ((∀ k ∈ m.kernels, k.scope.names.length < UInt32.size) →
        ((∃ v, lower o m = .ok v) ↔ Accepted Source.RegisterUse.name m)) := by
  have hid := exists_lower_iff_accepted_by_id hm o
  refine ⟨hid, fun hsize => ?_⟩
  rw [hid, accepted_name_iff hm hsize]

theorem countModule_accepted :
    ∃ m, countModule.load "count" = .ok m ∧
      (∀ k ∈ m.kernels, k.scope.names.length < UInt32.size) ∧
      Accepted Source.RegisterUse.id m ∧ Accepted Source.RegisterUse.name m := by
  obtain ⟨m, v, hm, hv⟩ := exists_lower_countModule
  have hnames : (countModule.load "count").toOption.all fun m =>
      m.kernels.all fun k => k.scope.names.length < UInt32.size := by
    decide +kernel
  have hsize : ∀ k ∈ m.kernels, k.scope.names.length < UInt32.size := by
    rw [hm] at hnames
    intro k hk
    exact of_decide_eq_true (List.all_eq_true.mp hnames k hk)
  obtain ⟨hid, hname⟩ := exists_lower_iff_accepted hm {}
  exact ⟨m, hm, hsize, hid.mp ⟨v, hv⟩, (hname hsize).mp ⟨v, hv⟩⟩

end Lowering

end KernelIR
