import KernelIR.Proofs.Lowering.Module

/-!
# When lowering succeeds

Whether a step of lowering succeeds depends on the scope and not on the frame: what earlier
instructions have left behind lets no later one succeed or fail.  `Decided m C` says so of a step,
and that it succeeds exactly if `C` holds.  There is one lemma for every way to put steps together,
and then one for operands (`Scope.decided_operand`), for plans and for instructions
(`Scope.decided_instruction`).
-/

namespace KernelIR.Lowering

open Virtual (Instr Operand)

variable {α β : Type} {C D : Prop} {fr fr' : Frame}

/-! ### Steps -/

/-- The step succeeds in every frame if the condition holds, and in none otherwise. -/
def Decided (m : Lower α) (C : Prop) : Prop :=
  ∀ fr, (∃ a fr', Yields m fr a fr') ↔ C

theorem Decided.congr {m : Lower α} (h : Decided m C) (hCD : C ↔ D) : Decided m D :=
  fun fr => (h fr).trans hCD

theorem decided_pure (a : α) : Decided (pure a) True :=
  fun fr => iff_of_true ⟨a, fr, yields_pure.mpr ⟨rfl, rfl⟩⟩ trivial

theorem decided_fail (c : Cause) : Decided (fail c : Lower α) False := by
  intro fr
  refine iff_of_false ?_ id
  rintro ⟨a, fr', h⟩
  exact yields_fail h

theorem decided_orFail (x : Except Cause α) : Decided (orFail x) (∃ a, x = .ok a) := by
  intro fr
  constructor
  · rintro ⟨a, fr', h⟩
    exact ⟨a, (yields_orFail.mp h).1⟩
  · rintro ⟨a, ha⟩
    exact ⟨a, fr, yields_orFail.mpr ⟨ha, rfl⟩⟩

theorem decided_orDefect {x : Except Virtual.Defect α} (h : ∃ a, x = .ok a) :
    Decided (orDefect x) True := by
  intro fr
  obtain ⟨a, ha⟩ := h
  exact iff_of_true ⟨a, fr, yields_orDefect.mpr ⟨ha, rfl⟩⟩ trivial

theorem Decided.within {m : Lower α} (h : Decided m C) (p : Place) : Decided (within p m) C := by
  intro fr
  simpa only [yields_within] using h fr

/-- Two steps succeed if both do, where the second depends on the first only for its result. -/
theorem Decided.bind {m : Lower α} {f : α → Lower β} (hm : Decided m C)
    (hf : ∀ a fr fr', Yields m fr a fr' → Decided (f a) D) : Decided (m >>= f) (C ∧ D) := by
  intro fr
  constructor
  · rintro ⟨b, fr', h⟩
    obtain ⟨a, fr₁, ha, hb⟩ := yields_bind.mp h
    exact ⟨(hm fr).mp ⟨a, fr₁, ha⟩, (hf a fr fr₁ ha fr₁).mp ⟨b, fr', hb⟩⟩
  · rintro ⟨hC, hD⟩
    obtain ⟨a, fr₁, ha⟩ := (hm fr).mpr hC
    obtain ⟨b, fr', hb⟩ := (hf a fr fr₁ ha fr₁).mpr hD
    exact ⟨b, fr', yields_bind.mpr ⟨a, fr₁, ha, hb⟩⟩

/-- What does not need the frame may decide how to go on. -/
theorem decided_orFail_bind {x : Except Cause α} {f : α → Lower β} {D : α → Prop}
    (hf : ∀ a, x = .ok a → Decided (f a) (D a)) :
    Decided (orFail x >>= f) (∃ a, x = .ok a ∧ D a) := by
  intro fr
  constructor
  · rintro ⟨b, fr', h⟩
    obtain ⟨a, fr₁, ha, hb⟩ := yields_bind.mp h
    obtain ⟨hx, -⟩ := yields_orFail.mp ha
    exact ⟨a, hx, (hf a hx fr₁).mp ⟨b, fr', hb⟩⟩
  · rintro ⟨a, hx, hD⟩
    obtain ⟨b, fr', hb⟩ := (hf a hx fr).mpr hD
    exact ⟨b, fr', yields_bind.mpr ⟨a, fr, yields_orFail.mpr ⟨hx, rfl⟩, hb⟩⟩

theorem decided_newRegister (type : Virtual.ValueType) (name : String) :
    Decided (newRegister type name) True :=
  fun _ => iff_of_true ⟨_, _, yields_newRegister.mpr ⟨rfl, rfl⟩⟩ trivial

theorem decided_specialRegister (r : Source.Special) (lane : Source.Lane) :
    Decided (specialRegister r lane) True := by
  intro fr
  refine iff_of_true ?_ trivial
  cases h : fr.specials.lookup (specialKey r lane) with
  | some x => exact ⟨x, fr, yields_specialRegister.mpr (.inl ⟨h, rfl⟩)⟩
  | none => exact ⟨_, _, yields_specialRegister.mpr (.inr ⟨h, rfl, rfl⟩)⟩

theorem decided_newInstr {op : Virtual.Opcode} (h : op.shape ≠ .invalid) (block : Nat) :
    Decided (newInstr op block) True :=
  fun _ => iff_of_true ⟨_, _, yields_newInstr.mpr ⟨h, rfl, rfl⟩⟩ trivial

/-- A list of steps succeeds if all of them do. -/
theorem Decided.mapM {f : α → Lower β} {P : α → Prop} (hf : ∀ x, Decided (f x) (P x))
    (xs : List α) : Decided (xs.mapM f) (∀ x ∈ xs, P x) := by
  induction xs with
  | nil =>
    rw [List.mapM_nil]
    exact (decided_pure _).congr (by simp)
  | cons x xs ih =>
    rw [List.mapM_cons]
    have hrest : ∀ y, Decided (xs.mapM f >>= fun ys => pure (y :: ys)) (∀ x ∈ xs, P x) := fun y =>
      (ih.bind fun ys _ _ _ => decided_pure (y :: ys)).congr (and_iff_left trivial)
    exact ((hf x).bind fun y _ _ _ => hrest y).congr (by simp)

/-! ### Operands -/

namespace Scope

variable {s : Scope} {i : Source.Instruction} {x : Instr}

/-- The operand has an image in the scope. -/
def Resolves (s : Scope) (x : Source.Operand) : Prop :=
  match x.form with
  | .register r | .indirect r _ => (s.registers.lookup r.id).isSome
  | .immediate _ => ∃ t, literalType x.type = .ok t
  | .address name offset isParam => offset = 0 ∧ ∃ y, s.symbol name isParam = .ok y
  | .label name => (s.blocks.lookup name).isSome
  | .special .. | .sink => True
  | .unknown _ => False

/-- The operand is there and has an image. -/
def ResolvesSlot (s : Scope) (o : Option Source.Operand) : Prop :=
  ∃ x, o = some x ∧ s.Resolves x

theorem exists_register_iff {r : Source.RegisterUse} :
    (∃ v, s.register r = .ok v) ↔ (s.registers.lookup r.id).isSome := by
  rw [Option.isSome_iff_exists]
  exact exists_congr fun v => register_eq_ok

theorem exists_label_iff {name : String} :
    (∃ y, s.label name = .ok y) ↔ (s.blocks.lookup name).isSome := by
  unfold label
  cases s.blocks.lookup name <;> simp

/-- An operand is lowered if it has an image. -/
theorem decided_operand (s : Scope) (x : Source.Operand) : Decided (s.operand x) (s.Resolves x) := by
  obtain ⟨t, form⟩ := x
  unfold operand Resolves
  cases form with
  | register r | indirect r offset =>
    refine ((decided_orFail _).bind fun v _ _ _ => decided_pure _).congr ?_
    rw [and_iff_left trivial]
    exact exists_register_iff
  | immediate bits =>
    exact ((decided_orFail _).bind fun v _ _ _ => decided_pure _).congr (and_iff_left trivial)
  | address name offset isParam =>
    dsimp only
    -- an offset is refused before the name is looked up
    split_ifs with hoffset
    · exact (decided_fail _).congr (by simp [hoffset])
    · refine (decided_orFail _).congr ?_
      rw [not_not] at hoffset
      simp [hoffset]
  | label name => exact (decided_orFail _).congr exists_label_iff
  | special r lane =>
    exact ((decided_specialRegister r lane).bind fun v _ _ _ => decided_pure _).congr (by simp)
  | sink => exact ((decided_newRegister _ _).bind fun v _ _ _ => decided_pure _).congr (by simp)
  | unknown code => exact decided_fail _

theorem decided_inRole (s : Scope) (role : Role) (o : Option Source.Operand) :
    Decided (s.inRole role o) (s.ResolvesSlot o) := by
  refine Decided.within ?_ _
  cases o with
  | none => exact (decided_fail _).congr (by simp [ResolvesSlot])
  | some x => exact (s.decided_operand x).congr (by simp [ResolvesSlot])

/-! ### Instructions -/

/-- The destination and `a` are set where the instruction has slots for them. -/
theorem decided_setUnary
    (hset : ∀ d a, ∃ y, x.setDestination (some d) >>= (·.setA (some a)) = .ok y) :
    Decided (s.setUnary i x) (s.ResolvesSlot i.d ∧ s.ResolvesSlot i.a) := by
  refine (s.decided_inRole .d i.d).bind fun d _ _ _ => ?_
  refine ((s.decided_inRole .a i.a).bind fun a _ _ _ => ?_).congr (and_iff_left trivial)
  exact decided_orDefect (hset d a)

theorem decided_setBinary (h : x.shape ∈ [.binary, .comparison, .atomic]) :
    Decided (s.setBinary i x) (s.ResolvesSlot i.d ∧ s.ResolvesSlot i.a ∧ s.ResolvesSlot i.b) := by
  have hunary : x.shape ∈ [.unary, .binary, .comparison, .atomic] := List.mem_cons_of_mem _ h
  refine ((decided_setUnary fun d a => ⟨_, setDestination_setA d a hunary⟩).bind
    fun y _ _ hy => ?_).congr and_assoc
  obtain ⟨d, a, _, -, -, rfl⟩ := (yields_setUnary_of_mem hunary).mp hy
  have hshape : Instr.shape { x with destination := some d, first := some a } ∈
      [.binary, .comparison, .atomic] := h
  refine ((s.decided_inRole .b i.b).bind fun b _ _ _ => ?_).congr (and_iff_left trivial)
  exact decided_orDefect ⟨_, (setB_eq_ok hshape).mpr rfl⟩

theorem decided_setThird (h : x.shape = .atomic) :
    Decided (s.setThird i x) (i.c = none ∨ s.ResolvesSlot i.c) := by
  unfold setThird
  cases hc : i.c with
  | none => exact (decided_pure x).congr (by simp)
  | some c =>
    refine ((s.decided_inRole .c (some c)).bind fun y _ _ _ => ?_).congr (C := _ ∧ True) (by simp)
    exact decided_orDefect ⟨_, (setC_eq_ok h).mpr rfl⟩

theorem decided_setBinary_setThird (h : x.shape = .atomic) :
    Decided (s.setBinary i x >>= s.setThird i)
      (s.ResolvesSlot i.d ∧ s.ResolvesSlot i.a ∧ s.ResolvesSlot i.b ∧
        (i.c = none ∨ s.ResolvesSlot i.c)) := by
  have hshape : x.shape ∈ [.binary, .comparison, .atomic] := by
    rw [h]
    decide
  have hthird : ∀ y fr fr', Yields (s.setBinary i x) fr y fr' →
      Decided (s.setThird i y) (i.c = none ∨ s.ResolvesSlot i.c) := by
    intro y _ _ hy
    obtain ⟨d, a, b, _, _, -, -, -, rfl⟩ := (yields_setBinary hshape).mp hy
    exact decided_setThird h
  exact ((decided_setBinary hshape).bind hthird).congr (by simp only [and_assoc])

/-- The operand stands for a block. -/
def Targets (s : Scope) (o : Option Source.Operand) : Prop :=
  ∃ x, o = some x ∧
    match x.form with
    | .label name => (s.blocks.lookup name).isSome
    | .address name offset isParam =>
      offset = 0 ∧ isParam = false ∧ s.globals.findIdx? (·.name = name) = none ∧
        (s.blocks.lookup name).isSome
    | _ => False

theorem decided_setTarget (h : x.shape = .branch) : Decided (s.setTarget i x) (s.Targets i.d) := by
  intro fr
  simp only [yields_setTarget h]
  constructor
  · rintro ⟨y, fr', t, ⟨o, ho, hmaps⟩, hblock, -⟩
    refine ⟨o, ho, ?_⟩
    -- only a label, or a symbol that is found among the blocks, becomes the address of a block
    cases hmaps with
    | block hnone hid => exact ⟨rfl, rfl, hnone, by simp [hid]⟩
    | label hid => simp [hid]
    | _ => cases hblock
  · rintro ⟨⟨t, form⟩, ho, hform⟩
    cases form with
    | label name =>
      obtain ⟨id, hid⟩ := Option.isSome_iff_exists.mp hform
      exact ⟨_, fr, _, ⟨_, ho, .label hid⟩, rfl, rfl⟩
    | address name offset isParam =>
      obtain ⟨rfl, rfl, hnone, hsome⟩ := hform
      obtain ⟨id, hid⟩ := Option.isSome_iff_exists.mp hsome
      exact ⟨_, fr, _, ⟨_, ho, .block hnone hid⟩, rfl, rfl⟩
    | _ => exact absurd hform id

/-- The operands that the plan takes over have images. -/
def AcceptsUnder (s : Scope) (i : Source.Instruction) : Plan → Prop
  | .bare _ | .fence _ => True
  | .branch _ => s.Targets i.d
  | .unary _ => s.ResolvesSlot i.d ∧ s.ResolvesSlot i.a
  | .binary _ | .compare _ => s.ResolvesSlot i.d ∧ s.ResolvesSlot i.a ∧ s.ResolvesSlot i.b
  | .atomic _ =>
    s.ResolvesSlot i.d ∧ s.ResolvesSlot i.a ∧ s.ResolvesSlot i.b ∧
      (i.c = none ∨ s.ResolvesSlot i.c)
  | .complement => s.ResolvesSlot i.d ∧ s.ResolvesSlot i.a ∧ ∃ t, lowerType i.type = .ok t

/-- The instruction of a plan is made, and then it depends on its operands. -/
theorem decided_newInstr_bind {op : Virtual.Opcode} {block : Nat} {f : Instr → Lower Instr}
    (hop : op.shape ≠ .invalid) (hf : ∀ id, Decided (f { opcode := op, id, block := some block }) C) :
    Decided (newInstr op block >>= f) C := by
  refine ((decided_newInstr hop block).bind fun x fr _ hx => ?_).congr (and_iff_right trivial)
  obtain ⟨-, rfl, -⟩ := yields_newInstr.mp hx
  exact hf fr.nextInstr

theorem decided_follow {p : Plan} (hp : p.Fits i.opcode) (block : Nat) :
    Decided (s.follow block i p) (s.AcceptsUnder i p) := by
  unfold follow AcceptsUnder
  cases p with
  | bare op =>
    refine decided_newInstr ?_ block
    rcases hp with ⟨rfl, -⟩ | ⟨rfl, -⟩ <;> decide
  | fence level => exact decided_newInstr_bind (by decide) fun id => decided_pure _
  | branch modifier => exact decided_newInstr_bind (by decide) fun id => decided_setTarget rfl
  | unary op =>
    rcases hp.1 with hop | rfl
    · refine decided_newInstr_bind (by rw [hop]; decide) fun id => decided_setUnary fun d a => ?_
      exact ⟨_, setDestination_setA d a (by rw [Instr.shape, hop]; decide)⟩
    · refine decided_newInstr_bind (by decide) fun id => decided_setUnary fun d a => ?_
      exact ⟨_, setDestination_setA_store d a rfl⟩
  | binary op =>
    have hop : op.shape = .binary := hp.1
    refine decided_newInstr_bind (by rw [hop]; decide) fun id => decided_setBinary ?_
    rw [Instr.shape, hop]
    decide
  | compare comparison =>
    refine decided_newInstr_bind (by decide) fun id => decided_setBinary ?_
    simp [Instr.shape, Virtual.Opcode.shape]
  | atomic atomic =>
    refine decided_newInstr_bind (by decide) fun id => ?_
    exact decided_setBinary_setThird rfl
  -- the second operand is not one of the instruction's: its type has to have a width
  | complement =>
    refine decided_newInstr_bind (by decide) fun id => ?_
    have hshape : Instr.shape { opcode := .xor, id, block := some block } ∈
        [.unary, .binary, .comparison, .atomic] := by simp [Instr.shape, Virtual.Opcode.shape]
    refine ((decided_setUnary fun d a => ⟨_, setDestination_setA d a hshape⟩).bind
      fun y _ _ hy => ?_).congr and_assoc
    obtain ⟨d, a, _, -, -, rfl⟩ := (yields_setUnary_of_mem hshape).mp hy
    refine ((decided_orFail _).bind fun t _ _ _ => ?_).congr (and_iff_left trivial)
    exact decided_orDefect ⟨_, (setB_eq_ok (by simp [Instr.shape, Virtual.Opcode.shape])).mpr rfl⟩

/-- The guard has an image, and the operands that the mnemonic calls for have. -/
def Accepts (s : Scope) (i : Source.Instruction) : Prop :=
  (∃ g, s.guard i.guard = .ok g) ∧ ∃ p, plan i.toMnemonic = .ok p ∧ s.AcceptsUnder i p

/-- **Whether an instruction is lowered depends on the scope alone.** -/
theorem decided_instruction (s : Scope) (block : Nat) (i : Source.Instruction) :
    Decided (s.instruction block i) (s.Accepts i) := by
  refine ((decided_orFail (s.guard i.guard)).within _).bind fun g _ _ _ => ?_
  refine decided_orFail_bind fun p hp => ?_
  refine ((decided_follow (plan_fits hp) block).bind fun x _ _ _ => ?_).congr (and_iff_left trivial)
  exact decided_pure _

end Scope

/-- A block is lowered if all its instructions are. -/
theorem decided_lowerBlock (g : Source.Graph) (s : Scope) (block : Nat) (n : Source.Node) :
    Decided (lowerBlock g s block n) (∀ i ∈ g.code n, s.Accepts i) := by
  have hcode : Decided ((g.code n).mapM (lowerInstruction s block)) (∀ i ∈ g.code n, s.Accepts i) :=
    Decided.mapM (fun i => (s.decided_instruction block i).within _) (g.code n)
  exact ((hcode.within _).bind fun code _ _ _ => decided_pure _).congr (and_iff_left trivial)

/-! ### Declarations -/

/-- Names are declared one behind the other if each is in order and no two are the same. -/
theorem exists_foldlM_declare_iff {ε κ γ : Type} {f : List (κ × γ) → α → Except ε (List (κ × γ))}
    {key : α → κ} {P : α → Prop}
    (hf : ∀ known x, (∃ known', f known x = .ok known') ↔ P x ∧ key x ∉ known.map Prod.fst)
    (hkeys : ∀ known x known', f known x = .ok known' →
      known'.map Prod.fst = known.map Prod.fst ++ [key x])
    (xs : List α) (known : List (κ × γ)) :
    (∃ known', xs.foldlM f known = .ok known') ↔
      (∀ x ∈ xs, P x ∧ key x ∉ known.map Prod.fst) ∧ (xs.map key).Nodup := by
  -- the names known at the start grow along the list, so the induction is for all of them
  induction xs generalizing known with
  | nil => simp [pure, Except.pure]
  | cons x xs ih =>
    have hstep : (∃ known', (x :: xs).foldlM f known = .ok known') ↔
        ∃ known₁, f known x = .ok known₁ ∧ ∃ known', xs.foldlM f known₁ = .ok known' := by
      simp only [List.foldlM_cons, Fallible.bind_eq_ok]
      constructor
      · rintro ⟨known', known₁, h₁, h⟩
        exact ⟨known₁, h₁, known', h⟩
      · rintro ⟨known₁, h₁, known', h⟩
        exact ⟨known', known₁, h₁, h⟩
    rw [hstep, List.forall_mem_cons, List.map_cons, List.nodup_cons]
    constructor
    · rintro ⟨known₁, h₁, hrest⟩
      obtain ⟨hall, hnodup⟩ := (ih known₁).mp hrest
      rw [hkeys known x known₁ h₁] at hall
      refine ⟨⟨(hf known x).mp ⟨known₁, h₁⟩, fun y hy => ?_⟩, ?_, hnodup⟩
      · obtain ⟨hP, hnew⟩ := hall y hy
        exact ⟨hP, fun hmem => hnew (List.mem_append_left _ hmem)⟩
      · -- a later name that were the same would have met it among the known ones
        intro hmem
        obtain ⟨y, hy, hkey⟩ := List.mem_map.mp hmem
        refine (hall y hy).2 (List.mem_append_right _ ?_)
        rw [hkey]
        exact List.mem_singleton_self _
    · rintro ⟨⟨hx, hall⟩, hnew, hnodup⟩
      obtain ⟨known₁, h₁⟩ := (hf known x).mpr hx
      refine ⟨known₁, h₁, (ih known₁).mpr ⟨fun y hy => ?_, hnodup⟩⟩
      rw [hkeys known x known₁ h₁, List.mem_append, List.mem_singleton, not_or]
      refine ⟨(hall y hy).1, (hall y hy).2, fun hkey => hnew ?_⟩
      rw [← hkey]
      exact List.mem_map_of_mem hy

theorem exists_lowerParams_iff {ps : List Source.Param} :
    (∃ as, lowerParams ps = .ok as) ↔ ∀ p ∈ ps, ∃ t, lowerType p.type = .ok t := by
  unfold lowerParams
  rw [Fallible.exists_mapM_eq_ok]
  refine forall₂_congr fun p _ => ?_
  cases lowerType p.type <;> simp

theorem exists_lowerRegisters_iff (stem : String) {rs : List Source.Register} :
    (∃ known, lowerRegisters stem rs = .ok known) ↔
      (∀ r ∈ rs, ∃ t, lowerType r.type = .ok t) ∧ (rs.map (·.id)).Nodup := by
  have hstep : ∀ known r, (∃ known', lowerRegister stem known r = .ok known') ↔
      (∃ t, lowerType r.type = .ok t) ∧ r.id ∉ known.map Prod.fst := by
    intro known r
    rw [← lookup_isSome_iff_mem]
    unfold lowerRegister
    dsimp only
    split_ifs with hknown
    · simp [hknown]
    · cases lowerType r.type <;> simp [hknown]
  -- the fold declares keys in order, so that all of them are new exactly if none repeats
  have hkeys : ∀ known r known', lowerRegister stem known r = .ok known' →
      known'.map Prod.fst = known.map Prod.fst ++ [r.id] := by
    intro known r known' h
    unfold lowerRegister at h
    dsimp only at h
    split_ifs at h
    split at h
    · cases h
    · cases h
      rw [List.map_append]
      rfl
  unfold lowerRegisters
  rw [exists_foldlM_declare_iff hstep hkeys]
  simp

theorem exists_declareBlock_iff {labels : List String} :
    (∃ known, labels.foldlM declareBlock [] = .ok known) ↔
      labels.Nodup ∧ "entry" ∉ labels ∧ "exit" ∉ labels := by
  have hstep : ∀ known label, (∃ known', declareBlock known label = .ok known') ↔
      (label ≠ "entry" ∧ label ≠ "exit") ∧ label ∉ known.map Prod.fst := by
    intro known label
    rw [← lookup_isSome_iff_mem]
    unfold declareBlock
    -- one test refuses the two reserved names and a known one alike
    split_ifs with hbad
    · simp only [exists_false, false_iff]
      tauto
    · simp only [Except.ok.injEq, exists_eq', true_iff]
      tauto
  have hkeys : ∀ known label known', declareBlock known label = .ok known' →
      known'.map Prod.fst = known.map Prod.fst ++ [label] := by
    intro known label known' h
    unfold declareBlock at h
    split_ifs at h
    cases h
    rw [List.map_append]
    rfl
  rw [exists_foldlM_declare_iff hstep hkeys, List.map_id']
  constructor
  · rintro ⟨hall, hnodup⟩
    exact ⟨hnodup, fun hmem => (hall _ hmem).1.1 rfl, fun hmem => (hall _ hmem).1.2 rfl⟩
  · rintro ⟨hnodup, hentry, hexit⟩
    refine ⟨fun label hmem => ⟨⟨?_, ?_⟩, List.not_mem_nil⟩, hnodup⟩
    · rintro rfl
      exact hentry hmem
    · rintro rfl
      exact hexit hmem

/-! ### Kernels and modules -/

/-- **A kernel is opened if its declarations are in order.** -/
theorem exists_openKernel_iff {o : Options} {globals : List Virtual.Global} {k : Source.Kernel} :
    (∃ opening, openKernel o globals k = .ok opening) ↔
      (∀ p ∈ k.scope.params, ∃ t, lowerType p.type = .ok t) ∧
      ((∀ r ∈ k.scope.registers, ∃ t, lowerType r.type = .ok t) ∧
        (k.scope.registers.map (·.id)).Nodup) ∧
      (bodyLabels k.graph).Nodup ∧ "entry" ∉ bodyLabels k.graph ∧ "exit" ∉ bodyLabels k.graph := by
  rw [← exists_lowerParams_iff, ← exists_lowerRegisters_iff o.stem,
    ← exists_declareBlock_iff]
  unfold openKernel bodyLabels
  simp only [Fallible.bind_eq_ok]
  constructor
  · rintro ⟨opening, arguments, harguments, registers, hregisters, blocks, hblocks, -⟩
    exact ⟨⟨arguments, harguments⟩, ⟨registers, hregisters⟩, blocks, hblocks⟩
  · rintro ⟨⟨arguments, harguments⟩, ⟨registers, hregisters⟩, blocks, hblocks⟩
    exact ⟨_, arguments, harguments, registers, hregisters, blocks, hblocks, rfl⟩

/-- **A kernel is lowered if it is opened and all its instructions are accepted in its scope.** -/
theorem exists_lowerKernel_iff {o : Options} {globals : List Virtual.Global} {k : Source.Kernel} :
    (∃ f, lowerKernel o globals k = .ok f) ↔
      ∃ opening, openKernel o globals k = .ok opening ∧
        ∀ e ∈ opening.body, ∀ i ∈ k.graph.code e.2, opening.scope.Accepts i := by
  unfold lowerKernel
  simp only [Fallible.bind_eq_ok]
  constructor
  · rintro ⟨f, opening, hopening, ⟨blocks, fr⟩, hrun, -⟩
    refine ⟨opening, hopening, ?_⟩
    have hbody := Decided.mapM (fun e : Nat × Source.Node =>
      decided_lowerBlock k.graph opening.scope e.1 e.2) opening.body
    exact (hbody opening.frame).mp ⟨blocks, fr, hrun⟩
  · rintro ⟨opening, hopening, haccepts⟩
    have hbody := Decided.mapM (fun e : Nat × Source.Node =>
      decided_lowerBlock k.graph opening.scope e.1 e.2) opening.body
    obtain ⟨blocks, fr, hrun⟩ := (hbody opening.frame).mpr haccepts
    exact ⟨_, opening, hopening, (blocks, fr), hrun, rfl⟩

theorem exists_lowerGlobals_iff {gs : List Source.Global} :
    (∃ globals, lowerGlobals gs = .ok globals) ↔ ∀ g ∈ gs, ∃ t, lowerType g.type = .ok t := by
  unfold lowerGlobals
  rw [Fallible.exists_mapM_eq_ok]
  refine forall₂_congr fun g _ => ?_
  simp only [Fallible.mapError_eq_ok, lowerGlobal, Fallible.bind_eq_ok]
  constructor
  · rintro ⟨x, t, ht, -⟩
    exact ⟨t, ht⟩
  · rintro ⟨t, ht⟩
    exact ⟨_, t, ht, rfl⟩

/-- **A module is lowered if its globals are and every kernel is**, with the globals in reach. -/
theorem exists_lower_iff {o : Options} {m : Source.Module} :
    (∃ v, lower o m = .ok v) ↔
      ∃ globals, lowerGlobals m.globals = .ok globals ∧
        ∀ k ∈ m.kernels, ∃ f, lowerKernel o globals k = .ok f := by
  have hkernels : ∀ globals, (∃ fs, lowerKernels o globals m.kernels = .ok fs) ↔
      ∀ k ∈ m.kernels, ∃ f, lowerKernel o globals k = .ok f := by
    intro globals
    unfold lowerKernels
    simp only [Fallible.exists_mapM_eq_ok, Fallible.mapError_eq_ok]
  unfold lower
  simp only [Fallible.bind_eq_ok, ← hkernels]
  constructor
  · rintro ⟨v, globals, hglobals, fs, hfs, -⟩
    exact ⟨globals, hglobals, fs, hfs⟩
  · rintro ⟨globals, hglobals, fs, hfs⟩
    exact ⟨_, globals, hglobals, fs, hfs, rfl⟩

end KernelIR.Lowering
