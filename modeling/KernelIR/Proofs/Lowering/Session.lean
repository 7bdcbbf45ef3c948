import KernelIR.Lowering.Session
import KernelIR.Proofs.Lowering.Kernel

/-!
# Independence of kernels and modules

A session gives for every module what `lower` gives, whatever its tables hold before
(`Session.lower_eq`).  So the kernels of a module give what they give alone, and a session that has
lowered other modules gives what a new one gives (`session_independent`).

`Agrees` compares work in a session with a computation that has none: both succeed, or both fail
with the same fault.  It is shown step by step along the lists of declarations and instructions.
While a kernel is at hand, the session is known entirely from what the computation has found so far:
it is `declaring` while the declarations are lowered, and then `building` with the blocks so far.
-/

namespace KernelIR.Lowering

open Virtual (Argument Register)

variable {α β γ δ : Type} {o : Options}

/-! ### Work that follows a computation -/

/-- Some work ends as a computation does that has no session: with a result that `P` relates to the
result of the computation, or with the same fault and the options `o`. -/
def Agrees (o : Options) (P : β → α → Session → Prop) :
    Except Fault β → EStateM.Result Fault Session α → Prop
  | .ok b, .ok a s => P b a s
  | .error e, .error e' s => e' = e ∧ s.options = o
  | _, _ => False

/-- The work and the computation end in the same way. -/
theorem Agrees.cases {P : β → α → Session → Prop} {x : Except Fault β}
    {r : EStateM.Result Fault Session α} (h : Agrees o P x r) :
    (∃ b a s, x = .ok b ∧ r = .ok a s ∧ P b a s) ∨
      ∃ e s, x = .error e ∧ r = .error e s ∧ s.options = o := by
  cases x with
  | ok b =>
    cases r with
    | ok a s => exact .inl ⟨b, a, s, rfl, rfl, h⟩
    | error e s => exact h.elim
  | error e =>
    cases r with
    | ok a s => exact h.elim
    | error e' s =>
      obtain ⟨rfl, hs⟩ := h
      exact .inr ⟨_, s, rfl, rfl, hs⟩

theorem Agrees.bind {P : β → α → Session → Prop} {Q : δ → γ → Session → Prop}
    {x : Except Fault β} {y : β → Except Fault δ} {w : Work α} {v : α → Work γ} {s : Session}
    (hx : Agrees o P x (w s)) (hy : ∀ b a s', x = .ok b → P b a s' → Agrees o Q (y b) (v a s')) :
    Agrees o Q (x >>= y) ((w >>= v) s) := by
  change Agrees o Q (x >>= y) (EStateM.bind w v s)
  unfold EStateM.bind
  obtain ⟨b, a, s', rfl, hw, hb⟩ | ⟨e, s', rfl, hw, hs'⟩ := hx.cases
  · rw [hw]
    exact hy b a s' rfl hb
  · rw [hw]
    exact ⟨rfl, hs'⟩

/-- The work may go on after the computation has ended. -/
theorem Agrees.andThen {P : β → α → Session → Prop} {Q : β → γ → Session → Prop}
    {x : Except Fault β} {w : Work α} {v : α → Work γ} {s : Session} (hx : Agrees o P x (w s))
    (hv : ∀ b a s', P b a s' → Agrees o Q (.ok b) (v a s')) : Agrees o Q x ((w >>= v) s) := by
  rw [← bind_pure x]
  exact hx.bind fun b a s' _ => hv b a s'

/-- The computation may go on after the work has ended. -/
theorem Agrees.map {P : β → α → Session → Prop} {Q : δ → α → Session → Prop}
    {x : Except Fault β} {f : β → δ} {r : EStateM.Result Fault Session α} (hx : Agrees o P x r)
    (hf : ∀ b a s, P b a s → Q (f b) a s) : Agrees o Q (x >>= fun b => pure (f b)) r := by
  obtain ⟨b, a, s, rfl, rfl, hb⟩ | ⟨e, s, rfl, rfl, hs⟩ := hx.cases
  · exact hf b a s hb
  · exact ⟨rfl, hs⟩

theorem Agrees.imp {P Q : β → α → Session → Prop} {x : Except Fault β}
    {r : EStateM.Result Fault Session α} (hx : Agrees o P x r)
    (hPQ : ∀ b a s, P b a s → Q b a s) : Agrees o Q x r := by
  rw [← bind_pure x]
  exact hx.map hPQ

theorem Agrees.located {P : β → α → Session → Prop} {x : Except Fault β} {w : Work α}
    {s : Session} (hx : Agrees o P x (w s)) (p : Place) :
    Agrees o P (x.mapError (Fault.within p)) (located p w s) := by
  unfold Lowering.located EStateM.adaptExcept
  obtain ⟨b, a, s', rfl, hw, hb⟩ | ⟨e, s', rfl, hw, hs'⟩ := hx.cases
  · rw [hw]
    exact hb
  · rw [hw]
    exact ⟨rfl, hs'⟩

theorem agrees_ofExcept (x : Except Fault β) {s : Session} (hs : s.options = o) :
    Agrees o (fun b a s' => a = b ∧ s' = s) x ((ofExcept x : Work β) s) := by
  cases x with
  | ok b => exact ⟨rfl, rfl⟩
  | error e => exact ⟨rfl, hs⟩

theorem agrees_modify {P : β → α → Session → Prop} {x : Except Fault β} {v : PUnit → Work α}
    {f : Session → Session} {s : Session} (h : Agrees o P x (v ⟨⟩ (f s))) :
    Agrees o P x ((modify f >>= v) s) := h

theorem agrees_step (m : Session → Lower α) {s : Session} (hs : s.options = o) :
    Agrees o (fun r a s' => a = r.1 ∧ s' = s.setFrame r.2) (m s s.frame) (step m s) := by
  unfold step
  cases m s s.frame with
  | ok r => exact ⟨rfl, rfl⟩
  | error e => exact ⟨rfl, hs⟩

/-- A test in the session that is the test of the computation. -/
theorem Agrees.ite {P : β → α → Session → Prop} {c d : Prop} [Decidable c] [Decidable d]
    {x y : Except Fault β} {w v : Work α} {s : Session} (hcd : d ↔ c)
    (hpos : c → Agrees o P x (w s)) (hneg : ¬c → Agrees o P y (v s)) :
    Agrees o P (if c then x else y) ((if d then w else v) s) := by
  by_cases hc : c
  · rw [if_pos hc, if_pos (hcd.mpr hc)]
    exact hpos hc
  · rw [if_neg hc, if_neg (fun hd => hc (hcd.mp hd))]
    exact hneg hc

/-! ### Lists -/

theorem agrees_mapM {f : γ → Except Fault β} {g : γ → Work Unit} {I : List β → Session → Prop}
    (hstep : ∀ ys x s, I ys s → Agrees o (fun y _ s' => I (ys ++ [y]) s') (f x) (g x s))
    (xs : List γ) (ys : List β) {s : Session} (h : I ys s) :
    Agrees o (fun ys' _ s' => I (ys ++ ys') s') (xs.mapM f) (xs.forM g s) := by
  induction xs generalizing ys s with
  | nil =>
    change I (ys ++ []) s
    rwa [List.append_nil]
  | cons x xs ih =>
    rw [List.mapM_cons]
    refine (hstep ys x s h).bind fun y _ s' _ hs' => (ih _ hs').map fun ys' _ s'' hs'' => ?_
    rwa [List.append_assoc] at hs''

theorem agrees_foldlM {f : δ → γ → Except Fault δ} {g : γ → Work Unit} {I : δ → Session → Prop}
    (hstep : ∀ d x s, I d s → Agrees o (fun d' _ s' => I d' s') (f d x) (g x s))
    (xs : List γ) {d : δ} {s : Session} (h : I d s) :
    Agrees o (fun d' _ s' => I d' s') (xs.foldlM f d) (xs.forM g s) := by
  induction xs generalizing d s with
  | nil => exact h
  | cons x xs ih =>
    rw [List.foldlM_cons]
    exact (hstep d x s h).bind fun d' _ s' _ hs' => ih hs'

/-- The same for lowering with a frame; the invariant may speak of what is left. -/
theorem agrees_mapM_lower {f : γ → Lower β} {g : γ → Work Unit}
    {I : List γ → List β → Frame → Session → Prop}
    (hstep : ∀ x xs ys fr s, I (x :: xs) ys fr s →
      Agrees o (fun r _ s' => I xs (ys ++ [r.1]) r.2 s') (f x fr) (g x s))
    (xs : List γ) (ys : List β) {fr : Frame} {s : Session} (h : I xs ys fr s) :
    Agrees o (fun r _ s' => I [] (ys ++ r.1) r.2 s') (xs.mapM f fr) (xs.forM g s) := by
  induction xs generalizing ys fr s with
  | nil =>
    change I [] (ys ++ []) fr s
    rwa [List.append_nil]
  | cons x xs ih =>
    rw [List.mapM_cons]
    refine (hstep x xs ys fr s h).bind fun r _ s' _ hs' => ?_
    refine (ih _ hs').map (f := fun r' => (r.1 :: r'.1, r'.2)) fun r' _ s'' hs'' => ?_
    rwa [List.append_assoc] at hs''

/-! ### A kernel at hand -/

section Kernel

variable (o : Options) (result : Virtual.Module) (k : Source.Kernel)

/-- The session that builds the function of a kernel, from the blocks so far. -/
def building (sc : Scope) (bs : List Virtual.Block) (block : Nat) (fr : Frame) : Session :=
  { options := o
    result
    function := assembleFunction k sc.arguments fr.registers bs
    block
    registers := sc.registers
    specials := fr.specials
    blocks := sc.blocks
    nextInstr := fr.nextInstr }

/-- What the instructions of the kernel may refer to. -/
def declaredScope (as : List Argument) (rs : List (UInt32 × Register)) (ls : List (String × Nat)) :
    Scope :=
  { stem := o.stem, globals := result.globals, arguments := as, registers := rs, blocks := ls }

/-- A declared block, which has no instructions yet. -/
def emptyBlock (l : String × Nat) : Virtual.Block := { id := l.2, name := l.1 }

/-- The session while the kernel is opened: its blocks are empty. -/
def declaring (as : List Argument) (rs : List (UInt32 × Register)) (ls : List (String × Nat)) :
    Session :=
  building o result k (declaredScope o result as rs ls) (ls.map emptyBlock) 0
    { registers := rs.map Prod.snd }

variable {o result k}

theorem agrees_addParam (ps : List Source.Param) :
    Agrees o (fun as _ s => s = declaring o result k as [] []) (lowerParams ps)
      (ps.forM addParam (declaring o result k [] [] [])) := by
  refine agrees_mapM (I := fun as s => s = declaring o result k as [] []) ?_ ps [] rfl
  rintro as p _ rfl
  unfold addParam
  cases lowerType p.type with
  | ok t => rfl
  | error c => exact ⟨rfl, rfl⟩

theorem declaring_concat_register (as : List Argument) (rs : List (UInt32 × Register))
    (r : UInt32 × Register) :
    declaring o result k as (rs ++ [r]) [] =
      { declaring o result k as rs [] with
        function := assembleFunction k as (rs.map Prod.snd ++ [r.2]) []
        registers := rs ++ [r] } := by
  unfold declaring
  rw [List.map_append]
  rfl

theorem declaring_concat_block (as : List Argument) (rs : List (UInt32 × Register))
    (ls : List (String × Nat)) (l : String × Nat) :
    declaring o result k as rs (ls ++ [l]) =
      { declaring o result k as rs ls with
        function := assembleFunction k as (rs.map Prod.snd) (ls.map emptyBlock ++ [emptyBlock l])
        blocks := ls ++ [l] } := by
  unfold declaring
  rw [List.map_append]
  rfl

theorem agrees_addRegister (as : List Argument) (rs : List Source.Register) :
    Agrees o (fun table _ s => s = declaring o result k as table []) (lowerRegisters o.stem rs)
      (rs.forM addRegister (declaring o result k as [] [])) := by
  refine agrees_foldlM (I := fun table s => s = declaring o result k as table []) ?_ rs rfl
  rintro table r _ rfl
  refine Agrees.ite (c := (table.lookup r.id).isSome) Iff.rfl (fun _ => ⟨rfl, rfl⟩) fun _ => ?_
  cases lowerType r.type with
  | error c => exact ⟨rfl, rfl⟩
  | ok t =>
    -- the number comes from the registers of the function, and there it is the length of the table
    have hlength : table.length = (table.map Prod.snd).length := (List.length_map _).symm
    rw [hlength]
    exact (declaring_concat_register as table (r.id, _)).symm

/-- The labels of the blocks are the reserved ones and the declared ones. -/
theorem any_blocks_iff (as : List Argument) (rs : List Register) (ls : List (String × Nat))
    (label : String) :
    (assembleFunction k as rs (ls.map emptyBlock)).blocks.any (·.name = label) ↔
      label = "entry" ∨ label = "exit" ∨ (ls.lookup label).isSome := by
  rw [lookup_isSome_iff_mem, List.mem_map]
  simp only [assembleFunction, List.cons_append, List.any_cons, List.any_append, List.any_map,
    List.any_nil, Bool.or_false, Bool.or_eq_true, decide_eq_true_eq, List.any_eq_true,
    Function.comp_apply]
  rw [eq_comm (a := "entry"), eq_comm (a := "exit"), or_comm (a := ∃ _, _)]
  exact Iff.rfl

theorem length_blocks_assemble (as : List Argument) (rs : List Register)
    (ls : List (String × Nat)) :
    (assembleFunction k as rs (ls.map emptyBlock)).blocks.length = ls.length + 2 := by
  simp [assembleFunction]

/-- A block is put in front of the exit. -/
theorem assembleFunction_concat (as : List Argument) (rs : List Register)
    (bs : List Virtual.Block) (b : Virtual.Block) :
    assembleFunction k as rs (bs ++ [b]) =
      { assembleFunction k as rs bs with
        blocks := (assembleFunction k as rs bs).blocks.dropLast ++
          b :: (assembleFunction k as rs bs).blocks.getLast?.toList } := by
  unfold assembleFunction
  dsimp only
  rw [List.dropLast_concat, List.getLast?_concat, Option.toList_some, List.cons_append,
    List.append_assoc, List.singleton_append]
  rfl

theorem agrees_addBlock (as : List Argument) (rs : List (UInt32 × Register))
    (label : γ → String) (ns : List γ) :
    Agrees o (fun ls _ s => s = declaring o result k as rs ls)
      ((ns.map label).foldlM declareBlock [])
      (ns.forM (fun n => addBlock (label n)) (declaring o result k as rs [])) := by
  rw [List.foldlM_map]
  refine agrees_foldlM (I := fun ls s => s = declaring o result k as rs ls) ?_ ns rfl
  rintro ls n _ rfl
  refine Agrees.ite (any_blocks_iff _ _ ls (label n)) (fun _ => ⟨rfl, rfl⟩) fun _ => ?_
  have hlength := length_blocks_assemble (k := k) as (rs.map Prod.snd) ls
  rw [← hlength]
  refine Eq.trans ?_ (declaring_concat_block as rs ls _).symm
  rw [assembleFunction_concat]
  rfl

/-! ### The instructions of a kernel -/

/-- An instruction is put behind the others of its block. -/
theorem map_append_code {pre post : List Virtual.Block} {b : Virtual.Block}
    (hpre : ∀ b' ∈ pre, b'.id ≠ b.id) (hpost : ∀ b' ∈ post, b'.id ≠ b.id) (x : Virtual.Instr) :
    (pre ++ b :: post).map (fun b' =>
        if b'.id = b.id then { b' with code := b'.code ++ [x] } else b') =
      pre ++ { b with code := b.code ++ [x] } :: post := by
  have hother : ∀ bs : List Virtual.Block, (∀ b' ∈ bs, b'.id ≠ b.id) → bs.map (fun b' =>
      if b'.id = b.id then { b' with code := b'.code ++ [x] } else b') = bs := by
    intro bs hbs
    refine (List.map_congr_left fun b' hb' => ?_).trans (List.map_id bs)
    rw [if_neg (hbs b' hb')]
    rfl
  rw [List.map_append, List.map_cons, hother pre hpre, hother post hpost, if_pos rfl]

theorem blocks_assembleFunction (as : List Argument) (rs : List Register)
    (pre post : List Virtual.Block) (b : Virtual.Block) :
    (assembleFunction k as rs (pre ++ b :: post)).blocks =
      { id := 0, name := "entry" } :: pre ++ b :: (post ++ [{ id := 1, name := "exit" }]) := by
  simp [assembleFunction]

/-- The function with an instruction behind the others of a block.  The ends of the function have
numbers below two, so the block is none of them. -/
theorem map_blocks_assembleFunction (as : List Argument) (rs : List Register)
    {pre post : List Virtual.Block} {b : Virtual.Block} (hpre : ∀ b' ∈ pre, b'.id ≠ b.id)
    (hpost : ∀ b' ∈ post, b'.id ≠ b.id) (hid : 2 ≤ b.id) (x : Virtual.Instr) :
    (assembleFunction k as rs (pre ++ b :: post)).blocks.map (fun b' =>
        if b'.id = b.id then { b' with code := b'.code ++ [x] } else b') =
      (assembleFunction k as rs (pre ++ { b with code := b.code ++ [x] } :: post)).blocks := by
  rw [blocks_assembleFunction, blocks_assembleFunction, map_append_code]
  · -- the entry has number 0 and the exit 1, so neither is the block that grows
    intro b' hb'
    rcases List.mem_cons.mp hb' with rfl | hb'
    · simp only
      omega
    · exact hpre b' hb'
  · intro b' hb'
    rcases List.mem_append.mp hb' with hb' | hb'
    · exact hpost b' hb'
    · cases List.mem_singleton.mp hb'
      simp only
      omega

/-- The instructions of a block are lowered, one behind the other. -/
theorem agrees_addInstruction {sc : Scope} (hstem : sc.stem = o.stem)
    (hglobals : sc.globals = result.globals) {pre post : List Virtual.Block} {id : Nat}
    (name : String) (hpre : ∀ b ∈ pre, b.id ≠ id) (hpost : ∀ b ∈ post, b.id ≠ id) (hid : 2 ≤ id)
    (is : List Source.Instruction) (fr : Frame) :
    Agrees o
      (fun r _ s => s = building o result k sc (pre ++ { id, name, code := r.1 } :: post) id r.2)
      (is.mapM (lowerInstruction sc id) fr)
      (is.forM addInstruction (building o result k sc (pre ++ { id, name } :: post) id fr)) := by
  -- the invariant: the session holds the code so far in the block being filled
  refine agrees_mapM_lower (I := fun _ code fr s =>
    s = building o result k sc (pre ++ { id, name, code } :: post) id fr) ?_ is [] rfl
  rintro i _ code fr _ rfl
  -- the scope is read back from the session, field by field
  have hscope : (building o result k sc (pre ++ { id, name, code } :: post) id fr).scope = sc := by
    obtain ⟨stem, globals, arguments, registers, blocks⟩ := sc
    cases hstem
    cases hglobals
    rfl
  have hx := agrees_step (o := o) (fun s => lowerInstruction s.scope s.block i)
    (s := building o result k sc (pre ++ { id, name, code } :: post) id fr) rfl
  rw [hscope] at hx
  refine hx.andThen ?_
  rintro r _ _ ⟨rfl, rfl⟩
  have hblocks := map_blocks_assembleFunction (k := k) sc.arguments r.2.registers
    (b := { id, name, code }) hpre hpost hid r.1
  let s := building o result k sc (pre ++ { id, name, code } :: post) id r.2
  exact congrArg (fun blocks => { s with function := { s.function with blocks } }) hblocks

/-- A node is lowered into its block. -/
theorem agrees_fillBlock {sc : Scope} (hstem : sc.stem = o.stem)
    (hglobals : sc.globals = result.globals) {g : Source.Graph} {n : Source.Node} {id : Nat}
    (hlookup : sc.blocks.lookup (g.label n) = some id) {pre post : List Virtual.Block}
    (hpre : ∀ b ∈ pre, b.id ≠ id) (hpost : ∀ b ∈ post, b.id ≠ id) (hid : 2 ≤ id) (block : Nat)
    (fr : Frame) :
    Agrees o (fun r _ s => r.1.id = id ∧ s = building o result k sc (pre ++ r.1 :: post) id r.2)
      (lowerBlock g sc id n fr)
      (fillBlock g n
        (building o result k sc (pre ++ emptyBlock (g.label n, id) :: post) block fr)) := by
  have hcode := (agrees_addInstruction (k := k) hstem hglobals (g.label n) hpre hpost hid (g.code n)
    fr).located (.block (g.label n))
  -- filling begins by entering the block that the label denotes
  have henter : fillBlock g n
      (building o result k sc (pre ++ emptyBlock (g.label n, id) :: post) block fr) =
        located (.block (g.label n)) ((g.code n).forM addInstruction)
          (building o result k sc (pre ++ emptyBlock (g.label n, id) :: post)
            ((sc.blocks.lookup (g.label n)).getD 0) fr) := rfl
  rw [henter, hlookup]
  refine hcode.map
    (f := fun r => (({ id, name := g.label n, code := r.1 } : Virtual.Block), r.2)) ?_
  exact fun r _ s hs => ⟨rfl, hs⟩

/-- All nodes are lowered into their blocks, which have different numbers. -/
theorem agrees_fillBlocks {sc : Scope} (hstem : sc.stem = o.stem)
    (hglobals : sc.globals = result.globals) {g : Source.Graph} {body : List (Nat × Source.Node)}
    {ns : List Source.Node} (hns : body.map Prod.snd = ns)
    (hlookup : ∀ p ∈ body, sc.blocks.lookup (g.label p.2) = some p.1)
    (hnodup : (body.map Prod.fst).Nodup) (hlow : ∀ p ∈ body, 2 ≤ p.1) (fr : Frame) :
    Agrees o (fun r _ s => ∃ block, s = building o result k sc r.1 block r.2)
      (body.mapM (fun p => lowerBlock g sc p.1 p.2) fr)
      (ns.forM (fillBlock g)
        (building o result k sc (body.map fun p => emptyBlock (g.label p.2, p.1)) 0 fr)) := by
  have hforM : ns.forM (fillBlock g) = body.forM fun p => fillBlock g p.2 := by
    rw [← hns]
    exact List.forM_map
  rw [hforM]
  -- the numbers of the blocks that are done and of those that are left
  refine (agrees_mapM_lower (I := fun rest done fr s =>
    done.map Virtual.Block.id ++ rest.map Prod.fst = body.map Prod.fst ∧ rest <:+ body ∧
      ∃ block, s = building o result k sc
        (done ++ rest.map fun p => emptyBlock (g.label p.2, p.1)) block fr) ?_ body
    [] ⟨rfl, List.suffix_refl body, 0, rfl⟩).imp ?_
  · rintro ⟨id, n⟩ rest done fr _ ⟨hids, hsuffix, block, rfl⟩
    have hmem : (id, n) ∈ body := hsuffix.subset List.mem_cons_self
    rw [← hids, List.map_cons, List.nodup_append, List.nodup_cons] at hnodup
    obtain ⟨-, ⟨hrest, -⟩, hdone⟩ := hnodup
    have hpre : ∀ b ∈ done, b.id ≠ id := fun b hb =>
      hdone b.id (List.mem_map_of_mem hb) id List.mem_cons_self
    have hpost : ∀ b ∈ rest.map (fun p => emptyBlock (g.label p.2, p.1)), b.id ≠ id := by
      intro b hb
      obtain ⟨p, hp, rfl⟩ := List.mem_map.mp hb
      intro heq
      have hfst : p.1 ∈ rest.map Prod.fst := List.mem_map_of_mem hp
      rw [show p.1 = id from heq] at hfst
      exact hrest hfst
    refine (agrees_fillBlock hstem hglobals (hlookup _ hmem) hpre hpost (hlow _ hmem) block
      fr).imp ?_
    rintro r _ s ⟨hid, rfl⟩
    refine ⟨?_, (List.suffix_cons _ _).trans hsuffix, id, ?_⟩
    · rw [← hids, List.map_append, List.map_singleton, hid, List.append_assoc]
      rfl
    · rw [List.append_assoc]
      rfl
  · rintro r _ s ⟨-, -, block, rfl⟩
    exact ⟨block, by rw [List.map_nil, List.append_nil]; rfl⟩

/-! ### Kernels and modules -/

/-- Different labels are found under their numbers. -/
theorem lookup_numberedLabels_of_nodup {labels : List String} (hnodup : labels.Nodup) {j : Nat}
    {label : String} (hj : labels[j]? = some label) :
    (numberedLabels labels).lookup label = some (j + 2) := by
  have hmem : label ∈ (numberedLabels labels).map Prod.fst := by
    rw [map_fst_numberedLabels]
    exact List.mem_of_getElem? hj
  obtain ⟨id, hid⟩ := Option.isSome_iff_exists.mp (lookup_isSome_iff_mem.mpr hmem)
  obtain ⟨j', hj', rfl⟩ := lookup_numberedLabels hid
  have heq : j = j' := by
    obtain ⟨hlt, hget⟩ := List.getElem?_eq_some_iff.mp hj
    obtain ⟨hlt', hget'⟩ := List.getElem?_eq_some_iff.mp hj'
    exact (hnodup.getElem_inj_iff).mp (hget.trans hget'.symm)
  rw [heq]
  exact hid

/-- The declared blocks beside the nodes that they are for. -/
theorem map_emptyBlock_numberedLabels (label : γ → String) (ns : List γ) :
    (numberedLabels (ns.map label)).map emptyBlock =
      (ns.mapIdx fun j n => (j + 2, n)).map fun p => emptyBlock (label p.2, p.1) := by
  refine List.ext_getElem? fun j => ?_
  rw [numberedLabels, List.getElem?_map, List.getElem?_mapIdx, List.getElem?_map,
    List.getElem?_map, List.getElem?_mapIdx]
  cases ns[j]? <;> rfl

theorem map_snd_numbered (ns : List γ) : (ns.mapIdx fun j n => (j + 2, n)).map Prod.snd = ns := by
  refine List.ext_getElem? fun j => ?_
  rw [List.getElem?_map, List.getElem?_mapIdx]
  cases ns[j]? <;> rfl

theorem map_fst_numbered (ns : List γ) :
    (ns.mapIdx fun j n => (j + 2, n)).map Prod.fst = List.range' 2 ns.length := by
  refine List.ext_getElem (by simp) fun j hj hj' => ?_
  rw [List.getElem_map, List.getElem_mapIdx, List.getElem_range', Nat.one_mul, Nat.add_comm]

/-- A session adds the image of a kernel to its module, whatever kernel it has lowered before. -/
theorem agrees_addKernel (k : Source.Kernel) {s : Session} (hs : s.options = o) :
    Agrees o (fun f _ s' => s'.options = o ∧
        s'.result = { s.result with functions := s.result.functions ++ [f] })
      ((lowerKernel o s.result.globals k).mapError (Fault.within (.kernel k.name)))
      (addKernel k s) := by
  refine Agrees.located (w := _) ?_ (.kernel k.name)
  unfold lowerKernel openKernel
  simp only [bind_assoc, pure_bind]
  -- what an earlier kernel has left is cleared away
  have hclear : { s.clear with function := assembleFunction k [] [] [] } =
      declaring o s.result k [] [] [] := by
    cases hs
    rfl
  refine agrees_modify ?_
  rw [hclear]
  refine (agrees_addParam k.scope.params).bind ?_
  rintro as _ _ - rfl
  refine (agrees_addRegister as k.scope.registers).bind ?_
  rintro rs _ _ - rfl
  refine (agrees_addBlock as rs k.graph.label (bodyNodes k.graph)).bind ?_
  rintro ls _ _ hls rfl
  obtain ⟨rfl, hnodup, -, -⟩ := numbered_of_declareBlock hls
  rw [zip_numberedLabels, declaring, map_emptyBlock_numberedLabels]
  refine (agrees_fillBlocks rfl rfl (map_snd_numbered _) ?_ ?_ ?_ _).bind ?_
  · -- labels are distinct, so each of them leads back to its own block
    intro p hp
    obtain ⟨j, hj, rfl⟩ := List.mem_mapIdx.mp hp
    apply lookup_numberedLabels_of_nodup hnodup
    rw [List.getElem?_map, List.getElem?_eq_getElem hj]
    rfl
  · rw [map_fst_numbered]
    exact List.nodup_range'
  · intro p hp
    obtain ⟨j, hj, rfl⟩ := List.mem_mapIdx.mp hp
    exact Nat.le_add_left 2 j
  · rintro ⟨bs, fr⟩ _ _ - ⟨block, rfl⟩
    exact ⟨rfl, rfl⟩

end Kernel

/-- A session adds the image of a global to its module. -/
theorem agrees_addGlobal (g : Source.Global) {s : Session} (hs : s.options = o) :
    Agrees o (fun v _ s' => s' = { s with
        result := { s.result with
          globals := s.result.globals ++ [v]
          constants := s.result.constants ++ [v.init].filter Option.isSome } })
      ((lowerGlobal g).mapError fun c => { path := [.global g.name], cause := c })
      (addGlobal g s) := by
  refine (agrees_ofExcept _ hs).andThen ?_
  rintro v _ _ ⟨rfl, rfl⟩
  rfl

/-- What `lower` makes of a module is what a session builds. -/
theorem agrees_buildModule (s : Session) (m : Source.Module) :
    Agrees s.options (fun result a s' => a = result ∧ s'.options = s.options) (lower s.options m)
      (buildModule m s) := by
  unfold lower buildModule
  refine agrees_modify ?_
  -- the invariant of the first loop: the result holds the globals so far and nothing else
  refine (agrees_mapM (I := fun gs s' => s'.options = s.options ∧
    s'.result = { name := s.options.resultName m, globals := gs,
                  constants := (gs.map (·.init)).filter Option.isSome }) ?_ m.globals
    [] (s := { s with result := { name := s.options.resultName m } }) ⟨rfl, rfl⟩).bind ?_
  · rintro gs g s' ⟨hoptions, hresult⟩
    refine (agrees_addGlobal g hoptions).imp ?_
    rintro v _ _ rfl
    refine ⟨hoptions, ?_⟩
    rw [hresult, List.map_append, List.filter_append]
    rfl
  rintro gs _ s₁ - ⟨hoptions₁, hresult₁⟩
  -- that of the second: the globals stay, and the functions are added
  refine (agrees_mapM (I := fun fs s' => s'.options = s.options ∧
    s'.result = { name := s.options.resultName m, globals := gs,
                  constants := (gs.map (·.init)).filter Option.isSome, functions := fs }) ?_
    m.kernels [] ⟨hoptions₁, hresult₁⟩).bind ?_
  · rintro fs k s' ⟨hoptions, hresult⟩
    have hkernel := agrees_addKernel k hoptions
    rw [hresult] at hkernel
    exact hkernel
  rintro fs _ s₂ - ⟨hoptions₂, hresult₂⟩
  exact ⟨hresult₂, hoptions₂⟩

/-! ### Sessions -/

/-- Whether the work succeeds or fails, the session forgets the module. -/
theorem lowerNext_eq (m : Source.Module) (s : Session) :
    lowerNext m s = match buildModule m s with
      | .ok a s' => .ok a s'.close
      | .error e s' => .error e s'.close := by
  unfold lowerNext
  simp only [tryFinally, MonadFinally.tryFinally', Functor.map, EStateM.map]
  cases buildModule m s with
  | ok a s' => rfl
  | error e s' => rfl

/-- **A session gives what `lower` gives**, whatever it holds, and keeps nothing but its options. -/
theorem Session.lower_eq (s : Session) (m : Source.Module) :
    s.lower m = (Lowering.lower s.options m, { options := s.options }) := by
  unfold Session.lower
  rw [lowerNext_eq]
  obtain ⟨result, _, s', hlower, hbuild, rfl, hs'⟩ | ⟨e, s', hlower, hbuild, hs'⟩ :=
    (agrees_buildModule s m).cases
  · rw [hlower, hbuild, ← hs']
    rfl
  · rw [hlower, hbuild, ← hs']
    rfl

theorem Session.after_options (s : Session) (ms : List Source.Module) :
    (s.after ms).options = s.options := by
  induction ms generalizing s with
  | nil => rfl
  | cons m ms ih =>
    change ((s.lower m).2.after ms).options = s.options
    rw [ih, Session.lower_eq]

/-- The kernels of a module are lowered one by one. -/
theorem lowerKernels_append (gs : List Virtual.Global) (ks ks' : List Source.Kernel)
    (fs : List Virtual.Function) :
    lowerKernels o gs (ks ++ ks') = .ok fs ↔
      ∃ fs₁ fs₂, lowerKernels o gs ks = .ok fs₁ ∧ lowerKernels o gs ks' = .ok fs₂ ∧
        fs = fs₁ ++ fs₂ := by
  unfold lowerKernels
  rw [List.mapM_append, Fallible.bind_eq_ok]
  constructor
  · rintro ⟨fs₁, h₁, h⟩
    obtain ⟨fs₂, h₂, h⟩ := Fallible.bind_eq_ok.mp h
    cases h
    exact ⟨fs₁, fs₂, h₁, h₂, rfl⟩
  · rintro ⟨fs₁, fs₂, h₁, h₂, rfl⟩
    exact ⟨fs₁, h₁, Fallible.bind_eq_ok.mpr ⟨fs₂, h₂, rfl⟩⟩

/-- A module is lowered if its globals and its kernels are. -/
theorem lower_eq_ok {m : Source.Module} {r : Virtual.Module} :
    lower o m = .ok r ↔
      ∃ gs fs, lowerGlobals m.globals = .ok gs ∧ lowerKernels o gs m.kernels = .ok fs ∧
        r = { name := o.resultName m, globals := gs,
              constants := (gs.map (·.init)).filter Option.isSome, functions := fs } := by
  unfold lower
  rw [Fallible.bind_eq_ok]
  constructor
  · rintro ⟨gs, hgs, h⟩
    obtain ⟨fs, hfs, h⟩ := Fallible.bind_eq_ok.mp h
    cases h
    exact ⟨gs, fs, hgs, hfs, rfl⟩
  · rintro ⟨gs, fs, hgs, hfs, rfl⟩
    exact ⟨gs, hgs, Fallible.bind_eq_ok.mpr ⟨fs, hfs, rfl⟩⟩

/-- **The kernels of a module are lowered apart from each other.** -/
theorem lower_append (path : String) (gs : List Source.Global) (ks ks' : List Source.Kernel)
    (r : Virtual.Module) :
    lower o { path, globals := gs, kernels := ks ++ ks' } = .ok r ↔
      ∃ r₁ r₂, lower o { path, globals := gs, kernels := ks } = .ok r₁ ∧
        lower o { path, globals := gs, kernels := ks' } = .ok r₂ ∧
        r = { r₁ with functions := r₁.functions ++ r₂.functions } := by
  simp only [lower_eq_ok, lowerKernels_append]
  constructor
  · rintro ⟨vs, _, hvs, ⟨fs₁, fs₂, h₁, h₂, rfl⟩, rfl⟩
    exact ⟨_, _, ⟨vs, fs₁, hvs, h₁, rfl⟩, ⟨vs, fs₂, hvs, h₂, rfl⟩, rfl⟩
  · rintro ⟨_, _, ⟨vs, fs₁, hvs, h₁, rfl⟩, ⟨vs', fs₂, hvs', h₂, rfl⟩, rfl⟩
    cases hvs.symm.trans hvs'
    exact ⟨vs, fs₁ ++ fs₂, hvs, ⟨fs₁, fs₂, h₁, h₂, rfl⟩, rfl⟩

/-- **Neither kernels nor modules influence each other.**  In any session, the kernels of a module
give the functions that they give in modules of their own; and a session gives for a module what a
new one with its options gives, whatever it has lowered before and wherever that failed. -/
theorem session_independent :
    (∀ (s : Session) (path : String) (gs : List Source.Global) (ks ks' : List Source.Kernel)
        (r : Virtual.Module),
      (s.lower { path, globals := gs, kernels := ks ++ ks' }).1 = .ok r ↔
        ∃ r₁ r₂, (s.lower { path, globals := gs, kernels := ks }).1 = .ok r₁ ∧
          (s.lower { path, globals := gs, kernels := ks' }).1 = .ok r₂ ∧
          r = { r₁ with functions := r₁.functions ++ r₂.functions }) ∧
      ∀ (s : Session) (history : List Source.Module) (m : Source.Module),
        ((s.after history).lower m).1 = (Session.lower { options := s.options } m).1 := by
  constructor
  · intro s path gs ks ks' r
    simp only [Session.lower_eq]
    exact lower_append path gs ks ks' r
  · intro s history m
    rw [Session.lower_eq, Session.lower_eq, Session.after_options]

end KernelIR.Lowering
