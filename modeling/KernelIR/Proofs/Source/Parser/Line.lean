import KernelIR.Proofs.Source.Parser.Mnemonic
import KernelIR.Proofs.Source.Parser.Operand
import KernelIR.Source.Module

/-!
# Lines read back

`Kernel.parse_canonical_text`: reading undoes writing over the whole instruction language, exactly
as far as guards are legible.  An instruction that is canonical in the scope of a kernel, and whose
guard is legible, is read back from its line, and the kernel stays as it was.  The line is a guard,
a mnemonic and the operands behind a space, joined by a comma and a space; each part is found again
because its characters cannot be taken for those of the next (`runs_readGuard?_text`,
`mnemonic?_text`, `splitOperands_joined`), and nothing in it begins a comment.

A guard on a register that the kernel knows need not be legible.  The name of a register may be any
text, but a predicate is read only if it begins with a percent sign, up to the next space, and a
comment ends it before that (`Scope.legible_of_parse`): `@p ret` is refused, and `@pt ret` has no
guard at all.
-/

namespace KernelIR.Source

open Text (isSpace)

/-! ### Canonical instructions -/

/-- Whether a text can stand for a predicate register in a guard: a percent sign with one or more
characters behind it, none of them a space, and without a comment. -/
def isGuardName : List Char → Bool
  | '%' :: rest => !rest.isEmpty && rest.all (!isSpace ·) && beforeComment rest == rest
  | _ => false

/-- A guard of the vocabulary: constant, or on a register that the scope knows. -/
def Guard.Canonical (s : Scope) : Guard → Prop
  | .always | .never => True
  | .straight r | .inverse r => s.idOf? r.name = some r.id
  | .unknown .. => False

/-- The register of the guard has a name that can stand in one. -/
def Guard.Legible : Guard → Prop
  | .straight r | .inverse r => isGuardName r.name.toList = true
  | .always | .never | .unknown .. => True

/-- An instruction that its text determines in a scope, up to its guard: its mnemonic and its guard
are canonical, and its operands fill the slots without a gap, have the types that the mnemonic gives
them and are canonical themselves. -/
structure Instruction.Canonical (s : Scope) (i : Instruction) : Prop where
  mnemonic : i.toMnemonic.Canonical
  guard : i.guard.Canonical s
  gapless : (i.d = none → i.a = none) ∧ (i.a = none → i.b = none) ∧ (i.b = none → i.c = none)
  operand : ∀ j x, i.slots[j]? = some (some x) →
    x.type = i.operandType j ∧ x.form.Canonical s i.opcode.takesLabel x.type

/-! ### Comments -/

theorem beforeComment_cons {c : Char} (hc : c ≠ '/') (cs : List Char) :
    beforeComment (c :: cs) = c :: beforeComment cs := by
  cases cs with
  | nil => rfl
  | cons d cs => rw [beforeComment, if_neg (fun h => hc h.1)]

theorem beforeComment_isPrefix (cs : List Char) : beforeComment cs <+: cs := by
  fun_induction beforeComment cs with
  | case1 | case2 => exact List.prefix_rfl
  | case3 c d rest => exact List.nil_prefix
  | case4 c d rest _ ih => exact (List.prefix_cons_inj c).mpr ih

theorem slashes_prefix_iff {c d : Char} {cs : List Char} :
    ['/', '/'] <+: c :: d :: cs ↔ c = '/' ∧ d = '/' := by
  rw [List.cons_prefix_cons, List.cons_prefix_cons, eq_comm, eq_comm (b := d)]
  simp

/-- A line holds no comment exactly if no slash meets another. -/
theorem beforeComment_eq_self_iff {cs : List Char} :
    beforeComment cs = cs ↔ ¬['/', '/'] <:+: cs := by
  fun_induction beforeComment cs with
  | case1 => simp
  | case2 c => simp [List.infix_cons_iff]
  | case3 c d rest hslash =>
    have hfront : ['/', '/'] <+: c :: d :: rest := slashes_prefix_iff.mpr hslash
    exact iff_of_false (by simp) (not_not.mpr hfront.isInfix)
  | case4 c d rest hslash ih =>
    rw [List.infix_cons_iff, not_or, slashes_prefix_iff, List.cons.injEq, ih]
    exact ⟨fun h => ⟨hslash, h.2⟩, fun h => ⟨rfl, h.2⟩⟩

/-- What stands before a comment holds none itself. -/
theorem beforeComment_beforeComment (cs : List Char) :
    beforeComment (beforeComment cs) = beforeComment cs := by
  fun_induction beforeComment cs with
  | case1 | case2 | case3 => rfl
  | case4 c d rest hslash ih =>
    rw [beforeComment_eq_self_iff, List.infix_cons_iff, not_or, ← beforeComment_eq_self_iff]
    refine ⟨fun hfront => hslash ?_, ih⟩
    -- two slashes at the front are still there before the comment is cut off
    have hcons : c :: beforeComment (d :: rest) <+: c :: d :: rest :=
      (List.prefix_cons_inj c).mpr (beforeComment_isPrefix (d :: rest))
    exact slashes_prefix_iff.mp (hfront.trans hcons)

/-- A part of a line without a comment has none either. -/
theorem beforeComment_of_isInfix {cs ds : List Char} (h : beforeComment ds = ds)
    (hcs : cs <:+: ds) : beforeComment cs = cs := by
  rw [beforeComment_eq_self_iff] at h ⊢
  exact fun hslash => h (hslash.trans hcs)

theorem beforeComment_of_not_mem {cs : List Char} (h : '/' ∉ cs) : beforeComment cs = cs :=
  beforeComment_eq_self_iff.mpr fun hslash => h (hslash.subset List.mem_cons_self)

/-- A comment begins in the second part if the first holds none and no slash meets another where
they meet. -/
theorem beforeComment_append {cs ds : List Char} (hcs : beforeComment cs = cs)
    (hmeet : cs.getLast? = some '/' → ds.head? ≠ some '/') :
    beforeComment (cs ++ ds) = cs ++ beforeComment ds := by
  induction cs with
  | nil => rfl
  | cons c cs ih =>
    cases cs with
    | nil =>
      cases ds with
      | nil => rfl
      | cons d ds =>
        -- the only pair that neither part holds alone
        have hslash : ¬(c = '/' ∧ d = '/') := by
          rintro ⟨rfl, rfl⟩
          exact hmeet rfl rfl
        rw [List.singleton_append, List.singleton_append, beforeComment, if_neg hslash]
    | cons e es =>
      rw [beforeComment] at hcs
      split_ifs at hcs with hslash
      rw [List.getLast?_cons_cons] at hmeet
      rw [List.cons_append, List.cons_append, beforeComment, if_neg hslash, ← List.cons_append,
        ih (List.cons.inj hcs).2 hmeet]
      rfl

/-! ### Guards -/

theorem isGuardName_iff {cs : List Char} :
    isGuardName cs = true ↔ cs.head? = some '%' ∧ cs.length ≠ 1 ∧ (∀ c ∈ cs, isSpace c = false) ∧
      beforeComment cs = cs := by
  unfold isGuardName
  split
  · rename_i rest
    have hspace : isSpace '%' = false := by decide
    rw [beforeComment_cons (by decide)]
    simp [hspace, and_assoc]
  · rename_i hhead
    refine iff_of_false (by decide) fun h => ?_
    obtain ⟨rest, rfl⟩ := List.head?_eq_some_iff.mp h.1
    exact hhead rest rfl

theorem takeWhile_dropWhile_name {cs : List Char} (h : ∀ c ∈ cs, isSpace c = false)
    (rest : List Char) :
    (cs ++ ' ' :: rest).takeWhile (!isSpace ·) = cs ∧
      (cs ++ ' ' :: rest).dropWhile (!isSpace ·) = ' ' :: rest := by
  have hall : ∀ c ∈ cs, (!isSpace c) = true := fun c hc => by rw [h c hc]; rfl
  rw [List.takeWhile_append_of_pos hall, List.dropWhile_append_of_pos hall]
  exact ⟨by rw [List.takeWhile_cons]; simp [isSpace], by rw [List.dropWhile_cons]; simp [isSpace]⟩

/-- A predicate register is read as the name up to the next space. -/
theorem runs_readPredicate_register {s : Scope} {r : RegisterUse}
    (hid : s.idOf? r.name = some r.id) (hname : isGuardName r.name.toList = true) (inverse : Bool)
    (rest : List Char) :
    Runs (readPredicate inverse (r.name.toList ++ ' ' :: rest)) s
      (if inverse then .inverse r else .straight r, ' ' :: rest) s := by
  obtain ⟨hhead, hlen, hspace, -⟩ := isGuardName_iff.mp hname
  obtain ⟨htake, hdrop⟩ := takeWhile_dropWhile_name hspace rest
  -- `pt` is no register name
  have hpt : r.name ≠ "pt" := by
    intro h
    rw [h] at hhead
    exact absurd hhead (by decide)
  have hregister : ¬(r.name.toList.head? ≠ some '%' ∨ r.name.toList.length = 1) := by
    rw [not_or, not_not]
    exact ⟨hhead, hlen⟩
  unfold readPredicate
  dsimp only
  rw [htake, hdrop, String.ofList_toList, if_neg hpt, if_neg hregister]
  exact Runs.bind (runs_internName hid) (Runs.pure s _)

theorem readGuard_of_head_ne {cs : List Char} (h : cs.head? ≠ some '!') :
    readGuard cs = readPredicate false cs := by
  unfold readGuard
  split
  · exact absurd rfl h
  · rfl

theorem readGuard?_of_head_ne {cs : List Char} (h : cs.head? ≠ some '@') :
    readGuard? cs = pure (.always, cs) := by
  unfold readGuard?
  split
  · exact absurd rfl h
  · rfl

theorem RegisterUse.text_of_isGuardName {r : RegisterUse} (h : isGuardName r.name.toList = true) :
    r.text = r.name := by
  have hne : r.name ≠ "" := by
    intro h0
    rw [h0] at h
    exact absurd h (by decide)
  rw [RegisterUse.text, if_neg hne]

theorem toList_text_straight {r : RegisterUse} (h : isGuardName r.name.toList = true) :
    (Guard.straight r).text.toList = '@' :: (r.name.toList ++ [' ']) := by
  show ("@" ++ r.text ++ " ").toList = _
  rw [RegisterUse.text_of_isGuardName h, String.toList_append, String.toList_append]
  rfl

theorem toList_text_inverse {r : RegisterUse} (h : isGuardName r.name.toList = true) :
    (Guard.inverse r).text.toList = '@' :: '!' :: (r.name.toList ++ [' ']) := by
  show ("@!" ++ r.text ++ " ").toList = _
  rw [RegisterUse.text_of_isGuardName h, String.toList_append, String.toList_append]
  rfl

/-- **A canonical guard that is legible is read back from its text**, with at most a space left over
before what follows. -/
theorem runs_readGuard?_text {s : Scope} {g : Guard} (h : g.Canonical s) (hlegible : g.Legible)
    {rest : List Char} (hrest : rest.head? ≠ some '@') :
    ∃ lead, (∀ c ∈ lead, isSpace c = true) ∧
      Runs (readGuard? (g.text.toList ++ rest)) s (g, lead ++ rest) s := by
  have hlead : ∀ c ∈ [' '], isSpace c = true := List.forall_mem_singleton.mpr (by decide)
  cases g with
  | always =>
    refine ⟨[], by simp, ?_⟩
    show Runs (readGuard? rest) s (.always, rest) s
    rw [readGuard?_of_head_ne hrest]
    exact Runs.pure s _
  | never => exact ⟨[' '], hlead, Runs.pure s _⟩
  | straight r =>
    have htext : (Guard.straight r).text.toList ++ rest =
        '@' :: (r.name.toList ++ ' ' :: rest) := by
      rw [toList_text_straight hlegible, List.cons_append, List.append_assoc]
      rfl
    -- the name begins with a percent sign, so that the guard is not taken for an inverse one
    have hstraight : (r.name.toList ++ ' ' :: rest).head? ≠ some '!' := by
      rw [List.head?_append, (isGuardName_iff.mp hlegible).1]
      simp
    refine ⟨[' '], hlead, ?_⟩
    rw [htext]
    show Runs (readGuard (r.name.toList ++ ' ' :: rest)) s _ s
    rw [readGuard_of_head_ne hstraight]
    exact runs_readPredicate_register h hlegible false rest
  | inverse r =>
    have htext : (Guard.inverse r).text.toList ++ rest =
        '@' :: '!' :: (r.name.toList ++ ' ' :: rest) := by
      rw [toList_text_inverse hlegible, List.cons_append, List.cons_append, List.append_assoc]
      rfl
    refine ⟨[' '], hlead, ?_⟩
    rw [htext]
    exact runs_readPredicate_register h hlegible true rest
  | unknown code r => exact h.elim

/-- A line begins with an at sign unless it always runs. -/
theorem head?_guard {s : Scope} {g : Guard} (h : g.Canonical s) (hlegible : g.Legible)
    {rest : List Char} {c : Char} (hc : (g.text.toList ++ rest).head? = some c) :
    c = '@' ∨ rest.head? = some c := by
  cases g with
  | always => exact .inr hc
  | never =>
    cases hc
    exact .inl rfl
  | straight r =>
    rw [toList_text_straight hlegible] at hc
    cases hc
    exact .inl rfl
  | inverse r =>
    rw [toList_text_inverse hlegible] at hc
    cases hc
    exact .inl rfl
  | unknown code r => exact h.elim

/-- A legible guard holds no comment, and none begins where it meets what follows. -/
theorem beforeComment_guard {s : Scope} {g : Guard} (h : g.Canonical s) (hlegible : g.Legible)
    {rest : List Char} (hrest : '/' ∉ rest) :
    beforeComment (g.text.toList ++ rest) = g.text.toList ++ rest := by
  have hspace : '/' ∉ ' ' :: rest := by
    rw [List.mem_cons, not_or]
    exact ⟨by decide, hrest⟩
  -- the blank behind the name keeps its last character from meeting the rest
  have hname : ∀ r : RegisterUse, isGuardName r.name.toList = true →
      beforeComment (r.name.toList ++ [' '] ++ rest) = r.name.toList ++ [' '] ++ rest := by
    intro r hr
    obtain ⟨-, -, -, hcomment⟩ := isGuardName_iff.mp hr
    rw [List.append_assoc, List.singleton_append, beforeComment_append hcomment fun _ => by simp,
      beforeComment_of_not_mem hspace]
  cases g with
  | always => exact beforeComment_of_not_mem hrest
  | never =>
    refine beforeComment_of_not_mem fun hmem => ?_
    rcases List.mem_append.mp hmem with hmem | hmem
    · exact absurd hmem (by decide)
    · exact hrest hmem
  | straight r =>
    rw [toList_text_straight hlegible, List.cons_append, beforeComment_cons (by decide),
      hname r hlegible]
  | inverse r =>
    rw [toList_text_inverse hlegible, List.cons_append, List.cons_append,
      beforeComment_cons (by decide), beforeComment_cons (by decide), hname r hlegible]
  | unknown code r => exact h.elim

/-- A predicate that is read begins with a percent sign and ends before the next space. -/
theorem legible_of_runs_readPredicate {inverse : Bool} {cs rest : List Char} {g : Guard}
    {s s' : Scope} (hcs : beforeComment cs = cs)
    (h : Runs (readPredicate inverse cs) s (g, rest) s') : g.Legible := by
  have hspace : ∀ c ∈ cs.takeWhile (!isSpace ·), isSpace c = false := by
    intro c hc
    have hc' := List.all_eq_true.mp List.all_takeWhile c hc
    rwa [Bool.not_eq_true'] at hc'
  have hcomment : beforeComment (cs.takeWhile (!isSpace ·)) = cs.takeWhile (!isSpace ·) :=
    beforeComment_of_isInfix hcs ⟨[], _, List.takeWhile_append_dropWhile⟩
  unfold readPredicate at h
  dsimp only at h
  split_ifs at h with hpt hinverse hfirst hinverse
  · cases h
    trivial
  · cases h
    trivial
  · cases h
  · cases h
  -- a register, inverse or straight
  all_goals
    rw [not_or, not_not] at hfirst
    obtain ⟨id, s₁, -, hpure⟩ := runs_bind_iff.mp h
    cases hpure
    refine isGuardName_iff.mpr ?_
    rw [String.toList_ofList]
    exact ⟨hfirst.1, hfirst.2, hspace, hcomment⟩

/-- **A guard that is read is legible.** -/
theorem legible_of_runs_readGuard? {cs rest : List Char} {g : Guard} {s s' : Scope}
    (hcs : beforeComment cs = cs) (h : Runs (readGuard? cs) s (g, rest) s') : g.Legible := by
  unfold readGuard? at h
  split at h
  · rename_i ds
    have hds : beforeComment ds = ds := beforeComment_of_isInfix hcs (List.suffix_cons _ _).isInfix
    unfold readGuard at h
    split at h
    · exact legible_of_runs_readPredicate
        (beforeComment_of_isInfix hds (List.suffix_cons _ _).isInfix) h
    · exact legible_of_runs_readPredicate hds h
  · cases h
    trivial

/-! ### Operands -/

/-- The texts of operands as they stand between the commas: a space before each but the first. -/
def spaced : List (List Char) → List (List Char)
  | [] => []
  | p :: ps => p :: ps.map (' ' :: ·)

theorem toList_joined (t : String) (ts : List String) :
    (Text.joined ", " (t :: ts)).toList =
      List.intercalate [','] (spaced ((t :: ts).map String.toList)) := by
  induction ts generalizing t with
  | nil =>
    show t.toList = List.intercalate [','] [t.toList]
    rw [List.intercalate_singleton]
  | cons u us ih =>
    have hcomma : ", ".toList = [',', ' '] := by decide
    rw [Text.joined, String.toList_append, String.toList_append, ih, hcomma]
    show _ = List.intercalate [','] (t.toList :: (' ' :: u.toList) ::
      (us.map String.toList).map (' ' :: ·))
    rw [List.intercalate_cons_cons, List.append_assoc, List.append_assoc]
    cases us with
    | nil => rfl
    | cons v vs =>
      show _ ++ ([',', ' '] ++ List.intercalate [','] (u.toList :: (' ' :: v.toList) ::
        (vs.map String.toList).map (' ' :: ·))) = _
      rw [List.intercalate_cons_cons]
      show _ = _ ++ ([','] ++ List.intercalate [','] ((' ' :: u.toList) :: (' ' :: v.toList) ::
        (vs.map String.toList).map (' ' :: ·)))
      rw [List.intercalate_cons_cons]
      rfl

theorem not_mem_joined {c : Char} {sep : String} {ts : List String} (hsep : c ∉ sep.toList)
    (h : ∀ t ∈ ts, c ∉ t.toList) : c ∉ (Text.joined sep ts).toList := by
  fun_induction Text.joined sep ts with
  | case1 => exact List.not_mem_nil
  | case2 t => exact h t List.mem_cons_self
  | case3 t u us ih =>
    rw [String.toList_append, String.toList_append, List.mem_append, List.mem_append, not_or, not_or]
    exact ⟨⟨h t List.mem_cons_self, hsep⟩, ih fun v hv => h v (List.mem_cons_of_mem t hv)⟩

theorem intercalate_ne_nil {sep p : List Char} (hp : p ≠ []) (ps : List (List Char)) :
    List.intercalate sep (p :: ps) ≠ [] := by
  cases ps with
  | nil => rwa [List.intercalate_singleton]
  | cons q qs =>
    rw [List.intercalate_cons_cons, List.append_assoc]
    exact List.append_ne_nil_of_left_ne_nil hp _

theorem head?_intercalate {sep p : List Char} (hp : p ≠ []) (ps : List (List Char)) :
    (List.intercalate sep (p :: ps)).head? = p.head? := by
  obtain ⟨c, rest, rfl⟩ := List.exists_cons_of_ne_nil hp
  cases ps with
  | nil => rw [List.intercalate_singleton]
  | cons q qs =>
    rw [List.intercalate_cons_cons]
    rfl

/-- The last character of a joined text is the last of a piece. -/
theorem getLast?_intercalate {sep : List Char} {ps : List (List Char)} (hne : ∀ p ∈ ps, p ≠ [])
    {c : Char} (h : (List.intercalate sep ps).getLast? = some c) :
    ∃ p ∈ ps, p.getLast? = some c := by
  induction ps with
  | nil => cases h
  | cons p ps ih =>
    cases ps with
    | nil =>
      rw [List.intercalate_singleton] at h
      exact ⟨p, List.mem_cons_self, h⟩
    | cons q qs =>
      rw [List.intercalate_cons_cons, List.getLast?_append] at h
      have htail : ∀ r ∈ q :: qs, r ≠ [] := fun r hr => hne r (List.mem_cons_of_mem p hr)
      -- the rest ends in a character of its own, as no part is empty
      cases hlast : (List.intercalate sep (q :: qs)).getLast? with
      | none =>
        rw [List.getLast?_eq_none_iff] at hlast
        exact absurd hlast (intercalate_ne_nil (htail q List.mem_cons_self) qs)
      | some d =>
        rw [hlast] at h
        cases h
        obtain ⟨r, hr, hrc⟩ := ih htail hlast
        exact ⟨r, List.mem_cons_of_mem p hr, hrc⟩

/-- What the splitter needs to know of the pieces between the commas. -/
theorem of_mem_spaced {ps : List (List Char)} (h : ∀ p ∈ ps, IsOperandText p) {q : List Char}
    (hq : q ∈ spaced ps) :
    depthAfter? 0 q = some 0 ∧ operandText q ≠ [] ∧ q ≠ [] ∧
      ∀ c, q.getLast? = some c → (isSpace c || c == ';') = false := by
  have hlast : ∀ p ∈ ps, ∀ c, p.getLast? = some c → (isSpace c || c == ';') = false := by
    intro p hp c hc
    obtain ⟨hspace, hsemicolon, -⟩ := (h p hp).isSpace_of_mem (List.mem_of_getLast? hc)
    rw [hspace, beq_eq_false_iff_ne.mpr hsemicolon]
    rfl
  have hfirst : ∀ p ∈ ps, depthAfter? 0 p = some 0 ∧ operandText p ≠ [] ∧ p ≠ [] ∧
      ∀ c, p.getLast? = some c → (isSpace c || c == ';') = false := by
    intro p hp
    rw [(h p hp).operandText]
    exact ⟨(h p hp).depthAfter?, (h p hp).ne_nil, (h p hp).ne_nil, hlast p hp⟩
  cases ps with
  | nil => cases hq
  | cons p ps =>
    -- the first text stands as it is, and each later one behind a blank
    rcases List.mem_cons.mp hq with rfl | hq
    · exact hfirst q List.mem_cons_self
    · obtain ⟨r, hr, rfl⟩ := List.mem_map.mp hq
      obtain ⟨hdepth, htext, hne, hend⟩ := hfirst r (List.mem_cons_of_mem p hr)
      rw [operandText_cons_of_isBlank (by decide)]
      refine ⟨hdepth, htext, List.cons_ne_nil _ _, fun c hc => hend c ?_⟩
      obtain ⟨d, ds, rfl⟩ := List.exists_cons_of_ne_nil hne
      rwa [List.getLast?_cons_cons] at hc

theorem map_operandText_spaced {ps : List (List Char)} (h : ∀ p ∈ ps, IsOperandText p) :
    (spaced ps).map operandText = ps := by
  cases ps with
  | nil => rfl
  | cons p ps =>
    have htail : ∀ q ∈ ps, operandText (' ' :: q) = q := by
      intro q hq
      rw [operandText_cons_of_isBlank (by decide), (h q (List.mem_cons_of_mem p hq)).operandText]
    rw [spaced, List.map_cons, (h p List.mem_cons_self).operandText, List.map_map]
    congr 1
    exact (List.map_congr_left htail).trans (List.map_id ps)

/-- **The joined texts of operands are split into those texts.** -/
theorem splitOperands_joined {t : String} {ts : List String}
    (h : ∀ p ∈ (t :: ts).map String.toList, IsOperandText p) (position : Nat) :
    splitOperands position (" " ++ Text.joined ", " (t :: ts)).toList =
      .ok ((t :: ts).map String.toList) := by
  have ht : IsOperandText t.toList := h _ List.mem_cons_self
  have hline : (" " ++ Text.joined ", " (t :: ts)).toList =
      ' ' :: List.intercalate [','] (spaced ((t :: ts).map String.toList)) := by
    rw [String.toList_append, toList_joined]
    rfl
  have hhead : ∀ c, (List.intercalate [','] (spaced ((t :: ts).map String.toList))).head? = some c →
      isSpace c = false := by
    intro c hc
    rw [List.map_cons, spaced, head?_intercalate ht.ne_nil] at hc
    exact (ht.isSpace_of_mem (List.mem_of_head? hc)).1
  have hbody : dropTerminators ((' ' :: List.intercalate [',']
      (spaced ((t :: ts).map String.toList))).dropWhile isSpace) =
      List.intercalate [','] (spaced ((t :: ts).map String.toList)) := by
    rw [List.dropWhile_cons, if_pos (by decide), dropWhile_eq_self_of_head hhead]
    refine dropTerminators_eq_self fun c hc => ?_
    obtain ⟨q, hq, hqc⟩ := getLast?_intercalate (fun q hq => (of_mem_spaced h hq).2.2.1) hc
    exact (of_mem_spaced h hq).2.2.2 c hqc
  have hne : spaced ((t :: ts).map String.toList) ≠ [] := List.cons_ne_nil _ _
  have hempty : (List.intercalate [','] (spaced ((t :: ts).map String.toList))).isEmpty = false := by
    rw [List.isEmpty_eq_false_iff]
    exact intercalate_ne_nil ht.ne_nil _
  unfold splitOperands
  rw [hline, hbody]
  dsimp only
  rw [hempty, if_neg (by decide), splitFrom_intercalate hne (fun q hq => (of_mem_spaced h hq).1)
    (fun q hq => (of_mem_spaced h hq).2.1), map_operandText_spaced h]

/-- The operands of a canonical instruction are read back one after the other. -/
theorem runs_readOperands {s : Scope} {m : Mnemonic} {xs : List Operand} {j : Nat}
    (h : ∀ n x, xs[n]? = some x →
      x.type = m.operandType (j + n) ∧ x.form.Canonical s m.opcode.takesLabel x.type) :
    Runs (readOperands m j (xs.map fun x => x.text.toList)) s xs s := by
  induction xs generalizing j with
  | nil => exact Runs.pure s _
  | cons x xs ih =>
    obtain ⟨htype, hform⟩ := h 0 x rfl
    have hrest : ∀ n y, xs[n]? = some y →
        y.type = m.operandType (j + 1 + n) ∧ y.form.Canonical s m.opcode.takesLabel y.type := by
      intro n y hy
      have := h (n + 1) y hy
      rwa [show j + (n + 1) = j + 1 + n by omega] at this
    have hx : Runs (readOperand (m.operandType j) m.opcode.takesLabel x.text.toList) s x s := by
      rw [Nat.add_zero] at htype
      rw [← htype]
      exact runs_readOperand_text hform
    rw [List.map_cons, readOperands]
    exact Runs.bind (Runs.adapt _ hx) (Runs.bind (ih hrest) (Runs.pure s _))

/-! ### Lines -/

namespace Instruction

/-- Without a gap, the slots are the operands in order. -/
theorem slots_eq {i : Instruction} (hgap : (i.d = none → i.a = none) ∧ (i.a = none → i.b = none) ∧
    (i.b = none → i.c = none)) :
    i.operands.length ≤ 4 ∧ i.operands[0]? = i.d ∧ i.operands[1]? = i.a ∧ i.operands[2]? = i.b ∧
      i.operands[3]? = i.c := by
  obtain ⟨m, guard, d, a, b, c⟩ := i
  unfold operands slots
  dsimp only at hgap ⊢
  -- the slots are filled from the left, so the first empty one ends them
  cases d with
  | none =>
    cases hgap.1 rfl
    cases hgap.2.1 rfl
    cases hgap.2.2 rfl
    decide
  | some d =>
    cases a with
    | none =>
      cases hgap.2.1 rfl
      cases hgap.2.2 rfl
      simp
    | some a =>
      cases b with
      | none =>
        cases hgap.2.2 rfl
        simp
      | some b => cases c <;> simp

/-- Without a gap, the `n`-th operand stands in the `n`-th slot. -/
theorem slots_getElem? {i : Instruction} (hgap : (i.d = none → i.a = none) ∧
    (i.a = none → i.b = none) ∧ (i.b = none → i.c = none)) {n : Nat} {x : Operand}
    (hx : i.operands[n]? = some x) : i.slots[n]? = some (some x) := by
  obtain ⟨hlen, h0, h1, h2, h3⟩ := slots_eq hgap
  have hn : n < i.operands.length := by
    by_contra hn
    rw [List.getElem?_eq_none (by omega)] at hx
    cases hx
  match n with
  | 0 => rw [← hx, h0]; rfl
  | 1 => rw [← hx, h1]; rfl
  | 2 => rw [← hx, h2]; rfl
  | 3 => rw [← hx, h3]; rfl
  | n + 4 => omega

theorem Canonical.operands_getElem? {s : Scope} {i : Instruction} (h : i.Canonical s) {n : Nat}
    {x : Operand} (hx : i.operands[n]? = some x) :
    x.type = i.operandType n ∧ x.form.Canonical s i.opcode.takesLabel x.type :=
  h.operand n x (slots_getElem? h.gapless hx)

/-- An instruction whose line is taken apart into its own parts: its mnemonic and its guard are
canonical, its guard is legible, its operands fill the slots without a gap, and the splitter finds
their texts. -/
structure Printable (s : Scope) (i : Instruction) : Prop where
  mnemonic : i.toMnemonic.Canonical
  guard : i.guard.Canonical s
  legible : i.guard.Legible
  gapless : (i.d = none → i.a = none) ∧ (i.a = none → i.b = none) ∧ (i.b = none → i.c = none)
  text : ∀ x ∈ i.operands, IsOperandText x.text.toList

theorem Canonical.printable {s : Scope} {i : Instruction} (h : i.Canonical s)
    (hlegible : i.guard.Legible) : i.Printable s := by
  refine ⟨h.mnemonic, h.guard, hlegible, h.gapless, fun x hx => ?_⟩
  obtain ⟨n, hn⟩ := List.mem_iff_getElem?.mp hx
  exact isOperandText_text (h.operands_getElem? hn).2

/-- The part of a line behind its mnemonic. -/
def tail (i : Instruction) : List Char :=
  if i.operands.isEmpty then [] else (" " ++ Text.joined ", " (i.operands.map Operand.text)).toList

theorem toList_text (i : Instruction) :
    i.text.toList = i.guard.text.toList ++ (i.toMnemonic.text.toList ++ i.tail) := by
  rw [text, String.toList_append, String.toList_append, List.append_assoc, tail]
  split_ifs <;> rfl

/-- What stands behind a mnemonic is split into the texts of the operands. -/
theorem Printable.splitOperands_tail {s : Scope} {i : Instruction} (h : i.Printable s)
    (position : Nat) :
    splitOperands position i.tail = .ok (i.operands.map fun x => x.text.toList) := by
  have htext : ∀ p ∈ (i.operands.map Operand.text).map String.toList, IsOperandText p := by
    rw [List.map_map]
    exact List.forall_mem_map.mpr h.text
  rw [tail]
  cases hops : i.operands with
  | nil => rfl
  | cons x xs =>
    rw [hops] at htext
    rw [if_neg (by simp), List.map_cons, splitOperands_joined htext, List.map_cons, List.map_map]
    rfl

theorem Printable.not_mem_tail {s : Scope} {i : Instruction} (h : i.Printable s) :
    '/' ∉ i.tail := by
  have htext : ∀ t ∈ i.operands.map Operand.text, '/' ∉ t.toList := by
    refine List.forall_mem_map.mpr fun x hx hmem => ?_
    exact ((h.text x hx).isSpace_of_mem hmem).2.2 rfl
  rw [tail]
  split_ifs with hempty
  · exact List.not_mem_nil
  · rw [String.toList_append, List.mem_append, not_or]
    exact ⟨by decide, not_mem_joined (by decide) htext⟩

/-- The tail of a line is empty or begins with a space. -/
theorem tail_cases (i : Instruction) : i.tail = [] ∨ ∃ rest, i.tail = ' ' :: rest := by
  rw [tail]
  split_ifs with hempty
  · exact .inl rfl
  · exact .inr ⟨_, by rw [String.toList_append]; rfl⟩

/-- The mnemonic ends where the tail begins. -/
theorem takeWhile_dropWhile_tail (i : Instruction) :
    (i.toMnemonic.text.toList ++ i.tail).takeWhile (!endsMnemonic ·) = i.toMnemonic.text.toList ∧
      (i.toMnemonic.text.toList ++ i.tail).dropWhile (!endsMnemonic ·) = i.tail := by
  have hall : ∀ c ∈ i.toMnemonic.text.toList, (!endsMnemonic c) = true := by
    intro c hc
    have hplain := isPlain_of_isNameChar (Mnemonic.isNameChar_of_mem_text hc)
    rw [endsMnemonic, isSpace_of_isPlain hplain,
      beq_eq_false_iff_ne.mpr (ne_of_isPlain hplain (by decide))]
    rfl
  rw [List.takeWhile_append_of_pos hall, List.dropWhile_append_of_pos hall]
  rcases i.tail_cases with htail | ⟨rest, htail⟩
  · rw [htail]
    exact ⟨List.append_nil _, rfl⟩
  · rw [htail, List.takeWhile_cons, List.dropWhile_cons]
    exact ⟨List.append_nil _, rfl⟩

/-- A line begins with the character of a name, behind its guard. -/
theorem head?_mnemonic_tail {i : Instruction} {c : Char}
    (hc : (i.toMnemonic.text.toList ++ i.tail).head? = some c) : isNameChar c = true := by
  obtain ⟨d, ds, hd⟩ := List.exists_cons_of_ne_nil (Mnemonic.toList_text_ne_nil i.toMnemonic)
  rw [hd] at hc
  cases hc
  refine Mnemonic.isNameChar_of_mem_text (m := i.toMnemonic) ?_
  rw [hd]
  exact List.mem_cons_self

/-- The instruction with the given mnemonic and guard, and the operands in its slots. -/
def ofOperands (m : Mnemonic) (guard : Guard) (xs : List Operand) : Instruction :=
  { m with guard, d := xs[0]?, a := xs[1]?, b := xs[2]?, c := xs[3]? }

theorem operands_ofOperands (m : Mnemonic) (guard : Guard) {xs : List Operand}
    (h : xs.length ≤ 4) : (ofOperands m guard xs).operands = xs := by
  rcases xs with _ | ⟨x, _ | ⟨y, _ | ⟨z, _ | ⟨w, _ | ⟨v, xs⟩⟩⟩⟩⟩
  · rfl
  · rfl
  · rfl
  · rfl
  · rfl
  · rw [List.length_cons, List.length_cons, List.length_cons, List.length_cons, List.length_cons] at h
    omega

theorem Printable.ofOperands_operands {s : Scope} {i : Instruction} (h : i.Printable s) :
    ofOperands i.toMnemonic i.guard i.operands = i := by
  obtain ⟨-, h0, h1, h2, h3⟩ := slots_eq h.gapless
  rw [ofOperands, h0, h1, h2, h3]

/-- **The line of an instruction is read by reading the texts of its operands**; nothing else in it
can go wrong. -/
theorem Printable.run_readLine {s : Scope} {i : Instruction} (h : i.Printable s) :
    (readLine i.text.toList).run.run s =
      (readOperands i.toMnemonic 0 (i.operands.map fun x => x.text.toList) >>= fun xs =>
        pure (ofOperands i.toMnemonic i.guard xs)).run.run s := by
  have hspace : ∀ c, (i.toMnemonic.text.toList ++ i.tail).head? = some c → isSpace c = false :=
    fun c hc => isSpace_of_isPlain (isPlain_of_isNameChar (head?_mnemonic_tail hc))
  have hat : (i.toMnemonic.text.toList ++ i.tail).head? ≠ some '@' := by
    intro hc
    exact absurd (head?_mnemonic_tail hc) (by decide)
  have hline : i.text.toList.dropWhile isSpace = i.text.toList := by
    refine dropWhile_eq_self_of_head fun c hc => ?_
    rw [toList_text] at hc
    rcases head?_guard h.guard h.legible hc with rfl | hc
    · decide
    · exact hspace c hc
  -- a guard leaves the space behind it, no guard leaves nothing
  obtain ⟨lead, hlead, hguard⟩ := runs_readGuard?_text h.guard h.legible hat
  have hrest : (lead ++ (i.toMnemonic.text.toList ++ i.tail)).dropWhile isSpace =
      i.toMnemonic.text.toList ++ i.tail := by
    rw [List.dropWhile_append_of_pos hlead, dropWhile_eq_self_of_head hspace]
  obtain ⟨hword, htail⟩ := takeWhile_dropWhile_tail i
  obtain ⟨hlen, -⟩ := slots_eq h.gapless
  -- the readers in their order, each in the scope that it leaves as it was
  unfold readLine
  rw [hline]
  nth_rewrite 1 [toList_text]
  rw [hguard.run_bind]
  dsimp only
  rw [hrest, hword, htail, if_neg (by simpa using Mnemonic.toList_text_ne_nil i.toMnemonic),
    (runs_liftM (mnemonic?_text h.mnemonic) s).run_bind,
    (runs_liftM (h.splitOperands_tail _) s).run_bind, if_neg (by rw [List.length_map]; omega)]
  rfl

/-- A line that is written holds no comment. -/
theorem Printable.beforeComment_text {s : Scope} {i : Instruction} (h : i.Printable s) :
    beforeComment i.text.toList = i.text.toList := by
  rw [toList_text, beforeComment_guard h.guard h.legible]
  rw [List.mem_append, not_or]
  exact ⟨fun hmem => absurd (Mnemonic.isNameChar_of_mem_text hmem) (by decide), h.not_mem_tail⟩

/-- **A canonical instruction with a legible guard is read back from its line**, and the scope stays
as it was. -/
theorem Canonical.runs_readLine {s : Scope} {i : Instruction} (h : i.Canonical s)
    (hlegible : i.guard.Legible) : Runs (readLine i.text.toList) s i s := by
  have hoperands : Runs (readOperands i.toMnemonic 0 (i.operands.map fun x => x.text.toList)) s
      i.operands s := by
    refine runs_readOperands fun n x hx => ?_
    rw [Nat.zero_add]
    exact h.operands_getElem? hx
  have hprintable : i.Printable s := h.printable hlegible
  refine hprintable.run_readLine.trans ?_
  rw [hoperands.run_bind, hprintable.ofOperands_operands]
  rfl

theorem Canonical.parse_text {s : Scope} {i : Instruction} (h : i.Canonical s)
    (hlegible : i.guard.Legible) : s.parse i.text = (.ok i, s) := by
  have hrun : (readLine i.text.toList).run.run s = (.ok i, s) := h.runs_readLine hlegible
  rw [Scope.parse, (h.printable hlegible).beforeComment_text, hrun]
  rfl

end Instruction

/-- **The guard of what is read from a line is legible**, whatever the line. -/
theorem Scope.legible_of_parse {s : Scope} {line : String} {i : Instruction}
    (h : (s.parse line).1 = .ok i) : i.guard.Legible := by
  have hrun : Runs (readLine (beforeComment line.toList)) s i
      ((readLine (beforeComment line.toList)).run.run s).2 :=
    Prod.ext (Fallible.mapError_eq_ok.mp h) rfl
  have hcomment : beforeComment ((beforeComment line.toList).dropWhile isSpace) =
      (beforeComment line.toList).dropWhile isSpace :=
    beforeComment_of_isInfix (beforeComment_beforeComment _) (List.dropWhile_suffix _).isInfix
  unfold readLine at hrun
  obtain ⟨⟨guard, rest⟩, s₁, hguard, hrun⟩ := runs_bind_iff.mp hrun
  -- what follows the guard does not change it
  suffices hi : i.guard = guard by
    rw [hi]
    exact legible_of_runs_readGuard? hcomment hguard
  dsimp only at hrun
  split_ifs at hrun
  · cases hrun
  obtain ⟨m, s₂, -, hrun⟩ := runs_bind_iff.mp hrun
  obtain ⟨texts, s₃, -, hrun⟩ := runs_bind_iff.mp hrun
  split_ifs at hrun
  · cases hrun
  obtain ⟨xs, s₄, -, hpure⟩ := runs_bind_iff.mp hrun
  cases hpure
  rfl

/-- **Reading undoes writing over the whole instruction language**, exactly as far as guards are
legible. -/
theorem Kernel.parse_canonical_text {k : Kernel} {i : Instruction} (h : i.Canonical k.scope) :
    (i.guard.Legible → k.parse i.text = (.ok i, k)) ∧
      (¬i.guard.Legible → (k.parse i.text).1 ≠ .ok i) := by
  refine ⟨fun hlegible => ?_, fun hillegible hparse => hillegible (Scope.legible_of_parse hparse)⟩
  rw [Kernel.parse, h.parse_text hlegible]

/-- The scope of a kernel that declares the registers `%p1`, `%p2` and `%r.3`. -/
def comparingScope : Scope :=
  ((({} : Scope).addRegister "%p1" .pred).addRegister "%p2" .pred).addRegister "%r.3" (.bits .w64)

/-- The instruction of the line `@!%p1 setp.lo.ftz.f32 %p2, [%r.3-8], 0f3F800000`. -/
def comparing : Instruction :=
  { opcode := .setp, comparison := .lo, modifiers := .single 9, type := .float .single
    guard := .inverse ⟨1, "%p1"⟩
    d := some ⟨.pred, .register ⟨2, "%p2"⟩⟩
    a := some ⟨.float .single, .indirect ⟨3, "%r.3"⟩ (-8)⟩
    b := some ⟨.float .single, .immediate 0x3F800000⟩ }

theorem Kernel.parse_comparing_text :
    comparing.Canonical comparingScope ∧ comparing.guard.Legible ∧
      (Kernel.mk "k" .none comparingScope {}).parse comparing.text =
        (.ok comparing, Kernel.mk "k" .none comparingScope {}) := by
  have hmnemonic : comparing.toMnemonic.Canonical :=
    ⟨by decide, by decide, by decide, by decide, by decide, by decide, by decide, by decide,
      by decide, by decide, by decide⟩
  have hcanonical : comparing.Canonical comparingScope := by
    refine ⟨hmnemonic, by show _ = _; decide, by decide, fun j x hx => ?_⟩
    match j, hx with
    | 0, rfl => exact ⟨rfl, by decide, by decide⟩
    | 1, rfl => exact ⟨rfl, ⟨by decide, by decide⟩, by decide, by decide⟩
    | 2, rfl => exact ⟨rfl, by show _ < _; decide⟩
    | 3, hx => cases hx
    | j + 4, hx => cases hx
  have hlegible : comparing.guard.Legible := by
    show _ = true
    decide
  exact ⟨hcanonical, hlegible, (Kernel.parse_canonical_text hcanonical).1 hlegible⟩

/-- A kernel that declares registers whose names have no percent sign. -/
def bareKernel : Kernel :=
  { name := "k", linkage := .none
    scope := (({} : Scope).addRegister "p" .pred).addRegister "pt" .pred }

/-- The instruction that returns if the register is set. -/
def returningOn (r : RegisterUse) : Instruction :=
  { opcode := .ret, guard := .straight r }

theorem canonical_returningOn {s : Scope} {r : RegisterUse} (h : s.idOf? r.name = some r.id) :
    (returningOn r).Canonical s := by
  have hmnemonic : ({ opcode := .ret } : Mnemonic).Canonical :=
    ⟨by decide, by decide, by decide, by decide, by decide, by decide, by decide, by decide,
      by decide, by decide, by decide⟩
  refine ⟨hmnemonic, h, ⟨fun _ => rfl, fun _ => rfl, fun _ => rfl⟩, fun j x hx => ?_⟩
  match j, hx with
  | 0, hx | 1, hx | 2, hx | 3, hx => cases hx
  | j + 4, hx => cases hx

/-- The lines `@p ret` and `@pt ret`: the first is refused, and the second is read without its
guard. -/
theorem Kernel.parse_bare_guard :
    ((returningOn ⟨1, "p"⟩).Canonical bareKernel.scope ∧
        bareKernel.parse (returningOn ⟨1, "p"⟩).text =
          (.error ⟨"@p ret".toList, .predicateExpected ['p']⟩, bareKernel)) ∧
      ((returningOn ⟨2, "pt"⟩).Canonical bareKernel.scope ∧
        bareKernel.parse (returningOn ⟨2, "pt"⟩).text =
          (.ok { returningOn ⟨2, "pt"⟩ with guard := .always }, bareKernel)) := by
  refine ⟨⟨canonical_returningOn (by decide), ?_⟩, canonical_returningOn (by decide), ?_⟩ <;>
    decide +kernel

end KernelIR.Source
