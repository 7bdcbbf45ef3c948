import KernelIR.Proofs.Source.Loaded
import KernelIR.Proofs.Source.Parser.Joining

/-!
# What surrounds an instruction does not count

`Kernel.parse_padded`: a line that is accepted is accepted with any spaces in front of it, any
spaces and semicolons behind it and any comment behind those; the instruction is the same, and so is
the kernel afterwards.

The parts of a line end at different characters: a guard at a space, a mnemonic at a space or a
semicolon, operands at the end of the line.  What is added behind the line is passed on from part to
part (`Runs.readGuard?_append`, `bodyParts_append`), until the splitter drops it.  A guard must not
run into it, and does not, since the mnemonic of an accepted line stands between them.
-/

namespace KernelIR.Source

open Text (isSpace)

/-! ### Comments -/

theorem beforeComment_append_of_not_mem {cs : List Char} (h : '/' ∉ cs) (ds : List Char) :
    beforeComment (cs ++ ds) = cs ++ beforeComment ds :=
  beforeComment_append (beforeComment_of_not_mem h) fun hlast => absurd (List.mem_of_getLast? hlast) h

/-! ### Parts of a line with more behind it -/

/-- The guard that a predicate spells. -/
def predicateGuard (inverse : Bool) (text : List Char) : Reader LineError Guard := do
  let name := String.ofList text
  if name = "pt" then return if inverse then .never else .always
  if text.head? ≠ some '%' ∨ text.length = 1 then throw (.predicateExpected text)
  let r : RegisterUse := ⟨← internName name, name⟩
  return if inverse then .inverse r else .straight r

theorem readPredicate_eq (inverse : Bool) (cs : List Char) :
    readPredicate inverse cs = (do
      return (← predicateGuard inverse (cs.takeWhile (!isSpace ·)), cs.dropWhile (!isSpace ·))) := by
  unfold readPredicate predicateGuard
  cases inverse <;> dsimp only <;> split_ifs <;> rfl

/-- A predicate that ends before the end of the line is read from a longer line. -/
theorem Runs.readPredicate_append {inverse : Bool} {cs rest : List Char} {g : Guard} {s s' : Scope}
    (h : Runs (readPredicate inverse cs) s (g, rest) s') (hrest : rest ≠ []) (more : List Char) :
    Runs (readPredicate inverse (cs ++ more)) s (g, rest ++ more) s' := by
  rw [readPredicate_eq] at h ⊢
  obtain ⟨g', s₁, hguard, hpure⟩ := runs_bind_iff.mp h
  cases hpure
  obtain ⟨htake, hdrop⟩ := span_append (!isSpace ·) cs more fun hnil => absurd hnil hrest
  rw [htake, hdrop]
  exact hguard.bind (.pure _ _)

/-- A guard with something behind it is read from a longer line. -/
theorem Runs.readGuard?_append {cs rest : List Char} {g : Guard} {s s' : Scope}
    (h : Runs (readGuard? cs) s (g, rest) s') (hrest : rest ≠ []) (more : List Char) :
    Runs (readGuard? (cs ++ more)) s (g, rest ++ more) s' := by
  cases cs with
  | nil =>
    cases h
    exact absurd rfl hrest
  | cons c cs =>
    by_cases hat : c = '@'
    · subst hat
      show Runs (readGuard (cs ++ more)) s (g, rest ++ more) s'
      change Runs (readGuard cs) s (g, rest) s' at h
      cases cs with
      | nil =>
        -- there is no predicate
        cases h
      | cons d cs =>
        by_cases hbang : d = '!'
        · subst hbang
          change Runs (readPredicate true cs) s (g, rest) s' at h
          show Runs (readPredicate true (cs ++ more)) s (g, rest ++ more) s'
          exact h.readPredicate_append hrest more
        · have hhead : ∀ ds, (d :: ds).head? ≠ some '!' := fun ds hd => hbang (Option.some.inj hd)
          rw [readGuard_of_head_ne (hhead _)] at h
          rw [List.cons_append, readGuard_of_head_ne (hhead _)]
          exact h.readPredicate_append hrest more
    · have hhead : ∀ ds, (c :: ds).head? ≠ some '@' := fun ds hc => hat (Option.some.inj hc)
      rw [readGuard?_of_head_ne (hhead _)] at h
      cases h
      rw [List.cons_append, readGuard?_of_head_ne (hhead _)]
      exact .pure _ _

/-! ### Operands with terminators behind them -/

theorem finishOperand_congr {start : Nat} {cs text : List Char}
    (h : finishOperand start cs = .ok text) (start' : Nat) : finishOperand start' cs = .ok text := by
  unfold finishOperand at h ⊢
  dsimp only at h ⊢
  split_ifs at h ⊢
  exact h

/-- Where the operands stand matters only for what is said about faults. -/
theorem splitFrom_congr {position start depth : Nat} {current rest : List Char}
    {texts : List (List Char)} (h : splitFrom position start depth current rest = .ok texts)
    (position' start' : Nat) : splitFrom position' start' depth current rest = .ok texts := by
  induction rest generalizing position start position' start' depth current texts with
  | nil =>
    rw [splitFrom] at h ⊢
    obtain ⟨last, hlast, h⟩ := Fallible.bind_eq_ok.mp h
    exact Fallible.bind_eq_ok.mpr ⟨last, finishOperand_congr hlast start', h⟩
  | cons c rest ih =>
    rw [splitFrom] at h ⊢
    split_ifs at h ⊢
    · exact ih h _ _
    · exact ih h _ _
    · -- positions are used for errors only, and a result has none
      obtain ⟨first, hfirst, h⟩ := Fallible.bind_eq_ok.mp h
      obtain ⟨more, hmore, h⟩ := Fallible.bind_eq_ok.mp h
      refine Fallible.bind_eq_ok.mpr ⟨first, finishOperand_congr hfirst start', ?_⟩
      exact Fallible.bind_eq_ok.mpr ⟨more, ih hmore _ _, h⟩
    · exact ih h _ _

/-- **The operands of a line are split alike with terminators behind them**, and anywhere. -/
theorem splitOperands_append {position : Nat} {rest tail : List Char} {texts : List (List Char)}
    (h : splitOperands position rest = .ok texts) (htail : ∀ c ∈ tail, endsMnemonic c = true)
    (position' : Nat) : splitOperands position' (rest ++ tail) = .ok texts := by
  have hbody : dropTerminators ((rest ++ tail).dropWhile isSpace) =
      dropTerminators (rest.dropWhile isSpace) := by
    by_cases hnil : rest.dropWhile isSpace = []
    · -- nothing but terminators is left
      have hleft : ∀ c ∈ tail.dropWhile isSpace, endsMnemonic c = true :=
        fun c hc => htail c ((List.dropWhile_sublist _).subset hc)
      rw [List.dropWhile_append, hnil]
      exact dropTerminators_append hleft []
    · rw [(span_append _ rest tail fun h => absurd h hnil).2, dropTerminators_append htail]
  unfold splitOperands at h ⊢
  dsimp only at h ⊢
  rw [hbody]
  split_ifs at h ⊢
  · exact h
  · exact splitFrom_congr h _ _

/-- **A line is taken apart alike with terminators behind it.** -/
theorem bodyParts_append {cs rest tail : List Char} {parts : Mnemonic × List (List Char)}
    (h : bodyParts cs rest = .ok parts) (htail : ∀ c ∈ tail, endsMnemonic c = true)
    (cs' : List Char) : bodyParts cs' (rest ++ tail) = .ok parts := by
  obtain ⟨hword, hm, htexts, hlen⟩ := bodyParts_eq_ok.mp h
  have hrest : rest.dropWhile isSpace ≠ [] := by
    intro hnil
    rw [hnil] at hword
    exact hword rfl
  have hspace := (span_append isSpace rest tail fun hnil => absurd hnil hrest).2
  have hstop : ∀ c, tail.head? = some c → (!endsMnemonic c) = false := by
    intro c hc
    rw [htail c (List.mem_of_head? hc)]
    rfl
  obtain ⟨htake, hdrop⟩ := span_append (!endsMnemonic ·) (rest.dropWhile isSpace) tail fun _ => hstop
  refine bodyParts_eq_ok.mpr ?_
  rw [hspace, htake, hdrop]
  exact ⟨hword, hm, splitOperands_append htexts htail _, hlen⟩

/-! ### Lines -/

/-- What ends a mnemonic is what may stand behind a line. -/
theorem endsMnemonic_iff {c : Char} : endsMnemonic c = true ↔ isSpace c = true ∨ c = ';' := by
  rw [endsMnemonic, Bool.or_eq_true, beq_iff_eq]

/-- **A line is read alike with spaces in front and terminators behind.** -/
theorem Runs.readLine_padded {cs lead tail : List Char} {s s' : Scope} {i : Instruction}
    (h : Runs (readLine cs) s i s') (hlead : ∀ c ∈ lead, isSpace c = true)
    (htail : ∀ c ∈ tail, endsMnemonic c = true) :
    Runs (readLine (lead ++ (cs ++ tail))) s i s' := by
  rw [readLine_eq_parts] at h ⊢
  obtain ⟨⟨g, rest⟩, s₁, hguard, hbody⟩ := runs_bind_iff.mp h
  obtain ⟨parts, s₂, hlift, hread⟩ := runs_bind_iff.mp hbody
  obtain ⟨hparts, rfl⟩ := runs_liftM_iff.mp hlift
  -- a mnemonic follows, so that neither the line nor what is behind its guard is empty
  have hrest : rest ≠ [] := by
    rintro rfl
    exact (bodyParts_eq_ok.mp hparts).1 rfl
  have hcs : cs.dropWhile isSpace ≠ [] := by
    intro hnil
    rw [hnil] at hguard
    cases hguard
    exact hrest rfl
  rw [List.dropWhile_append_of_pos hlead, (span_append _ cs tail fun hnil => absurd hnil hcs).2]
  refine (Runs.readGuard?_append hguard hrest tail).bind ?_
  exact (runs_liftM (bodyParts_append hparts htail _) _).bind hread

/-- What is left of a padded line before its comment. -/
theorem beforeComment_padded {cs lead tail note : List Char} (hcs : beforeComment cs = cs)
    (hlast : cs.getLast? ≠ some '/') (hlead : ∀ c ∈ lead, isSpace c = true)
    (htail : ∀ c ∈ tail, endsMnemonic c = true) (hnote : note = [] ∨ ['/', '/'] <+: note) :
    beforeComment (lead ++ (cs ++ (tail ++ note))) = lead ++ (cs ++ tail) := by
  have hlead' : '/' ∉ lead := fun hmem => absurd (hlead _ hmem) (by decide)
  have htail' : '/' ∉ tail := fun hmem => absurd (htail _ hmem) (by decide)
  have hnote' : beforeComment note = [] := by
    rcases hnote with rfl | ⟨text, rfl⟩
    · rfl
    · exact if_pos ⟨rfl, rfl⟩
  rw [beforeComment_append_of_not_mem hlead', beforeComment_append hcs fun h => absurd h hlast,
    beforeComment_append_of_not_mem htail', hnote', List.append_nil]

namespace Kernel

/-- **Spaces, terminators and comments around a line are ignored.**  Take a line that a kernel
accepts, without a comment in it and not ending in a slash, with any spaces in front, any mix of
spaces and semicolons behind, and perhaps a comment with any text behind that: the kernel accepts it
too, the instruction is the same, and the kernel is the same afterwards. -/
theorem parse_padded {k k' : Kernel} {line lead tail note : String} {i : Instruction}
    (h : k.parse line = (.ok i, k')) (hcomment : ¬['/', '/'] <:+: line.toList)
    (hlast : line.toList.getLast? ≠ some '/') (hlead : ∀ c ∈ lead.toList, isSpace c = true)
    (htail : ∀ c ∈ tail.toList, isSpace c = true ∨ c = ';')
    (hnote : note = "" ∨ ∃ text, note = "//" ++ text) :
    k.parse (lead ++ line ++ tail ++ note) = (.ok i, k') := by
  have hends : ∀ c ∈ tail.toList, endsMnemonic c = true :=
    fun c hc => endsMnemonic_iff.mpr (htail c hc)
  have hnote' : note.toList = [] ∨ ['/', '/'] <+: note.toList := by
    rcases hnote with rfl | ⟨text, rfl⟩
    · exact .inl rfl
    · refine .inr ⟨text.toList, ?_⟩
      rw [String.toList_append]
      rfl
  have hline : beforeComment line.toList = line.toList := beforeComment_eq_self_iff.mpr hcomment
  -- the note is cut off with its slashes, and the line has none of its own
  have hpadded : beforeComment (lead ++ line ++ tail ++ note).toList =
      lead.toList ++ (line.toList ++ tail.toList) := by
    rw [String.toList_append, String.toList_append, String.toList_append, List.append_assoc,
      List.append_assoc]
    exact beforeComment_padded hline hlast hlead hends hnote'
  obtain ⟨hscope, hgraph⟩ := parse_eq_ok h
  have hruns := Scope.runs_of_parse hscope
  rw [hline] at hruns
  have hruns' : (readLine (lead.toList ++ (line.toList ++ tail.toList))).run.run k.scope =
      (.ok i, k'.scope) := hruns.readLine_padded hlead hends
  have hk' : { k with scope := k'.scope } = k' := by
    have hsnd : (k.parse line).2 = k' := by rw [h]
    rw [← hsnd]
    rfl
  rw [Kernel.parse, Scope.parse, hpadded, hruns']
  show (Except.ok i, { k with scope := k'.scope }) = _
  rw [hk']

theorem exists_parse_of_isSome {k : Kernel} {line : String}
    (h : (k.parse line).1.toOption.isSome = true) : ∃ i, k.parse line = (.ok i, (k.parse line).2) := by
  obtain ⟨i, hi⟩ := Option.isSome_iff_exists.mp h
  exact ⟨i, Prod.ext (Fallible.toOption_eq_some.mp hi) rfl⟩

/-- A line with a guard, which numbers two names, with semicolons and a comment behind it. -/
theorem parse_padded_add :
    ∃ i k', movingKernel.parse "@!%p add.u32 %r1, %r2, %tid.x" = (.ok i, k') ∧
      k'.scope.names.length = 3 ∧
      movingKernel.parse ("\t " ++ "@!%p add.u32 %r1, %r2, %tid.x" ++ " ;\r\n;" ++
        ("//" ++ " 1 / 2 // 3")) = (.ok i, k') := by
  have haccepted : (movingKernel.parse "@!%p add.u32 %r1, %r2, %tid.x").1.toOption.isSome = true := by
    decide +kernel
  obtain ⟨i, hparse⟩ := exists_parse_of_isSome haccepted
  have hlead : ∀ c ∈ "\t ".toList, isSpace c = true := List.all_eq_true.mp (by decide +kernel)
  have htail : ∀ c ∈ " ;\r\n;".toList, isSpace c = true ∨ c = ';' := by
    have hends : " ;\r\n;".toList.all endsMnemonic = true := by decide +kernel
    exact fun c hc => endsMnemonic_iff.mp (List.all_eq_true.mp hends c hc)
  refine ⟨i, _, hparse, by decide +kernel, ?_⟩
  exact parse_padded hparse (by decide +kernel) (by decide +kernel) hlead htail (.inr ⟨_, rfl⟩)

end Kernel

end KernelIR.Source
