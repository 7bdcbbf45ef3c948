import KernelIR.Proofs.Source.Parser.Printed
import KernelIR.Proofs.Source.Parser.Shadowing

/-!
# What a line depends on

Lines are read in the scope of their kernel, to which the lines before have added names.
`Kernel.parse_after_iff`: a line is read as it would be read without the lines before it, up to the
numbers of registers that were not known then, unless a name is captured (`Scope.Captured`).  A name
is captured if it is spelled like a special register and a line before has it in its guard.  Guards
take every name for a register; from then on operands do so, too.

Nothing else can happen.  Of the names that are spelled like special registers a line adds only that
in its guard (`shadows_scopeAfter_readLine`), so the scopes with and without the lines before differ
in captured names only, from the guard of the line on (`Kernel.extends_after`).  Then the line is
read alike in both, unless it mentions such a name (`splits_readLine`).
-/

namespace KernelIR.Source

/-! ### Guards -/

/-- The name of the register with which the predicate of a guard begins. -/
def predicateName? (cs : List Char) : Option String :=
  let text := cs.takeWhile (!Text.isSpace ·)
  if text.head? = some '%' ∧ text.length ≠ 1 then some (String.ofList text) else none

/-- The name of the register in the guard with which a text begins. -/
def guardName? : List Char → Option String
  | '@' :: cs => predicateName? (if cs.head? = some '!' then cs.tail else cs)
  | _ => none

/-- The reader numbers the name and makes its register into a guard; without a name, it leaves the
scope alone and takes no notice of it. -/
def ReadsGuard (m : Reader LineError (Guard × List Char)) : Option String → Prop
  | none => ∃ x, ∀ s, m.run.run s = (x, s)
  | some name => ∃ (g : RegisterUse → Guard) (rest : List Char),
      (∀ r, (g r).mapRegister .bare = g r.bare) ∧
        ∀ s, m.run.run s = (.ok (g ⟨(s.intern name).1, name⟩, rest), (s.intern name).2)

theorem readsGuard_readPredicate (inverse : Bool) (cs : List Char) :
    ReadsGuard (readPredicate inverse cs) (predicateName? cs) := by
  unfold predicateName? readPredicate
  dsimp only
  by_cases hname : (cs.takeWhile (!Text.isSpace ·)).head? = some '%' ∧
      (cs.takeWhile (!Text.isSpace ·)).length ≠ 1
  · -- a name that begins with `%` is not `pt`
    have hpt : String.ofList (cs.takeWhile (!Text.isSpace ·)) ≠ "pt" := by
      intro hpt
      have hhead := hname.1
      rw [← String.toList_ofList (l := cs.takeWhile _), hpt] at hhead
      exact absurd hhead (by decide)
    rw [if_pos hname, if_neg hpt, if_neg fun h => h.elim (fun hhead => hhead hname.1) hname.2]
    cases inverse with
    | true => exact ⟨.inverse, _, fun r => rfl, fun s => rfl⟩
    | false => exact ⟨.straight, _, fun r => rfl, fun s => rfl⟩
  · rw [if_neg hname]
    by_cases hpt : String.ofList (cs.takeWhile (!Text.isSpace ·)) = "pt"
    · rw [if_pos hpt]
      exact ⟨_, fun s => rfl⟩
    · rw [if_neg hpt, if_pos ((not_and_or.mp hname).imp_right not_not.mp)]
      exact ⟨.error _, fun s => rfl⟩

theorem readsGuard_readGuard? (cs : List Char) : ReadsGuard (readGuard? cs) (guardName? cs) := by
  unfold readGuard?
  split
  · rename_i rest
    unfold readGuard guardName?
    split
    · exact readsGuard_readPredicate true _
    · rename_i hne
      -- the sign is optional: without it the whole rest is the name
      have hhead : rest.head? ≠ some '!' := by
        intro hhead
        obtain ⟨cs, rfl⟩ := List.head?_eq_some_iff.mp hhead
        exact hne cs rfl
      show ReadsGuard (readPredicate false rest) (predicateName? (if _ then _ else _))
      rw [if_neg hhead]
      exact readsGuard_readPredicate false _
  · rename_i hne
    have hnone : guardName? cs = none := by
      unfold guardName?
      split
      · exact absurd rfl (hne _)
      · rfl
    rw [hnone]
    exact ⟨_, fun s => rfl⟩

/-- A guard adds its name. -/
theorem shadows_scopeAfter_readGuard? (cs : List Char) (s : Scope) (name : String) :
    (scopeAfter (readGuard? cs) s).Shadows name ↔
      s.Shadows name ∨ SpelledSpecial name ∧ guardName? cs = some name := by
  have hread := readsGuard_readGuard? cs
  cases hguard : guardName? cs with
  | none =>
    rw [hguard] at hread
    obtain ⟨x, hrun⟩ := hread
    unfold scopeAfter
    rw [hrun]
    simp
  | some name' =>
    rw [hguard] at hread
    obtain ⟨g, rest, -, hrun⟩ := hread
    unfold scopeAfter
    rw [hrun, Scope.shadows_intern, Option.some_inj, eq_comm (a := name)]

/-! ### Lines -/

/-- The rest of a line behind its guard. -/
def readBody (cs : List Char) (guarded : Guard × List Char) : Reader LineError Instruction := do
  let rest := guarded.2.dropWhile Text.isSpace
  let word := rest.takeWhile (!endsMnemonic ·)
  let tail := rest.dropWhile (!endsMnemonic ·)
  if word.isEmpty then throw .opcodeExpected
  let m ← liftM (mnemonic? word)
  let texts ← liftM (splitOperands (Text.byteLength cs - Text.byteLength tail) tail)
  if 4 < texts.length then throw (.tooManyOperands texts.length)
  let xs ← readOperands m 0 texts
  return Instruction.ofOperands m guarded.1 xs

theorem readLine_eq (cs : List Char) :
    readLine cs = readGuard? (cs.dropWhile Text.isSpace) >>= readBody cs := rfl

/-- The mnemonic behind the guard of a line and the texts of its operands. -/
def bodyParts (cs rest : List Char) : Except LineError (Mnemonic × List (List Char)) := do
  let rest := rest.dropWhile Text.isSpace
  let word := rest.takeWhile (!endsMnemonic ·)
  let tail := rest.dropWhile (!endsMnemonic ·)
  if word.isEmpty then throw .opcodeExpected
  let m ← mnemonic? word
  let texts ← splitOperands (Text.byteLength cs - Text.byteLength tail) tail
  if 4 < texts.length then throw (.tooManyOperands texts.length)
  return (m, texts)

/-- The operands of a line and the instruction that they make. -/
def readParts (guard : Guard) (parts : Mnemonic × List (List Char)) : Reader LineError Instruction := do
  let xs ← readOperands parts.1 0 parts.2
  return Instruction.ofOperands parts.1 guard xs

/-- Behind its guard, a line is taken apart before its operands are read. -/
theorem run_readBody (cs : List Char) (guarded : Guard × List Char) (s : Scope) :
    (readBody cs guarded).run.run s =
      (liftM (bodyParts cs guarded.2) >>= readParts guarded.1).run.run s := by
  unfold readBody bodyParts
  dsimp only
  split_ifs
  · rfl
  -- what does not depend on the scope is read first; an error there leaves the scope alone
  cases mnemonic? ((guarded.2.dropWhile Text.isSpace).takeWhile (!endsMnemonic ·)) with
  | error e => rfl
  | ok m =>
    cases splitOperands (Text.byteLength cs - Text.byteLength
        ((guarded.2.dropWhile Text.isSpace).dropWhile (!endsMnemonic ·)))
        ((guarded.2.dropWhile Text.isSpace).dropWhile (!endsMnemonic ·)) with
    | error e => rfl
    | ok texts =>
      rw [Runs.run_bind (runs_liftM rfl s), Runs.run_bind (runs_liftM rfl s)]
      by_cases hlen : 4 < texts.length
      · rw [if_pos hlen]
        show _ = (liftM (if 4 < texts.length then throw (.tooManyOperands texts.length)
          else pure (m, texts) : Except LineError _) >>= readParts guarded.1).run.run s
        rw [if_pos hlen]
        rfl
      · rw [if_neg hlen]
        show _ = (liftM (if 4 < texts.length then throw (.tooManyOperands texts.length)
          else pure (m, texts) : Except LineError _) >>= readParts guarded.1).run.run s
        rw [if_neg hlen]
        rfl

/-- When a line is taken apart, and into what. -/
theorem bodyParts_eq_ok {cs rest : List Char} {parts : Mnemonic × List (List Char)} :
    bodyParts cs rest = .ok parts ↔
      (rest.dropWhile Text.isSpace).takeWhile (!endsMnemonic ·) ≠ [] ∧
      mnemonic? ((rest.dropWhile Text.isSpace).takeWhile (!endsMnemonic ·)) = .ok parts.1 ∧
      splitOperands (Text.byteLength cs -
          Text.byteLength ((rest.dropWhile Text.isSpace).dropWhile (!endsMnemonic ·)))
        ((rest.dropWhile Text.isSpace).dropWhile (!endsMnemonic ·)) = .ok parts.2 ∧
      parts.2.length ≤ 4 := by
  unfold bodyParts
  dsimp only
  rw [ne_eq, ← List.isEmpty_iff]
  constructor
  · intro h
    split_ifs at h with hempty
    · cases h
    obtain ⟨m, hm, h⟩ := Fallible.bind_eq_ok.mp h
    obtain ⟨texts, htexts, h⟩ := Fallible.bind_eq_ok.mp h
    split_ifs at h with hlen
    · cases h
    cases h
    exact ⟨hempty, hm, htexts, Nat.le_of_not_lt hlen⟩
  · rintro ⟨hne, hm, htexts, hlen⟩
    rw [if_neg hne]
    refine Fallible.bind_eq_ok.mpr ⟨parts.1, hm, Fallible.bind_eq_ok.mpr ⟨parts.2, htexts, ?_⟩⟩
    rw [if_neg (Nat.not_lt_of_le hlen)]
    rfl

/-- Behind the guard of a line, the scope matters for the operands only. -/
theorem readBody_cases (cs rest : List Char) :
    (∃ e, ∀ guard s, (readBody cs (guard, rest)).run.run s = (.error e, s)) ∨
      ∃ m texts, texts.length ≤ 4 ∧ ∀ guard s, (readBody cs (guard, rest)).run.run s =
        (readOperands m 0 texts >>= fun xs => pure (Instruction.ofOperands m guard xs)).run.run s := by
  cases hparts : bodyParts cs rest with
  | error e =>
    refine .inl ⟨e, fun guard s => ?_⟩
    rw [run_readBody, hparts]
    rfl
  | ok parts =>
    refine .inr ⟨parts.1, parts.2, (bodyParts_eq_ok.mp hparts).2.2.2, fun guard s => ?_⟩
    rw [run_readBody, Runs.run_bind (runs_liftM hparts s)]
    rfl

theorem shadows_scopeAfter_readBody (cs : List Char) (guarded : Guard × List Char) (s : Scope)
    (name : String) : (scopeAfter (readBody cs guarded) s).Shadows name ↔ s.Shadows name := by
  rcases readBody_cases cs guarded.2 with ⟨e, hrun⟩ | ⟨m, texts, -, hrun⟩
  · unfold scopeAfter
    rw [hrun guarded.1 s]
  · have hscope : scopeAfter (readBody cs guarded) s = scopeAfter (readOperands m 0 texts) s := by
      unfold scopeAfter
      rw [hrun guarded.1 s]
      exact scopeAfter_bind_pure (readOperands m 0 texts) _ s
    rw [hscope]
    exact shadows_scopeAfter_readOperands m texts 0 s name

/-- **A line adds no name that is spelled like a special register but that of its guard**, be it
accepted or not. -/
theorem shadows_scopeAfter_readLine (cs : List Char) (s : Scope) (name : String) :
    (scopeAfter (readLine cs) s).Shadows name ↔
      s.Shadows name ∨ SpelledSpecial name ∧ guardName? (cs.dropWhile Text.isSpace) = some name := by
  rw [readLine_eq, scopeAfter_bind, ← shadows_scopeAfter_readGuard?]
  cases outcome (readGuard? (cs.dropWhile Text.isSpace)) s with
  | none => exact Iff.rfl
  | some guarded => exact shadows_scopeAfter_readBody cs guarded _ name

/-- The instruction has no operand that mentions a register with the property. -/
def Instruction.Avoids (E : String → Prop) (i : Instruction) : Prop :=
  ∀ x ∈ i.operands, x.form.Avoids E

section Lines

variable {E : String → Prop} {s₀ s₁ : Scope}

theorem Instruction.mapRegisters_ofOperands (f : RegisterUse → RegisterUse) (m : Mnemonic)
    (guard : Guard) (xs : List Operand) :
    (ofOperands m guard xs).mapRegisters f =
      ofOperands m (guard.mapRegister f) (xs.map (·.mapRegister f)) := by
  unfold ofOperands mapRegisters
  simp only [List.getElem?_map]

theorem length_of_outcome_readOperands {m : Mnemonic} {texts : List (List Char)} {xs : List Operand}
    {j : Nat} {s : Scope} (h : outcome (readOperands m j texts) s = some xs) :
    xs.length = texts.length := by
  have hrun : Runs (readOperands m j texts) s xs (scopeAfter (readOperands m j texts) s) :=
    Prod.ext (Fallible.toOption_eq_some.mp h) rfl
  exact length_of_runs_readOperands hrun

/-- Behind guards that differ in numbers at most, the rest of a line is read alike in both scopes,
unless it mentions a name in which they differ. -/
theorem splits_readBody (h : s₀.Extends E s₁) (cs rest : List Char) {guard₀ guard₁ : Guard}
    (hguard : guard₁.mapRegister .bare = guard₀.mapRegister .bare) :
    Splits (Instruction.Avoids E)
      ((outcome (readBody cs (guard₀, rest)) s₀).map (·.mapRegisters .bare))
      ((outcome (readBody cs (guard₁, rest)) s₁).map (·.mapRegisters .bare)) := by
  rcases readBody_cases cs rest with ⟨e, hrun⟩ | ⟨m, texts, hlen, hrun⟩
  · -- an error of the mnemonic or of the division is the same in both scopes
    unfold outcome
    rw [hrun, hrun]
    refine splits_self ?_
    rintro i ⟨⟩
  · -- with both fixed, only the operands depend on the scope
    have houtcome : ∀ guard s, (outcome (readBody cs (guard, rest)) s).map (·.mapRegisters .bare) =
        ((outcome (readOperands m 0 texts) s).map (List.map (·.mapRegister .bare))).map
          (Instruction.ofOperands m (guard.mapRegister .bare)) := by
      intro guard s
      have hbind : outcome (readBody cs (guard, rest)) s = outcome (readOperands m 0 texts >>=
          fun xs => pure (Instruction.ofOperands m guard xs)) s := by
        unfold outcome
        rw [hrun]
      rw [hbind, outcome_bind]
      cases outcome (readOperands m 0 texts) s with
      | none => rfl
      | some xs => exact congrArg some (Instruction.mapRegisters_ofOperands .bare m guard xs)
    rw [houtcome, houtcome, hguard]
    refine (splits_readOperands h m texts 0).map fun xs hxs => ?_
    have hfour : xs.length ≤ 4 := by
      rcases hxs with hxs | hxs
      all_goals
        obtain ⟨ys, hys, rfl⟩ := Option.map_eq_some_iff.mp hxs
        rw [List.length_map, length_of_outcome_readOperands hys]
        exact hlen
    unfold Instruction.Avoids
    rw [Instruction.operands_ofOperands m _ hfour]

/-- **A line is read alike in two scopes**, unless it mentions a name in which they differ behind
its guard. -/
theorem splits_readLine (cs : List Char)
    (h : (scopeAfter (readGuard? (cs.dropWhile Text.isSpace)) s₀).Extends E
      (scopeAfter (readGuard? (cs.dropWhile Text.isSpace)) s₁)) :
    Splits (Instruction.Avoids E) ((outcome (readLine cs) s₀).map (·.mapRegisters .bare))
      ((outcome (readLine cs) s₁).map (·.mapRegisters .bare)) := by
  have hread := readsGuard_readGuard? (cs.dropWhile Text.isSpace)
  rw [readLine_eq, outcome_bind, outcome_bind]
  -- a guard that names a register changes the scope before the operands are read
  cases hname : guardName? (cs.dropWhile Text.isSpace) with
  | none =>
    rw [hname] at hread
    obtain ⟨x, hrun⟩ := hread
    have houtcome : ∀ s, outcome (readGuard? (cs.dropWhile Text.isSpace)) s = x.toOption := by
      intro s
      unfold outcome
      rw [hrun]
    rw [houtcome, houtcome]
    cases x with
    | error e =>
      refine splits_self ?_
      rintro i ⟨⟩
    | ok guarded => exact splits_readBody h cs guarded.2 rfl
  | some name =>
    rw [hname] at hread
    obtain ⟨g, rest, hbare, hrun⟩ := hread
    have houtcome : ∀ s, outcome (readGuard? (cs.dropWhile Text.isSpace)) s =
        some (g ⟨(s.intern name).1, name⟩, rest) := by
      intro s
      unfold outcome
      rw [hrun]
      rfl
    rw [houtcome, houtcome]
    exact splits_readBody h cs rest (by rw [hbare, hbare]; rfl)

end Lines

/-! ### Lines of a kernel -/

/-- The name of the register in the guard of a line. -/
def lineGuard? (line : String) : Option String :=
  guardName? ((beforeComment line.toList).dropWhile Text.isSpace)

/-- The name is spelled like a special register, and the scope does not know it, but lines before
have it in a guard; the line itself has not. -/
structure Scope.Captured (s : Scope) (before : List String) (line name : String) : Prop where
  special : SpelledSpecial name
  unknown : s.idOf? name = none
  guards : ∃ earlier ∈ before, lineGuard? earlier = some name
  unguarded : lineGuard? line ≠ some name

theorem Instruction.operands_mapRegisters (f : RegisterUse → RegisterUse) (i : Instruction) :
    (i.mapRegisters f).operands = i.operands.map (·.mapRegister f) := by
  obtain ⟨m, guard, d, a, b, c⟩ := i
  cases d <;> cases a <;> cases b <;> cases c <;> rfl

theorem Instruction.avoids_bare_iff {E : String → Prop} {i : Instruction} :
    (i.mapRegisters .bare).Avoids E ↔ i.Avoids E := by
  unfold Avoids
  rw [operands_mapRegisters, List.forall_mem_map]
  exact forall₂_congr fun x _ => Form.avoids_bare_iff

namespace Kernel

/-- The kernel after the lines were read in it, accepted or not. -/
def after (k : Kernel) (lines : List String) : Kernel :=
  lines.foldl (fun k line => (k.parse line).2) k

theorem interns_after (k : Kernel) (lines : List String) :
    k.scope.Interns (k.after lines).scope := by
  induction lines generalizing k with
  | nil => exact .refl k.scope
  | cons line lines ih => exact (k.scope.interns_parse line).trans (ih (k.parse line).2)

/-- **Lines add the names of their guards**, and no others that are spelled like special
registers. -/
theorem shadows_after (k : Kernel) (lines : List String) (name : String) :
    (k.after lines).scope.Shadows name ↔
      k.scope.Shadows name ∨
        SpelledSpecial name ∧ ∃ earlier ∈ lines, lineGuard? earlier = some name := by
  induction lines generalizing k with
  | nil => simp [after]
  | cons line lines ih =>
    have hline : (k.parse line).2.scope.Shadows name ↔
        k.scope.Shadows name ∨ SpelledSpecial name ∧ lineGuard? line = some name :=
      shadows_scopeAfter_readLine (beforeComment line.toList) k.scope name
    rw [after, List.foldl_cons]
    refine (ih (k.parse line).2).trans ?_
    rw [hline, List.exists_mem_cons_iff, or_assoc, ← and_or_left]

/-- Behind the guard of a line, the scopes with and without the lines before differ in captured
names only. -/
theorem extends_after (k : Kernel) (before : List String) (line : String) :
    (scopeAfter (readGuard? ((beforeComment line.toList).dropWhile Text.isSpace)) k.scope).Extends
      (k.scope.Captured before line)
      (scopeAfter (readGuard? ((beforeComment line.toList).dropWhile Text.isSpace))
        (k.after before).scope) := by
  have hguard := numbers_readGuard? ((beforeComment line.toList).dropWhile Text.isSpace)
  refine ⟨?_, fun name => ?_, fun name hname => ?_⟩
  · exact ((hguard _).params.trans (k.interns_after before).params).trans (hguard _).params.symm
  · rw [shadows_scopeAfter_readGuard?, shadows_scopeAfter_readGuard?, shadows_after]
    constructor
    · rintro ((h | ⟨hspecial, hbefore⟩) | h)
      · exact .inl (.inl h)
      · -- a name from a guard before is captured unless the kernel or the line itself has it too
        by_cases hknown : (k.scope.idOf? name).isSome
        · exact .inl (.inl ⟨hspecial, hknown⟩)
        · by_cases hline : lineGuard? line = some name
          · exact .inl (.inr ⟨hspecial, hline⟩)
          · exact .inr ⟨hspecial, Option.not_isSome_iff_eq_none.mp hknown, hbefore, hline⟩
      · exact .inl (.inr h)
    · rintro ((h | h) | h)
      · exact .inl (.inl h)
      · exact .inr h
      · exact .inl (.inr ⟨h.special, h.guards⟩)
  · rw [shadows_scopeAfter_readGuard?]
    rintro (h | h)
    · have hknown := h.2
      rw [hname.unknown] at hknown
      cases hknown
    · exact hname.unguarded h.2

theorem toOption_parse (k : Kernel) (line : String) :
    (k.parse line).1.toOption = outcome (readLine (beforeComment line.toList)) k.scope := by
  show (((readLine (beforeComment line.toList)).run.run k.scope).1.mapError _).toOption = _
  unfold outcome
  cases ((readLine (beforeComment line.toList)).run.run k.scope).1 <;> rfl

theorem exists_bound_of_parse (k : Kernel) (line : String) {s : Scope} (hs : s.Interns k.scope)
    (i : Instruction) (h : (k.parse line).1 = .ok i) :
    ∃ s', s.Interns s' ∧ ∀ r, i.Uses r → r.Bound s' := by
  have hparse : k.scope.parse line = (.ok i, (k.scope.parse line).2) := Prod.ext h rfl
  exact ⟨_, hs.trans (k.scope.interns_parse line), fun r hr => Scope.bound_of_parse hparse hr⟩

/-- **A line is read as without the lines before it** exactly if no operand of what is read mentions
a captured name. -/
theorem parse_after_iff (k : Kernel) (before : List String) (line : String) :
    SameReading k.scope (k.parse line).1 ((k.after before).parse line).1 ↔
      ∀ i, ((k.after before).parse line).1 = .ok i → ∀ x ∈ i.operands, ∀ r,
        x.form.register? = some r → ¬k.scope.Captured before line r.name := by
  have hsplits := splits_readLine (beforeComment line.toList) (k.extends_after before line)
  rw [← toOption_parse, ← toOption_parse] at hsplits
  rw [sameReading_iff_bare (k.exists_bound_of_parse line (.refl _))
    ((k.after before).exists_bound_of_parse line (k.interns_after before))]
  constructor
  · -- without the lines before, a captured name is never read as that of a register
    intro heq i hi
    rw [hi] at heq
    exact Instruction.avoids_bare_iff.mp (hsplits.1 _ heq)
  · intro havoids
    rcases hsplits.2 with heq | ⟨_, hsome, hnot⟩
    · exact heq.symm
    · obtain ⟨i, hi, rfl⟩ := Option.map_eq_some_iff.mp hsome
      have hok : ((k.after before).parse line).1 = .ok i := Fallible.toOption_eq_some.mp hi
      exact absurd (Instruction.avoids_bare_iff.mpr (havoids i hok)) hnot

end Kernel

/-- A kernel with one register. -/
def movingKernel : Kernel :=
  { name := "k", linkage := .none
    scope := ({} : Scope).addRegister "%r1" (.unsigned .w32) }

instance (s : Scope) (x y : Except ParseError Instruction) : Decidable (SameReading s x y) :=
  inferInstanceAs (Decidable (_ = _))

/-- The name of a special register is captured, be the line with the guard accepted or not, and so
is a spelling that would be refused. -/
theorem Kernel.parse_after_guard :
    ¬SameReading movingKernel.scope (movingKernel.parse "mov.u32 %r1, %tid").1
        ((movingKernel.after ["@%tid ret"]).parse "mov.u32 %r1, %tid").1 ∧
      ¬SameReading movingKernel.scope (movingKernel.parse "mov.u32 %r1, %tid").1
        ((movingKernel.after ["@!%tid what"]).parse "mov.u32 %r1, %tid").1 ∧
      (movingKernel.parse "mov.u32 %r1, %tid.w").1.toOption = none ∧
      ((movingKernel.after ["@%tid.w ret"]).parse "mov.u32 %r1, %tid.w").1.toOption ≠ none := by
  decide +kernel

end KernelIR.Source
