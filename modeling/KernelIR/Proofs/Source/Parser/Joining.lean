import KernelIR.Proofs.Source.Parser.Faults
import Mathlib.Data.List.Infix

/-!
# Joined operands are split again

`splitOperands_inverts_joining`: take texts whose brackets balance and whose commas stand inside
brackets, without blanks or parentheses around them, and join them by commas with any blanks next to
the commas.  With spaces in front and spaces and semicolons behind, the splitter gives back exactly
these texts.  Whatever it is given, it never gives an empty text, and texts that it gives are all
that operands are read from.

How deep brackets are nested is said by counting them in the beginnings of a text (`Balanced`), and
`depthAfter?_of_balanced` ties the counts to the scan that `splitFrom_append` is about.  The
induction is on how the texts are joined: the blanks behind a comma are what the next operand begins
with.
-/

namespace KernelIR.Source

open Text (isBlank isSpace trim trimEnd)

/-! ### Brackets by counting -/

/-- How many brackets open in a text. -/
def opening (cs : List Char) : Nat :=
  cs.countP fun c => c = '[' ∨ c = '(' ∨ c = '\x7b'

/-- How many brackets close in a text. -/
def closing (cs : List Char) : Nat :=
  cs.countP fun c => c = ']' ∨ c = ')' ∨ c = '\x7d'

/-- Brackets of all kinds count alike: no beginning of the text closes more than it opens, the whole
text closes as many, and in front of a comma one is open. -/
structure Balanced (cs : List Char) : Prop where
  beginnings : ∀ p, p <+: cs → closing p ≤ opening p
  whole : closing cs = opening cs
  commas : ∀ p, p ++ [','] <+: cs → closing p < opening p

instance (cs : List Char) : Decidable (Balanced cs) :=
  decidable_of_iff
    ((∀ p ∈ cs.inits, closing p ≤ opening p) ∧ closing cs = opening cs ∧
      ∀ p ∈ cs.inits, p ++ [','] ∈ cs.inits → closing p < opening p) <| by
    constructor
    · rintro ⟨hbeginnings, hwhole, hcommas⟩
      refine ⟨fun p hp => hbeginnings p (List.mem_inits p cs |>.mpr hp), hwhole, fun p hp => ?_⟩
      refine hcommas p ((List.mem_inits p cs).mpr ?_) ((List.mem_inits _ cs).mpr hp)
      exact (List.prefix_append p [',']).trans hp
    · rintro ⟨hbeginnings, hwhole, hcommas⟩
      refine ⟨fun p hp => hbeginnings p ((List.mem_inits p cs).mp hp), hwhole, fun p _ hp => ?_⟩
      exact hcommas p ((List.mem_inits _ cs).mp hp)

/-- The scan finds the depth that the counts give. -/
theorem depthAfter?_eq_some {depth : Nat} {cs : List Char}
    (hbeginnings : ∀ p, p <+: cs → closing p ≤ depth + opening p)
    (hcommas : ∀ p, p ++ [','] <+: cs → closing p < depth + opening p) :
    depthAfter? depth cs = some (depth + opening cs - closing cs) := by
  induction cs generalizing depth with
  | nil => rfl
  | cons c cs ih =>
    have hopening : ∀ p, opening ([c] ++ p) = opening [c] + opening p := fun p => List.countP_append
    have hclosing : ∀ p, closing ([c] ++ p) = closing [c] + closing p := fun p => List.countP_append
    rw [← List.singleton_append] at hbeginnings hcommas ⊢
    -- behind the first character the depth is another one, and the counts are less by what it counts
    have hrest : ∀ depth', depth' + closing [c] = depth + opening [c] →
        depthAfter? depth' cs = some (depth + opening ([c] ++ cs) - closing ([c] ++ cs)) := by
      intro depth' hdepth
      have hcs : depthAfter? depth' cs = some (depth' + opening cs - closing cs) := by
        refine ih (fun p hp => ?_) fun p hp => ?_
        · have hp' := hbeginnings ([c] ++ p) ((List.prefix_append_right_inj [c]).mpr hp)
          rw [hopening, hclosing] at hp'
          omega
        · have hp' := hcommas ([c] ++ p) ((List.prefix_append_right_inj [c]).mpr hp)
          rw [hopening, hclosing] at hp'
          omega
      rw [hcs, hopening, hclosing]
      congr 1
      omega
    have hfirst := hbeginnings [c] (List.prefix_append [c] cs)
    rw [List.singleton_append, depthAfter?]
    split_ifs with hopens hcloses hzero hcomma
    · have hc : opening [c] = 1 ∧ closing [c] = 0 := by
        rcases hopens with rfl | rfl | rfl <;> decide
      exact hrest _ (by omega)
    · have hc : opening [c] = 0 ∧ closing [c] = 1 := by
        rcases hcloses with rfl | rfl | rfl <;> decide
      omega
    · have hc : opening [c] = 0 ∧ closing [c] = 1 := by
        rcases hcloses with rfl | rfl | rfl <;> decide
      exact hrest _ (by omega)
    · have hopen := hcommas [] (by rw [hcomma.1]; exact List.prefix_append [','] cs)
      rw [hcomma.2] at hopen
      exact absurd hopen (by decide)
    · have hc : opening [c] = 0 ∧ closing [c] = 0 := by
        simp [opening, closing, hopens, hcloses]
      exact hrest _ (by omega)

/-- **The scan goes through a balanced text and ends where it began.** -/
theorem depthAfter?_of_balanced {cs : List Char} (h : Balanced cs) : depthAfter? 0 cs = some 0 := by
  have hdepth : depthAfter? 0 cs = some (0 + opening cs - closing cs) := by
    refine depthAfter?_eq_some (fun p hp => ?_) fun p hp => ?_
    · rw [Nat.zero_add]
      exact h.beginnings p hp
    · rw [Nat.zero_add]
      exact h.commas p hp
  rwa [h.whole, Nat.add_sub_cancel_right] at hdepth

/-! ### Joined texts -/

/-- The text of an operand as it stands by itself. -/
structure IsPiece (t : List Char) : Prop where
  ne_nil : t ≠ []
  head : ∀ c, t.head? = some c → isBlank c = false ∧ c ≠ '('
  last : ∀ c, t.getLast? = some c → isBlank c = false ∧ c ≠ ')' ∧ c ≠ ';'
  balanced : Balanced t

instance (t : List Char) : Decidable (IsPiece t) :=
  decidable_of_iff
    (t ≠ [] ∧ t.head?.all (fun c => isBlank c = false ∧ c ≠ '(') = true ∧
      t.getLast?.all (fun c => isBlank c = false ∧ c ≠ ')' ∧ c ≠ ';') = true ∧ Balanced t) <| by
    simp only [Option.all_eq_true, decide_eq_true_eq]
    exact ⟨fun h => ⟨h.1, h.2.1, h.2.2.1, h.2.2.2⟩, fun h => ⟨h.ne_nil, h.head, h.last, h.balanced⟩⟩

/-- The texts are joined by commas, with blanks on either side of each comma. -/
inductive Joined : List (List Char) → List Char → Prop
  | nil : Joined [] []
  | single (t : List Char) : Joined [t] t
  | cons {t u cs : List Char} {ts : List (List Char)} (before after : List Char)
    (hbefore : ∀ c ∈ before, isBlank c = true) (hafter : ∀ c ∈ after, isBlank c = true) :
    Joined (u :: ts) cs → Joined (t :: u :: ts) (t ++ (before ++ ',' :: (after ++ cs)))

theorem trim_padded {t front back : List Char} (hfront : ∀ c ∈ front, isBlank c = true)
    (hback : ∀ c ∈ back, isBlank c = true) (hne : t ≠ [])
    (hhead : ∀ c, t.head? = some c → isBlank c = false)
    (hlast : ∀ c, t.getLast? = some c → isBlank c = false) : trim (front ++ (t ++ back)) = t := by
  have hbegin : ∀ c, (t ++ back).head? = some c → isBlank c = false := by
    intro c hc
    rw [List.head?_append_of_ne_nil t hne] at hc
    exact hhead c hc
  have hend : ∀ c, t.reverse.head? = some c → isBlank c = false := by
    intro c hc
    rw [List.head?_reverse] at hc
    exact hlast c hc
  have hback' : ∀ c ∈ back.reverse, isBlank c = true := fun c hc => hback c (List.mem_reverse.mp hc)
  rw [trim, List.dropWhile_append_of_pos hfront, dropWhile_eq_self_of_head hbegin, trimEnd,
    List.reverse_append, List.dropWhile_append_of_pos hback', dropWhile_eq_self_of_head hend,
    List.reverse_reverse]

/-- Blanks around a piece do not belong to it. -/
theorem IsPiece.operandText_padded {t front back : List Char} (h : IsPiece t)
    (hfront : ∀ c ∈ front, isBlank c = true) (hback : ∀ c ∈ back, isBlank c = true) :
    operandText (front ++ (t ++ back)) = t := by
  have hhead := fun c hc => (h.head c hc).1
  have hlast := fun c hc => (h.last c hc).1
  have hpadded := trim_padded hfront hback h.ne_nil hhead hlast
  have htrim : trim t = t := trim_eq_self hhead hlast
  rw [operandText, hpadded]
  have hself := operandText_eq_self htrim (fun hc => (h.head _ hc).2 rfl)
    (fun hc => (h.last _ hc).2.1 rfl)
  rwa [operandText, htrim] at hself

theorem IsPiece.finishOperand_padded {t front back : List Char} (h : IsPiece t)
    (hfront : ∀ c ∈ front, isBlank c = true) (hback : ∀ c ∈ back, isBlank c = true) (start : Nat) :
    finishOperand start (front ++ (t ++ back)) = .ok t := by
  unfold finishOperand
  dsimp only
  rw [h.operandText_padded hfront hback, List.isEmpty_eq_false_iff.mpr h.ne_nil]
  rfl

/-- Blanks neither open nor close nor separate. -/
theorem depthAfter?_of_isBlank {ws : List Char} (h : ∀ c ∈ ws, isBlank c = true) (depth : Nat) :
    depthAfter? depth ws = some depth := by
  induction ws with
  | nil => rfl
  | cons c ws ih =>
    have hc : ∀ d, isBlank d = false → c ≠ d := by
      rintro d hd rfl
      rw [h c List.mem_cons_self] at hd
      cases hd
    rw [depthAfter?, if_neg, if_neg, if_neg]
    · exact ih fun d hd => h d (List.mem_cons_of_mem c hd)
    · exact fun hcomma => hc ',' (by decide) hcomma.1
    · rintro (rfl | rfl | rfl) <;> exact hc _ (by decide) rfl
    · rintro (rfl | rfl | rfl) <;> exact hc _ (by decide) rfl

/-- **The splitter finds the pieces of a joined text**, from any position and with any blanks in
front of the first. -/
theorem splitFrom_joined {ts : List (List Char)} {cs : List Char} (h : Joined ts cs)
    (hts : ∀ t ∈ ts, IsPiece t) (hne : ts ≠ []) (front : List Char)
    (hfront : ∀ c ∈ front, isBlank c = true) (position start : Nat) :
    splitFrom position start 0 front.reverse cs = .ok ts := by
  -- on the joining, for any blanks that are already held
  induction h generalizing front position start with
  | nil => exact absurd rfl hne
  | single t =>
    have ht := hts t List.mem_cons_self
    have hfinish : finishOperand start (front ++ (t ++ [])) = .ok t :=
      ht.finishOperand_padded hfront (List.forall_mem_nil _) start
    rw [← List.append_nil t, splitFrom_append (depthAfter?_of_balanced ht.balanced), splitFrom,
      List.reverse_append, List.reverse_reverse, List.reverse_reverse]
    rw [List.append_nil] at hfinish ⊢
    rw [hfinish]
    rfl
  | @cons t u cs ts before after hbefore hafter _ ih =>
    have ht := hts t List.mem_cons_self
    have hfinish := ht.finishOperand_padded hfront hbefore start
    -- the blanks behind the comma become those in front of the next piece
    have hrest := fun p => ih (fun v hv => hts v (List.mem_cons_of_mem t hv)) (List.cons_ne_nil u ts)
      after hafter p
    have hreverse : (before.reverse ++ (t.reverse ++ front.reverse)).reverse =
        front ++ (t ++ before) := by simp
    rw [splitFrom_append (depthAfter?_of_balanced ht.balanced),
      splitFrom_append (depthAfter?_of_isBlank hbefore 0), splitFrom, if_neg (by decide),
      if_neg (by decide), if_pos ⟨rfl, rfl⟩, hreverse, hfinish]
    show (do let more ← splitFrom _ _ 0 [] (after ++ cs)
             pure (t :: more) : Except LineError (List (List Char))) = _
    rw [splitFrom_append (depthAfter?_of_isBlank hafter 0), List.append_nil, hrest]
    rfl

/-- A joined text begins like its first piece. -/
theorem Joined.head? {t cs : List Char} {ts : List (List Char)} (h : Joined (t :: ts) cs)
    (hne : t ≠ []) : cs.head? = t.head? := by
  cases h with
  | single => rfl
  | cons before after _ _ _ => exact List.head?_append_of_ne_nil t hne

/-- A joined text ends like one of its pieces. -/
theorem Joined.exists_getLast? {ts : List (List Char)} {cs : List Char} (h : Joined ts cs)
    (hts : ∀ t ∈ ts, t ≠ []) {c : Char} (hc : cs.getLast? = some c) :
    ∃ t ∈ ts, t.getLast? = some c := by
  induction h with
  | nil => cases hc
  | single t => exact ⟨t, List.mem_cons_self, hc⟩
  | @cons t u cs ts before after _ _ hjoined ih =>
    have hne : cs ≠ [] := by
      rintro rfl
      have hhead := hjoined.head? (hts u (List.mem_cons_of_mem t List.mem_cons_self))
      exact hts u (List.mem_cons_of_mem t List.mem_cons_self) (List.head?_eq_none_iff.mp hhead.symm)
    have hlast : cs.getLast? = some c := by
      rwa [← List.singleton_append, ← List.append_assoc, ← List.append_assoc, ← List.append_assoc,
        List.getLast?_append_of_ne_nil _ hne] at hc
    obtain ⟨v, hv, hvc⟩ := ih (fun v hv => hts v (List.mem_cons_of_mem t hv)) hlast
    exact ⟨v, List.mem_cons_of_mem t hv, hvc⟩

/-- What separates the parts of a line is blank. -/
theorem isSpace_of_isBlank {c : Char} (h : isBlank c = false) : isSpace c = false := by
  rw [isSpace, Bool.or_eq_false_iff, Bool.or_eq_false_iff, Bool.or_eq_false_iff, beq_eq_false_iff_ne,
    beq_eq_false_iff_ne, beq_eq_false_iff_ne, beq_eq_false_iff_ne]
  refine ⟨⟨⟨?_, ?_⟩, ?_⟩, ?_⟩ <;> rintro rfl <;> exact absurd h (by decide)

/-- Terminators behind a text make no difference. -/
theorem dropTerminators_append {tail : List Char} (h : ∀ c ∈ tail, endsMnemonic c = true)
    (cs : List Char) : dropTerminators (cs ++ tail) = dropTerminators cs := by
  have hreverse : ∀ c ∈ tail.reverse, (isSpace c || c == ';') = true :=
    fun c hc => h c (List.mem_reverse.mp hc)
  rw [dropTerminators, dropTerminators, List.reverse_append, List.dropWhile_append_of_pos hreverse]

/-- **Joined pieces are split into themselves**, with spaces in front and terminators behind. -/
theorem splitOperands_of_joined {ts : List (List Char)} {cs lead tail : List Char}
    (h : Joined ts cs) (hts : ∀ t ∈ ts, IsPiece t) (hlead : ∀ c ∈ lead, isSpace c = true)
    (htail : ∀ c ∈ tail, endsMnemonic c = true) (position : Nat) :
    splitOperands position (lead ++ (cs ++ tail)) = .ok ts := by
  unfold splitOperands
  dsimp only
  rw [List.dropWhile_append_of_pos hlead]
  cases ts with
  | nil =>
    cases h
    -- without pieces, all is blank or a terminator
    have hbody : dropTerminators (([] ++ tail).dropWhile isSpace) = [] := by
      have hrest : ∀ c ∈ tail.dropWhile isSpace, endsMnemonic c = true :=
        fun c hc => htail c ((List.dropWhile_sublist _).subset hc)
      exact dropTerminators_append hrest []
    rw [hbody]
    rfl
  | cons t ts =>
    have ht := hts t List.mem_cons_self
    have hne : cs ≠ [] := by
      rintro rfl
      exact ht.ne_nil (List.head?_eq_none_iff.mp (h.head? ht.ne_nil).symm)
    -- the trimming stops at the first piece and at the last one
    have hhead : ∀ c, (cs ++ tail).head? = some c → isSpace c = false := by
      intro c hc
      rw [List.head?_append_of_ne_nil cs hne, h.head? ht.ne_nil] at hc
      exact isSpace_of_isBlank (ht.head c hc).1
    have hlast : ∀ c, cs.getLast? = some c → (isSpace c || c == ';') = false := by
      intro c hc
      obtain ⟨v, hv, hvc⟩ := h.exists_getLast? (fun v hv => (hts v hv).ne_nil) hc
      obtain ⟨hblank, -, hsemicolon⟩ := (hts v hv).last c hvc
      rw [isSpace_of_isBlank hblank, beq_eq_false_iff_ne.mpr hsemicolon]
      rfl
    rw [dropWhile_eq_self_of_head hhead, dropTerminators_append htail, dropTerminators_eq_self hlast,
      List.isEmpty_eq_false_iff.mpr hne, if_neg (by decide)]
    exact splitFrom_joined h hts (List.cons_ne_nil t ts) [] (List.forall_mem_nil _) _ _

/-- **Splitting undoes joining, and no operand is empty.**  Pieces that are joined by commas, with
any blanks at the commas, are split into exactly these pieces, from any position, with any spaces in
front and any spaces and semicolons behind.  No text at all has an empty operand split off, and so
no line is refused, in any scope, because an operand has no text. -/
theorem splitOperands_inverts_joining :
    (∀ (texts : List (List Char)) (cs lead tail : List Char), (∀ t ∈ texts, IsPiece t) →
      Joined texts cs → (∀ c ∈ lead, isSpace c = true) → (∀ c ∈ tail, endsMnemonic c = true) →
        ∀ position, splitOperands position (lead ++ (cs ++ tail)) = .ok texts) ∧
      (∀ position rest texts, splitOperands position rest = .ok texts → ∀ text ∈ texts, text ≠ []) ∧
      ∀ (k : Kernel) (line : String) (e : ParseError), (k.parse line).1 = .error e →
        ∀ j, e.cause ≠ .operand j (.unexpected []) := by
  refine ⟨fun texts cs lead tail htexts hjoined hlead htail =>
    splitOperands_of_joined hjoined htexts hlead htail, fun position rest texts h =>
    ne_nil_of_splitOperands h, fun k line e h => ?_⟩
  obtain ⟨e', he', rfl⟩ := Fallible.mapError_eq_error.mp h
  exact hasText_readLine (beforeComment line.toList) k.scope e' he'

/-- A register, an address, a list with brackets inside and a text with a semicolon inside. -/
def samplePieces : List (List Char) :=
  ["%r1".toList, "[%a+4]".toList, "\x7bx, (y)\x7d".toList, "a;b".toList]

theorem splitOperands_samplePieces :
    (∀ t ∈ samplePieces, IsPiece t) ∧
      splitOperands 7 " \n%r1\t,[%a+4] , \x7bx, (y)\x7d,a;b ;\t;".toList = .ok samplePieces ∧
      ∀ text ∈ samplePieces, text ≠ [] := by
  have hpieces : ∀ t ∈ samplePieces, IsPiece t := by decide +kernel
  have hline : " \n%r1\t,[%a+4] , \x7bx, (y)\x7d,a;b ;\t;".toList =
      " \n".toList ++ (("%r1".toList ++ ("\t".toList ++ ',' :: ([] ++
        ("[%a+4]".toList ++ (" ".toList ++ ',' :: (" ".toList ++
          ("\x7bx, (y)\x7d".toList ++ ([] ++ ',' :: ([] ++ "a;b".toList))))))))) ++
        " ;\t;".toList) := by
    decide +kernel
  obtain ⟨hsplit, hempty, -⟩ := splitOperands_inverts_joining
  have hsample : splitOperands 7 " \n%r1\t,[%a+4] , \x7bx, (y)\x7d,a;b ;\t;".toList =
      .ok samplePieces := by
    rw [hline]
    refine hsplit samplePieces _ _ _ hpieces ?_ (List.all_eq_true.mp (by decide +kernel))
      (List.all_eq_true.mp (by decide +kernel)) 7
    refine .cons _ _ (List.all_eq_true.mp (by decide +kernel)) (List.forall_mem_nil _) ?_
    refine .cons _ _ (List.all_eq_true.mp (by decide +kernel))
      (List.all_eq_true.mp (by decide +kernel)) ?_
    exact .cons _ _ (List.forall_mem_nil _) (List.forall_mem_nil _) (.single _)
  exact ⟨hpieces, hsample, hempty 7 _ _ hsample⟩

end KernelIR.Source
