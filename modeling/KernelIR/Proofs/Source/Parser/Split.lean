import KernelIR.Proofs.Fallible
import KernelIR.Proofs.Related
import KernelIR.Source.Parser.Operand
import KernelIR.Source.Parser.Split
import Mathlib.Tactic.Common

/-!
# Splitting undoes joining

`splitFrom_intercalate`: pieces whose brackets balance and whose commas stand inside brackets,
joined by commas, are split into the texts of the pieces (`operandText`, without what surrounds
them).  `depthAfter?` is the scan that says when a piece is balanced, and `splitFrom_append` its
meaning for the splitter: a balanced stretch only moves the position and grows the current operand.

`subset_of_splitOperands`: the splitter makes no characters up.
-/

namespace KernelIR.Source

open Text (isBlank isSpace trim trimEnd byteLength)

/-! ### Plain characters -/

/-- The characters of mnemonics and of register names behind their percent sign. -/
def isNameChar (c : Char) : Bool :=
  isIdentRest c || c == '.'

/-- The characters of operands, their brackets apart. -/
def isPlain (c : Char) : Bool :=
  isNameChar c || c == '%' || c == '+' || c == '-'

theorem isNameChar_of_isIdentRest {c : Char} (h : isIdentRest c = true) : isNameChar c = true := by
  rw [isNameChar, h, Bool.true_or]

theorem isPlain_of_isNameChar {c : Char} (h : isNameChar c = true) : isPlain c = true := by
  rw [isPlain, h, Bool.true_or, Bool.true_or, Bool.true_or]

theorem isIdentRest_of_isDigit {c : Char} (h : c.isDigit = true) : isIdentRest c = true := by
  simp only [Char.isDigit, Bool.and_eq_true, decide_eq_true_eq] at h
  have hdigit : (decide ('0' ≤ c) && decide (c ≤ '9')) = true := by
    rw [Bool.and_eq_true, decide_eq_true_eq, decide_eq_true_eq]
    exact h
  rw [isIdentRest, hdigit, Bool.or_true]

theorem ne_of_isPlain {c d : Char} (h : isPlain c = true) (hd : isPlain d = false) : c ≠ d := by
  rintro rfl
  rw [hd] at h
  cases h

theorem toNat_of_isPlain {c : Char} (h : isPlain c = true) : 33 ≤ c.toNat ∧ c.toNat ≤ 122 := by
  have hv : c.toNat = c.val.toNat := rfl
  simp only [isPlain, isNameChar, isIdentRest, isIdentStart, Bool.or_eq_true, Bool.and_eq_true,
    decide_eq_true_eq, beq_iff_eq, Char.le_def, UInt32.le_iff_toNat_le, Char.reduceVal,
    UInt32.reduceToNat] at h
  rcases h with (((((((h | h) | rfl) | rfl) | h) | rfl) | rfl) | rfl) | rfl
  any_goals decide
  all_goals omega

theorem isBlank_of_isPlain {c : Char} (h : isPlain c = true) : isBlank c = false := by
  obtain ⟨hlo, hhi⟩ := toNat_of_isPlain h
  simp only [isBlank, Bool.or_eq_false_iff, Bool.and_eq_false_iff, decide_eq_false_iff_not,
    beq_eq_false_iff_ne]
  omega

theorem isSpace_of_isPlain {c : Char} (h : isPlain c = true) : isSpace c = false := by
  have h1 : c ≠ ' ' := ne_of_isPlain h (by decide)
  have h2 : c ≠ '\t' := ne_of_isPlain h (by decide)
  have h3 : c ≠ '\r' := ne_of_isPlain h (by decide)
  have h4 : c ≠ '\n' := ne_of_isPlain h (by decide)
  simp [isSpace, h1, h2, h3, h4]

/-! ### Trimming -/

/-- A text that neither begins nor ends with a blank is its own trimmed form. -/
theorem trim_eq_self {cs : List Char} (hhead : ∀ c, cs.head? = some c → isBlank c = false)
    (hlast : ∀ c, cs.getLast? = some c → isBlank c = false) : trim cs = cs := by
  rw [trim, dropWhile_eq_self_of_head hhead, trimEnd, dropWhile_eq_self_of_head, List.reverse_reverse]
  intro c hc
  rw [List.head?_reverse] at hc
  exact hlast c hc

theorem trim_cons_of_isBlank {c : Char} (hc : isBlank c = true) (cs : List Char) :
    trim (c :: cs) = trim cs := by
  rw [trim, trim, List.dropWhile_cons, hc]; rfl

/-- A trimmed text without parentheses at its ends is its own operand text. -/
theorem operandText_eq_self {cs : List Char} (htrim : trim cs = cs)
    (hhead : cs.head? ≠ some '(') (hlast : cs.getLast? ≠ some ')') : operandText cs = cs := by
  have hstrip : stripParens cs = cs := by
    cases cs with
    | nil => rfl
    | cons c rest =>
      have hc : c ≠ '(' := fun h => hhead (by rw [h]; rfl)
      simp [stripParens, hc, hlast]
  rw [operandText, htrim, hstrip, htrim]

/-- Blanks in front of a piece do not belong to the operand. -/
theorem operandText_cons_of_isBlank {c : Char} (hc : isBlank c = true) (cs : List Char) :
    operandText (c :: cs) = operandText cs := by
  rw [operandText, operandText, trim_cons_of_isBlank hc]

/-! ### Balanced pieces -/

/-- The number of open brackets behind a text that begins inside `depth` of them.  None if a bracket
closes that was not opened, or if a comma stands outside all brackets. -/
def depthAfter? : Nat → List Char → Option Nat
  | depth, [] => some depth
  | depth, c :: rest =>
    if c = '[' ∨ c = '(' ∨ c = '\x7b' then depthAfter? (depth + 1) rest
    else if c = ']' ∨ c = ')' ∨ c = '\x7d' then
      if depth = 0 then none else depthAfter? (depth - 1) rest
    else if c = ',' ∧ depth = 0 then none
    else depthAfter? depth rest

theorem depthAfter?_append (depth : Nat) (cs ds : List Char) :
    depthAfter? depth (cs ++ ds) = (depthAfter? depth cs).bind fun n => depthAfter? n ds := by
  induction cs generalizing depth with
  | nil => rfl
  | cons c cs ih =>
    rw [List.cons_append, depthAfter?, depthAfter?]
    split_ifs
    · exact ih _
    · rfl
    · exact ih _
    · rfl
    · exact ih _

/-- The splitter runs through a balanced stretch without ending an operand. -/
theorem splitFrom_append {depth depth' : Nat} {cs : List Char}
    (h : depthAfter? depth cs = some depth') (position start : Nat) (current rest : List Char) :
    splitFrom position start depth current (cs ++ rest) =
      splitFrom (position + byteLength cs) start depth' (cs.reverse ++ current) rest := by
  induction cs generalizing depth position current with
  | nil =>
    cases h
    rfl
  | cons c cs ih =>
    have hlen : position + byteLength (c :: cs) = position + c.utf8Size + byteLength cs := by
      rw [Nat.add_assoc]; rfl
    have hrev : (c :: cs).reverse ++ current = cs.reverse ++ c :: current := by simp
    rw [hlen, hrev, List.cons_append, splitFrom]
    rw [depthAfter?] at h
    -- the depth goes up, down or stays; a comma at depth zero is excluded by `h`
    split_ifs at h ⊢ with h1 h2 h3 h4
    · exact ih h _ _
    · exact ih h _ _
    · exact ih h _ _

/-- **Splitting undoes joining by commas**, for balanced pieces that hold an operand. -/
theorem splitFrom_intercalate {ps : List (List Char)} (hne : ps ≠ [])
    (hdepth : ∀ p ∈ ps, depthAfter? 0 p = some 0) (htext : ∀ p ∈ ps, operandText p ≠ [])
    (position start : Nat) :
    splitFrom position start 0 [] (List.intercalate [','] ps) = .ok (ps.map operandText) := by
  have hfinish : ∀ start : Nat, ∀ p ∈ ps, finishOperand start p = .ok (operandText p) := by
    intro start p hp
    have hempty : (operandText p).isEmpty = false := by
      rw [List.isEmpty_eq_false_iff]; exact htext p hp
    unfold finishOperand
    dsimp only
    rw [hempty]
    rfl
  induction ps generalizing position start with
  | nil => exact absurd rfl hne
  | cons p ps ih =>
    have hp : p ∈ p :: ps := List.mem_cons_self
    cases ps with
    | nil =>
      rw [List.intercalate_singleton, ← List.append_nil p, splitFrom_append (hdepth p hp), splitFrom,
        List.append_nil, List.reverse_reverse, hfinish start p hp, List.append_nil]
      rfl
    | cons q qs =>
      have htail : ∀ r ∈ q :: qs, r ∈ p :: q :: qs := fun r hr => List.mem_cons_of_mem p hr
      -- the rest is split from behind the comma, wherever that is
      have hrest := ih (List.cons_ne_nil q qs) (fun r hr => hdepth r (htail r hr))
        (fun r hr => htext r (htail r hr)) (position + byteLength p + ','.utf8Size)
        (position + byteLength p + ','.utf8Size)
        (fun start r hr => hfinish start r (htail r hr))
      rw [List.intercalate_cons_cons, List.append_assoc, splitFrom_append (hdepth p hp),
        List.singleton_append, splitFrom, if_neg (by decide), if_neg (by decide),
        if_pos ⟨rfl, rfl⟩, List.append_nil, List.reverse_reverse, hfinish start p hp]
      show (do let rest ← splitFrom _ _ 0 [] (List.intercalate [','] (q :: qs))
               pure (operandText p :: rest) : Except LineError (List (List Char))) = _
      rw [hrest]
      rfl

/-! ### The rest of a line -/

/-- A line whose end carries no space or semicolon has no terminators to drop. -/
theorem dropTerminators_eq_self {cs : List Char}
    (h : ∀ c, cs.getLast? = some c → (isSpace c || c == ';') = false) :
    dropTerminators cs = cs := by
  rw [dropTerminators, dropWhile_eq_self_of_head, List.reverse_reverse]
  intro c hc
  rw [List.head?_reverse] at hc
  exact h c hc

/-! ### Where the characters of operands come from -/

theorem trim_subset (cs : List Char) : trim cs ⊆ cs := by
  intro c hc
  rw [trim, Text.trimEnd, List.mem_reverse] at hc
  have hmem := List.mem_reverse.mp ((List.dropWhile_sublist _).subset hc)
  exact (List.dropWhile_sublist _).subset hmem

theorem stripParens_subset (cs : List Char) : stripParens cs ⊆ cs := by
  have hinner : ∀ inner : List Char,
      (if inner.getLast? = some ')' then inner.dropLast else inner) ⊆ inner := by
    intro inner
    split_ifs
    · exact List.dropLast_subset inner
    · exact List.Subset.refl inner
  unfold stripParens
  dsimp only
  split
  · exact List.Subset.trans (hinner _) (List.subset_cons_self _ _)
  · exact hinner _

theorem operandText_subset (cs : List Char) : operandText cs ⊆ cs :=
  List.Subset.trans (trim_subset _) (List.Subset.trans (stripParens_subset _) (trim_subset cs))

theorem subset_of_finishOperand {start : Nat} {cs text : List Char}
    (h : finishOperand start cs = .ok text) : text ⊆ cs := by
  unfold finishOperand at h
  dsimp only at h
  split_ifs at h
  cases h
  exact operandText_subset cs

/-- What is split off was there before, in the operand at hand or behind it. -/
theorem subset_of_splitFrom {position start depth : Nat} {current rest : List Char}
    {texts : List (List Char)} (h : splitFrom position start depth current rest = .ok texts) :
    ∀ text ∈ texts, text ⊆ current ++ rest := by
  induction rest generalizing position start depth current texts with
  | nil =>
    rw [splitFrom] at h
    obtain ⟨last, hlast, h⟩ := Fallible.bind_eq_ok.mp h
    split_ifs at h
    cases h
    intro text htext c hc
    rw [List.mem_singleton.mp htext] at hc
    exact List.mem_append_left _ (List.mem_reverse.mp (subset_of_finishOperand hlast hc))
  | cons c rest ih =>
    -- a character that is kept moves from the rest to the operand at hand
    have hmove : ∀ {text}, text ⊆ c :: current ++ rest → text ⊆ current ++ c :: rest := by
      intro text htext d hd
      have hmem := htext hd
      simp only [List.cons_append, List.mem_cons, List.mem_append] at hmem ⊢
      tauto
    rw [splitFrom] at h
    split_ifs at h
    · exact fun text htext => hmove (ih h text htext)
    · exact fun text htext => hmove (ih h text htext)
    · obtain ⟨first, hfirst, h⟩ := Fallible.bind_eq_ok.mp h
      obtain ⟨more, hmore, h⟩ := Fallible.bind_eq_ok.mp h
      cases h
      intro text htext d hd
      rcases List.mem_cons.mp htext with rfl | htext
      · exact List.mem_append_left _ (List.mem_reverse.mp (subset_of_finishOperand hfirst hd))
      · exact List.mem_append_right _ (List.mem_cons_of_mem c (ih hmore text htext hd))
    · exact fun text htext => hmove (ih h text htext)

theorem subset_of_splitOperands {position : Nat} {rest : List Char} {texts : List (List Char)}
    (h : splitOperands position rest = .ok texts) : ∀ text ∈ texts, text ⊆ rest := by
  unfold splitOperands at h
  dsimp only at h
  split_ifs at h
  · cases h
    exact fun text htext => absurd htext List.not_mem_nil
  · intro text htext c hc
    have hbody := subset_of_splitFrom h text htext hc
    rw [List.nil_append, dropTerminators, List.mem_reverse] at hbody
    have hspace := List.mem_reverse.mp ((List.dropWhile_sublist _).subset hbody)
    exact (List.dropWhile_sublist _).subset hspace

end KernelIR.Source
