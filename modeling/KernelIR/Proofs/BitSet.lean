import KernelIR.BitSet
import Mathlib.Data.List.Basic

/-!
# Dense sets hold what was inserted

A set is used by calls: insertions and questions, at any integer position.  `BitSet.answers` are the
answers to a list of calls, and `BitSet.after` is the set that they leave.

`holds_inserted`: from the set without words and from one with room for any size, a non-negative
number is in the set exactly when it was inserted.  Every question on the way is answered by the
insertions in front of it.  The room never shows, not even at refused positions, and questions leave
the set as it is.

The words are seen through `word`, which reads a missing one as zero.  Growth is then invisible
(`word_grow`), an insertion sets one bit of one word (`word_insert`), and `contains_insert` is all
that later proofs know about words and bits.
-/

namespace KernelIR.BitSet

variable (s : BitSet) (n : Nat)

/-! ### Words -/

/-- The `k`-th word of a set; one that is not there is zero. -/
def word (k : Nat) : BitVec 64 :=
  s.words[k]?.getD 0

theorem contains_eq_getLsbD : s.contains n = (s.word (n / 64)).getLsbD (n % 64) := by
  unfold contains word
  cases s.words[n / 64]? with
  | none => exact BitVec.getLsbD_zero.symm
  | some w => rfl

/-- New words are zero, and so were the missing ones. -/
@[simp]
theorem word_grow (w k : Nat) : (s.grow w).word k = s.word k := by
  unfold word grow
  rw [List.getElem?_append]
  split_ifs with hk
  · rfl
  · rw [List.getElem?_eq_none (Nat.le_of_not_lt hk), List.getElem?_replicate]
    split_ifs <;> rfl

theorem lt_length_words_grow (w : Nat) : w < (s.grow w).words.length := by
  rw [grow, List.length_append, List.length_replicate]
  omega

/-- An insertion sets one bit of one word. -/
theorem word_insert (k : Nat) :
    (s.insert n).word k =
      if n / 64 = k then s.word k ||| BitVec.twoPow 64 (n % 64) else s.word k := by
  rw [← s.word_grow (n / 64) k]
  unfold word insert
  rw [List.getElem?_modify]
  split_ifs with hk
  · -- growth has made the word, so that the change does reach it
    have hlt := s.lt_length_words_grow (n / 64)
    rw [← hk, List.getElem?_eq_getElem hlt]
    rfl
  · rw [id_map']

/-! ### Members -/

@[simp]
theorem contains_grow (w : Nat) : (s.grow w).contains n = s.contains n := by
  rw [contains_eq_getLsbD, contains_eq_getLsbD, word_grow]

theorem contains_insert (m : Nat) :
    (s.insert m).contains n = (decide (m = n) || s.contains n) := by
  rw [contains_eq_getLsbD, contains_eq_getLsbD, word_insert]
  split_ifs with hword
  · -- in the same word the two numbers differ by their bits
    have hbit : m % 64 = n % 64 ↔ m = n := by omega
    have hlt : m % 64 < 64 := Nat.mod_lt m (by decide)
    rw [BitVec.getLsbD_or, BitVec.getLsbD_twoPow, Bool.or_comm, decide_eq_true hlt, Bool.true_and,
      decide_eq_decide.mpr hbit]
  · have hne : m ≠ n := fun h => hword (congrArg (· / 64) h)
    rw [decide_eq_false hne, Bool.false_or]

theorem contains_ofSize (size : Int) : (ofSize size).contains n = false := by
  unfold contains ofSize
  rw [List.getElem?_replicate]
  split_ifs
  · exact BitVec.getLsbD_zero
  · rfl

theorem words_ofSize_ne_nil (size : Int) : (ofSize size).words ≠ [] := by
  rw [ofSize, List.ne_nil_iff_length_pos, List.length_replicate]
  exact Nat.le_max_left ..

/-! ### Calls -/

/-- The position that a call is about. -/
def Call.position : Call → Int
  | insert i => i
  | contains i => i

/-- Whether a call is an insertion. -/
def Call.isInsertion : Call → Bool
  | insert _ => true
  | contains _ => false

/-- What some calls leave of a set, one after another. -/
def after (calls : List Call) : BitSet :=
  calls.foldl (fun s c => (s.perform c).1) s

theorem contains_fresh (room : Option Int) : (fresh room).contains n = false := by
  cases room with
  | none => rfl
  | some size => exact contains_ofSize n size

/-- Each call is answered by the set that the calls in front of it leave. -/
theorem getElem?_answers (calls : List Call) (k : Nat) :
    (s.answers calls)[k]? = calls[k]?.map fun c => ((s.after (calls.take k)).perform c).2 := by
  induction calls generalizing s k with
  | nil => rfl
  | cons c calls ih =>
    cases k with
    | zero => rfl
    | succ k => exact ih (s.perform c).1 k

/-! ### One call -/

/-- A call adds the number that it inserts and nothing else; a refused insertion adds nothing. -/
theorem contains_perform (c : Call) :
    (s.perform c).1.contains n = (decide (c = .insert n) || s.contains n) := by
  cases c with
  | contains i => rfl
  | insert i =>
    show (s.insertAt i).1.contains n = _
    unfold insertAt
    by_cases hi : 0 ≤ i
    · have heq : i.toNat = n ↔ Call.insert i = .insert n := by
        rw [Call.insert.injEq]
        omega
      rw [if_pos hi, contains_insert, decide_eq_decide.mpr heq]
    · -- a refused insertion may still grow the set
      have hne : Call.insert i ≠ .insert n := by
        rw [Ne, Call.insert.injEq]
        omega
      rw [if_neg hi, decide_eq_false hne, Bool.false_or]
      split_ifs
      · exact contains_grow ..
      · rfl

theorem words_perform_ne_nil {s : BitSet} (hs : s.words ≠ []) (c : Call) :
    (s.perform c).1.words ≠ [] := by
  have hgrow : ∀ w, (s.grow w).words ≠ [] := fun w => List.append_ne_nil_of_left_ne_nil hs _
  cases c with
  | contains i => exact hs
  | insert i =>
    show (s.insertAt i).1.words ≠ []
    unfold insertAt
    split_ifs with hi hword
    · rw [insert, Ne, List.modify_eq_nil_iff]
      exact hgrow _
    · exact hgrow 0
    · exact hs

/-- The answer that is due to a call after some calls: a non-negative number is held when one of
them inserted it, and negative positions are refused. -/
def Call.due (before : List Call) : Call → Answer
  | insert i => .inserted (decide (0 ≤ i))
  | contains i => .held (if 0 ≤ i then some (decide (.insert i ∈ before)) else none)

/-- A set that holds what some calls inserted gives the answer that is due after them. Only a set
without words may let a negative position pass. -/
theorem perform_eq_due {s : BitSet} {before : List Call} {c : Call}
    (hs : ∀ n : Nat, s.contains n = decide (Call.insert n ∈ before))
    (hc : 0 ≤ c.position ∨ s.words ≠ []) : (s.perform c).2 = c.due before := by
  cases c with
  | insert i =>
    show Answer.inserted (s.insertAt i).2 = .inserted (decide (0 ≤ i))
    unfold insertAt
    split_ifs with hi <;> simp [hi]
  | contains i =>
    show Answer.held (s.containsAt? i) = .held _
    unfold containsAt?
    by_cases hi : 0 ≤ i
    · rw [if_pos hi, if_pos hi, hs, Int.toNat_of_nonneg hi]
    · -- a negative position is refused only by a set that has no words yet
      have hwords : s.words ≠ [] := hc.resolve_left hi
      rw [if_neg hi, if_neg hi, if_neg fun h => hwords h.2]

/-! ### Runs -/

/-- After some calls a set holds what it held and what they inserted. -/
theorem contains_after (calls : List Call) :
    (s.after calls).contains n = (decide (Call.insert n ∈ calls) || s.contains n) := by
  -- on the calls and for every set at once, as the first call changes the set
  induction calls generalizing s with
  | nil => rfl
  | cons c calls ih =>
    have hmem : Call.insert n ∈ calls ∨ c = .insert n ↔ Call.insert n ∈ c :: calls := by
      rw [List.mem_cons, or_comm, eq_comm]
    calc ((s.perform c).1.after calls).contains n
        = (decide (Call.insert n ∈ calls) || (decide (c = .insert n) || s.contains n)) := by
          rw [ih, contains_perform]
      _ = (decide (Call.insert n ∈ c :: calls) || s.contains n) := by
          rw [← Bool.or_assoc, ← Bool.decide_or, decide_eq_decide.mpr hmem]

theorem words_after_ne_nil {s : BitSet} (hs : s.words ≠ []) (calls : List Call) :
    (s.after calls).words ≠ [] := by
  induction calls generalizing s with
  | nil => exact hs
  | cons c calls ih => exact ih (words_perform_ne_nil hs c)

theorem contains_after_fresh (room : Option Int) (calls : List Call) :
    ((fresh room).after calls).contains n = decide (Call.insert n ∈ calls) := by
  rw [contains_after, contains_fresh, Bool.or_false]

/-- Questions can be left out. -/
theorem after_filter_isInsertion (calls : List Call) :
    s.after (calls.filter Call.isInsertion) = s.after calls := by
  induction calls generalizing s with
  | nil => rfl
  | cons c calls ih =>
    cases c with
    | insert i => exact ih (s.perform (.insert i)).1
    | contains i => exact ih s

/-- Whatever the size, the answers are those that are due. -/
theorem getElem?_answers_ofSize (size : Int) (calls : List Call) (k : Nat) :
    ((ofSize size).answers calls)[k]? = calls[k]?.map fun c => c.due (calls.take k) := by
  rw [getElem?_answers]
  congr 1
  funext c
  exact perform_eq_due (fun n => contains_after_fresh n (some size) _)
    (.inr (words_after_ne_nil (words_ofSize_ne_nil size) _))

/-- **A dense set is the set of the non-negative numbers that were inserted.** This holds from the
set without words and from one with room for any size, after any calls.  Every call at a
non-negative position gets the answer that is due to it, which does not depend on the room; sets
that differ in their size only give the same answers at all positions; and what is left is what the
insertions alone leave. -/
theorem holds_inserted (room : Option Int) (calls : List Call) :
    (∀ i : Int, 0 ≤ i →
      ((fresh room).after calls).containsAt? i = some (decide (Call.insert i ∈ calls))) ∧
    (∀ (k : Nat) (c : Call), calls[k]? = some c → 0 ≤ c.position →
      ((fresh room).answers calls)[k]? = some (c.due (calls.take k))) ∧
    (∀ size size' : Int, (ofSize size).answers calls = (ofSize size').answers calls) ∧
    (fresh room).after calls = (fresh room).after (calls.filter Call.isInsertion) := by
  refine ⟨fun i hi => ?_, fun k c hk hc => ?_, fun size size' => ?_, ?_⟩
  · rw [containsAt?, if_pos hi, contains_after_fresh, Int.toNat_of_nonneg hi]
  · rw [getElem?_answers, hk, Option.map_some]
    exact congrArg some (perform_eq_due (fun n => contains_after_fresh n room _) (.inl hc))
  · refine List.ext_getElem? fun k => ?_
    rw [getElem?_answers_ofSize, getElem?_answers_ofSize]
  · exact (after_filter_isInsertion _ calls).symm

/-- Numbers of three words, one of them inserted twice and one position refused, with questions in
between. -/
def sampleCalls : List Call :=
  [.insert 3, .insert 63, .contains 64, .insert 3, .insert (-1), .insert 130, .contains 3]

theorem holds_sampleCalls :
    ((fresh none).after sampleCalls).containsAt? 130 = some true ∧
      ((fresh (some (-200))).after sampleCalls).containsAt? 129 = some false ∧
      (sampleCalls[2]? = some (.contains 64) ∧
        ((fresh (some 10)).answers sampleCalls)[2]? = some (.held (some false))) ∧
      (sampleCalls[6]? = some (.contains 3) ∧
        ((fresh (some 10)).answers sampleCalls)[6]? = some (.held (some true))) := by
  refine ⟨?_, ?_, ⟨rfl, ?_⟩, ⟨rfl, ?_⟩⟩
  · exact ((holds_inserted none sampleCalls).1 130 (by decide)).trans (by decide)
  · exact ((holds_inserted (some (-200)) sampleCalls).1 129 (by decide)).trans (by decide)
  · exact ((holds_inserted (some 10) sampleCalls).2.1 2 _ rfl (by decide)).trans (by decide)
  · exact ((holds_inserted (some 10) sampleCalls).2.1 6 _ rfl (by decide)).trans (by decide)

end KernelIR.BitSet
