import KernelIR.Text.Numeral
import Mathlib.Tactic.IntervalCases

/-!
# Numerals read back

What `decimal`, `decimalInt` and `hexPadded` write, the readers of numerals read as the number that
was written (`natural?_toDigits`, `integer?_decimalInt`, `naturalInBase?_hexPadded`).  The core is
`digits?_map_toDigits`: the digits of `n` in a base up to sixteen, in either case, bring the reader
from zero to `n`.  A decimal numeral does not begin with `0` unless it is `0` itself, so it is never
taken for an octal one.
-/

namespace KernelIR.Text

/-! ### Digits -/

theorem digitValue?_digitChar {d : Nat} (hd : d < 16) : digitValue? d.digitChar = some d := by
  interval_cases d <;> rfl

theorem digitValue?_toUpper_digitChar {d : Nat} (hd : d < 16) :
    digitValue? d.digitChar.toUpper = some d := by
  interval_cases d <;> rfl

/-- Without an underscore among them, digits are read one after the other. -/
theorem digits?_append (base limit : Nat) (loose : Bool) (cs ds : List Char) (n : Nat) :
    digits? base limit loose n (cs ++ ds) =
      (digits? base limit loose n cs).bind fun m => digits? base limit loose m ds := by
  induction cs generalizing n with
  | nil => rfl
  | cons c cs ih =>
    rw [List.cons_append, digits?, digits?]
    split_ifs with hc
    · exact ih n
    · cases digitValue? c with
      | none => rfl
      | some d =>
        dsimp only
        split_ifs
        · rfl
        · rfl
        · exact ih _

/-- A number that is read does not pass the limit. -/
theorem digits?_le {base limit : Nat} {loose : Bool} {n v : Nat} {cs : List Char}
    (h : digits? base limit loose n cs = .ok v) (hn : n ≤ limit) : v ≤ limit := by
  fun_induction digits? base limit loose n cs with
  | case1 n =>
    cases h
    exact hn
  | case2 n c rest _ ih => exact ih h hn
  | case3 => cases h
  | case4 => cases h
  | case5 => cases h
  | case6 n c rest _ d _ _ hlimit ih => exact ih h (Nat.not_lt.mp hlimit)

/-- The digits of `n`, written through `f`, are read as `n`. -/
theorem digits?_map_toDigits {base : Nat} (h1 : 1 < base) (f : Char → Char)
    (hf : ∀ d < base, digitValue? (f d.digitChar) = some d) (limit : Nat) (loose : Bool)
    {n : Nat} (hn : n ≤ limit) :
    digits? base limit loose 0 ((Nat.toDigits base n).map f) = .ok n := by
  -- no digit of the base is an underscore, which has no value
  have hne : ∀ d < base, f d.digitChar ≠ '_' := by
    intro d hd h
    have hv := hf d hd
    have hnone : digitValue? '_' = none := by decide
    rw [h, hnone] at hv
    cases hv
  have hlast : ∀ m d : Nat, d < base → m * base + d ≤ limit →
      digits? base limit loose m [f d.digitChar] = .ok (m * base + d) := by
    intro m d hd hm
    rw [digits?, if_neg (fun h => hne d hd h.2), hf d hd]
    dsimp only
    rw [if_neg (Nat.not_le.mpr hd), if_neg (Nat.not_lt.mpr hm), digits?]
  induction n using Nat.strong_induction_on with
  | _ n ih =>
    rw [Nat.toDigits_eq_if h1]
    split_ifs with hlt
    · rw [List.map_cons, List.map_nil]
      have h := hlast 0 n hlt (by omega)
      rwa [Nat.zero_mul, Nat.zero_add] at h
    · have hdiv : n / base < n := Nat.div_lt_self (by omega) h1
      have hmod : n / base * base + n % base = n := by
        rw [Nat.mul_comm]; exact Nat.div_add_mod n base
      rw [List.map_append, List.map_cons, List.map_nil, digits?_append,
        ih (n / base) hdiv (by omega)]
      have h := hlast (n / base) (n % base) (Nat.mod_lt _ (by omega)) (by omega)
      rw [hmod] at h
      exact h

/-- Zeros in front do not count. -/
theorem digits?_replicate_zero {base : Nat} (h1 : 1 < base) (limit : Nat) (loose : Bool) (k : Nat)
    (ds : List Char) :
    digits? base limit loose 0 (List.replicate k '0' ++ ds) = digits? base limit loose 0 ds := by
  induction k with
  | zero => rfl
  | succ k ih =>
    have hv : digitValue? '0' = some 0 := by decide
    rw [List.replicate_succ, List.cons_append, digits?, if_neg (fun h => absurd h.2 (by decide)), hv]
    dsimp only
    rw [if_neg (by omega), if_neg (by omega), Nat.zero_mul, Nat.zero_add]
    exact ih

theorem exists_digitChar_of_mem_toDigits {base n : Nat} (h1 : 1 < base) {c : Char}
    (hc : c ∈ Nat.toDigits base n) : ∃ d < base, c = d.digitChar := by
  induction n using Nat.strong_induction_on with
  | _ n ih =>
    rw [Nat.toDigits_eq_if h1] at hc
    split_ifs at hc with hlt
    · exact ⟨n, hlt, List.mem_singleton.mp hc⟩
    · rcases List.mem_append.mp hc with hc | hc
      · exact ih (n / base) (Nat.div_lt_self (by omega) h1) hc
      · exact ⟨n % base, Nat.mod_lt _ (by omega), List.mem_singleton.mp hc⟩

/-! ### Decimal numerals -/

/-- A positive number does not begin with a zero. -/
theorem head?_toDigits_ne_zero {n : Nat} (hn : 0 < n) :
    (Nat.toDigits 10 n).head? ≠ some '0' := by
  induction n using Nat.strong_induction_on with
  | _ n ih =>
    rw [Nat.toDigits_eq_if (by omega)]
    split_ifs with hlt
    · interval_cases n <;> decide
    · obtain ⟨c, cs, h⟩ := List.exists_cons_of_ne_nil (Nat.toDigits_ne_nil (n := n / 10) (b := 10))
      have hhead := ih (n / 10) (by omega) (by omega)
      rw [h] at hhead ⊢
      exact hhead

theorem splitBase_toDigits {n : Nat} (hn : 0 < n) :
    splitBase (Nat.toDigits 10 n) = (10, Nat.toDigits 10 n) := by
  have h := head?_toDigits_ne_zero hn
  unfold splitBase
  split
  · rename_i heq
    rw [heq] at h
    exact absurd rfl h
  · rename_i heq
    rw [heq] at h
    exact absurd rfl h
  · rfl

/-- **A decimal numeral is read as the number it was written from.** -/
theorem natural?_toDigits {limit n : Nat} (hn : n ≤ limit) :
    natural? limit (Nat.toDigits 10 n) = .ok n := by
  rcases Nat.eq_zero_or_pos n with rfl | hpos
  · rfl
  · have hdigits := digits?_map_toDigits (by omega : 1 < 10) id
      (fun d hd => digitValue?_digitChar (by omega)) limit true hn
    rw [List.map_id] at hdigits
    have hempty : (Nat.toDigits 10 n).isEmpty = false := by
      rw [List.isEmpty_eq_false_iff]; exact Nat.toDigits_ne_nil
    rw [natural?, hempty, splitBase_toDigits hpos]
    dsimp only
    rw [hdigits]
    simp [Nat.underscore_not_in_toDigits]

/-! ### Signs -/

/-- The first character of a decimal numeral is a digit. -/
theorem exists_toDigits_cons (n : Nat) :
    ∃ c cs, Nat.toDigits 10 n = c :: cs ∧ c.isDigit = true := by
  obtain ⟨c, cs, h⟩ := List.exists_cons_of_ne_nil (Nat.toDigits_ne_nil (b := 10) (n := n))
  have hmem : c ∈ Nat.toDigits 10 n := by rw [h]; exact List.mem_cons_self
  exact ⟨c, cs, h, Nat.isDigit_of_mem_toDigits (by omega) (le_refl 10) hmem⟩

theorem splitSign_toDigits (n : Nat) :
    splitSign (Nat.toDigits 10 n) = (false, Nat.toDigits 10 n) := by
  obtain ⟨c, cs, h, hc⟩ := exists_toDigits_cons n
  rw [h]
  unfold splitSign
  split
  · rename_i heq
    rw [(List.cons.inj heq).1] at hc
    exact absurd hc (by decide)
  · rename_i heq
    rw [(List.cons.inj heq).1] at hc
    exact absurd hc (by decide)
  · rfl

theorem toList_decimal (n : Nat) : (decimal n).toList = Nat.toDigits 10 n :=
  String.toList_ofList

theorem toList_decimalInt_of_neg {i : Int} (hi : i < 0) :
    (decimalInt i).toList = '-' :: Nat.toDigits 10 i.natAbs := by
  rw [decimalInt, if_pos hi, String.toList_append, toList_decimal]
  rfl

theorem toList_decimalInt_of_nonneg {i : Int} (hi : 0 ≤ i) :
    (decimalInt i).toList = Nat.toDigits 10 i.natAbs := by
  rw [decimalInt, if_neg (by omega), toList_decimal]

/-- A magnitude with a plus or no sign is read as a number below `2 ^ 63`. -/
theorem signed64?_natural?_toDigits {n : Nat} (hn : n < Nat.pow 2 63) :
    signed64? false (natural? maxWord (Nat.toDigits 10 n)) = .ok (n : Int) := by
  have hmax : n ≤ maxWord := by unfold maxWord; norm_num at hn ⊢; omega
  rw [natural?_toDigits hmax, signed64?, if_neg (by decide), if_neg (by omega)]

/-- **A signed 64-bit number is read back from its decimal numeral.** -/
theorem integer?_decimalInt {i : Int} (hlo : -(2 ^ 63) ≤ i) (hhi : i < 2 ^ 63) :
    integer? (decimalInt i).toList = .ok i := by
  rcases lt_or_ge i 0 with hneg | hpos
  · have hmax : i.natAbs ≤ maxWord := by unfold maxWord; norm_num at hlo ⊢; omega
    rw [toList_decimalInt_of_neg hneg]
    show signed64? true (natural? maxWord (Nat.toDigits 10 i.natAbs)) = .ok i
    rw [natural?_toDigits hmax, signed64?, if_pos rfl,
      if_neg (by norm_num at hlo ⊢; omega)]
    congr 1
    omega
  · rw [toList_decimalInt_of_nonneg hpos, integer?, splitSign_toDigits]
    dsimp only
    rw [signed64?_natural?_toDigits (by norm_num at hhi ⊢; omega)]
    congr 1
    omega

/-- A plus in front of a numeral does not count. -/
theorem integer?_plus_decimalInt {i : Int} (hlo : 0 ≤ i) (hhi : i < 2 ^ 63) :
    integer? ('+' :: (decimalInt i).toList) = .ok i := by
  rw [toList_decimalInt_of_nonneg hlo]
  show signed64? false (natural? maxWord (Nat.toDigits 10 i.natAbs)) = .ok i
  rw [signed64?_natural?_toDigits (by norm_num at hhi ⊢; omega)]
  congr 1
  omega

/-! ### Hexadecimal numerals -/

theorem length_hexPadded {width n : Nat} (hw : 0 < width) (hn : n < 16 ^ width) :
    (hexPadded width n).length = width := by
  have hlen := (Nat.length_toDigits_le_iff (by omega : 1 < 16) hw).mpr hn
  rw [hexPadded, List.length_append, List.length_replicate]
  omega

/-- **Upper-case hexadecimal digits with zeros in front are read as the number they were written
from.** -/
theorem naturalInBase?_hexPadded {width limit n : Nat} (hn : n ≤ limit) :
    naturalInBase? 16 limit ((hexPadded width n).map Char.toUpper) = .ok n := by
  have hempty : ((hexPadded width n).map Char.toUpper).isEmpty = false := by
    rw [List.isEmpty_eq_false_iff, hexPadded]
    simp [Nat.toDigits_ne_nil]
  have hzero : '0'.toUpper = '0' := by decide
  rw [naturalInBase?, hempty, if_neg (by decide), hexPadded, List.map_append, List.map_replicate,
    hzero, digits?_replicate_zero (by omega)]
  exact digits?_map_toDigits (by omega) Char.toUpper
    (fun d hd => digitValue?_toUpper_digitChar hd) limit false hn

end KernelIR.Text
