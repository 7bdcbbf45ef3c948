import KernelIR.Proofs.Source.Parser.Split
import KernelIR.Proofs.Text.Numeral
import KernelIR.Source.Operand
import Mathlib.Tactic.NormNum

/-!
# Literals read back

`literal?_literalText_iff`: bits are read back from the literal that writes them exactly if they fit
the type (`DataType.Holds`).  A float is written by its bits behind `0f` or `0d`, and the reader
knows these forms by their length; a number of a signed type is written with its sign, every other
one without.
-/

namespace KernelIR.Source

open Text (byteLength maxWord hexPadded)

/-- Whether a literal of the type can stand for the bits: any for doubles and where no width is
known, 32 bits for the other floats, a number of the width with or without sign for signed types,
and one without sign for the rest. -/
def DataType.Holds (t : DataType) (bits : BitVec 64) : Prop :=
  match t with
  | .float .double | .missing | .unknown _ => True
  | .float _ => bits.toNat < 2 ^ 32
  | .signed w => -(2 ^ (8 * w.bytes - 1)) ≤ bits.toInt ∧ bits.toInt < 2 ^ (8 * w.bytes)
  | t => bits.toNat < 2 ^ (8 * t.bytes)

/-! ### Bytes -/

theorem byteLength_of_isPlain {cs : List Char} (h : ∀ c ∈ cs, isPlain c = true) :
    byteLength cs = cs.length := by
  induction cs with
  | nil => rfl
  | cons c cs ih =>
    have hc : c.utf8Size = 1 := by
      rw [Char.utf8Size_eq_one_iff, UInt32.le_iff_toNat_le]
      have hle := (toNat_of_isPlain (h c List.mem_cons_self)).2
      exact Nat.le_trans hle (by decide)
    show c.utf8Size + byteLength cs = cs.length + 1
    rw [hc, ih (fun d hd => h d (List.mem_cons_of_mem c hd)), Nat.add_comm]

/-! ### Raw float bits -/

theorem isPlain_of_mem_toUpper_hexPadded {width n : Nat} {c : Char}
    (hc : c ∈ (hexPadded width n).map Char.toUpper) : isPlain c = true := by
  have hdigit : ∀ d < 16, isPlain d.digitChar.toUpper = true := by decide
  obtain ⟨b, hb, rfl⟩ := List.mem_map.mp hc
  rw [hexPadded, List.mem_append] at hb
  rcases hb with hb | hb
  · rw [List.eq_of_mem_replicate hb]; decide
  · obtain ⟨d, hd, rfl⟩ := Text.exists_digitChar_of_mem_toDigits (by omega) hb
    exact hdigit d hd

/-- The form of raw bits: `0`, a mark and hexadecimal digits. -/
theorem toList_bitsText (width : Nat) (bits : BitVec 64) :
    (bitsText width bits).toList = (hexPadded width bits.toNat).map Char.toUpper :=
  String.toList_ofList

theorem rawBits?_bitsText {limit : Nat} (width : Nat) {bits : BitVec 64}
    (h : bits.toNat ≤ limit) : rawBits? limit (bitsText width bits).toList = .ok bits := by
  rw [toList_bitsText, rawBits?, Text.naturalInBase?_hexPadded h]
  show Except.ok (BitVec.ofNat 64 bits.toNat) = .ok bits
  rw [BitVec.ofNat_toNat, BitVec.setWidth_eq]

theorem byteLength_bitsText {width : Nat} (hw : 0 < width) {bits : BitVec 64}
    (h : bits.toNat < 16 ^ width) : byteLength (bitsText width bits).toList = width := by
  rw [toList_bitsText, byteLength_of_isPlain (fun c hc => isPlain_of_mem_toUpper_hexPadded hc),
    List.length_map, Text.length_hexPadded hw h]

theorem literal?_single (t : DataType) {bits : BitVec 64} (h : bits.toNat < 2 ^ 32) :
    literal? t ('0' :: 'f' :: (bitsText 8 bits).toList) = .ok bits := by
  have hlen : byteLength ('0' :: 'f' :: (bitsText 8 bits).toList) = 10 := by
    show 1 + (1 + byteLength (bitsText 8 bits).toList) = 10
    rw [byteLength_bitsText (by omega) (by norm_num; omega)]
  rw [literal?, if_pos ⟨hlen, by decide⟩]
  exact rawBits?_bitsText 8 (by omega)

theorem literal?_double (t : DataType) (bits : BitVec 64) :
    literal? t ('0' :: 'd' :: (bitsText 16 bits).toList) = .ok bits := by
  have hbits := bits.isLt
  have hlen : byteLength ('0' :: 'd' :: (bitsText 16 bits).toList) = 18 := by
    show 1 + (1 + byteLength (bitsText 16 bits).toList) = 18
    rw [byteLength_bitsText (by omega) (by norm_num; omega)]
  rw [literal?, if_neg (by rw [hlen]; decide), if_pos ⟨hlen, by decide⟩]
  exact rawBits?_bitsText 16 (by unfold maxWord; norm_num; omega)

/-! ### Integers -/

/-- Without a mark in front, the type decides how a literal is read. -/
theorem literal?_eq_typedLiteral? (t : DataType) {s : List Char}
    (h : s.head? = some '0' → s = ['0']) : literal? t s = typedLiteral? t s := by
  unfold literal?
  split
  · rename_i mark digits
    cases h rfl
  · rfl

theorem typedLiteral?_of_not_isFloat {t : DataType} (ht : t.isFloat = false) (s : List Char) :
    typedLiteral? t s =
      if s.head? = some '-' then negativeLiteral? t s else positiveLiteral? t s := by
  cases t with
  | float w => cases ht
  | _ => rfl

/-- Without a plus in front, the whole literal is its numeral. -/
theorem positiveLiteral?_of_head_ne {t : DataType} {s : List Char} (h : s.head? ≠ some '+') {n : Nat}
    (hn : Text.natural? maxWord s = .ok n) :
    positiveLiteral? t s =
      if (literalWidth? t).any (fun w => Nat.pow 2 w ≤ n) then .error (.doesNotFit s t)
      else .ok (BitVec.ofNat 64 n) := by
  unfold positiveLiteral?
  split
  · exact absurd rfl h
  · dsimp only
    rw [hn]

/-- A decimal numeral is read as its number if that fits the width of its type. -/
theorem literal?_toDigits {t : DataType} (ht : t.isFloat = false) {n : Nat} (hn : n ≤ maxWord) :
    literal? t (Nat.toDigits 10 n) =
      if (literalWidth? t).any (fun w => Nat.pow 2 w ≤ n) then
        .error (.doesNotFit (Nat.toDigits 10 n) t)
      else .ok (BitVec.ofNat 64 n) := by
  obtain ⟨c, cs, hcs, hc⟩ := Text.exists_toDigits_cons n
  -- digits begin with no zero but for `0` itself, and with no sign
  have hzero : (Nat.toDigits 10 n).head? = some '0' → Nat.toDigits 10 n = ['0'] := by
    intro h0
    rcases Nat.eq_zero_or_pos n with rfl | hpos
    · rfl
    · exact absurd h0 (Text.head?_toDigits_ne_zero hpos)
  have hminus : (Nat.toDigits 10 n).head? ≠ some '-' := by
    rw [hcs]
    rintro ⟨rfl⟩
    exact absurd hc (by decide)
  have hplus : (Nat.toDigits 10 n).head? ≠ some '+' := by
    rw [hcs]
    rintro ⟨rfl⟩
    exact absurd hc (by decide)
  rw [literal?_eq_typedLiteral? t hzero, typedLiteral?_of_not_isFloat ht, if_neg hminus,
    positiveLiteral?_of_head_ne hplus (Text.natural?_toDigits hn)]

/-- A number does not pass the width of a type if it is below its power. -/
theorem any_literalWidth?_le_eq_false_iff {t : DataType} {n : Nat} :
    (literalWidth? t).any (fun w => Nat.pow 2 w ≤ n) = false ↔
      ∀ w, literalWidth? t = some w → n < 2 ^ w := by
  cases literalWidth? t with
  | none => simp
  | some w =>
    rw [Option.any_some, decide_eq_false_iff_not, Nat.not_le]
    exact ⟨fun h w' hw' => by cases hw'; exact h, fun h => h w rfl⟩

/-- A negative number is read as its two's complement if it fits the width of its type. -/
theorem literal?_negative {t : DataType} (ht : t.isFloat = false) {i : Int} (hneg : i < 0)
    (hlo : -(2 ^ 63) ≤ i) :
    literal? t (Text.decimalInt i).toList =
      if (literalWidth? t).any (fun w => i < -(Nat.pow 2 (w - 1))) then
        .error (.doesNotFit (Text.decimalInt i).toList t)
      else .ok (BitVec.ofInt 64 i) := by
  have hhead : (Text.decimalInt i).toList.head? = some '-' := by
    rw [Text.toList_decimalInt_of_neg hneg]; rfl
  rw [literal?_eq_typedLiteral? t (by rw [hhead]; intro h; cases h),
    typedLiteral?_of_not_isFloat ht, if_pos hhead, negativeLiteral?,
    Text.integer?_decimalInt hlo (by omega)]

theorem any_literalWidth?_lt_eq_false_iff {t : DataType} {i : Int} :
    (literalWidth? t).any (fun w => i < -(Nat.pow 2 (w - 1))) = false ↔
      ∀ w, literalWidth? t = some w → -(2 ^ (w - 1)) ≤ i := by
  cases literalWidth? t with
  | none => simp
  | some w =>
    rw [Option.any_some, decide_eq_false_iff_not, not_lt]
    have hpow : -((Nat.pow 2 (w - 1) : Nat) : Int) = -(2 ^ (w - 1)) := by simp
    rw [hpow]
    exact ⟨fun h w' hw' => by cases hw'; exact h, fun h => h w rfl⟩

/-! ### Literals of any type -/

/-- The width that literals of a type are held to, if it is less than that of all bits. -/
theorem forall_literalWidth?_iff {t : DataType} (ht : 0 < t.bytes) {P : Nat → Prop}
    (hP : ∀ w, 64 ≤ w → P w) : (∀ w, literalWidth? t = some w → P w) ↔ P (8 * t.bytes) := by
  unfold literalWidth?
  split_ifs with h
  · exact ⟨fun hall => hall _ rfl, fun h' w hw => by cases hw; exact h'⟩
  · exact ⟨fun _ => hP _ (by omega), fun _ w hw => by cases hw⟩

/-- A literal of a type without sign is read back exactly if it fits. -/
theorem literal?_decimal {t : DataType} (ht : t.isFloat = false) (bits : BitVec 64) :
    literal? t (Text.decimal bits.toNat).toList = .ok bits ↔
      ∀ w, literalWidth? t = some w → bits.toNat < 2 ^ w := by
  have hmax : bits.toNat ≤ maxWord := by
    have := bits.isLt
    unfold maxWord; norm_num; omega
  rw [Text.toList_decimal, literal?_toDigits ht hmax, ← any_literalWidth?_le_eq_false_iff,
    BitVec.ofNat_toNat, BitVec.setWidth_eq]
  cases (literalWidth? t).any fun w => Nat.pow 2 w ≤ bits.toNat <;> simp

/-- A literal of a type without sign that has a width. -/
theorem literal?_decimal_iff {t : DataType} (ht : t.isFloat = false) (hbytes : 0 < t.bytes)
    (bits : BitVec 64) :
    literal? t (Text.decimal bits.toNat).toList = .ok bits ↔ bits.toNat < 2 ^ (8 * t.bytes) := by
  rw [literal?_decimal ht, forall_literalWidth?_iff hbytes]
  intro w hw
  exact Nat.lt_of_lt_of_le bits.isLt (Nat.pow_le_pow_right (by decide) hw)

/-- A literal of a signed type is read back exactly if it fits. -/
theorem literal?_decimalInt_iff (w : Width) (bits : BitVec 64) :
    literal? (.signed w) (Text.decimalInt bits.toInt).toList = .ok bits ↔
      -(2 ^ (8 * w.bytes - 1)) ≤ bits.toInt ∧ bits.toInt < 2 ^ (8 * w.bytes) := by
  have hfloat : (DataType.signed w).isFloat = false := rfl
  have hbytes : 0 < (DataType.signed w).bytes := by cases w <;> decide
  have hbounds : -(2 ^ 63) ≤ bits.toInt ∧ bits.toInt < 2 ^ 63 := by
    have h1 := BitVec.le_toInt bits
    have h2 := BitVec.toInt_lt (x := bits)
    norm_num at h1 h2 ⊢
    omega
  have hone : (1 : Int) ≤ 2 ^ (8 * w.bytes) := one_le_pow₀ (by decide)
  have hhalf : (1 : Int) ≤ 2 ^ (8 * w.bytes - 1) := one_le_pow₀ (by decide)
  rcases lt_or_ge bits.toInt 0 with hneg | hpos
  · -- what counts for a negative number is the lower bound
    have hfit : literal? (.signed w) (Text.decimalInt bits.toInt).toList = .ok bits ↔
        -(2 ^ (8 * w.bytes - 1)) ≤ bits.toInt := by
      refine Iff.trans ?_ (forall_literalWidth?_iff (P := fun v => -(2 ^ (v - 1)) ≤ bits.toInt)
        hbytes fun v hv => ?_)
      · rw [literal?_negative hfloat hneg hbounds.1, BitVec.ofInt_toInt,
          ← any_literalWidth?_lt_eq_false_iff]
        cases (literalWidth? _).any fun v => bits.toInt < -(Nat.pow 2 (v - 1)) <;> simp
      · have hpow : (2 : Int) ^ 63 ≤ 2 ^ (v - 1) := pow_le_pow_right₀ (by decide) (by omega)
        omega
    rw [hfit]
    omega
  · -- and the upper bound for another
    have hint : ((bits.toInt.natAbs : Nat) : Int) = bits.toInt := by omega
    have hnat : bits.toInt.natAbs < 2 ^ 63 := by
      have := hbounds.2
      norm_num at this ⊢
      omega
    have hfit : literal? (.signed w) (Text.decimalInt bits.toInt).toList = .ok bits ↔
        bits.toInt.natAbs < 2 ^ (8 * w.bytes) := by
      refine Iff.trans ?_ (forall_literalWidth?_iff (P := fun v => bits.toInt.natAbs < 2 ^ v)
        hbytes fun v hv => ?_)
      · rw [Text.toList_decimalInt_of_nonneg hpos, literal?_toDigits hfloat
          (by unfold maxWord; norm_num at hnat ⊢; omega), ← BitVec.ofInt_natCast, hint,
          BitVec.ofInt_toInt, ← any_literalWidth?_le_eq_false_iff]
        cases (literalWidth? _).any fun v => Nat.pow 2 v ≤ bits.toInt.natAbs <;> simp
      · exact Nat.lt_trans hnat (Nat.pow_lt_pow_right (by decide) (by omega))
    have hcast : ((2 ^ (8 * w.bytes) : Nat) : Int) = 2 ^ (8 * w.bytes) := by push_cast; rfl
    rw [hfit]
    omega

/-! ### Bits that no literal of their type can stand for -/

theorem toNat_le_of_rawBits? {limit : Nat} {digits : List Char} {bits : BitVec 64}
    (h : rawBits? limit digits = .ok bits) : bits.toNat ≤ limit := by
  unfold rawBits? at h
  split at h
  · rename_i n hn
    cases h
    unfold Text.naturalInBase? at hn
    split_ifs at hn
    rw [BitVec.toNat_ofNat]
    exact Nat.le_trans (Nat.mod_le _ _) (Text.digits?_le hn (Nat.zero_le limit))
  · cases h

/-- Behind a zero, the mark of single floats is no part of a float literal. -/
theorem floatingLiteral?_single (rest : List Char) :
    Floating.literal? ('0' :: 'f' :: rest) = .error .malformed := by
  -- a text that begins with a zero is no name
  have hname : ∀ name : String, name.toList.head? ≠ some '0' →
      (String.ofList (('0' :: 'f' :: rest).map Text.lower) == name) = false := by
    intro name hhead
    rw [beq_eq_false_iff_ne]
    rintro rfl
    rw [String.toList_ofList] at hhead
    exact hhead rfl
  -- and its digits end at the mark, which announces no exponent
  have hmagnitude : ∀ whole, Floating.magnitude? whole ('0' :: 'f' :: rest) = .error .malformed := by
    intro whole
    cases rest <;> rfl
  have hinfinity : Floating.namesInfinity ('0' :: 'f' :: rest) = false := by
    unfold Floating.namesInfinity
    dsimp only
    rw [hname "inf" (by decide), hname "infinity" (by decide)]
    rfl
  show (if Floating.namesInfinity ('0' :: 'f' :: rest) = true then _
    else if (String.ofList (('0' :: 'f' :: rest).map Text.lower) == "nan") = true then _
    else (Floating.magnitude? _ ('0' :: 'f' :: rest)).map _) = _
  rw [hinfinity, hname "nan" (by decide), hmagnitude]
  rfl

/-- Of the bits that `0f` can write, only 32 are read back. -/
theorem toNat_lt_of_literal?_single {w : FloatWidth} {digits : List Char} {bits : BitVec 64}
    (h : literal? (.float w) ('0' :: 'f' :: digits) = .ok bits) : bits.toNat < 2 ^ 32 := by
  rw [literal?] at h
  split_ifs at h with hsingle hdouble
  · exact Nat.lt_succ_of_le (toNat_le_of_rawBits? h)
  · exact absurd hdouble.2 (by decide)
  · rw [typedLiteral?, floatLiteral?, floatingLiteral?_single] at h
    cases h

/-- **Bits are read back from the literal that writes them exactly if they fit the type.** -/
theorem literal?_literalText_iff {t : DataType} {bits : BitVec 64} :
    literal? t (literalText t bits).toList = .ok bits ↔ t.Holds bits := by
  cases t with
  | float w =>
    cases w with
    | double =>
      rw [literalText, String.toList_append]
      exact ⟨fun _ => trivial, fun _ => literal?_double _ bits⟩
    | half | single =>
      rw [show literalText (.float _) bits = "0f" ++ bitsText 8 bits from rfl,
        String.toList_append]
      exact ⟨toNat_lt_of_literal?_single, literal?_single _⟩
  | signed w => exact literal?_decimalInt_iff w bits
  | missing | unknown code =>
    exact ⟨fun _ => trivial, fun _ => (literal?_decimal rfl bits).mpr (fun w hw => by cases hw)⟩
  | pred => exact literal?_decimal_iff rfl (by decide) bits
  | bits w | unsigned w => exact literal?_decimal_iff rfl (by cases w <;> decide) bits

end KernelIR.Source
