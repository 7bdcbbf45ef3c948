import KernelIR.Proofs.Fallible
import KernelIR.Proofs.Source.Parser.Literal
import KernelIR.Proofs.Text.Grammar

/-!
# Which literals fit their types

`literal?_integer_iff`: a text that is an integer is accepted as a literal of a type that is no
float type exactly if the integer is in the range of the type, as a signed or as an unsigned number,
and it stands for the two's complement of the integer.

Other texts may be raw bits, which are taken as they are, whatever the type.  What is read by its
type fits the type (`DataType.Fits`): it is a number of the width of the type, or the two's
complement of a negative one.  The literals of a raw form all fit the types that are as wide as the
form, and only those (`fits_of_literal?`, `exists_literal?_not_fits`).  Bits fit if and only if all
of them can be told from those within the width of the type (`DataType.fits_iff_extends`).
-/

namespace KernelIR.Floating

/-! ### Bits of singles -/

theorem Format.round_le_infinity (f : Format) (num den : Nat) : f.round num den ≤ f.infinity := by
  unfold round
  split_ifs
  · exact Nat.zero_le _
  · exact Nat.min_le_left _ _

/-- A magnitude is below the bit that holds the sign. -/
theorem Format.convert_le (f g : Format) (magnitude : Nat) :
    f.convert g magnitude ≤ g.infinity + g.stride / 2 := by
  unfold convert
  split_ifs
  · exact Nat.le_refl _
  · exact Nat.le_add_right _ _
  · exact Nat.le_trans (g.round_le_infinity _ _) (Nat.le_add_right _ _)

theorem toSingle_lt (bits : Nat) : toSingle bits < 2 ^ 32 := by
  have hle := Format.binary64.convert_le Format.binary32 (bits % Format.binary64.signBit)
  have hmagnitude : Format.binary32.infinity + Format.binary32.stride / 2 < 2 ^ 31 := by decide
  have hsign : Format.binary32.signBit = 2 ^ 31 := by decide
  unfold toSingle
  dsimp only
  split_ifs <;> omega

end KernelIR.Floating

namespace KernelIR.Source

open Text (byteLength maxWord)

/-! ### Ranges -/

/-- The number of bits that integer literals of the type may have: all 64 where no width is
known. -/
def DataType.literalBits (t : DataType) : Nat :=
  if t.bytes = 0 then 64 else 8 * t.bytes

theorem DataType.bytes_cases (t : DataType) :
    t.bytes = 0 ∨ t.bytes = 1 ∨ t.bytes = 2 ∨ t.bytes = 4 ∨ t.bytes = 8 := by
  cases t with
  | bits w | signed w | unsigned w | float w => cases w <;> decide
  | pred => decide
  | missing | unknown code => exact .inl rfl

/-- Literals are held to the width of their type where it is less than that of all bits. -/
theorem forall_literalWidth?_literalBits {t : DataType} {P : Nat → Prop} :
    (∀ w, literalWidth? t = some w → P w) ↔ (t.literalBits < 64 → P t.literalBits) := by
  unfold literalWidth? DataType.literalBits
  rcases t.bytes_cases with h | h | h | h | h
  all_goals simp [h]

theorem DataType.literalBits_cases (t : DataType) :
    t.literalBits = 8 ∨ t.literalBits = 16 ∨ t.literalBits = 32 ∨ t.literalBits = 64 := by
  unfold literalBits
  rcases t.bytes_cases with h | h | h | h | h
  all_goals simp [h]

/-! ### Integers -/

section Integer

variable {t : DataType} {s : List Char} {bits : BitVec 64}

/-- What is refused by a check is accepted if the check does not apply. -/
theorem checked_eq_ok_iff {ε α : Type} {b : Bool} {P : Prop} (h : b = false ↔ P) {e : ε} {x y : α} :
    (if b then .error e else .ok x : Except ε α) = .ok y ↔ P ∧ y = x := by
  rw [← h]
  cases b <;> simp [eq_comm]

/-- A literal with a minus is accepted if it has 64 bits and fits the width of its type. -/
theorem negativeLiteral?_eq_ok_iff :
    negativeLiteral? t s = .ok bits ↔ ∃ v, Text.integer? s = .ok v ∧
      (t.literalBits < 64 → -(2 ^ (t.literalBits - 1)) ≤ v) ∧ bits = BitVec.ofInt 64 v := by
  unfold negativeLiteral?
  cases Text.integer? s with
  | error fault => simp
  | ok v =>
    dsimp only
    rw [checked_eq_ok_iff (any_literalWidth?_lt_eq_false_iff.trans forall_literalWidth?_literalBits)]
    simp

/-- A literal without a minus is read from behind its plus, if it has one. -/
theorem positiveLiteral?_eq {body : List Char}
    (hbody : s = '+' :: body ∨ s.head? ≠ some '+' ∧ s = body) :
    positiveLiteral? t s =
      (Text.natural? maxWord body).mapError (fun fault => .badInteger ⟨.unsigned, body, fault⟩) >>=
        fun n => if (literalWidth? t).any (fun w => Nat.pow 2 w ≤ n) then .error (.doesNotFit s t)
          else .ok (BitVec.ofNat 64 n) := by
  unfold positiveLiteral?
  split
  · rename_i rest
    obtain rfl : rest = body := by simpa using hbody
    dsimp only
    cases Text.natural? maxWord rest <;> rfl
  · rename_i hplus
    obtain rfl : s = body := hbody.elim (fun h => absurd h (hplus _)) And.right
    dsimp only
    cases Text.natural? maxWord s <;> rfl

/-- A literal without a minus is accepted if it has 64 bits and fits the width of its type. -/
theorem positiveLiteral?_eq_ok_iff {body : List Char}
    (hbody : s = '+' :: body ∨ s.head? ≠ some '+' ∧ s = body) :
    positiveLiteral? t s = .ok bits ↔ ∃ n, Text.natural? maxWord body = .ok n ∧
      (t.literalBits < 64 → n < 2 ^ t.literalBits) ∧ bits = BitVec.ofNat 64 n := by
  have hfits : ∀ n, (literalWidth? t).any (fun w => Nat.pow 2 w ≤ n) = false ↔
      (t.literalBits < 64 → n < 2 ^ t.literalBits) :=
    fun n => any_literalWidth?_le_eq_false_iff.trans forall_literalWidth?_literalBits
  rw [positiveLiteral?_eq hbody, Fallible.bind_eq_ok]
  simp only [Fallible.mapError_eq_ok, checked_eq_ok_iff (hfits _)]

/-- The texts of integers are none of the raw forms. -/
theorem literal?_of_numeral (t : DataType) {n : Nat} (h : Text.Numeral s n) :
    literal? t s = typedLiteral? t s := by
  unfold literal?
  split
  · rename_i mark digits
    have hmark : Text.lower mark ≠ 'f' ∧ Text.lower mark ≠ 'd' := by
      rcases h.second_mem with ⟨d, hd⟩ | rfl | ⟨base, hbase⟩
      · exact hd.of_digitChar (P := fun c => Text.lower c ≠ 'f' ∧ Text.lower c ≠ 'd') (by decide)
      · decide
      · simp only [Text.IsMark, List.mem_cons, Prod.mk.injEq, List.not_mem_nil, or_false] at hbase
        rcases hbase with ⟨rfl, -⟩ | ⟨rfl, -⟩ | ⟨rfl, -⟩ | ⟨rfl, -⟩ | ⟨rfl, -⟩ | ⟨rfl, -⟩
        all_goals decide
    rw [if_neg fun hf => hmark.1 hf.2, if_neg fun hd => hmark.2 hd.2]
  · rfl

/-- A number has no more than 64 bits and no more than its type exactly if it is in range. -/
theorem natural_inRange_iff (t : DataType) (n : Nat) :
    (n ≤ maxWord ∧ (t.literalBits < 64 → n < 2 ^ t.literalBits)) ↔
      (-(2 ^ (t.literalBits - 1)) ≤ (n : Int) ∧ (n : Int) < 2 ^ t.literalBits) := by
  have hmax : maxWord = 18446744073709551615 := rfl
  rcases t.literalBits_cases with h | h | h | h
  all_goals
    rw [h, hmax]
    norm_num
    omega

/-- So it is with a negative number. -/
theorem minus_inRange_iff (t : DataType) (n : Nat) :
    (n ≤ 2 ^ 63 ∧ (t.literalBits < 64 → -(2 ^ (t.literalBits - 1)) ≤ (-n : Int))) ↔
      (-(2 ^ (t.literalBits - 1)) ≤ (-n : Int) ∧ (-n : Int) < 2 ^ t.literalBits) := by
  rcases t.literalBits_cases with h | h | h | h
  all_goals
    rw [h]
    norm_num
    omega

/-- A numeral without a minus is accepted exactly if it is in range. -/
theorem positiveLiteral?_numeral_iff {body : List Char} {n : Nat}
    (hbody : s = '+' :: body ∨ s.head? ≠ some '+' ∧ s = body) (hn : Text.Numeral body n) :
    positiveLiteral? t s = .ok bits ↔
      (-(2 ^ (t.literalBits - 1)) ≤ (n : Int) ∧ (n : Int) < 2 ^ t.literalBits) ∧
        bits = BitVec.ofInt 64 n := by
  rw [positiveLiteral?_eq_ok_iff hbody, ← natural_inRange_iff, BitVec.ofInt_natCast]
  simp only [hn.natural?_eq_ok_iff]
  constructor
  · rintro ⟨m, ⟨rfl, hmax⟩, hfits, hbits⟩
    exact ⟨⟨hmax, hfits⟩, hbits⟩
  · rintro ⟨⟨hmax, hfits⟩, hbits⟩
    exact ⟨n, ⟨rfl, hmax⟩, hfits, hbits⟩

/-- A numeral with a minus is accepted exactly if it is in range. -/
theorem negativeLiteral?_numeral_iff {body : List Char} {n : Nat} (hn : Text.Numeral body n) :
    negativeLiteral? t ('-' :: body) = .ok bits ↔
      (-(2 ^ (t.literalBits - 1)) ≤ (-n : Int) ∧ (-n : Int) < 2 ^ t.literalBits) ∧
        bits = BitVec.ofInt 64 (-n) := by
  rw [negativeLiteral?_eq_ok_iff, ← minus_inRange_iff]
  simp only [hn.integer?_minus_eq_ok_iff]
  constructor
  · rintro ⟨v, ⟨rfl, hmax⟩, hfits, hbits⟩
    exact ⟨⟨hmax, hfits⟩, hbits⟩
  · rintro ⟨⟨hmax, hfits⟩, hbits⟩
    exact ⟨-n, ⟨rfl, hmax⟩, hfits, hbits⟩

/-- **An integer is accepted exactly if it is in the range of the type**, and stands for its two's
complement. -/
theorem literal?_integer_iff (ht : t.isFloat = false) {v : Int} (h : Text.Integer s v) :
    literal? t s = .ok bits ↔
      (-(2 ^ (t.literalBits - 1)) ≤ v ∧ v < 2 ^ t.literalBits) ∧ bits = BitVec.ofInt 64 v := by
  cases h with
  | plain hn =>
    obtain ⟨hplus, hminus⟩ := hn.head?_ne_sign
    rw [literal?_of_numeral t hn, typedLiteral?_of_not_isFloat ht, if_neg hminus]
    exact positiveLiteral?_numeral_iff (.inr ⟨hplus, rfl⟩) hn
  | plus hn =>
    rw [literal?_eq_typedLiteral? t (by simp), typedLiteral?_of_not_isFloat ht, if_neg (by simp)]
    exact positiveLiteral?_numeral_iff (.inl rfl) hn
  | minus hn =>
    rw [literal?_eq_typedLiteral? t (by simp), typedLiteral?_of_not_isFloat ht, if_pos List.head?_cons]
    exact negativeLiteral?_numeral_iff hn

end Integer

/-! ### Bits that fit a type -/

/-- The bits fit the type: they are a number of its width or, unless the type is a float type, the
two's complement of a negative number of this width. -/
def DataType.Fits (t : DataType) (bits : BitVec 64) : Prop :=
  bits.toNat < 2 ^ (8 * t.bytes) ∨
    t.isFloat = false ∧
      ∃ i : Int, -(2 ^ (8 * t.bytes - 1)) ≤ i ∧ i < 0 ∧ bits = BitVec.ofInt 64 i

section Fits

variable {t : DataType} {bits : BitVec 64}

theorem DataType.width_cases (ht : 0 < t.bytes) :
    8 * t.bytes = 8 ∨ 8 * t.bytes = 16 ∨ 8 * t.bytes = 32 ∨ 8 * t.bytes = 64 := by
  rcases t.bytes_cases with h | h | h | h | h
  all_goals omega

/-- The two's complements of negative numbers of a width are the numbers at the upper end. -/
theorem DataType.fits_iff (ht : 0 < t.bytes) :
    t.Fits bits ↔ bits.toNat < 2 ^ (8 * t.bytes) ∨
      t.isFloat = false ∧ 2 ^ 64 - 2 ^ (8 * t.bytes - 1) ≤ bits.toNat := by
  refine or_congr Iff.rfl (and_congr_right fun _ => ?_)
  have hbits := bits.isLt
  constructor
  · rintro ⟨i, hlo, hneg, rfl⟩
    rw [BitVec.toNat_ofInt]
    rcases width_cases ht with h | h | h | h
    all_goals
      rw [h] at hlo ⊢
      norm_num at hlo ⊢
      omega
  · intro hhi
    -- the pattern read as a negative number
    refine ⟨(bits.toNat : Int) - 2 ^ 64, ?_, by omega, ?_⟩
    · rcases width_cases ht with h | h | h | h
      all_goals
        rw [h] at hhi ⊢
        norm_num at hhi ⊢
        omega
    · apply BitVec.eq_of_toNat_eq
      rw [BitVec.toNat_ofInt]
      norm_num
      omega

/-- Bits above a width are all zero in a number of that width. -/
theorem eq_setWidth_setWidth_iff {w : Nat} :
    bits = (bits.setWidth w).setWidth 64 ↔ bits.toNat < 2 ^ w := by
  rw [← BitVec.toNat_inj, BitVec.toNat_setWidth, BitVec.toNat_setWidth,
    Nat.mod_eq_of_lt (Nat.lt_of_le_of_lt (Nat.mod_le _ _) bits.isLt)]
  constructor
  · intro h
    rw [h]
    exact Nat.mod_lt _ (Nat.two_pow_pos w)
  · intro h
    exact (Nat.mod_eq_of_lt h).symm

/-- They are all like the uppermost bit in the two's complement of one. -/
theorem eq_signExtend_setWidth_iff {w : Nat} (hw : w = 8 ∨ w = 16 ∨ w = 32 ∨ w = 64) :
    bits = (bits.setWidth w).signExtend 64 ↔
      bits.toNat < 2 ^ (w - 1) ∨ 2 ^ 64 - 2 ^ (w - 1) ≤ bits.toNat := by
  have hbits := bits.isLt
  have hle : w ≤ 64 := by omega
  rw [← BitVec.toInt_inj, BitVec.toInt_signExtend_of_le hle, BitVec.toInt_setWidth,
    BitVec.toInt_eq_toNat_bmod, Int.bmod, Int.bmod]
  rcases hw with rfl | rfl | rfl | rfl
  all_goals
    norm_num at hbits ⊢
    omega

/-- **Bits fit a type exactly if those above its width follow from those within.** -/
theorem DataType.fits_iff_extends (ht : 0 < t.bytes) :
    t.Fits bits ↔ bits = (bits.setWidth (8 * t.bytes)).setWidth 64 ∨
      t.isFloat = false ∧ bits = (bits.setWidth (8 * t.bytes)).signExtend 64 := by
  have hle : 2 ^ (8 * t.bytes - 1) ≤ 2 ^ (8 * t.bytes) := Nat.pow_le_pow_right (by decide) (by omega)
  have hw := width_cases ht
  rw [fits_iff ht, eq_setWidth_setWidth_iff, eq_signExtend_setWidth_iff hw]
  constructor
  · rintro (h | ⟨hfloat, h⟩)
    · exact .inl h
    · exact .inr ⟨hfloat, .inr h⟩
  · rintro (h | ⟨hfloat, h | h⟩)
    · exact .inl h
    · exact .inl (by omega)
    · exact .inr ⟨hfloat, h⟩

theorem DataType.fits_of_lt {w : Nat} (hw : w ≤ 8 * t.bytes) (h : bits.toNat < 2 ^ w) :
    t.Fits bits :=
  .inl (Nat.lt_of_lt_of_le h (Nat.pow_le_pow_right (by decide) hw))

/-- Numbers in between fit no type. -/
theorem DataType.not_fits (ht : 0 < t.bytes) (hlo : 2 ^ (8 * t.bytes) ≤ bits.toNat)
    (hhi : bits.toNat ≤ 2 ^ 63) : ¬t.Fits bits := by
  have hbits := bits.isLt
  rw [fits_iff ht]
  rintro (h | ⟨-, h⟩)
  · omega
  · rcases width_cases ht with hw | hw | hw | hw
    all_goals
      rw [hw] at hlo h
      omega

end Fits

/-! ### Literals of all forms -/

/-- The ways in which literals are read: by their raw bits, or by their type. -/
inductive LiteralForm
  | single
  | double
  | typed
deriving DecidableEq

/-- The form of a literal. -/
def literalForm (s : List Char) : LiteralForm :=
  match s with
  | '0' :: mark :: _ =>
    if byteLength s = 10 ∧ Text.lower mark = 'f' then .single
    else if byteLength s = 18 ∧ Text.lower mark = 'd' then .double
    else .typed
  | _ => .typed

/-- The number of bits of literals of a form. -/
def LiteralForm.bits (t : DataType) : LiteralForm → Nat
  | single => 32
  | double => 64
  | typed => 8 * t.bytes

section Form

variable {t : DataType} {s : List Char} {bits : BitVec 64}

theorem literal?_of_single (t : DataType) (h : literalForm s = .single) :
    literal? t s = rawBits? 0xffffffff (s.drop 2) := by
  unfold literalForm at h
  split at h
  · split_ifs at h with hsingle
    rw [literal?, if_pos hsingle]
    rfl
  · cases h

theorem literal?_of_typed (t : DataType) (h : literalForm s = .typed) :
    literal? t s = typedLiteral? t s := by
  unfold literalForm at h
  split at h
  · split_ifs at h with hsingle hdouble
    rw [literal?, if_neg hsingle, if_neg hdouble]
  · rename_i hne
    unfold literal?
    split
    · exact absurd rfl (hne _ _)
    · rfl

theorem fits_of_negativeLiteral? (ht : 0 < t.bytes) (hfloat : t.isFloat = false)
    (hs : s.head? = some '-') (h : negativeLiteral? t s = .ok bits) : t.Fits bits := by
  have hw : t.literalBits = 8 * t.bytes := if_neg (by omega)
  obtain ⟨v, hv, hlo, rfl⟩ := negativeLiteral?_eq_ok_iff.mp h
  obtain ⟨cs, rfl⟩ := List.head?_eq_some_iff.mp hs
  obtain ⟨m, -, rfl, hm⟩ := Text.signed64?_true_eq_ok_iff.mp hv
  rw [hw] at hlo
  rw [DataType.fits_iff ht, BitVec.toNat_ofInt]
  simp only [hfloat, true_and]
  rcases DataType.width_cases ht with h | h | h | h
  all_goals
    rw [h] at hlo ⊢
    norm_num at hlo hm ⊢
    omega

theorem fits_of_positiveLiteral? (ht : 0 < t.bytes) (h : positiveLiteral? t s = .ok bits) :
    t.Fits bits := by
  have hw : t.literalBits = 8 * t.bytes := if_neg (by omega)
  have hbody : ∃ body, s = '+' :: body ∨ s.head? ≠ some '+' ∧ s = body := by
    by_cases hplus : s.head? = some '+'
    · obtain ⟨body, rfl⟩ := List.head?_eq_some_iff.mp hplus
      exact ⟨body, .inl rfl⟩
    · exact ⟨s, .inr ⟨hplus, rfl⟩⟩
  obtain ⟨body, hbody⟩ := hbody
  obtain ⟨n, -, hn, rfl⟩ := (positiveLiteral?_eq_ok_iff hbody).mp h
  rw [hw] at hn
  by_cases h64 : 8 * t.bytes < 64
  · refine .inl (Nat.lt_of_le_of_lt ?_ (hn h64))
    rw [BitVec.toNat_ofNat]
    exact Nat.mod_le _ _
  · exact DataType.fits_of_lt (w := 64) (by omega) (BitVec.isLt _)

theorem fits_of_floatLiteral? {w : FloatWidth} (h : floatLiteral? w s = .ok bits) :
    (DataType.float w).Fits bits := by
  unfold floatLiteral? at h
  cases hread : Floating.literal? s with
  | error fault =>
    rw [hread] at h
    cases h
  | ok double =>
    rw [hread] at h
    cases w with
    | half => cases h
    | single =>
      cases h
      refine .inl (Nat.lt_of_le_of_lt ?_ (Floating.toSingle_lt double))
      rw [BitVec.toNat_ofNat]
      exact Nat.mod_le _ _
    | double => exact .inl bits.isLt

/-- What is read by its type fits it. -/
theorem fits_of_typedLiteral? (ht : 0 < t.bytes) (h : typedLiteral? t s = .ok bits) :
    t.Fits bits := by
  cases hfloat : t.isFloat with
  | true =>
    cases t with
    | float w => exact fits_of_floatLiteral? h
    | _ => cases hfloat
  | false =>
    rw [typedLiteral?_of_not_isFloat hfloat] at h
    split_ifs at h with hminus
    · exact fits_of_negativeLiteral? ht hfloat hminus h
    · exact fits_of_positiveLiteral? ht h

/-- Literals fit the types that are as wide as their form. -/
theorem fits_of_literal? (ht : 0 < t.bytes) (hw : (literalForm s).bits t ≤ 8 * t.bytes)
    (h : literal? t s = .ok bits) : t.Fits bits := by
  cases hform : literalForm s with
  | single =>
    rw [hform] at hw
    rw [literal?_of_single t hform] at h
    exact DataType.fits_of_lt hw (Nat.lt_succ_of_le (toNat_le_of_rawBits? h))
  | double =>
    rw [hform] at hw
    exact DataType.fits_of_lt hw bits.isLt
  | typed =>
    rw [literal?_of_typed t hform] at h
    exact fits_of_typedLiteral? ht h

/-- A form that is wider than the type has a literal that does not fit: the uppermost bit. -/
theorem exists_literal?_not_fits (ht : 0 < t.bytes) {form : LiteralForm}
    (hw : 8 * t.bytes < form.bits t) :
    ∃ s bits, literalForm s = form ∧ literal? t s = .ok bits ∧ ¬t.Fits bits := by
  cases form with
  | single =>
    have hle : 2 ^ (8 * t.bytes) ≤ 2 ^ 31 := Nat.pow_le_pow_right (by decide) (Nat.le_of_lt_succ hw)
    refine ⟨"0f80000000".toList, 0x80000000, by decide, by rfl, ?_⟩
    exact DataType.not_fits ht hle (by decide)
  | double =>
    have hle : 2 ^ (8 * t.bytes) ≤ 2 ^ 63 := Nat.pow_le_pow_right (by decide) (Nat.le_of_lt_succ hw)
    refine ⟨"0d8000000000000000".toList, 0x8000000000000000, by decide, by rfl, ?_⟩
    exact DataType.not_fits ht hle (by decide)
  | typed => exact absurd hw (Nat.lt_irrefl _)

end Form

end KernelIR.Source
