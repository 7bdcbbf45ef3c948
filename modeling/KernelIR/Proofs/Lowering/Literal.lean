import KernelIR.Lowering.Operand
import KernelIR.Proofs.Source.Parser.Range

/-!
# Literals in virtual code

A literal keeps all its bits when it is lowered, and virtual code shows those within the width of
its type as a signed number, or a single bit for a predicate (`operand_immediate`).

`literal?_shows`: an integer in the range of its type is shown as the signed number of this width
that is congruent to it.  `literal?_fits_iff`: a literal shows all its bits if it fits its type, and
which literals fit depends on their form; those of a raw form all fit exactly the types that are as
wide as the form.
-/

namespace KernelIR.Lowering

open Source (DataType LiteralForm literal? literalForm)

/-! ### The number that is shown -/

/-- How many bits of a literal of the type are shown. -/
def shownBits (t : DataType) : Nat :=
  if t = .pred then 1 else t.literalBits

/-- The number that is shown for the bits of a literal. -/
def shown (t : DataType) (bits : BitVec 64) : Int :=
  if t = .pred then (bits.setWidth 1).toNat else (bits.setWidth t.literalBits).toInt

section Shown

variable {t : DataType} {bits : BitVec 64}

theorem literalType_eq_ok (hfloat : t.isFloat = false) (hcode : ∀ code, t ≠ .unknown code) :
    ∃ v, Scope.literalType t = .ok v ∧ v.kind = .integer ∧ v.bits = shownBits t := by
  cases t with
  | missing | pred => exact ⟨_, rfl, rfl, rfl⟩
  | bits w | signed w | unsigned w => cases w <;> exact ⟨_, rfl, rfl, rfl⟩
  | float w => cases hfloat
  | unknown code => exact absurd rfl (hcode code)

theorem decimal_eq_decimalInt (n : Nat) : Text.decimal n = Text.decimalInt n := by
  rw [Text.decimalInt, if_neg (by omega), Int.natAbs_natCast]

/-- The text of a literal is that of the number that is shown. -/
theorem immediateText_eq {v : Virtual.ValueType} (hkind : v.kind = .integer)
    (hbits : v.bits = shownBits t) :
    Virtual.immediateText bits (some v) = Text.decimalInt (shown t bits) := by
  have htext : Virtual.immediateText bits (some v) =
      if 64 ≤ v.bits then Text.decimalInt bits.toInt
      else if v.bits = 1 then Text.decimal (bits.setWidth 1).toNat
      else Text.decimalInt (bits.setWidth v.bits.toNat).toInt := by
    unfold Virtual.immediateText
    dsimp only
    rw [hkind]
  rw [htext, hbits, shownBits, shown]
  by_cases hpred : t = .pred
  · -- a predicate is shown by its only bit, without a sign
    rw [if_pos hpred, if_pos hpred, if_neg (by decide), if_pos (by decide), decimal_eq_decimalInt]
  · rw [if_neg hpred, if_neg hpred]
    rcases t.literalBits_cases with h | h | h | h
    all_goals
      rw [h]
      simp

/-- **A literal keeps its bits, and those that its type has are shown.** -/
theorem operand_immediate (hfloat : t.isFloat = false) (hcode : ∀ code, t ≠ .unknown code)
    (s : Scope) (fr : Frame) (bits : BitVec 64) :
    ∃ x, s.operand ⟨t, .immediate bits⟩ fr = .ok (x, fr) ∧
      x.text = Text.decimalInt (shown t bits) := by
  obtain ⟨v, hv, hkind, hbits⟩ := literalType_eq_ok hfloat hcode
  refine ⟨.immediate bits (some v), ?_, immediateText_eq hkind hbits⟩
  unfold Scope.operand
  dsimp only
  rw [hv]
  rfl

end Shown

/-! ### Integers -/

/-- The number `r` is shown for a literal of the type that stands for `v`: a predicate shows whether
`v` is odd, and another type shows the signed number of its width that is congruent to `v`. -/
def Shows (t : DataType) (v r : Int) : Prop :=
  if t = .pred then r = v % 2
  else (-(2 ^ (t.literalBits - 1)) ≤ r ∧ r < 2 ^ (t.literalBits - 1)) ∧
    r % 2 ^ t.literalBits = v % 2 ^ t.literalBits

instance (t : DataType) (v r : Int) : Decidable (Shows t v r) :=
  inferInstanceAs (Decidable (if t = .pred then _ else _))

section Integer

variable {t : DataType} {v : Int}

theorem Shows.unique {r r' : Int} (h : Shows t v r) (h' : Shows t v r') : r' = r := by
  unfold Shows at h h'
  split_ifs at h h'
  · rw [h, h']
  · obtain ⟨⟨hlo, hhi⟩, hmod⟩ := h
    obtain ⟨⟨hlo', hhi'⟩, hmod'⟩ := h'
    rcases t.literalBits_cases with hw | hw | hw | hw
    all_goals
      rw [hw] at hlo hhi hmod hlo' hhi' hmod'
      norm_num at hlo hhi hmod hlo' hhi' hmod'
      omega

/-- What is shown for the two's complement of a number. -/
theorem shows_shown_ofInt (t : DataType) (v : Int) : Shows t v (shown t (BitVec.ofInt 64 v)) := by
  unfold Shows shown
  split_ifs
  · rw [BitVec.toNat_setWidth, BitVec.toNat_ofInt]
    norm_num
    omega
  · rw [BitVec.toInt_setWidth, BitVec.toNat_ofInt, Int.bmod]
    rcases t.literalBits_cases with hw | hw | hw | hw
    all_goals
      rw [hw]
      norm_num
      omega

/-- **Integer literals.**  An integer is accepted as a literal of a type that is no float type
exactly if it is in the range of the type, as a signed or as an unsigned number.  Then virtual code
shows the one number that stands for it in this type. -/
theorem literal?_shows (hfloat : t.isFloat = false) {s : List Char} (hs : Text.Integer s v) :
    ((∃ bits, literal? t s = .ok bits) ↔
        -(2 ^ (t.literalBits - 1)) ≤ v ∧ v < 2 ^ t.literalBits) ∧
      ∀ bits, literal? t s = .ok bits → (∀ code, t ≠ .unknown code) →
        ∀ (scope : Scope) (frame : Frame), ∃ x r,
          scope.operand ⟨t, .immediate bits⟩ frame = .ok (x, frame) ∧
            x.text = Text.decimalInt r ∧ Shows t v r ∧ ∀ r', Shows t v r' → r' = r := by
  -- what is accepted and which pattern it gives are one fact of reading
  have haccepts : ∀ bits, literal? t s = .ok bits ↔
      (-(2 ^ (t.literalBits - 1)) ≤ v ∧ v < 2 ^ t.literalBits) ∧ bits = BitVec.ofInt 64 v :=
    fun bits => Source.literal?_integer_iff hfloat hs
  refine ⟨⟨?_, ?_⟩, ?_⟩
  · rintro ⟨bits, hbits⟩
    exact ((haccepts bits).mp hbits).1
  · intro hrange
    exact ⟨_, (haccepts _).mpr ⟨hrange, rfl⟩⟩
  · intro bits hbits hcode scope frame
    obtain ⟨-, rfl⟩ := (haccepts bits).mp hbits
    obtain ⟨x, hx, htext⟩ := operand_immediate hfloat hcode scope frame (BitVec.ofInt 64 v)
    have hshows := shows_shown_ofInt t v
    exact ⟨x, _, hx, htext, hshows, fun r' hr' => hshows.unique hr'⟩

end Integer

/-- The largest number without sign of a type is shown as minus one. -/
theorem literal?_shows_largest_byte :
    Text.Integer "+0xF_f".toList 255 ∧
      literal? (.unsigned .w8) "+0xF_f".toList = .ok 255#64 ∧
      ∀ (scope : Scope) (frame : Frame), ∃ x,
        scope.operand ⟨.unsigned .w8, .immediate 255#64⟩ frame = .ok (x, frame) ∧ x.text = "-1" := by
  have hread : Text.natural? 255 "0xF_f".toList = .ok 255 := by decide
  have hs : Text.Integer "+0xF_f".toList 255 := .plus (Text.natural?_eq_ok_iff.mp hread).1
  obtain ⟨-, hshows⟩ := literal?_shows (t := .unsigned .w8) rfl hs
  have hbits : literal? (.unsigned .w8) "+0xF_f".toList = .ok 255#64 := by decide
  refine ⟨hs, hbits, fun scope frame => ?_⟩
  obtain ⟨x, r, hx, htext, -, hunique⟩ := hshows 255#64 hbits (fun code h => by cases h) scope frame
  have hr : -1 = r := hunique (-1) (by decide +kernel)
  exact ⟨x, hx, by rw [htext, ← hr]; decide⟩

/-! ### Bits that are not shown -/

section Fits

variable {t : DataType}

/-- The text of a number of 64 bits names it. -/
theorem decimalInt_inj {i j : Int} (hi : -(2 ^ 63) ≤ i ∧ i < 2 ^ 63)
    (hj : -(2 ^ 63) ≤ j ∧ j < 2 ^ 63) : Text.decimalInt i = Text.decimalInt j ↔ i = j := by
  constructor
  · intro h
    have hread := Text.integer?_decimalInt hi.1 hi.2
    rw [h, Text.integer?_decimalInt hj.1 hj.2] at hread
    exact (Except.ok.inj hread).symm
  · intro h
    rw [h]

/-- The number that is shown has 64 bits. -/
theorem shown_bounds (t : DataType) (bits : BitVec 64) :
    -(2 ^ 63) ≤ shown t bits ∧ shown t bits < 2 ^ 63 := by
  unfold shown
  split_ifs
  · have hlt := (bits.setWidth 1).isLt
    omega
  · have hlo := BitVec.le_toInt (bits.setWidth t.literalBits)
    have hhi := BitVec.toInt_lt (x := bits.setWidth t.literalBits)
    rcases t.literalBits_cases with hw | hw | hw | hw
    all_goals
      rw [hw] at hlo hhi ⊢
      norm_num at hlo hhi ⊢
      omega

/-- The bits that are shown make the number that is shown. -/
theorem shown_inj {bits bits' : BitVec 64} :
    shown t bits = shown t bits' ↔ bits.setWidth (shownBits t) = bits'.setWidth (shownBits t) := by
  by_cases hpred : t = .pred
  · have hone : shownBits t = 1 := if_pos hpred
    rw [hone, shown, shown, if_pos hpred, if_pos hpred, Int.natCast_inj, BitVec.toNat_inj]
  · have hall : shownBits t = t.literalBits := if_neg hpred
    rw [hall, shown, shown, if_neg hpred, if_neg hpred, BitVec.toInt_inj]

/-- **Literals of every form.**  All literals of a form fit a type exactly if the type is as wide as
the form.  Bits fit exactly if those above the width of the type follow from those within, and it is
these that the text of a literal tells; of a predicate it tells the lowest. -/
theorem literal?_fits_iff (ht : 0 < t.bytes) (form : LiteralForm) :
    ((∀ s bits, literalForm s = form → literal? t s = .ok bits → t.Fits bits) ↔
        form.bits t ≤ 8 * t.bytes) ∧
      (∀ bits, t.Fits bits ↔ bits = (bits.setWidth (8 * t.bytes)).setWidth 64 ∨
        t.isFloat = false ∧ bits = (bits.setWidth (8 * t.bytes)).signExtend 64) ∧
      (t.isFloat = false → ∀ (scope : Scope) (frame : Frame) (bits bits' : BitVec 64), ∃ x x',
        scope.operand ⟨t, .immediate bits⟩ frame = .ok (x, frame) ∧
          scope.operand ⟨t, .immediate bits'⟩ frame = .ok (x', frame) ∧
          (x.text = x'.text ↔
            bits.setWidth (shownBits t) = bits'.setWidth (shownBits t))) := by
  refine ⟨⟨?_, ?_⟩, fun bits => DataType.fits_iff_extends ht, ?_⟩
  · -- a form that is read wider than the type has a literal that does not fit
    intro hall
    by_contra hw
    obtain ⟨s, bits, hform, hread, hnot⟩ := Source.exists_literal?_not_fits ht (Nat.lt_of_not_le hw)
    exact hnot (hall s bits hform hread)
  · rintro hw s bits rfl hread
    exact Source.fits_of_literal? ht hw hread
  · intro hfloat scope frame bits bits'
    have hcode : ∀ code, t ≠ .unknown code := by
      rintro code rfl
      exact absurd ht (Nat.lt_irrefl 0)
    obtain ⟨x, hx, htext⟩ := operand_immediate hfloat hcode scope frame bits
    obtain ⟨x', hx', htext'⟩ := operand_immediate hfloat hcode scope frame bits'
    refine ⟨x, x', hx, hx', ?_⟩
    rw [htext, htext', decimalInt_inj (shown_bounds t bits) (shown_bounds t bits'), shown_inj]

end Fits

/-- A word takes all literals of single floats, and not all those of doubles. -/
theorem literal?_fits_word :
    0 < (DataType.unsigned .w32).bytes ∧
      (∀ s bits, literalForm s = .single → literal? (.unsigned .w32) s = .ok bits →
        (DataType.unsigned .w32).Fits bits) ∧
      ¬∀ s bits, literalForm s = .double → literal? (.unsigned .w32) s = .ok bits →
        (DataType.unsigned .w32).Fits bits := by
  have hbytes : 0 < (DataType.unsigned .w32).bytes := by decide
  have hsingle := (literal?_fits_iff hbytes .single).1
  have hdouble := (literal?_fits_iff hbytes .double).1
  exact ⟨hbytes, hsingle.mpr (by decide), fun hall => absurd (hdouble.mp hall) (by decide)⟩

/-- The bits of a double are taken as a word, and all but the lower ones are lost. -/
theorem literal?_word_of_double :
    literal? (.unsigned .w32) "0d4000000000000001".toList = .ok 0x4000000000000001#64 ∧
      ¬(DataType.unsigned .w32).Fits 0x4000000000000001#64 ∧
      ∀ (scope : Scope) (frame : Frame), ∃ x,
        scope.operand ⟨.unsigned .w32, .immediate 0x4000000000000001#64⟩ frame = .ok (x, frame) ∧
          x.text = "1" := by
  refine ⟨by decide, DataType.not_fits (by decide) (by decide) (by decide), fun scope frame => ?_⟩
  exact ⟨_, rfl, by decide⟩

end KernelIR.Lowering
