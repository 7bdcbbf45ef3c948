import KernelIR.Proofs.Lowering.Arithmetic

/-!
# Integer conversions keep values

A conversion between integer types is chosen by the sign of both types and by how their widths
compare.  `conversion_preserves`: whatever is chosen, a pattern that stands for a number of the
target type becomes the pattern of that number.

The choice is right because it computes the number modulo the width of the target
(`convert?_conversionOf`).  Truncations and casts do so for every number, and so does the extension
that goes by the sign of the source.  The one case where the extension does not, from a signed type
to a wider one without sign, is one where the numbers that the target has are not negative.
-/

namespace KernelIR

variable {w v : Nat}

/-- What an opcode makes of a pattern at another width.  Truncation goes to a smaller width, a cast
to the same and the extensions to a larger one; other opcodes do not convert integers. -/
def Virtual.Opcode.convert? (op : Opcode) (v : Nat) (a : BitVec w) : Option (BitVec v) :=
  match op with
  | .trunc => if v < w then some (a.setWidth v) else none
  | .bitcast => if h : w = v then some (a.cast h) else none
  | .sext => if w < v then some (a.signExtend v) else none
  | .zext => if w < v then some (a.zeroExtend v) else none
  | _ => none

namespace Lowering

open Source (DataType)

/-- The type has a pattern for the number: signed types reach from the negative to the positive half
of their width, all others from zero. -/
def Represents (t : DataType) (k : Int) : Prop :=
  if t.isSigned then -2 ^ (sourceBits t - 1) ≤ k ∧ k < 2 ^ (sourceBits t - 1)
  else 0 ≤ k ∧ k < 2 ^ sourceBits t

instance (t : DataType) (k : Int) : Decidable (Represents t k) :=
  inferInstanceAs (Decidable (if t.isSigned then -2 ^ (sourceBits t - 1) ≤ k ∧
    k < 2 ^ (sourceBits t - 1) else 0 ≤ k ∧ k < 2 ^ sourceBits t))

theorem sourceBits_of_isInt {t : DataType} (h : t.isInt = true) : sourceBits t = 8 * t.bytes := by
  cases t with
  | pred => cases h
  | _ => rfl

/-! ### Numbers and their patterns -/

/-- A number that a type represents is what its pattern stands for. -/
theorem read_ofInt {t : DataType} {k : Int} (h : Represents t k) :
    t.read (BitVec.ofInt (sourceBits t) k) = k := by
  by_cases hsigned : t.isSigned = true
  · rw [Represents, if_pos hsigned] at h
    have hpos : 0 < sourceBits t := by
      cases t with
      | signed w => cases w <;> decide
      | _ => cases hsigned
    rw [read_of_isSigned hsigned]
    exact BitVec.toInt_ofInt_eq_self hpos h.1 h.2
  · rw [Represents, if_neg hsigned] at h
    have hmod : k % (2 ^ sourceBits t : Nat) = k := by
      apply Int.emod_eq_of_lt h.1
      exact_mod_cast h.2
    rw [read_of_not_isSigned hsigned, BitVec.toNat_ofInt, hmod, Int.toNat_of_nonneg h.1]

/-- Cutting a pattern off keeps its number modulo the new width. -/
theorem setWidth_eq_ofInt_read (t : DataType) (a : BitVec w) (h : v ≤ w) :
    a.setWidth v = BitVec.ofInt v (t.read a) := by
  by_cases hsigned : t.isSigned = true
  · rw [read_of_isSigned hsigned, ← BitVec.signExtend_eq_setWidth_of_le a h]
    rfl
  · rw [read_of_not_isSigned hsigned, BitVec.ofInt_natCast, BitVec.ofNat_toNat]

theorem cast_eq_ofInt_read (t : DataType) (a : BitVec w) (h : w = v) :
    a.cast h = BitVec.ofInt v (t.read a) := by
  subst h
  rw [← setWidth_eq_ofInt_read t a (Nat.le_refl w), BitVec.cast_eq, BitVec.setWidth_eq]

/-- Filling a pattern up with zeros keeps its number, if it is not negative. -/
theorem zeroExtend_eq_ofInt_read (t : DataType) (a : BitVec w) (h : 0 ≤ t.read a) :
    a.zeroExtend v = BitVec.ofInt v (t.read a) := by
  have hread : t.read a = a.toNat := by
    by_cases hsigned : t.isSigned = true
    · rw [read_of_isSigned hsigned] at h ⊢
      have hmsb : a.msb = false := by
        rw [BitVec.msb_eq_toInt, decide_eq_false_iff_not]
        omega
      exact BitVec.toInt_eq_toNat_of_msb hmsb
    · exact read_of_not_isSigned hsigned a
  rw [hread, BitVec.ofInt_natCast, BitVec.ofNat_toNat]

/-! ### The choice -/

/-- Between integer types the widths decide, and a larger width is filled by sign only if both types
have one. -/
theorem conversionOf_of_isInt {dst src : DataType} (hdst : dst.isInt = true)
    (hsrc : src.isInt = true) : conversionOf dst src =
      integerConversion src dst.bytes (if dst.isSigned ∧ src.isSigned then .sext else .zext) := by
  have hdst_float := not_isFloat_of_isInt hdst
  have hsrc_float := not_isFloat_of_isInt hsrc
  by_cases hsigned : dst.isSigned = true
  · simp [conversionOf, hdst_float, hsrc_float, hsigned]
  · simp [conversionOf, hdst_float, hsrc_float, hsigned]

/-- The conversion that is chosen computes the pattern of the number, if the target has one. -/
theorem convert?_conversionOf {dst src : DataType} (hdst : dst.isInt = true)
    (hsrc : src.isInt = true) (a : BitVec (sourceBits src)) (h : Represents dst (src.read a)) :
    (conversionOf dst src).convert? (sourceBits dst) a = some (BitVec.ofInt _ (src.read a)) := by
  have hdst_bits := sourceBits_of_isInt hdst
  have hsrc_bits := sourceBits_of_isInt hsrc
  rw [conversionOf_of_isInt hdst hsrc, integerConversion]
  rcases Nat.lt_trichotomy dst.bytes src.bytes with hlt | heq | hgt
  · -- a truncation drops what does not count
    have hbits : sourceBits dst < sourceBits src := by omega
    rw [if_pos hlt, Virtual.Opcode.convert?, if_pos hbits,
      setWidth_eq_ofInt_read src a (Nat.le_of_lt hbits)]
  · -- equal widths: the pattern stays, whatever the signs
    have hbits : sourceBits src = sourceBits dst := by omega
    rw [if_neg (by omega), if_pos heq.symm, Virtual.Opcode.convert?, dif_pos hbits,
      cast_eq_ofInt_read src]
  · have hbits : sourceBits src < sourceBits dst := by omega
    rw [if_neg (by omega), if_neg (by omega)]
    by_cases hboth : dst.isSigned ∧ src.isSigned
    · -- both signed: the sign is extended
      rw [if_pos hboth, Virtual.Opcode.convert?, if_pos hbits, read_of_isSigned hboth.2]
      rfl
    · -- one of the types has no sign, so the number is not negative
      have hnonneg : 0 ≤ src.read a := by
        by_cases hdst_signed : dst.isSigned = true
        · have hsrc_signed : ¬src.isSigned = true := fun hs => hboth ⟨hdst_signed, hs⟩
          rw [read_of_not_isSigned hsrc_signed]
          omega
        · rw [Represents, if_neg hdst_signed] at h
          exact h.1
      rw [if_neg hboth, Virtual.Opcode.convert?, if_pos hbits, zeroExtend_eq_ofInt_read src a hnonneg]

/-- **Conversions between integer types keep the numbers that the target has.**  For any two such
types a truncation, a cast or an extension is chosen, and it turns each pattern that stands for a
number of the target type into the pattern of that number. -/
theorem conversion_preserves (dst src : DataType) (hdst : dst.isInt = true)
    (hsrc : src.isInt = true) :
    ∃ op, conversion dst src = .ok op ∧ op ∈ [.trunc, .bitcast, .sext, .zext] ∧
      ∀ a : BitVec (sourceBits src), Represents dst (src.read a) →
        ∃ b : BitVec (sourceBits dst), op.convert? _ a = some b ∧ dst.read b = src.read a := by
  refine ⟨conversionOf dst src, ?_, ?_, fun a ha => ?_⟩
  · simp [conversion, convertible, hdst, hsrc]
  · rw [conversionOf_of_isInt hdst hsrc, integerConversion]
    split_ifs <;> simp
  · exact ⟨_, convert?_conversionOf hdst hsrc a ha, read_ofInt ha⟩

/-- The largest byte stays what it is in a signed type, and so does the largest signed byte in a
wider type without sign. -/
theorem conversion_preserves_bytes :
    (∃ op b, conversion (.signed .w32) (.unsigned .w8) = .ok op ∧
      op.convert? 32 0xff#8 = some b ∧ DataType.read (.signed .w32) b = 255) ∧
    ∃ op b, conversion (.unsigned .w64) (.signed .w8) = .ok op ∧
      op.convert? 64 0x7f#8 = some b ∧ DataType.read (.unsigned .w64) b = 127 := by
  constructor
  · obtain ⟨op, hop, -, hconvert⟩ :=
      conversion_preserves (.signed .w32) (.unsigned .w8) rfl rfl
    obtain ⟨b, hb, hread⟩ := hconvert 0xff#8 (by decide)
    exact ⟨op, b, hop, hb, hread⟩
  · obtain ⟨op, hop, -, hconvert⟩ :=
      conversion_preserves (.unsigned .w64) (.signed .w8) rfl rfl
    obtain ⟨b, hb, hread⟩ := hconvert 0x7f#8 (by decide)
    exact ⟨op, b, hop, hb, hread⟩

end Lowering

end KernelIR
