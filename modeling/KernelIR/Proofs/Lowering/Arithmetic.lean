import KernelIR.Proofs.Lowering.Faithful
import Mathlib.Data.BitVec

/-!
# Integer arithmetic keeps its sign

Source types say how a pattern of bits is read, virtual opcodes and comparisons say how they treat
it.  `instruction_keepsArithmetic`: for every integer type, the virtual instruction that is chosen
for a right shift, a quotient, a remainder, a comparison or a complement computes what the source
means by it, at the width of the type and for all patterns.

The source side is stated with numbers: `DataType.read` reads a pattern, and shifts and quotients
are those of the integers, rounded down and towards zero.  The virtual side is stated with patterns
(`Opcode.compute?`, `Comparison.test?`), as the opcodes are signed or unsigned by name.  Untyped
bits are read without sign, so they share the unsigned opcodes.
-/

namespace KernelIR

variable {w : Nat}

/-! ### What patterns mean -/

/-- The number that a pattern of a type stands for: signed types read it in two's complement, all
others without sign. -/
def Source.DataType.read (t : DataType) (a : BitVec w) : Int :=
  match t with
  | .signed _ => a.toInt
  | _ => a.toNat

/-- The comparisons that integers have. -/
def Source.Comparison.ofIntegers : List Comparison :=
  [.eq, .ne, .lt, .le, .gt, .ge, .lo, .ls, .hi, .hs]

/-- What a comparison of two patterns of a type says.  The last four compare without sign whatever
the type; comparisons of floats say nothing about integers. -/
def Source.Comparison.Asserts (c : Comparison) (t : DataType) (a b : BitVec w) : Prop :=
  match c with
  | .eq => t.read a = t.read b
  | .ne => t.read a ≠ t.read b
  | .lt => t.read a < t.read b
  | .le => t.read a ≤ t.read b
  | .gt => t.read a > t.read b
  | .ge => t.read a ≥ t.read b
  | .lo => a.toNat < b.toNat
  | .ls => a.toNat ≤ b.toNat
  | .hi => a.toNat > b.toNat
  | .hs => a.toNat ≥ b.toNat
  | _ => False

/-- What an opcode computes from two patterns.  A shift by the width or more and a division by zero
have no result; other opcodes are not dealt with here. -/
def Virtual.Opcode.compute? (op : Opcode) (a b : BitVec w) : Option (BitVec w) :=
  match op with
  | .ashr => if b.toNat < w then some (a.sshiftRight b.toNat) else none
  | .lshr => if b.toNat < w then some (a >>> b.toNat) else none
  | .sdiv => if b = 0 then none else some (a.sdiv b)
  | .udiv => if b = 0 then none else some (a / b)
  | .srem => if b = 0 then none else some (a.srem b)
  | .urem => if b = 0 then none else some (a % b)
  | .xor => some (a ^^^ b)
  | _ => none

/-- Whether a comparison holds of two patterns.  The plain orders are signed, the others unsigned;
comparisons of floats have no answer here. -/
def Virtual.Comparison.test? (c : Comparison) (a b : BitVec w) : Option Bool :=
  match c with
  | .eq => some (a == b)
  | .ne => some (a != b)
  | .lt => some (a.slt b)
  | .le => some (a.sle b)
  | .gt => some (b.slt a)
  | .ge => some (b.sle a)
  | .ult => some (a.ult b)
  | .ule => some (a.ule b)
  | .ugt => some (b.ult a)
  | .uge => some (b.ule a)
  | _ => none

namespace Lowering

open Source (DataType)
open Virtual (Instr)

/-! ### The correspondence -/

/-- The opcode shifts patterns of the type to the right, which divides by a power of two and rounds
down. -/
def ShiftsRight (t : DataType) (op : Virtual.Opcode) : Prop :=
  ∀ (a : BitVec (sourceBits t)) (n : Nat), n < sourceBits t →
    op.compute? a (BitVec.ofNat _ n) = some (BitVec.ofInt _ ((t.read a).fdiv (2 ^ n)))

/-- The opcode divides patterns of the type and rounds towards zero. -/
def Divides (t : DataType) (op : Virtual.Opcode) : Prop :=
  ∀ a b : BitVec (sourceBits t), b ≠ 0 →
    op.compute? a b = some (BitVec.ofInt _ ((t.read a).tdiv (t.read b)))

/-- The opcode gives the remainder of that division. -/
def Remains (t : DataType) (op : Virtual.Opcode) : Prop :=
  ∀ a b : BitVec (sourceBits t), b ≠ 0 →
    op.compute? a b = some (BitVec.ofInt _ ((t.read a).tmod (t.read b)))

/-- The virtual comparison holds of two patterns of the type exactly if the source comparison says
so. -/
def Tests (t : DataType) (c : Source.Comparison) (v : Virtual.Comparison) : Prop :=
  ∀ a b : BitVec (sourceBits t), ∃ r, v.test? a b = some r ∧ (r = true ↔ c.Asserts t a b)

/-- The instruction is an exclusive or with a literal of the same type, which turns every pattern of
the type into its complement. -/
def Complements (t : DataType) (x : Instr) : Prop :=
  x.opcode = .xor ∧ ∃ a bits v, x.operandsRead = [a, some (.immediate bits (some v))] ∧
    SameType t v ∧
    ∀ p : BitVec (sourceBits t), x.opcode.compute? p (bits.setWidth _) = some (~~~p)

/-- The mnemonic of the instruction decides on the plan, and the opcode and comparison of the plan
are those of the virtual instruction wherever it is lowered. -/
def Scope.Chooses (s : Scope) (i : Source.Instruction) (p : Plan) : Prop :=
  plan i.toMnemonic = .ok p ∧ ∀ block fr x fr', Yields (s.instruction block i) fr x fr' →
    x.opcode = p.opcode ∧ ∀ c, p = .compare c → x.comparison = c

/-- What is chosen for an instruction of an integer type computes what the instruction means. -/
structure Scope.KeepsArithmetic (s : Scope) (i : Source.Instruction) : Prop where
  shr : i.opcode = .shr → i.type.isInt →
    ∃ op, s.Chooses i (.binary op) ∧ ShiftsRight i.type op
  div : i.opcode = .div → i.type.isInt → ∃ op, s.Chooses i (.binary op) ∧ Divides i.type op
  rem : i.opcode = .rem → i.type.isInt → ∃ op, s.Chooses i (.binary op) ∧ Remains i.type op
  setp : i.opcode = .setp → i.type.isInt → i.comparison ∈ Source.Comparison.ofIntegers →
    ∃ c, s.Chooses i (.compare c) ∧ Tests i.type i.comparison c
  /-- a complement is also there for predicates, which have one bit -/
  not : i.opcode = .not → i.type.isInt ∨ i.type = .pred →
    s.Chooses i .complement ∧ ∀ block fr x fr', Yields (s.instruction block i) fr x fr' →
      Complements i.type x

/-! ### Patterns and their numbers -/

theorem read_of_isSigned {t : DataType} (h : t.isSigned = true) (a : BitVec w) :
    t.read a = a.toInt := by
  cases t with
  | signed _ => rfl
  | _ => cases h

theorem read_of_not_isSigned {t : DataType} (h : ¬t.isSigned = true) (a : BitVec w) :
    t.read a = a.toNat := by
  cases t with
  | signed _ => exact absurd rfl h
  | _ => rfl

/-- Patterns of a type that stand for the same number are the same. -/
theorem read_inj (t : DataType) {a b : BitVec w} : t.read a = t.read b ↔ a = b := by
  by_cases h : t.isSigned = true
  · rw [read_of_isSigned h, read_of_isSigned h, BitVec.toInt_inj]
  · rw [read_of_not_isSigned h, read_of_not_isSigned h, Int.ofNat_inj, BitVec.toNat_inj]

theorem ofInt_toNat (a : BitVec w) : BitVec.ofInt w a.toNat = a := by
  rw [BitVec.ofInt_natCast, BitVec.ofNat_toNat, BitVec.setWidth_eq]

theorem fdiv_two_pow (k : Int) (n : Nat) : k.fdiv (2 ^ n) = k / (2 ^ n : Nat) := by
  have hpos : (0 : Int) ≤ 2 ^ n := Int.pow_nonneg (by decide)
  rw [Int.fdiv_eq_ediv_of_nonneg _ hpos]
  norm_cast

theorem sshiftRight_eq_ofInt (a : BitVec w) (n : Nat) :
    a.sshiftRight n = BitVec.ofInt w (a.toInt.fdiv (2 ^ n)) := by
  rw [fdiv_two_pow, ← Int.shiftRight_eq_div_pow, ← BitVec.toInt_sshiftRight, BitVec.ofInt_toInt]

theorem ushiftRight_eq_ofInt (a : BitVec w) (n : Nat) :
    a >>> n = BitVec.ofInt w ((a.toNat : Int).fdiv (2 ^ n)) := by
  have hfloor : (a.toNat : Int) / (2 ^ n : Nat) = ((a >>> n).toNat : Int) := by
    rw [BitVec.toNat_ushiftRight, Nat.shiftRight_eq_div_pow]
    norm_cast
  rw [fdiv_two_pow, hfloor, ofInt_toNat]

/-- The quotient of the lowest number by minus one does not fit, and wraps around. -/
theorem sdiv_eq_ofInt (a b : BitVec w) : a.sdiv b = BitVec.ofInt w (a.toInt.tdiv b.toInt) := by
  apply BitVec.eq_of_toInt_eq
  rw [BitVec.toInt_sdiv, BitVec.toInt_ofInt]

theorem udiv_eq_ofInt (a b : BitVec w) :
    a / b = BitVec.ofInt w ((a.toNat : Int).tdiv b.toNat) := by
  rw [← Int.ofNat_tdiv, ← BitVec.toNat_udiv, ofInt_toNat]

theorem srem_eq_ofInt (a b : BitVec w) : a.srem b = BitVec.ofInt w (a.toInt.tmod b.toInt) := by
  rw [← BitVec.toInt_srem, BitVec.ofInt_toInt]

theorem urem_eq_ofInt (a b : BitVec w) :
    a % b = BitVec.ofInt w ((a.toNat : Int).tmod b.toNat) := by
  rw [← Int.ofNat_tmod, ← BitVec.toNat_umod, ofInt_toNat]

/-! ### What is chosen by the sign -/

/-- The right shift that is chosen for a type shifts its patterns. -/
theorem shiftsRight_select (t : DataType) :
    ShiftsRight t (if t.isSigned then .ashr else .lshr) := by
  intro a n hn
  have hamount : (BitVec.ofNat (sourceBits t) n).toNat = n := by
    have hfits : n < 2 ^ sourceBits t := Nat.lt_trans hn Nat.lt_two_pow_self
    rw [BitVec.toNat_ofNat, Nat.mod_eq_of_lt hfits]
  by_cases hsigned : t.isSigned = true
  · rw [if_pos hsigned, Virtual.Opcode.compute?, hamount, if_pos hn, sshiftRight_eq_ofInt,
      read_of_isSigned hsigned]
  · rw [if_neg hsigned, Virtual.Opcode.compute?, hamount, if_pos hn, ushiftRight_eq_ofInt,
      read_of_not_isSigned hsigned]

theorem not_isFloat_of_isInt {t : DataType} (h : t.isInt = true) : ¬t.isFloat = true := by
  cases t with
  | float _ => cases h
  | _ => exact Bool.false_ne_true

/-- The division that is chosen for an integer type divides its patterns. -/
theorem divides_byClass {t : DataType} (ht : t.isInt = true) :
    Divides t (byClass t .fdiv .sdiv .udiv) := by
  intro a b hb
  rw [byClass, if_neg (not_isFloat_of_isInt ht)]
  by_cases hsigned : t.isSigned = true
  · rw [if_pos hsigned, Virtual.Opcode.compute?, if_neg hb, sdiv_eq_ofInt, read_of_isSigned hsigned,
      read_of_isSigned hsigned]
  · rw [if_neg hsigned, Virtual.Opcode.compute?, if_neg hb, udiv_eq_ofInt,
      read_of_not_isSigned hsigned, read_of_not_isSigned hsigned]

/-- The remainder that is chosen for an integer type is that of its division. -/
theorem remains_byClass {t : DataType} (ht : t.isInt = true) :
    Remains t (byClass t .frem .srem .urem) := by
  intro a b hb
  rw [byClass, if_neg (not_isFloat_of_isInt ht)]
  by_cases hsigned : t.isSigned = true
  · rw [if_pos hsigned, Virtual.Opcode.compute?, if_neg hb, srem_eq_ofInt, read_of_isSigned hsigned,
      read_of_isSigned hsigned]
  · rw [if_neg hsigned, Virtual.Opcode.compute?, if_neg hb, urem_eq_ofInt,
      read_of_not_isSigned hsigned, read_of_not_isSigned hsigned]

/-- An order that is chosen by the sign of an integer type compares the numbers of its patterns, if
the one choice compares signed numbers and the other unsigned ones. -/
theorem tests_bySignedness {t : DataType} (ht : t.isInt = true) {c : Source.Comparison}
    {signed unsigned : Virtual.Comparison} {R : Int → Int → Prop}
    (hasserts : ∀ a b : BitVec (sourceBits t), c.Asserts t a b ↔ R (t.read a) (t.read b))
    (hsigned : ∀ a b : BitVec (sourceBits t),
      ∃ r, signed.test? a b = some r ∧ (r = true ↔ R a.toInt b.toInt))
    (hunsigned : ∀ a b : BitVec (sourceBits t),
      ∃ r, unsigned.test? a b = some r ∧ (r = true ↔ R a.toNat b.toNat)) :
    Tests t c (bySignedness t signed unsigned) := by
  intro a b
  rw [hasserts]
  by_cases h : t.isSigned = true
  · rw [bySignedness, if_neg (by simp [h]), read_of_isSigned h, read_of_isSigned h]
    exact hsigned a b
  · rw [bySignedness, if_pos (by simp [ht, h]), read_of_not_isSigned h, read_of_not_isSigned h]
    exact hunsigned a b

/-- The comparison that is chosen for an integer type tests the numbers of its patterns. -/
theorem exists_lowerComparison_tests {t : DataType} (ht : t.isInt = true) {c : Source.Comparison}
    (hc : c ∈ Source.Comparison.ofIntegers) : ∃ v, lowerComparison c t = .ok v ∧ Tests t c v := by
  simp only [Source.Comparison.ofIntegers, List.mem_cons, List.not_mem_nil, or_false] at hc
  rcases hc with rfl | rfl | rfl | rfl | rfl | rfl | rfl | rfl | rfl | rfl
  · refine ⟨_, rfl, fun a b => ⟨a == b, rfl, ?_⟩⟩
    rw [Source.Comparison.Asserts, read_inj, beq_iff_eq]
  · refine ⟨_, rfl, fun a b => ⟨a != b, rfl, ?_⟩⟩
    rw [Source.Comparison.Asserts, Ne, read_inj, bne_iff_ne]
  · refine ⟨_, rfl, tests_bySignedness ht (R := (· < ·)) (fun _ _ => Iff.rfl) ?_ ?_⟩
    · exact fun a b => ⟨a.slt b, rfl, BitVec.slt_iff_toInt_lt⟩
    · exact fun a b => ⟨a.ult b, rfl, by simp [BitVec.ult]⟩
  · refine ⟨_, rfl, tests_bySignedness ht (R := (· ≤ ·)) (fun _ _ => Iff.rfl) ?_ ?_⟩
    · exact fun a b => ⟨a.sle b, rfl, BitVec.sle_iff_toInt_le⟩
    · exact fun a b => ⟨a.ule b, rfl, by simp [BitVec.ule]⟩
  · refine ⟨_, rfl, tests_bySignedness ht (R := (· > ·)) (fun _ _ => Iff.rfl) ?_ ?_⟩
    · exact fun a b => ⟨b.slt a, rfl, BitVec.slt_iff_toInt_lt⟩
    · exact fun a b => ⟨b.ult a, rfl, by simp [BitVec.ult]⟩
  · refine ⟨_, rfl, tests_bySignedness ht (R := (· ≥ ·)) (fun _ _ => Iff.rfl) ?_ ?_⟩
    · exact fun a b => ⟨b.sle a, rfl, BitVec.sle_iff_toInt_le⟩
    · exact fun a b => ⟨b.ule a, rfl, by simp [BitVec.ule]⟩
  -- the last four do not look at the type
  · exact ⟨_, rfl, fun a b => ⟨a.ult b, rfl, by simp [BitVec.ult, Source.Comparison.Asserts]⟩⟩
  · exact ⟨_, rfl, fun a b => ⟨a.ule b, rfl, by simp [BitVec.ule, Source.Comparison.Asserts]⟩⟩
  · exact ⟨_, rfl, fun a b => ⟨b.ult a, rfl, by simp [BitVec.ult, Source.Comparison.Asserts]⟩⟩
  · exact ⟨_, rfl, fun a b => ⟨b.ule a, rfl, by simp [BitVec.ule, Source.Comparison.Asserts]⟩⟩

/-! ### Lowered instructions -/

/-- A plan is chosen wherever the instruction is lowered. -/
theorem Scope.chooses_of_plan (s : Scope) {i : Source.Instruction} {p : Plan}
    (h : plan i.toMnemonic = .ok p) : s.Chooses i p := by
  refine ⟨h, fun block fr x fr' hx => ?_⟩
  obtain ⟨q, y, g, hq, -, hy, rfl⟩ := renders_of_yields hx
  cases h.symm.trans hq
  refine ⟨hy.opcode, ?_⟩
  rintro c rfl
  cases hy
  rfl

/-- A literal of ones complements every pattern of its type. -/
theorem xor_setWidth_of_ones {n : Nat} {bits : BitVec 64}
    (h : ∀ j, bits.getLsbD j = decide (j < n)) (p : BitVec n) :
    p ^^^ bits.setWidth n = ~~~p := by
  have hones : bits.setWidth n = BitVec.allOnes n := by
    apply BitVec.eq_of_getLsbD_eq
    intro j hj
    rw [BitVec.getLsbD_setWidth, h, BitVec.getLsbD_allOnes, decide_eq_true hj, Bool.and_self]
  rw [hones, BitVec.xor_allOnes]

/-- A lowered complement complements. -/
theorem Scope.complements_of_yields {s : Scope} {i : Source.Instruction} {block : Nat}
    {fr fr' : Frame} {x : Instr} (hplan : plan i.toMnemonic = .ok .complement)
    (hx : Yields (s.instruction block i) fr x fr') : Complements i.type x := by
  obtain ⟨q, y, g, hq, -, hy, rfl⟩ := renders_of_yields hx
  cases hplan.symm.trans hq
  cases hy with
  | @complement d a t _ _ _ _ ht =>
    obtain ⟨v, bits, hsame, hliteral, hbits⟩ := isAllOnes_of_lowerType ht
    cases hliteral
    refine ⟨rfl, some a, _, _, rfl, hsame, fun p => ?_⟩
    exact congrArg some (xor_setWidth_of_ones hbits p)

/-- **Instructions of integer types keep their meaning.** -/
theorem instruction_keepsArithmetic (s : Scope) (i : Source.Instruction) : s.KeepsArithmetic i := by
  constructor
  · intro hop _
    exact ⟨_, s.chooses_of_plan (by rw [plan, hop]), shiftsRight_select i.type⟩
  · intro hop htype
    exact ⟨_, s.chooses_of_plan (by rw [plan, hop]), divides_byClass htype⟩
  · intro hop htype
    exact ⟨_, s.chooses_of_plan (by rw [plan, hop]), remains_byClass htype⟩
  · -- a comparison is planned only after its operator has been lowered
    intro hop htype hcomparison
    obtain ⟨c, hc, htests⟩ := exists_lowerComparison_tests htype hcomparison
    have hplan : plan i.toMnemonic = .ok (.compare c) := by
      rw [plan, hop]
      dsimp only
      rw [hc]
      rfl
    exact ⟨c, s.chooses_of_plan hplan, htests⟩
  · intro hop _
    have hplan : plan i.toMnemonic = .ok .complement := by rw [plan, hop]
    exact ⟨s.chooses_of_plan hplan, fun _ _ _ _ => Scope.complements_of_yields hplan⟩

/-- Halves a signed number. -/
def halveInstruction : Source.Instruction :=
  { opcode := .shr, type := .signed .w32
    d := some ⟨.signed .w32, .sink⟩
    a := some ⟨.signed .w32, .special .tid .x⟩
    b := some ⟨.unsigned .w32, .immediate 1⟩ }

/-- A scope without names. -/
def bareScope : Scope :=
  { stem := "r", globals := [], arguments := [], registers := [], blocks := [] }

theorem halveInstruction_keepsArithmetic :
    ∃ x fr', Yields (bareScope.instruction 2 halveInstruction) { registers := [] } x fr' ∧
      ShiftsRight (.signed .w32) x.opcode := by
  obtain ⟨op, ⟨-, hchosen⟩, hshifts⟩ :=
    (instruction_keepsArithmetic bareScope halveInstruction).shr rfl rfl
  have hx : Yields (bareScope.instruction 2 halveInstruction) { registers := [] } _ _ := rfl
  refine ⟨_, _, hx, ?_⟩
  rw [(hchosen _ _ _ _ hx).1]
  exact hshifts

end Lowering

end KernelIR
