import KernelIR.Proofs.Text.Numeral

/-!
# The grammar of integer literals

    integer   = [ "+" | "-" ] numeral
    numeral   = nonzero { [ "_" ] decimal }
              | "0" { [ "_" ] octal }
              | "0" ( "b" | "o" | "x" ) [ "_" ] digit { [ "_" ] digit }

`Numeral cs n` says that the text is a numeral for the number `n`, and `Integer cs v` that it is one
with an optional sign for the integer `v`.  `natural?_eq_ok_iff`: the reader of numerals accepts
exactly the numerals for numbers up to its limit, and gives their numbers.  So a text is a numeral
for one number at most (`Numeral.unique`), and one beyond the limit is refused.

The reader and the grammar go from the left, but the reader takes the digits first and judges the
underscores by a second pass over the whole text.  Both passes are compared with the grammar at once
(`continues_iff`), from a place where a digit or a mark has just been read.
-/

namespace KernelIR.Text

/-! ### The grammar -/

/-- The character is a digit of the base, in either case, and has the value. -/
def IsDigit (base : Nat) (c : Char) (d : Nat) : Prop :=
  d < base ∧ (c = d.digitChar ∨ c = d.digitChar.toUpper)

/-- The characters continue the number `n` to the number `v` in the base: they are digits, each with
an underscore before it or without. -/
inductive Continues (base : Nat) : Nat → List Char → Nat → Prop
  | nil {n : Nat} : Continues base n [] n
  | digit {n d v : Nat} {c : Char} {cs : List Char} :
    IsDigit base c d → Continues base (n * base + d) cs v → Continues base n (c :: cs) v
  | separated {n d v : Nat} {c : Char} {cs : List Char} :
    IsDigit base c d → Continues base (n * base + d) cs v → Continues base n ('_' :: c :: cs) v

/-- The mark of a base, in either case. -/
def IsMark (mark : Char) (base : Nat) : Prop :=
  (mark, base) ∈ [('b', 2), ('B', 2), ('o', 8), ('O', 8), ('x', 16), ('X', 16)]

/-- The text is a numeral for the number. -/
inductive Numeral : List Char → Nat → Prop
  /-- The first digit is no zero, and there is no underscore before it. -/
  | decimal {c : Char} {cs : List Char} {n : Nat} :
    c ≠ '0' → c ≠ '_' → Continues 10 0 (c :: cs) n → Numeral (c :: cs) n
  /-- A zero alone is the shortest of these. -/
  | octal {cs : List Char} {n : Nat} : Continues 8 0 cs n → Numeral ('0' :: cs) n
  | marked {mark : Char} {cs : List Char} {base n : Nat} :
    IsMark mark base → cs ≠ [] → Continues base 0 cs n → Numeral ('0' :: mark :: cs) n

/-- The text is a numeral with an optional sign for the integer. -/
inductive Integer : List Char → Int → Prop
  | plain {cs : List Char} {n : Nat} : Numeral cs n → Integer cs n
  | plus {cs : List Char} {n : Nat} : Numeral cs n → Integer ('+' :: cs) n
  | minus {cs : List Char} {n : Nat} : Numeral cs n → Integer ('-' :: cs) (-n)

/-! ### Characters -/

theorem toNat_le_of_le {c d : Char} (h : c ≤ d) : c.toNat ≤ d.toNat :=
  UInt32.le_iff_toNat_le.mp (Char.le_def.mp h)

theorem toNat_lt_of_lower {c : Char} (h : (lower c).toNat < 128) : c.toNat < 128 := by
  unfold lower at h
  split_ifs at h with hupper
  · exact Nat.lt_of_le_of_lt (toNat_le_of_le hupper.2) (by decide)
  · exact h

theorem toNat_lt_of_digitValue? {c : Char} {d : Nat} (h : digitValue? c = some d) :
    c.toNat < 128 := by
  unfold digitValue? at h
  dsimp only at h
  split_ifs at h with hdecimal hletter
  · exact Nat.lt_of_le_of_lt (toNat_le_of_le hdecimal.2) (by decide)
  · exact toNat_lt_of_lower (Nat.lt_of_le_of_lt (toNat_le_of_le hletter.2) (by decide))

/-- The value of a digit up to fifteen tells the digit, except for its case. -/
theorem digitValue?_eq_some_iff {c : Char} {d : Nat} (hd : d < 16) :
    digitValue? c = some d ↔ c = d.digitChar ∨ c = d.digitChar.toUpper := by
  constructor
  · intro h
    have hascii : ∀ n < 128, ∀ d < 16, digitValue? (Char.ofNat n) = some d →
        Char.ofNat n = d.digitChar ∨ Char.ofNat n = d.digitChar.toUpper := by decide +kernel
    have hdigit := hascii c.toNat (toNat_lt_of_digitValue? h)
    rw [c.ofNat_toNat] at hdigit
    exact hdigit d hd h
  · rintro (rfl | rfl)
    · exact digitValue?_digitChar hd
    · exact digitValue?_toUpper_digitChar hd

theorem isDigit_iff {base : Nat} (hbase : base ≤ 16) {c : Char} {d : Nat} :
    IsDigit base c d ↔ digitValue? c = some d ∧ d < base := by
  unfold IsDigit
  constructor
  · rintro ⟨hd, hc⟩
    exact ⟨(digitValue?_eq_some_iff (by omega)).mpr hc, hd⟩
  · rintro ⟨hc, hd⟩
    exact ⟨hd, (digitValue?_eq_some_iff (by omega)).mp hc⟩

theorem baseOfMark?_eq_some_iff {mark : Char} {base : Nat} :
    baseOfMark? mark = some base ↔ IsMark mark base := by
  constructor
  · intro h
    have hlt : (lower mark).toNat < 128 := by
      unfold baseOfMark? at h
      split at h
      · rename_i heq
        rw [heq]
        decide
      · rename_i heq
        rw [heq]
        decide
      · rename_i heq
        rw [heq]
        decide
      · cases h
    -- a mark is an ASCII character, and these are few enough to try
    have hascii : ∀ n < 128, ∀ base ∈ baseOfMark? (Char.ofNat n), IsMark (Char.ofNat n) base := by
      unfold IsMark
      decide +kernel
    have hmark := hascii mark.toNat (toNat_lt_of_lower hlt)
    rw [mark.ofNat_toNat] at hmark
    exact hmark base h
  · intro h
    simp only [IsMark, List.mem_cons, Prod.mk.injEq, List.not_mem_nil, or_false] at h
    rcases h with ⟨rfl, rfl⟩ | ⟨rfl, rfl⟩ | ⟨rfl, rfl⟩ | ⟨rfl, rfl⟩ | ⟨rfl, rfl⟩ | ⟨rfl, rfl⟩
    all_goals rfl

/-! ### Digits and underscores -/

section Continues

variable {base limit n v : Nat} {c : Char} {cs : List Char}

/-- What holds of all digits in lower and in upper case holds of a digit. -/
theorem IsDigit.of_digitChar {P : Char → Prop} {d : Nat} (h : IsDigit base c d)
    (hP : ∀ d < base, P d.digitChar ∧ P d.digitChar.toUpper) : P c := by
  obtain ⟨hd, rfl | rfl⟩ := h
  · exact (hP d hd).1
  · exact (hP d hd).2

theorem IsDigit.ne_underscore {d : Nat} (hbase : base ≤ 16) (h : IsDigit base c d) : c ≠ '_' := by
  rintro rfl
  have hvalue := ((isDigit_iff hbase).mp h).1
  have hnone : digitValue? '_' = none := by decide
  rw [hnone] at hvalue
  cases hvalue

/-- The second pass of the reader sees a digit of its base as a digit. -/
theorem underscoresSeparate_cons_digit (hbase : base ≤ 10 ∨ base = 16) {d : Nat}
    (h : IsDigit base c d) (seen : Seen) (cs : List Char) :
    underscoresSeparate (base = 16) seen (c :: cs) =
      underscoresSeparate (base = 16) .digit cs := by
  rw [underscoresSeparate, if_pos]
  rcases hbase with hle | rfl
  · have hdecimal : IsDigit 10 c d := ⟨Nat.lt_of_lt_of_le h.1 hle, h.2⟩
    exact .inl (hdecimal.of_digitChar (P := fun c => '0' ≤ c ∧ c ≤ '9') (by decide))
  · have hletter := h.of_digitChar
      (P := fun c => ('0' ≤ c ∧ c ≤ '9') ∨ ('a' ≤ lower c ∧ lower c ≤ 'f')) (by decide)
    exact hletter.imp_right fun h => ⟨rfl, h⟩

theorem underscoresSeparate_cons_underscore (hex : Bool) (seen : Seen) (cs : List Char) :
    underscoresSeparate hex seen ('_' :: cs) =
      (seen = .digit && underscoresSeparate hex .underscore cs) := by
  have hletter : ¬('a' ≤ lower '_' ∧ lower '_' ≤ 'f') := by decide
  rw [underscoresSeparate, if_neg, if_pos rfl]
  rintro (h | ⟨-, h⟩)
  · exact absurd h (by decide)
  · exact hletter h

/-- Digits with underscores between them are read one after the other. -/
theorem digits?_cons_underscore (base limit n : Nat) (cs : List Char) :
    digits? base limit true n ('_' :: cs) = digits? base limit true n cs := by
  rw [digits?, if_pos ⟨rfl, rfl⟩]

theorem digits?_cons_digit (hbase : base ≤ 16) {d : Nat} (h : IsDigit base c d)
    (hlimit : n * base + d ≤ limit) (cs : List Char) :
    digits? base limit true n (c :: cs) = digits? base limit true (n * base + d) cs := by
  obtain ⟨hvalue, hd⟩ := (isDigit_iff hbase).mp h
  rw [digits?, if_neg (fun hc => h.ne_underscore hbase hc.2), hvalue]
  dsimp only
  rw [if_neg (by omega), if_neg (by omega)]

theorem Continues.le (hpos : 1 ≤ base) (h : Continues base n cs v) : n ≤ v := by
  induction h with
  | nil => exact Nat.le_refl _
  | @digit n d _ _ _ _ _ ih | @separated n d _ _ _ _ _ ih =>
    have hmul := Nat.le_mul_of_pos_right n hpos
    omega

/-- What continues a number is read as the number it leads to, and its underscores are well
placed. -/
theorem Continues.read (hpos : 1 ≤ base) (hbase : base ≤ 10 ∨ base = 16)
    (h : Continues base n cs v) (hv : v ≤ limit) :
    digits? base limit true n cs = .ok v ∧ underscoresSeparate (base = 16) .digit cs = true := by
  induction h with
  | nil => exact ⟨rfl, rfl⟩
  | digit hd hcs ih =>
    obtain ⟨hread, hseparate⟩ := ih hv
    have hle := hcs.le hpos
    rw [digits?_cons_digit (by omega) hd (by omega), underscoresSeparate_cons_digit hbase hd]
    exact ⟨hread, hseparate⟩
  | separated hd hcs ih =>
    obtain ⟨hread, hseparate⟩ := ih hv
    have hle := hcs.le hpos
    rw [digits?_cons_underscore, digits?_cons_digit (by omega) hd (by omega),
      underscoresSeparate_cons_underscore, underscoresSeparate_cons_digit hbase hd]
    exact ⟨hread, hseparate⟩

/-- What is read behind a digit continues the number if its underscores are well placed; behind an
underscore it begins with a digit. -/
theorem continues_of_digits? (hbase : base ≤ 10 ∨ base = 16)
    (h : digits? base limit true n cs = .ok v) :
    (('_' ∈ cs → underscoresSeparate (base = 16) .digit cs = true) → Continues base n cs v) ∧
      (underscoresSeparate (base = 16) .underscore cs = true →
        ∃ c d rest, cs = c :: rest ∧ IsDigit base c d ∧ Continues base (n * base + d) rest v) := by
  -- the first part is for a digit before `cs`, the second for an underscore before it
  fun_induction digits? base limit true n cs with
  | case1 n =>
    cases h
    exact ⟨fun _ => .nil, fun hseparate => by cases hseparate⟩
  | case2 n c rest hc ih =>
    obtain ⟨-, rfl⟩ := hc
    refine ⟨fun hseparate => ?_, fun hseparate => ?_⟩
    · have hrest := hseparate List.mem_cons_self
      rw [underscoresSeparate_cons_underscore] at hrest
      obtain ⟨c, d, rest', rfl, hd, hcontinues⟩ := (ih h).2 hrest
      exact .separated hd hcontinues
    · rw [underscoresSeparate_cons_underscore] at hseparate
      cases hseparate
  | case3 => cases h
  | case4 => cases h
  | case5 => cases h
  | case6 n c rest _ d hvalue hd _ ih =>
    have hdigit : IsDigit base c d := (isDigit_iff (by omega)).mpr ⟨hvalue, Nat.not_le.mp hd⟩
    rw [underscoresSeparate_cons_digit hbase hdigit, underscoresSeparate_cons_digit hbase hdigit]
    refine ⟨fun hseparate => ?_, fun hseparate => ?_⟩
    · exact .digit hdigit ((ih h).1 fun hmem => hseparate (List.mem_cons_of_mem c hmem))
    · exact ⟨c, d, rest, rfl, hdigit, (ih h).1 fun _ => hseparate⟩

/-- **Both passes of the reader together accept what continues a number** up to the limit. -/
theorem continues_iff (hpos : 1 ≤ base) (hbase : base ≤ 10 ∨ base = 16) (hn : n ≤ limit) :
    digits? base limit true n cs = .ok v ∧
        ('_' ∈ cs → underscoresSeparate (base = 16) .digit cs = true) ↔
      Continues base n cs v ∧ v ≤ limit := by
  constructor
  · rintro ⟨hread, hseparate⟩
    exact ⟨(continues_of_digits? hbase hread).1 hseparate, digits?_le hread hn⟩
  · rintro ⟨hcontinues, hv⟩
    obtain ⟨hread, hseparate⟩ := hcontinues.read hpos hbase hv
    exact ⟨hread, fun _ => hseparate⟩

end Continues

/-! ### Numerals -/

section Numeral

variable {limit n base : Nat} {c : Char} {cs body : List Char}

/-- The two passes of the reader over a text whose base is known. -/
theorem natural?_eq_ok_iff_of_splitBase (hcs : cs ≠ []) (hsplit : splitBase cs = (base, body)) :
    natural? limit cs = .ok n ↔
      digits? base limit true 0 body = .ok n ∧ ('_' ∈ body → underscoresOk cs = true) := by
  have hempty : cs.isEmpty = false := by rwa [List.isEmpty_eq_false_iff]
  rw [natural?, hempty, hsplit]
  dsimp only
  cases digits? base limit true 0 body with
  | error fault => simp
  | ok m =>
    by_cases h : '_' ∈ body ∧ underscoresOk cs = false
    · simp [h]
    · have himp : '_' ∈ body → underscoresOk cs = true := by simpa using h
      simpa [h] using fun _ => himp

theorem IsMark.base_cases {mark : Char} (h : IsMark mark base) :
    (lower mark = 'x' ↔ base = 16) ∧ 1 ≤ base ∧ (base ≤ 10 ∨ base = 16) := by
  simp only [IsMark, List.mem_cons, Prod.mk.injEq, List.not_mem_nil, or_false] at h
  rcases h with ⟨rfl, rfl⟩ | ⟨rfl, rfl⟩ | ⟨rfl, rfl⟩ | ⟨rfl, rfl⟩ | ⟨rfl, rfl⟩ | ⟨rfl, rfl⟩
  all_goals decide

theorem underscoresOk_zero_cons (mark : Char) (cs : List Char) :
    underscoresOk ('0' :: mark :: cs) =
      if (baseOfMark? mark).isSome then underscoresSeparate (lower mark = 'x') .digit cs
      else underscoresSeparate false .start ('0' :: mark :: cs) :=
  rfl

/-- A text with a mark is read in the base of the mark. -/
theorem natural?_marked {mark : Char} (hmark : IsMark mark base) :
    natural? limit ('0' :: mark :: c :: cs) = .ok n ↔
      Continues base 0 (c :: cs) n ∧ n ≤ limit := by
  have hbase := baseOfMark?_eq_some_iff.mpr hmark
  obtain ⟨hx, hpos, hbase'⟩ := hmark.base_cases
  have hsplit : splitBase ('0' :: mark :: c :: cs) = (base, c :: cs) := by
    simp only [splitBase, hbase]
  have hok : underscoresOk ('0' :: mark :: c :: cs) =
      underscoresSeparate (base = 16) .digit (c :: cs) := by
    rw [underscoresOk_zero_cons, hbase, if_pos Option.isSome_some, decide_eq_decide.mpr hx]
  rw [natural?_eq_ok_iff_of_splitBase (List.cons_ne_nil _ _) hsplit, hok]
  exact continues_iff hpos hbase' (Nat.zero_le limit)

/-- A text with a zero in front that does not belong to a mark is read as octal. -/
theorem natural?_octal
    (hmark : ∀ mark rest, cs = mark :: rest → rest ≠ [] → baseOfMark? mark = none) :
    natural? limit ('0' :: cs) = .ok n ↔ Continues 8 0 cs n ∧ n ≤ limit := by
  have hsplit : splitBase ('0' :: cs) = (8, cs) := by
    cases cs with
    | nil => rfl
    | cons mark rest =>
      cases rest with
      | nil => rfl
      | cons d rest => simp only [splitBase, hmark mark (d :: rest) rfl (List.cons_ne_nil _ _)]
  have hzero : IsDigit 8 '0' 0 := ⟨by decide, .inl rfl⟩
  -- a mark with nothing behind it is no underscore, so it is not asked for
  have hok : '_' ∈ cs → underscoresOk ('0' :: cs) = underscoresSeparate false .digit cs := by
    intro hmem
    cases cs with
    | nil => cases hmem
    | cons mark rest =>
      have hnone : baseOfMark? mark = none := by
        cases rest with
        | nil =>
          rw [← List.mem_singleton.mp hmem]
          rfl
        | cons d rest => exact hmark mark (d :: rest) rfl (List.cons_ne_nil _ _)
      rw [underscoresOk_zero_cons, hnone]
      exact underscoresSeparate_cons_digit (by decide) hzero .start _
  rw [natural?_eq_ok_iff_of_splitBase (List.cons_ne_nil _ _) hsplit,
    ← continues_iff (by decide) (by decide) (Nat.zero_le limit)]
  refine and_congr_right fun _ => forall_congr' fun hmem => ?_
  rw [hok hmem]
  rfl

/-- Where digits are read, there is a digit or an underscore first. -/
theorem exists_isDigit_of_digits? {v : Nat} (hbase : base ≤ 16) (hc : c ≠ '_')
    (h : digits? base limit true n (c :: cs) = .ok v) : ∃ d, IsDigit base c d := by
  rw [digits?, if_neg (fun h' => hc h'.2)] at h
  cases hvalue : digitValue? c with
  | none =>
    rw [hvalue] at h
    cases h
  | some d =>
    rw [hvalue] at h
    dsimp only at h
    split_ifs at h with hd
    exact ⟨d, (isDigit_iff hbase).mpr ⟨hvalue, by omega⟩⟩

theorem IsDigit.ne_sign {d : Nat} (h : IsDigit 10 c d) : c ≠ '+' ∧ c ≠ '-' :=
  h.of_digitChar (P := fun c => c ≠ '+' ∧ c ≠ '-') (by decide)

/-- A text that does not begin with a zero is read as decimal. -/
theorem natural?_decimal (hzero : c ≠ '0') :
    natural? limit (c :: cs) = .ok n ↔ (c ≠ '_' ∧ Continues 10 0 (c :: cs) n) ∧ n ≤ limit := by
  have hsplit : splitBase (c :: cs) = (10, c :: cs) := by
    unfold splitBase
    split
    · rename_i heq
      exact absurd (List.cons.inj heq).1 hzero
    · rename_i heq
      exact absurd (List.cons.inj heq).1 hzero
    · rfl
  rw [natural?_eq_ok_iff_of_splitBase (List.cons_ne_nil _ _) hsplit]
  by_cases hc : c = '_'
  · -- an underscore in front is passed over by the first pass and refused by the second
    rw [hc]
    refine ⟨fun h => ?_, fun h => absurd rfl h.1.1⟩
    have hok := h.2 List.mem_cons_self
    cases hok
  · -- behind a digit the second pass is in the same state as behind the start
    have hok : ∀ d, IsDigit 10 c d →
        underscoresOk (c :: cs) = underscoresSeparate (decide (10 = 16)) .digit (c :: cs) := by
      intro d hd
      obtain ⟨hplus, hminus⟩ := hd.ne_sign
      rw [underscoresSeparate_cons_digit (by decide) hd,
        ← underscoresSeparate_cons_digit (by decide) hd .start]
      simp [underscoresOk, hplus, hminus, hzero]
    rw [and_assoc, ← continues_iff (by decide) (by decide) (Nat.zero_le limit)]
    constructor
    · rintro ⟨hread, hseparate⟩
      obtain ⟨d, hd⟩ := exists_isDigit_of_digits? (by decide) hc hread
      rw [hok d hd] at hseparate
      exact ⟨hc, hread, hseparate⟩
    · rintro ⟨-, hread, hseparate⟩
      obtain ⟨d, hd⟩ := exists_isDigit_of_digits? (by decide) hc hread
      rw [hok d hd]
      exact ⟨hread, hseparate⟩

theorem IsMark.unique {mark : Char} {base' : Nat} (h : IsMark mark base) (h' : IsMark mark base') :
    base = base' := by
  rw [← baseOfMark?_eq_some_iff] at h h'
  rw [h] at h'
  exact Option.some.inj h'

/-- The character behind a zero is an octal digit or an underscore, or the mark of a base. -/
theorem Numeral.second_mem (h : Numeral ('0' :: c :: cs) n) :
    (∃ d, IsDigit 8 c d) ∨ c = '_' ∨ ∃ base, IsMark c base := by
  cases h with
  | decimal hzero => exact absurd rfl hzero
  | octal hcs =>
    cases hcs with
    | digit hd => exact .inl ⟨_, hd⟩
    | separated => exact .inr (.inl rfl)
  | marked hmark => exact .inr (.inr ⟨_, hmark⟩)

theorem not_continues_of_isMark {mark : Char} {m : Nat} (h : IsMark mark base) :
    ¬Continues 8 m (mark :: cs) n := by
  rw [← baseOfMark?_eq_some_iff] at h
  intro hcs
  cases hcs with
  | digit hd =>
    rw [hd.of_digitChar (P := fun c => baseOfMark? c = none) (by decide)] at h
    cases h
  | separated => cases h

/-- **The reader accepts exactly the numerals for numbers up to its limit.** -/
theorem natural?_eq_ok_iff : natural? limit cs = .ok n ↔ Numeral cs n ∧ n ≤ limit := by
  cases cs with
  | nil =>
    refine ⟨fun h => ?_, fun h => ?_⟩
    · cases h
    · cases h.1
  | cons c cs =>
    by_cases hzero : c = '0'
    · rw [hzero]
      -- a leading zero means octal, unless a mark and more follow it
      by_cases hmark : ∃ mark base d rest, cs = mark :: d :: rest ∧ IsMark mark base
      · obtain ⟨mark, base, d, rest, rfl, hmark⟩ := hmark
        rw [natural?_marked hmark]
        refine and_congr_left fun _ => ⟨.marked hmark (List.cons_ne_nil _ _), fun h => ?_⟩
        cases h with
        | decimal hne => exact absurd rfl hne
        | octal hcs => exact absurd hcs (not_continues_of_isMark hmark)
        | marked hmark' _ hcs =>
          rw [hmark.unique hmark']
          exact hcs
      · rw [natural?_octal]
        · refine and_congr_left fun _ => ⟨.octal, fun h => ?_⟩
          cases h with
          | decimal hne => exact absurd rfl hne
          | octal hcs => exact hcs
          | @marked mark rest base _ hmark' hne =>
            obtain ⟨d, rest, rfl⟩ := List.exists_cons_of_ne_nil hne
            exact absurd ⟨mark, base, d, rest, rfl, hmark'⟩ hmark
        · rintro mark rest rfl hne
          obtain ⟨d, rest, rfl⟩ := List.exists_cons_of_ne_nil hne
          cases hbase : baseOfMark? mark with
          | none => rfl
          | some base =>
            exact absurd ⟨mark, base, d, rest, rfl, baseOfMark?_eq_some_iff.mp hbase⟩ hmark
    · rw [natural?_decimal hzero]
      refine and_congr_left fun _ => ⟨fun h => .decimal hzero h.1 h.2, fun h => ?_⟩
      cases h with
      | decimal _ hc hcs => exact ⟨hc, hcs⟩
      | octal => exact absurd rfl hzero
      | marked => exact absurd rfl hzero

/-- **A text is a numeral for one number at most.** -/
theorem Numeral.unique {m : Nat} (h : Numeral cs n) (h' : Numeral cs m) : n = m := by
  have hn := natural?_eq_ok_iff.mpr ⟨h, Nat.le_max_left n m⟩
  rw [natural?_eq_ok_iff.mpr ⟨h', Nat.le_max_right n m⟩] at hn
  exact (Except.ok.inj hn).symm

/-- A numeral is read as its number or refused. -/
theorem Numeral.natural?_eq_ok_iff {m : Nat} (h : Numeral cs n) :
    natural? limit cs = .ok m ↔ m = n ∧ n ≤ limit := by
  rw [Text.natural?_eq_ok_iff]
  constructor
  · rintro ⟨h', hm⟩
    obtain rfl := h.unique h'
    exact ⟨rfl, hm⟩
  · rintro ⟨rfl, hn⟩
    exact ⟨h, hn⟩

/-- A magnitude behind a minus may be one larger than behind a plus. -/
theorem signed64?_true_eq_ok_iff {x : Except NumeralFault Nat} {v : Int} :
    signed64? true x = .ok v ↔ ∃ m : Nat, x = .ok m ∧ v = -m ∧ m ≤ 2 ^ 63 := by
  cases x with
  | error fault => simp [signed64?]
  | ok m =>
    have hpow : Nat.pow 2 63 = 2 ^ 63 := rfl
    rw [signed64?, if_pos rfl, hpow]
    -- the bound is that of the magnitude, which the least number reaches
    split_ifs with hm
    · refine ⟨fun h => ?_, ?_⟩
      · cases h
      · rintro ⟨m', hm', -, hle⟩
        cases hm'
        omega
    · constructor
      · intro h
        exact ⟨m, rfl, (Except.ok.inj h).symm, Nat.not_lt.mp hm⟩
      · rintro ⟨m', hm', rfl, -⟩
        cases hm'
        rfl

/-- A numeral with a minus is read as its integer, if that has 64 bits. -/
theorem Numeral.integer?_minus_eq_ok_iff {v : Int} (h : Numeral cs n) :
    integer? ('-' :: cs) = .ok v ↔ v = -n ∧ n ≤ 2 ^ 63 := by
  have hmax : 2 ^ 63 ≤ maxWord := by decide
  show signed64? true (natural? maxWord cs) = .ok v ↔ _
  simp only [signed64?_true_eq_ok_iff, h.natural?_eq_ok_iff]
  constructor
  · rintro ⟨m, ⟨rfl, -⟩, hv⟩
    exact hv
  · rintro ⟨hv, hn⟩
    exact ⟨n, ⟨rfl, by omega⟩, hv, hn⟩

/-- A numeral begins with a digit. -/
theorem Numeral.exists_isDigit (h : Numeral cs n) : ∃ c rest d, cs = c :: rest ∧ IsDigit 10 c d := by
  cases h with
  | decimal _ hc hcs =>
    cases hcs with
    | digit hd => exact ⟨_, _, _, rfl, hd⟩
    | separated => exact absurd rfl hc
  | octal => exact ⟨_, _, 0, rfl, by decide, .inl rfl⟩
  | marked => exact ⟨_, _, 0, rfl, by decide, .inl rfl⟩

/-- A numeral has no sign. -/
theorem Numeral.head?_ne_sign (h : Numeral cs n) : cs.head? ≠ some '+' ∧ cs.head? ≠ some '-' := by
  obtain ⟨c, rest, d, rfl, hd⟩ := h.exists_isDigit
  obtain ⟨hplus, hminus⟩ := hd.ne_sign
  rw [List.head?_cons, Ne, Option.some_inj, Ne, Option.some_inj]
  exact ⟨hplus, hminus⟩

end Numeral

end KernelIR.Text
