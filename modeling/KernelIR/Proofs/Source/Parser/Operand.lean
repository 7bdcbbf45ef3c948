import KernelIR.Proofs.Source.Parser.Literal

/-!
# Operands read back

`runs_readOperand_text`: an operand that its text determines (`Form.Canonical`) is read back from
it, and the scope stays as it was.  `Runs` says that a reader succeeds and what scope it leaves;
readers are put together by `Runs.bind`.  The text of such an operand is a run of plain characters,
or one in brackets (`IsOperandText`), which is what the splitter of a line needs to know.
-/

namespace KernelIR.Source

open Text (isBlank trim)

/-! ### Runs of readers -/

/-- The reader gives `a` in the scope `s` and leaves the scope `s'`. -/
def Runs {ε α : Type} (m : Reader ε α) (s : Scope) (a : α) (s' : Scope) : Prop :=
  m.run.run s = (.ok a, s')

theorem Runs.pure {ε α : Type} (s : Scope) (a : α) : Runs (pure a : Reader ε α) s a s := rfl

/-- What is read first is done, and the rest goes on in the scope that it leaves. -/
theorem Runs.run_bind {ε α β : Type} {m : Reader ε α} {s s' : Scope} {a : α} (hm : Runs m s a s')
    (f : α → Reader ε β) : (m >>= f).run.run s = (f a).run.run s' := by
  unfold Runs at hm
  rw [ExceptT.run_bind, StateT.run_bind, hm]
  rfl

theorem Runs.bind {ε α β : Type} {m : Reader ε α} {f : α → Reader ε β} {s s' s'' : Scope} {a : α}
    {b : β} (hm : Runs m s a s') (hf : Runs (f a) s' b s'') : Runs (m >>= f) s b s'' :=
  (hm.run_bind f).trans hf

theorem runs_get {ε : Type} (s : Scope) : Runs (get : Reader ε Scope) s s s := rfl

theorem runs_liftM {ε α : Type} {x : Except ε α} {a : α} (h : x = .ok a) (s : Scope) :
    Runs (liftM x : Reader ε α) s a s := by
  rw [h]; rfl

theorem Runs.adapt {ε ε' α : Type} (f : ε → ε') {m : Reader ε α} {s s' : Scope} {a : α}
    (h : Runs m s a s') : Runs (m.adapt f) s a s' := by
  unfold Runs at h ⊢
  show ((m.run.run s).1.mapError f, (m.run.run s).2) = _
  rw [h]
  rfl

theorem runs_bind_iff {ε α β : Type} {m : Reader ε α} {f : α → Reader ε β} {s s'' : Scope} {b : β} :
    Runs (m >>= f) s b s'' ↔ ∃ a s', Runs m s a s' ∧ Runs (f a) s' b s'' := by
  constructor
  · intro h
    unfold Runs at h
    rw [ExceptT.run_bind, StateT.run_bind] at h
    cases hr : m.run.run s with
    | mk result s' =>
      rw [hr] at h
      cases result with
      | error e => cases h
      | ok a => exact ⟨a, s', hr, h⟩
  · rintro ⟨a, s', hm, hf⟩
    exact hm.bind hf

theorem runs_liftM_iff {ε α : Type} {x : Except ε α} {a : α} {s s' : Scope} :
    Runs (liftM x : Reader ε α) s a s' ↔ x = .ok a ∧ s' = s := by
  constructor
  · intro h
    cases x with
    | error e => cases h
    | ok b =>
      cases h
      exact ⟨rfl, rfl⟩
  · rintro ⟨hx, rfl⟩
    exact runs_liftM hx s'

theorem runs_adapt_iff {ε ε' α : Type} {f : ε → ε'} {m : Reader ε α} {s s' : Scope} {a : α} :
    Runs (m.adapt f) s a s' ↔ Runs m s a s' := by
  constructor
  · intro h
    have hrun : ((m.run.run s).1.mapError f, (m.run.run s).2) = (.ok a, s') := h
    obtain ⟨hok, hs'⟩ := Prod.mk.inj hrun
    exact Prod.ext (Fallible.mapError_eq_ok.mp hok) hs'
  · exact Runs.adapt f

/-- A known name keeps its number. -/
theorem runs_internName {ε : Type} {s : Scope} {name : String} {id : UInt32}
    (h : s.idOf? name = some id) : Runs (internName name : Reader ε UInt32) s id s := by
  have hintern : s.intern name = (id, s) := by rw [Scope.intern, h]
  show (Except.ok (s.intern name).1, (s.intern name).2) = _
  rw [hintern]

/-! ### Canonical operands -/

/-- Whether a text is a percent sign with one or more letters, digits, underscores, dollars or
points behind it. -/
def isRegisterName : List Char → Bool
  | '%' :: rest => !rest.isEmpty && rest.all isNameChar
  | _ => false

/-- A mention of a register under a name that the scope knows by that number. -/
def RegisterUse.Known (s : Scope) (r : RegisterUse) : Prop :=
  isRegisterName r.name.toList = true ∧ s.idOf? r.name = some r.id

/-- Whether an offset is a signed 64-bit number. -/
def IsOffset (offset : Int) : Prop := -(2 ^ 63) ≤ offset ∧ offset < 2 ^ 63

/-- What an operand of type `t` may denote such that its text determines it.  With `label`, a bare
identifier names a label. -/
def Form.Canonical (s : Scope) (label : Bool) (t : DataType) : Form → Prop
  | .register r => r.Known s
  | .indirect r offset => r.Known s ∧ IsOffset offset
  | .immediate bits => t.Holds bits
  | .address name offset isParam =>
    isIdent name.toList = true ∧ isParam = s.isParam name ∧ IsOffset offset ∧
      (offset = 0 → label = false ∧ name ≠ "_")
  | .label name => label = true ∧ isIdent name.toList = true ∧ name ≠ "_"
  | .special r lane =>
    r ∈ Special.named ∧ (if r.isVector then lane ∈ [Lane.x, .y, .z] else lane = .x) ∧
      s.idOf? (Operand.text ⟨t, .special r lane⟩) = none
  | .sink => True
  | .unknown _ => False

/-! ### Registers -/

/-- A register name is a percent sign and further characters of names. -/
theorem exists_of_isRegisterName {cs : List Char} (h : isRegisterName cs = true) :
    ∃ c rest, cs = '%' :: c :: rest ∧ ∀ d ∈ c :: rest, isNameChar d = true := by
  unfold isRegisterName at h
  split at h
  · rename_i rest
    rw [Bool.and_eq_true] at h
    cases rest with
    | nil => exact absurd h.1 (by decide)
    | cons c rest => exact ⟨c, rest, rfl, List.all_eq_true.mp h.2⟩
  · cases h

theorem isPlain_of_mem_registerName {cs : List Char} (h : isRegisterName cs = true) {c : Char}
    (hc : c ∈ cs) : isPlain c = true := by
  obtain ⟨d, rest, rfl, hall⟩ := exists_of_isRegisterName h
  rcases List.mem_cons.mp hc with rfl | hc
  · decide
  · exact isPlain_of_isNameChar (hall c hc)

theorem RegisterUse.Known.text_eq {s : Scope} {r : RegisterUse} (h : r.Known s) :
    r.text = r.name := by
  have hne : r.name ≠ "" := by
    intro h0
    have hname := h.1
    rw [h0] at hname
    exact absurd hname (by decide)
  rw [RegisterUse.text, if_neg hne]

/-- **A known name is read as its register.** -/
theorem runs_readRegister {s : Scope} {r : RegisterUse} (h : r.Known s) :
    Runs (readRegister r.name.toList) s (.register r) s := by
  have hlen : r.name.toList.length ≠ 1 := by
    obtain ⟨c, rest, hcs, -⟩ := exists_of_isRegisterName h.1
    rw [hcs]
    simp
  unfold readRegister
  simp only [String.ofList_toList]
  refine Runs.bind (runs_get s) ?_
  rw [h.2]
  refine Runs.bind (Runs.pure s none) ?_
  dsimp only
  rw [if_neg hlen]
  exact Runs.bind (runs_internName h.2) (Runs.pure s _)

/-! ### Special registers -/

theorem cutPoint_name : ∀ r ∈ Special.named, cutPoint r.name.toList = (r.name.toList, none) := by
  decide

theorem cutPoint_lane : ∀ r ∈ Special.named, ∀ l ∈ [Lane.x, .y, .z],
    cutPoint (r.name ++ ("." ++ l.name)).toList = (r.name.toList, some l.name.toList) := by
  decide

theorem Special.ofName?_name : ∀ r ∈ Special.named, Special.ofName? r.name = some r := by
  decide

theorem Lane.ofName?_name : ∀ l ∈ [Lane.x, .y, .z], Lane.ofName? l.name = some l := by
  decide

/-- The spelling of a special register, behind its percent sign. -/
def specialBody (r : Special) (lane : Lane) : String :=
  r.name ++ if r.isVector then "." ++ lane.name else ""

theorem toList_text_special (t : DataType) (r : Special) (lane : Lane) :
    (Operand.text ⟨t, .special r lane⟩).toList = '%' :: (specialBody r lane).toList := by
  show ("%" ++ r.name ++ if r.isVector then "." ++ lane.name else "").toList = _
  rw [String.append_assoc, String.toList_append]
  rfl

theorem specialForm?_specialBody {r : Special} (hr : r ∈ Special.named) {lane : Lane}
    (hlane : if r.isVector then lane ∈ [Lane.x, .y, .z] else lane = .x) (whole : List Char) :
    specialForm? whole (specialBody r lane).toList = .ok (some (.special r lane)) := by
  cases hv : r.isVector with
  | true =>
    rw [hv, if_pos rfl] at hlane
    rw [specialBody, hv, if_pos rfl, specialForm?, cutPoint_lane r hr lane hlane]
    dsimp only
    rw [String.ofList_toList, String.ofList_toList, Special.ofName?_name r hr]
    dsimp only
    rw [hv, Lane.ofName?_name lane hlane]
    rfl
  | false =>
    rw [hv, if_neg (by decide)] at hlane
    rw [specialBody, hv, if_neg (by decide), String.append_empty, specialForm?, cutPoint_name r hr]
    dsimp only
    rw [String.ofList_toList, Special.ofName?_name r hr, hlane]

/-- **The spelling of a special register is read as that register**, unless it is a known name. -/
theorem runs_readRegister_special {s : Scope} {label : Bool} {t : DataType} {r : Special}
    {lane : Lane} (h : (Form.special r lane).Canonical s label t) :
    Runs (readRegister (Operand.text ⟨t, .special r lane⟩).toList) s (.special r lane) s := by
  obtain ⟨hr, hlane, hnew⟩ := h
  unfold readRegister
  simp only [String.ofList_toList]
  refine Runs.bind (runs_get s) ?_
  rw [hnew]
  refine Runs.bind (runs_liftM (a := some (.special r lane)) ?_ s) (Runs.pure s _)
  rw [toList_text_special]
  exact specialForm?_specialBody hr hlane _

/-! ### Offsets -/

theorem toList_offsetText_of_pos {i : Int} (h : 0 < i) :
    (offsetText i).toList = '+' :: Nat.toDigits 10 i.natAbs := by
  rw [offsetText, if_pos h, String.toList_append, Text.toList_decimalInt_of_nonneg (by omega)]
  rfl

theorem toList_offsetText_of_neg {i : Int} (h : i < 0) :
    (offsetText i).toList = '-' :: Nat.toDigits 10 i.natAbs := by
  rw [offsetText, if_neg (by omega), if_pos h, Text.toList_decimalInt_of_neg h]

/-- An offset is nothing, or a sign and digits. -/
theorem offsetText_cases (i : Int) : (offsetText i).toList = [] ∨
    ∃ sign, (sign = '+' ∨ sign = '-') ∧ (offsetText i).toList = sign :: Nat.toDigits 10 i.natAbs := by
  rcases lt_trichotomy i 0 with h | rfl | h
  · exact .inr ⟨'-', .inr rfl, toList_offsetText_of_neg h⟩
  · exact .inl rfl
  · exact .inr ⟨'+', .inl rfl, toList_offsetText_of_pos h⟩

theorem isPlain_of_mem_toDigits {n : Nat} {c : Char} (hc : c ∈ Nat.toDigits 10 n) :
    isPlain c = true :=
  isPlain_of_isNameChar (isNameChar_of_isIdentRest (isIdentRest_of_isDigit
    (Nat.isDigit_of_mem_toDigits (by omega) (le_refl 10) hc)))

theorem isPlain_of_mem_offsetText {i : Int} {c : Char} (hc : c ∈ (offsetText i).toList) :
    isPlain c = true := by
  rcases offsetText_cases i with h | ⟨sign, hsign, h⟩
  · rw [h] at hc
    cases hc
  · rw [h] at hc
    rcases List.mem_cons.mp hc with rfl | hc
    · rcases hsign with rfl | rfl <;> decide
    · exact isPlain_of_mem_toDigits hc

theorem offset?_offsetText {i : Int} (h : IsOffset i) : offset? (offsetText i).toList = .ok i := by
  rcases lt_trichotomy i 0 with hneg | rfl | hpos
  · rw [toList_offsetText_of_neg hneg, offset?, if_neg (by simp), ← Text.toList_decimalInt_of_neg hneg,
      Text.integer?_decimalInt h.1 h.2]
  · rfl
  · rw [toList_offsetText_of_pos hpos, offset?, if_neg (by simp),
      ← Text.toList_decimalInt_of_nonneg (by omega), Text.integer?_plus_decimalInt (by omega) h.2]

/-! ### Addresses -/

/-- Whether a character begins an offset. -/
def isSign (c : Char) : Bool := c == '+' || c == '-'

/-- An offset keeps all of its characters, for none is a space and no plus stands before a minus. -/
theorem splitOffset_eq {s t : List Char} (h : (s.drop 1).dropWhile (!isSign ·) = t)
    (hne : t ≠ []) (hspace : ' ' ∉ t) (hplus : ∀ rest, t ≠ '+' :: '-' :: rest) :
    splitOffset s = (trim (s.take 1 ++ (s.drop 1).takeWhile (!isSign ·)), t) := by
  have hfilter : t.filter (· ≠ ' ') = t := by
    refine List.filter_eq_self.mpr fun c hc => decide_eq_true ?_
    rintro rfl
    exact hspace hc
  unfold splitOffset
  dsimp only
  split
  · rename_i heq
    exact absurd (h.symm.trans heq) hne
  · have hmatch : (s.drop 1).dropWhile (fun c => !(c == '+' || c == '-')) = t := h
    rw [hmatch, hfilter]
    split
    · rename_i rest
      exact absurd rfl (hplus rest)
    · rfl

/-- A base without signs is split off from the offset behind it. -/
theorem splitOffset_append {c : Char} {rest : List Char}
    (hplain : ∀ d ∈ c :: rest, isPlain d = true) (hsign : ∀ d ∈ rest, isSign d = false) (i : Int) :
    splitOffset (c :: rest ++ (offsetText i).toList) = (c :: rest, (offsetText i).toList) := by
  have htrim : trim (c :: rest) = c :: rest :=
    trim_eq_self (fun d hd => isBlank_of_isPlain (hplain d (List.mem_of_head? hd)))
      (fun d hd => isBlank_of_isPlain (hplain d (List.mem_of_getLast? hd)))
  have hrest : ∀ d ∈ rest, (!isSign d) = true := fun d hd => by rw [hsign d hd]; rfl
  have hdrop : (c :: rest ++ (offsetText i).toList).drop 1 = rest ++ (offsetText i).toList := rfl
  -- an offset of zero is not written at all
  rcases offsetText_cases i with h | ⟨sign, hs, h⟩
  · rw [h, List.append_nil]
    unfold splitOffset
    dsimp only
    split
    · rfl
    · rename_i heq
      have hnil : ((c :: rest).drop 1).dropWhile (!isSign ·) = [] := by
        show rest.dropWhile (!isSign ·) = []
        rw [← List.append_nil rest, List.dropWhile_append_of_pos hrest]
        rfl
      exact absurd hnil heq
  · have hstop : isSign sign = true := by rcases hs with rfl | rfl <;> rfl
    have htail : (sign :: Nat.toDigits 10 i.natAbs).dropWhile (!isSign ·) =
        sign :: Nat.toDigits 10 i.natAbs := by
      rw [List.dropWhile_cons, hstop]; rfl
    have htake : (sign :: Nat.toDigits 10 i.natAbs).takeWhile (!isSign ·) = [] := by
      rw [List.takeWhile_cons, hstop]; rfl
    -- the first sign behind the name is the one of the offset
    rw [splitOffset_eq (t := (offsetText i).toList)]
    · rw [hdrop, h, List.takeWhile_append_of_pos hrest, htake, List.append_nil]
      exact congrArg (·, _) htrim
    · rw [hdrop, List.dropWhile_append_of_pos hrest, h, htail]
    · rw [h]; exact List.cons_ne_nil _ _
    · intro hmem
      exact absurd (isPlain_of_mem_offsetText hmem) (by decide)
    · intro more heq
      obtain ⟨d, ds, hds, hd⟩ := Text.exists_toDigits_cons i.natAbs
      rw [h, hds] at heq
      rw [(List.cons.inj (List.cons.inj heq).2).1] at hd
      exact absurd hd (by decide)

theorem isSign_of_isNameChar {c : Char} (h : isNameChar c = true) : isSign c = false := by
  have h1 : c ≠ '+' := by
    rintro rfl
    exact absurd h (by decide)
  have h2 : c ≠ '-' := by
    rintro rfl
    exact absurd h (by decide)
  simp [isSign, h1, h2]

/-- The inside of an address is its own trimmed form. -/
theorem trim_address {base : List Char} (hplain : ∀ d ∈ base, isPlain d = true) (i : Int) :
    trim (base ++ (offsetText i).toList) = base ++ (offsetText i).toList := by
  have hall : ∀ d ∈ base ++ (offsetText i).toList, isPlain d = true := by
    intro d hd
    rcases List.mem_append.mp hd with hd | hd
    · exact hplain d hd
    · exact isPlain_of_mem_offsetText hd
  exact trim_eq_self (fun d hd => isBlank_of_isPlain (hall d (List.mem_of_head? hd)))
    (fun d hd => isBlank_of_isPlain (hall d (List.mem_of_getLast? hd)))

/-- **A known register with an offset is read as the memory there.** -/
theorem runs_readAddress_indirect {s : Scope} {r : RegisterUse} (hr : r.Known s) {i : Int}
    (hi : IsOffset i) :
    Runs (readAddress (r.name.toList ++ (offsetText i).toList)) s (.indirect r i) s := by
  obtain ⟨c, rest, hcs, hall⟩ := exists_of_isRegisterName hr.1
  have hplain : ∀ d ∈ r.name.toList, isPlain d = true :=
    fun d hd => isPlain_of_mem_registerName hr.1 hd
  have hsplit : splitOffset (r.name.toList ++ (offsetText i).toList) =
      (r.name.toList, (offsetText i).toList) := by
    rw [hcs] at hplain ⊢
    exact splitOffset_append hplain (fun d hd => isSign_of_isNameChar (hall d hd)) i
  have hhead : r.name.toList.head? = some '%' := by rw [hcs]; rfl
  unfold readAddress
  dsimp only
  rw [trim_address hplain, hsplit]
  dsimp only
  refine Runs.bind (runs_liftM (offset?_offsetText hi) s) ?_
  rw [if_pos hhead]
  exact Runs.bind (runs_readRegister hr) (Runs.pure s _)

/-- The first and the further characters of an identifier. -/
theorem exists_of_isIdent {cs : List Char} (h : isIdent cs = true) :
    ∃ c rest, cs = c :: rest ∧ isIdentStart c = true ∧ ∀ d ∈ cs, isIdentRest d = true := by
  cases cs with
  | nil => cases h
  | cons c rest =>
    rw [isIdent, Bool.and_eq_true] at h
    refine ⟨c, rest, rfl, h.1, fun d hd => ?_⟩
    rcases List.mem_cons.mp hd with rfl | hd
    · rw [isIdentRest, h.1, Bool.true_or]
    · exact List.all_eq_true.mp h.2 d hd

theorem beginsLiteral_of_isIdentStart {c : Char} (h : isIdentStart c = true) :
    beginsLiteral c = false := by
  by_contra hb
  rw [Bool.not_eq_false] at hb
  simp only [isIdentStart, beginsLiteral, Bool.or_eq_true, Bool.and_eq_true, decide_eq_true_eq,
    beq_iff_eq, Char.le_def, UInt32.le_iff_toNat_le, Char.reduceVal, UInt32.reduceToNat] at h hb
  rcases hb with ((hb | rfl) | rfl) | rfl
  · rcases h with ((h | h) | rfl) | rfl
    · omega
    · omega
    · exact absurd hb (by decide)
    · exact absurd hb (by decide)
  all_goals exact absurd h (by decide)

/-- An identifier begins with none of the characters that announce another operand. -/
theorem head_of_isIdent {cs : List Char} (h : isIdent cs = true) :
    ∃ c rest, cs = c :: rest ∧ c ≠ '%' ∧ c ≠ '[' ∧ beginsLiteral c = false := by
  obtain ⟨c, rest, hcs, hc, -⟩ := exists_of_isIdent h
  refine ⟨c, rest, hcs, ?_, ?_, ?_⟩
  · rintro rfl
    exact absurd hc (by decide)
  · rintro rfl
    exact absurd hc (by decide)
  · exact beginsLiteral_of_isIdentStart hc

/-- **A symbol with an offset is read as its address.** -/
theorem runs_readAddress_symbol (s : Scope) {name : String} (hname : isIdent name.toList = true)
    {i : Int} (hi : IsOffset i) :
    Runs (readAddress (name.toList ++ (offsetText i).toList)) s
      (.address name i (s.isParam name)) s := by
  obtain ⟨c, rest, hcs, -, hall⟩ := exists_of_isIdent hname
  have hplain : ∀ d ∈ name.toList, isPlain d = true :=
    fun d hd => isPlain_of_isNameChar (isNameChar_of_isIdentRest (hall d hd))
  have hsplit : splitOffset (name.toList ++ (offsetText i).toList) =
      (name.toList, (offsetText i).toList) := by
    rw [hcs] at hplain hall ⊢
    exact splitOffset_append hplain (fun d hd => isSign_of_isNameChar
      (isNameChar_of_isIdentRest (hall d (List.mem_cons_of_mem c hd)))) i
  have hhead : name.toList.head? ≠ some '%' := by
    obtain ⟨d, ds, hds, hd, -⟩ := head_of_isIdent hname
    rw [hds]
    rintro ⟨rfl⟩
    exact hd rfl
  unfold readAddress
  dsimp only
  rw [trim_address hplain, hsplit]
  dsimp only
  refine Runs.bind (runs_liftM (offset?_offsetText hi) s) ?_
  rw [if_neg hhead, if_pos hname, String.ofList_toList]
  exact Runs.bind (runs_get s) (Runs.pure s _)

/-! ### The texts of operands -/

/-- Plain characters, in brackets or not. -/
def IsOperandText (cs : List Char) : Prop :=
  (cs ≠ [] ∧ ∀ c ∈ cs, isPlain c = true) ∨
    ∃ inner, cs = '[' :: (inner ++ [']']) ∧ ∀ c ∈ inner, isPlain c = true

theorem depthAfter?_of_isPlain {cs : List Char} (h : ∀ c ∈ cs, isPlain c = true) (depth : Nat) :
    depthAfter? depth cs = some depth := by
  induction cs with
  | nil => rfl
  | cons c cs ih =>
    have hc := h c List.mem_cons_self
    rw [depthAfter?, if_neg, if_neg, if_neg]
    · exact ih fun d hd => h d (List.mem_cons_of_mem c hd)
    · rintro ⟨rfl, -⟩
      exact absurd hc (by decide)
    · rintro (rfl | rfl | rfl) <;> exact absurd hc (by decide)
    · rintro (rfl | rfl | rfl) <;> exact absurd hc (by decide)

namespace IsOperandText

variable {cs : List Char}

theorem ne_nil (h : IsOperandText cs) : cs ≠ [] := by
  rcases h with h | ⟨inner, rfl, -⟩
  · exact h.1
  · exact List.cons_ne_nil _ _

theorem depthAfter? (h : IsOperandText cs) : Source.depthAfter? 0 cs = some 0 := by
  rcases h with h | ⟨inner, rfl, hinner⟩
  · exact depthAfter?_of_isPlain h.2 0
  · show Source.depthAfter? 1 (inner ++ [']']) = some 0
    rw [depthAfter?_append, depthAfter?_of_isPlain hinner]
    rfl

theorem mem (h : IsOperandText cs) {c : Char} (hc : c ∈ cs) :
    isPlain c = true ∨ c = '[' ∨ c = ']' := by
  rcases h with h | ⟨inner, rfl, hinner⟩
  · exact .inl (h.2 c hc)
  · simp only [List.mem_cons, List.mem_append, List.not_mem_nil, or_false] at hc
    rcases hc with rfl | hc | rfl
    · exact .inr (.inl rfl)
    · exact .inl (hinner c hc)
    · exact .inr (.inr rfl)

theorem isBlank_of_mem (h : IsOperandText cs) {c : Char} (hc : c ∈ cs) : isBlank c = false := by
  rcases h.mem hc with hp | rfl | rfl
  · exact isBlank_of_isPlain hp
  · decide
  · decide

theorem isSpace_of_mem (h : IsOperandText cs) {c : Char} (hc : c ∈ cs) :
    Text.isSpace c = false ∧ c ≠ ';' ∧ c ≠ '/' := by
  rcases h.mem hc with hp | rfl | rfl
  · exact ⟨isSpace_of_isPlain hp, ne_of_isPlain hp (by decide), ne_of_isPlain hp (by decide)⟩
  · decide
  · decide

/-- Nothing surrounds the text of an operand. -/
theorem operandText (h : IsOperandText cs) : Source.operandText cs = cs := by
  have hparen : ∀ c ∈ cs, c ≠ '(' ∧ c ≠ ')' := by
    intro c hc
    rcases h.mem hc with hp | rfl | rfl
    · exact ⟨ne_of_isPlain hp (by decide), ne_of_isPlain hp (by decide)⟩
    · decide
    · decide
  refine operandText_eq_self (trim_eq_self
    (fun c hc => h.isBlank_of_mem (List.mem_of_head? hc))
    (fun c hc => h.isBlank_of_mem (List.mem_of_getLast? hc))) ?_ ?_
  · intro hhead
    exact (hparen _ (List.mem_of_head? hhead)).1 rfl
  · intro hlast
    exact (hparen _ (List.mem_of_getLast? hlast)).2 rfl

end IsOperandText

theorem isPlain_of_mem_isIdent {cs : List Char} (h : isIdent cs = true) {c : Char} (hc : c ∈ cs) :
    isPlain c = true := by
  obtain ⟨-, -, -, -, hall⟩ := exists_of_isIdent h
  exact isPlain_of_isNameChar (isNameChar_of_isIdentRest (hall c hc))

theorem isOperandText_bracketed {base : List Char} (h : ∀ c ∈ base, isPlain c = true) (i : Int) :
    IsOperandText ('[' :: (base ++ (offsetText i).toList ++ [']'])) := by
  refine .inr ⟨_, rfl, fun c hc => ?_⟩
  rcases List.mem_append.mp hc with hc | hc
  · exact h c hc
  · exact isPlain_of_mem_offsetText hc

theorem isOperandText_isIdent {cs : List Char} (h : isIdent cs = true) : IsOperandText cs := by
  obtain ⟨c, rest, rfl, -⟩ := exists_of_isIdent h
  exact .inl ⟨List.cons_ne_nil c rest, fun d hd => isPlain_of_mem_isIdent h hd⟩

theorem isOperandText_toDigits (n : Nat) : IsOperandText (Nat.toDigits 10 n) :=
  .inl ⟨Nat.toDigits_ne_nil, fun _ hc => isPlain_of_mem_toDigits hc⟩

theorem isOperandText_decimalInt (i : Int) : IsOperandText (Text.decimalInt i).toList := by
  rcases lt_or_ge i 0 with hneg | hpos
  · rw [Text.toList_decimalInt_of_neg hneg]
    refine .inl ⟨List.cons_ne_nil _ _, fun c hc => ?_⟩
    rcases List.mem_cons.mp hc with rfl | hc
    · decide
    · exact isPlain_of_mem_toDigits hc
  · rw [Text.toList_decimalInt_of_nonneg hpos]
    exact isOperandText_toDigits _

theorem isOperandText_bitsText {mark : Char} (hmark : isPlain mark = true) (width : Nat)
    (bits : BitVec 64) : IsOperandText ('0' :: mark :: (bitsText width bits).toList) := by
  refine .inl ⟨List.cons_ne_nil _ _, fun c hc => ?_⟩
  rw [toList_bitsText] at hc
  rcases List.mem_cons.mp hc with rfl | hc
  · decide
  · rcases List.mem_cons.mp hc with rfl | hc
    · exact hmark
    · exact isPlain_of_mem_toUpper_hexPadded hc

theorem isOperandText_literalText (t : DataType) (bits : BitVec 64) :
    IsOperandText (literalText t bits).toList := by
  unfold literalText
  split
  · rw [String.toList_append]
    exact isOperandText_bitsText (by decide) 16 bits
  · rw [String.toList_append]
    exact isOperandText_bitsText (by decide) 8 bits
  · exact isOperandText_decimalInt _
  · rw [Text.toList_decimal]
    exact isOperandText_toDigits _

theorem isOperandText_specialBody : ∀ r ∈ Special.named, ∀ l ∈ [Lane.x, .y, .z],
    (specialBody r l).toList.all isPlain = true := by
  decide

theorem toList_bracketed (base : String) (i : Int) :
    ("[" ++ base ++ offsetText i ++ "]").toList =
      '[' :: (base.toList ++ (offsetText i).toList ++ [']']) := by
  simp only [String.toList_append]
  rfl

theorem toList_text_register {s : Scope} {r : RegisterUse} (h : r.Known s) (t : DataType) :
    (Operand.text ⟨t, .register r⟩).toList = r.name.toList :=
  congrArg String.toList h.text_eq

theorem toList_text_indirect {s : Scope} {r : RegisterUse} (h : r.Known s) (t : DataType) (i : Int) :
    (Operand.text ⟨t, .indirect r i⟩).toList =
      '[' :: (r.name.toList ++ (offsetText i).toList ++ [']']) := by
  show ("[" ++ r.text ++ offsetText i ++ "]").toList = _
  rw [h.text_eq, toList_bracketed]

theorem toList_text_sink (t : DataType) : (Operand.text ⟨t, .sink⟩).toList = ['_'] :=
  (by decide : "_".toList = ['_'])

/-- **The text of a canonical operand is plain, or plain in brackets.** -/
theorem isOperandText_text {s : Scope} {label : Bool} {t : DataType} {form : Form}
    (h : form.Canonical s label t) : IsOperandText (Operand.text ⟨t, form⟩).toList := by
  cases form with
  | register r =>
    rw [toList_text_register h]
    have hne : r.name.toList ≠ [] := by
      obtain ⟨c, rest, hcs, -⟩ := exists_of_isRegisterName h.1
      rw [hcs]
      exact List.cons_ne_nil _ _
    exact .inl ⟨hne, fun c hc => isPlain_of_mem_registerName h.1 hc⟩
  | indirect r offset =>
    rw [toList_text_indirect h.1]
    exact isOperandText_bracketed (fun c hc => isPlain_of_mem_registerName h.1.1 hc) offset
  | immediate bits => exact isOperandText_literalText t bits
  | address name offset isParam =>
    rw [Operand.text]
    dsimp only
    -- without an offset an address is written as a bare name
    split_ifs
    · exact isOperandText_isIdent h.1
    · rw [toList_bracketed]
      exact isOperandText_bracketed (fun c hc => isPlain_of_mem_isIdent h.1 hc) offset
  | label name => exact isOperandText_isIdent h.2.1
  | special r lane =>
    have hlane : lane ∈ [Lane.x, .y, .z] := by
      have hl := h.2.1
      split_ifs at hl
      · exact hl
      · rw [hl]; decide
    rw [toList_text_special]
    refine .inl ⟨List.cons_ne_nil _ _, fun c hc => ?_⟩
    rcases List.mem_cons.mp hc with rfl | hc
    · decide
    · exact List.all_eq_true.mp (isOperandText_specialBody r h.1 lane hlane) c hc
  | sink =>
    rw [toList_text_sink]
    exact .inl ⟨by decide, List.forall_mem_singleton.mpr (by decide)⟩
  | unknown code => exact h.elim

/-! ### Reading forms -/

/-- What begins with none of `_`, `[` and `%` is a literal or an identifier. -/
theorem readForm_cons {t : DataType} {label : Bool} {c : Char} {rest : List Char}
    (h1 : c :: rest ≠ ['_']) (h2 : c ≠ '[') (h3 : c ≠ '%') :
    readForm t label (c :: rest) =
      if beginsLiteral c then do return .immediate (← liftM (literal? t (c :: rest)))
      else if !isIdent (c :: rest) then throw (.unexpected (c :: rest))
      else if label then return .label (String.ofList (c :: rest))
      else do
        return .address (String.ofList (c :: rest)) 0
          ((← get).isParam (String.ofList (c :: rest))) := by
  unfold readForm
  -- the first three patterns are those that the hypotheses exclude
  split
  · rename_i heq
    exact absurd heq h1
  · rename_i heq
    exact absurd (List.cons.inj heq).1 h2
  · rename_i heq
    exact absurd (List.cons.inj heq).1 h3
  · rename_i heq
    rw [(List.cons.inj heq).1]
  · rename_i heq
    cases heq

/-- Brackets hold an address. -/
theorem readForm_bracketed (t : DataType) (label : Bool) (inside : List Char) :
    readForm t label ('[' :: (inside ++ [']'])) = readAddress inside := by
  show (if (inside ++ [']']).getLast? = some ']' then readAddress (inside ++ [']']).dropLast
    else throw _) = readAddress inside
  rw [List.getLast?_concat, if_pos rfl, List.dropLast_concat]

/-- A literal begins with a digit or a minus. -/
theorem head_literalText (t : DataType) (bits : BitVec 64) : ∃ c rest,
    (literalText t bits).toList = c :: rest ∧ beginsLiteral c = true ∧ c ≠ '_' ∧ c ≠ '[' ∧
      c ≠ '%' := by
  -- the floats begin with `0f` or `0d`, and all else with a sign or a digit
  have hdigits : ∀ n, ∃ c rest, Nat.toDigits 10 n = c :: rest ∧ beginsLiteral c = true ∧ c ≠ '_' ∧
      c ≠ '[' ∧ c ≠ '%' := by
    intro n
    obtain ⟨c, rest, hcs, hc⟩ := Text.exists_toDigits_cons n
    refine ⟨c, rest, hcs, ?_, ?_, ?_, ?_⟩
    · simp only [Char.isDigit, Bool.and_eq_true, decide_eq_true_eq] at hc
      have hdigit : (decide ('0' ≤ c) && decide (c ≤ '9')) = true := by
        rw [Bool.and_eq_true, decide_eq_true_eq, decide_eq_true_eq]
        exact hc
      rw [beginsLiteral, hdigit]
      rfl
    all_goals
      rintro rfl
      exact absurd hc (by decide)
  unfold literalText
  split
  · rw [String.toList_append]
    exact ⟨'0', _, rfl, by decide, by decide, by decide, by decide⟩
  · rw [String.toList_append]
    exact ⟨'0', _, rfl, by decide, by decide, by decide, by decide⟩
  · rcases lt_or_ge bits.toInt 0 with hneg | hpos
    · rw [Text.toList_decimalInt_of_neg hneg]
      exact ⟨'-', _, rfl, by decide, by decide, by decide, by decide⟩
    · rw [Text.toList_decimalInt_of_nonneg hpos]
      exact hdigits _
  · rw [Text.toList_decimal]
    exact hdigits _

/-- A bare identifier is read as a label, or as an address without offset. -/
theorem runs_readForm_isIdent (s : Scope) (t : DataType) (label : Bool) {name : String}
    (hname : isIdent name.toList = true) (hsink : name ≠ "_") :
    Runs (readForm t label name.toList) s
      (if label then .label name else .address name 0 (s.isParam name)) s := by
  obtain ⟨c, rest, hcs, h1, h2, h3⟩ := head_of_isIdent hname
  have hne : c :: rest ≠ ['_'] := by
    intro h
    apply hsink
    rw [← String.ofList_toList (s := name), hcs, h]
  rw [hcs, readForm_cons hne h2 h1, ← hcs, h3, hname, String.ofList_toList]
  cases label with
  | true => exact Runs.pure s _
  | false => exact Runs.bind (runs_get s) (Runs.pure s _)

/-- **A canonical form is read back from the text of its operand.** -/
theorem runs_readForm_text {s : Scope} {label : Bool} {t : DataType} {form : Form}
    (h : form.Canonical s label t) :
    Runs (readForm t label (Operand.text ⟨t, form⟩).toList) s form s := by
  cases form with
  | register r =>
    obtain ⟨c, rest, hcs, -⟩ := exists_of_isRegisterName h.1
    have hread : readForm t label r.name.toList = readRegister r.name.toList := by
      rw [hcs]; rfl
    rw [toList_text_register h, hread]
    exact runs_readRegister h
  | indirect r offset =>
    rw [toList_text_indirect h.1, readForm_bracketed]
    exact runs_readAddress_indirect h.1 h.2
  | immediate bits =>
    obtain ⟨c, rest, hcs, hc, h1, h2, h3⟩ := head_literalText t bits
    have hne : c :: rest ≠ ['_'] := by
      rintro ⟨rfl, rfl⟩
      exact h1 rfl
    show Runs (readForm t label (literalText t bits).toList) s _ s
    rw [hcs, readForm_cons hne h2 h3, hc, if_pos rfl, ← hcs]
    exact Runs.bind (runs_liftM (literal?_literalText_iff.mpr h) s) (Runs.pure s _)
  | address name offset isParam =>
    obtain ⟨hname, rfl, hoffset, hbare⟩ := h
    rw [Operand.text]
    dsimp only
    -- a bare name is an address only where no label is expected
    split_ifs with h0
    · obtain ⟨rfl, hsink⟩ := hbare h0
      rw [h0]
      exact runs_readForm_isIdent s t false hname hsink
    · rw [toList_bracketed, readForm_bracketed]
      exact runs_readAddress_symbol s hname hoffset
  | label name =>
    obtain ⟨rfl, hname, hsink⟩ := h
    exact runs_readForm_isIdent s t true hname hsink
  | special r lane =>
    have hread : readForm t label (Operand.text ⟨t, .special r lane⟩).toList =
        readRegister (Operand.text ⟨t, .special r lane⟩).toList := by
      rw [toList_text_special]; rfl
    rw [hread]
    exact runs_readRegister_special h
  | sink =>
    rw [toList_text_sink]
    exact Runs.pure s _
  | unknown code => exact h.elim

/-- **A canonical operand is read back from its text.** -/
theorem runs_readOperand_text {s : Scope} {label : Bool} {x : Operand}
    (h : x.form.Canonical s label x.type) :
    Runs (readOperand x.type label x.text.toList) s x s :=
  Runs.bind (runs_readForm_text h) (Runs.pure s _)

end KernelIR.Source
