import KernelIR.Container.SymbolTable
import KernelIR.Proofs.Fallible
import Mathlib.Algebra.Group.Nat.Defs
import Mathlib.Tactic.Common

/-!
# The layout of symbol tables

`ofModule_laidOut`: if every global has a type and the sections fit, the symbol table of a module
lists the globals and then the functions in order.  A global starts at the first aligned address
behind the one before it, and a function right behind the one before it; so their ranges are apart
and in order, and each section takes the least number of pages.

The layout is computed in words.  `dataEnd` and `codeSize` say in numbers where a section ends, and
a section fits if its pages can be counted in 32 bits.  Then no sum wraps around on the way: an
address is at most the end of its section, and an alignment that is larger than the section leaves
room only for the address zero (`toNat_align`).
-/

namespace KernelIR.Container

open Virtual (Global Function Module ValueType)

/-! ### What is laid out -/

/-- The address is a multiple of the size; a size of zero asks for nothing. -/
def IsAligned (a x : Nat) : Prop := a = 0 ∨ a ∣ x

/-- The address `x` is the first aligned one that is not below `n`. -/
structure IsFirstAligned (a n x : Nat) : Prop where
  le : n ≤ x
  aligned : IsAligned a x
  first : ∀ y, n ≤ y → IsAligned a y → x ≤ y

/-- The least number of pages that hold so many bytes. -/
structure IsPageCount (size count : Nat) : Prop where
  holds : size ≤ count * pageSize
  least : ∀ k, size ≤ k * pageSize → count ≤ k

/-- The address behind a symbol. -/
def Entry.stop (e : Entry) : Nat := e.address.toNat + e.size.toNat

/-- The page and the offset of a symbol make up its address. -/
structure Entry.IsSplit (e : Entry) : Prop where
  offset_lt : e.offset.toNat < pageSize
  address_eq : e.page.toNat * pageSize + e.offset.toNat = e.address.toNat

/-- A size as a number of bytes.  The size of a type of negative width is read as a word. -/
def byteCount (size : Int) : Nat :=
  if 0 ≤ size then size.toNat else (UInt64.ofInt size).toNat

/-- The size of a global of the type: that of the type, or that of the array which the global starts
with if it is larger. -/
def extent (g : Global) (t : ValueType) : Int :=
  match g.init with
  | some (.array _ data) => max t.bytes data.length
  | _ => t.bytes

/-- The entry of a global, laid out where the data before it ends at `n`. -/
structure GlobalAt (g : Global) (n : Nat) (e : Entry) : Prop where
  kind : e.kind = .global
  part : e.part = .data
  linkage : e.linkage = g.linkage
  split : e.IsSplit
  typed : ∃ t, g.type = some t ∧ e.size.toNat = byteCount (extent g t) ∧
    IsFirstAligned (byteCount t.bytes) n e.address.toNat

/-- The entry of a function, laid out where the code before it ends at `n`.  An instruction takes
eight bytes. -/
structure FunctionAt (f : Function) (n : Nat) (e : Entry) : Prop where
  kind : e.kind = .function
  part : e.part = .code
  linkage : e.linkage = f.linkage
  split : e.IsSplit
  size : e.size.toNat = 8 * f.code.length
  address : e.address.toNat = n

/-- Symbols and their entries, one behind the other from the address `n` to the address `stop`. -/
inductive Placed {α : Type} (P : α → Nat → Entry → Prop) : Nat → List α → List Entry → Nat → Prop
  | nil {n : Nat} : Placed P n [] [] n
  | cons {n stop : Nat} {x : α} {xs : List α} {e : Entry} {es : List Entry} :
    P x n e → Placed P e.stop xs es stop → Placed P n (x :: xs) (e :: es) stop

/-- The string section for some names: each is ended by a zero byte. -/
def stringSection (names : List String) : List UInt8 :=
  names.flatMap fun name => Text.bytes name ++ [0]

/-- The names of the symbols of a module. -/
def symbolNames (m : Module) : List String :=
  m.globals.map Global.name ++ m.functions.map Function.name

/-- The symbol table of a module: `ds` are the entries of its globals and `cs` those of its
functions, and its sections end at `data` and at `code`. -/
structure LaidOut (m : Module) (t : SymbolTable) (ds cs : List Entry) (data code : Nat) : Prop where
  entries : t.entries = ds ++ cs
  strings : t.strings = stringSection (symbolNames m)
  globals : Placed GlobalAt 0 m.globals ds data
  functions : Placed FunctionAt 0 m.functions cs code
  /-- the ranges of the globals are apart and in order -/
  apart : ds.Pairwise fun e e' => e.stop ≤ e'.address.toNat
  inData : ∀ e ∈ ds, e.stop ≤ t.header.dataPages.toNat * pageSize
  inCode : ∀ e ∈ cs, e.stop ≤ t.header.codePages.toNat * pageSize
  dataPages : IsPageCount data t.header.dataPages.toNat
  codePages : IsPageCount code t.header.codePages.toNat
  stringPages : IsPageCount t.strings.length t.header.stringPages.toNat
  symbols : t.header.symbols.toNat = t.entries.length
  stringBytes : t.header.stringBytes.toNat = t.strings.length

/-! ### Sizes of sections -/

/-- The number of bytes from `x` on to the next multiple of `a`. -/
def padding (x a : Nat) : Nat := (a - x % a) % a

/-- Where the data ends if the globals are laid out from `x` on. -/
def dataEnd (x : Nat) : List Global → Nat
  | [] => x
  | g :: gs =>
    match g.type with
    | some t => dataEnd (x + padding x (byteCount t.bytes) + byteCount (extent g t)) gs
    | none => dataEnd x gs

/-- The number of bytes of the code section. -/
def codeSize : List Function → Nat
  | [] => 0
  | f :: fs => 8 * f.code.length + codeSize fs

/-- A section of so many bytes has fewer than 2^32 pages. -/
def Fits (size : Nat) : Prop := size ≤ (2 ^ 32 - 1) * pageSize

instance (size : Nat) : Decidable (Fits size) := inferInstanceAs (Decidable (_ ≤ _))

theorem Fits.mono {m n : Nat} (h : Fits n) (hle : m ≤ n) : Fits m := Nat.le_trans hle h

theorem Fits.lt {n : Nat} (h : Fits n) : n < 2 ^ 47 :=
  Nat.lt_of_le_of_lt h (by decide)

/-! ### Alignment -/

theorem padding_lt {a : Nat} (x : Nat) (ha : 0 < a) : padding x a < a :=
  Nat.mod_lt _ ha

theorem padding_zero (x : Nat) : padding x 0 = 0 := by
  simp [padding]

theorem isAligned_add_padding (x a : Nat) : IsAligned a (x + padding x a) := by
  rcases Nat.eq_zero_or_pos a with ha | ha
  · exact .inl ha
  · right
    have hlt := Nat.mod_lt x ha
    have hx := Nat.div_add_mod x a
    unfold padding
    rcases Nat.eq_zero_or_pos (x % a) with hr | hr
    · rw [hr, Nat.sub_zero, Nat.mod_self, Nat.add_zero]
      exact Nat.dvd_of_mod_eq_zero hr
    · rw [Nat.mod_eq_of_lt (by omega)]
      refine ⟨x / a + 1, ?_⟩
      rw [Nat.mul_add, Nat.mul_one]
      omega

/-- The address behind the padding is the first aligned one. -/
theorem isFirstAligned_padding (x a : Nat) : IsFirstAligned a x (x + padding x a) := by
  refine ⟨Nat.le_add_right _ _, isAligned_add_padding x a, fun y hy haligned => ?_⟩
  rcases Nat.eq_zero_or_pos a with rfl | ha
  · rw [padding_zero]
    exact hy
  · -- two multiples of `a` that are less than `a` apart are the same
    by_contra hlt
    have hdvd := (isAligned_add_padding x a).resolve_left (by omega)
    have hdvd' := haligned.resolve_left (by omega)
    have hle := Nat.le_of_dvd (by omega) (Nat.dvd_sub hdvd hdvd')
    have hpad := padding_lt x ha
    omega

/-- A quotient that is rounded up leads to the address behind the padding. -/
theorem div_mul_eq_add_padding (x : Nat) {a : Nat} (ha : 0 < a) :
    (x + a - 1) / a * a = x + padding x a := by
  obtain ⟨k, hk⟩ := (isAligned_add_padding x a).resolve_left (by omega)
  have hlt := padding_lt x ha
  have hdiv : (x + a - 1) / a = k := by
    rw [Nat.div_eq_iff ha]
    rw [Nat.mul_comm] at hk
    omega
  rw [hdiv, hk, Nat.mul_comm]

/-- Aligning a word does not wrap around if the aligned address fits. -/
theorem toNat_align {x a : UInt64} (h : Fits (x.toNat + padding x.toNat a.toNat)) :
    (align x a).toNat = x.toNat + padding x.toNat a.toNat := by
  have hlt := h.lt
  unfold align
  by_cases ha : a ≤ 1
  · have hle : a.toNat ≤ 1 := UInt64.le_iff_toNat_le.mp ha
    have hpad : padding x.toNat a.toNat = 0 := by
      rcases Nat.le_one_iff_eq_zero_or_eq_one.mp hle with h0 | h1
      · rw [h0, padding_zero]
      · rw [h1, padding, Nat.mod_one]
    rw [if_pos ha, hpad, Nat.add_zero]
  · have hgt : 1 < a.toNat := by
      by_contra hle
      exact ha (UInt64.le_iff_toNat_le.mpr (Nat.le_of_not_lt hle))
    -- the address is zero, or the alignment divides a positive address that fits
    have hsum : x.toNat + a.toNat < 2 ^ 64 := by
      rcases Nat.eq_zero_or_pos x.toNat with hx | hx
      · have := a.toNat_lt
        omega
      · have hdvd := (isAligned_add_padding x.toNat a.toNat).resolve_left (by omega)
        have hle := Nat.le_of_dvd (by omega) hdvd
        omega
    have hadd : (x + a).toNat = x.toNat + a.toNat := by
      rw [UInt64.toNat_add, Nat.mod_eq_of_lt hsum]
    have hsub : (x + a - 1).toNat = x.toNat + a.toNat - 1 := by
      rw [UInt64.toNat_sub_of_le _ _ (UInt64.le_iff_toNat_le.mpr _), hadd]
      · rfl
      · rw [hadd]
        change 1 ≤ _
        omega
    rw [if_neg ha, UInt64.toNat_mul, UInt64.toNat_div, hsub,
      div_mul_eq_add_padding _ (by omega), Nat.mod_eq_of_lt (by omega)]

/-! ### Pages -/

theorem pageSize_eq : pageSize = 32768 := rfl

theorem toNat_pageSize : (UInt64.ofNat pageSize).toNat = 32768 := rfl

/-- The pages of a section that fits are counted right. -/
theorem isPageCount_pages (size : UInt64) (h : Fits size.toNat) :
    IsPageCount size.toNat (pages size).toNat := by
  have hlt := h.lt
  have hholds : size.toNat ≤ (size.toNat + 32767) / 32768 * 32768 := by omega
  -- neither the sum nor the difference leaves the word, so both are those of natural numbers
  have hadd : (size + UInt64.ofNat pageSize).toNat = size.toNat + 32768 := by
    rw [UInt64.toNat_add, toNat_pageSize, Nat.mod_eq_of_lt (by omega)]
  have hsub : (size + UInt64.ofNat pageSize - 1).toNat = size.toNat + 32767 := by
    rw [UInt64.toNat_sub_of_le _ _ (UInt64.le_iff_toNat_le.mpr _), hadd]
    · rfl
    · rw [hadd]
      change 1 ≤ _
      omega
  rw [Fits, pageSize_eq] at h
  have hcount : (pages size).toNat = (size.toNat + 32767) / 32768 := by
    rw [pages, UInt64.toNat_toUInt32, UInt64.toNat_div, toNat_pageSize, hsub]
    omega
  rw [hcount]
  constructor
  · exact hholds
  · -- a smaller count leaves part of the last page out
    intro k hk
    rw [pageSize_eq] at hk
    omega

/-! ### Adding a symbol -/

/-- An entry with the page and the offset of an address that fits has this address. -/
theorem address_eq_of_split {e : Entry} {address : UInt64} (h : Fits address.toNat)
    (hpage : e.page = (address / UInt64.ofNat pageSize).toUInt32)
    (hoffset : e.offset = (address % UInt64.ofNat pageSize).toUInt32) :
    e.address = address ∧ e.IsSplit := by
  have hlt := h.lt
  have hpageNat : e.page.toNat = address.toNat / 32768 := by
    rw [hpage, UInt64.toNat_toUInt32, UInt64.toNat_div, toNat_pageSize]
    omega
  have hoffsetNat : e.offset.toNat = address.toNat % 32768 := by
    rw [hoffset, UInt64.toNat_toUInt32, UInt64.toNat_mod, toNat_pageSize]
    omega
  -- the quotient and the remainder give the address back
  have haddress : e.address = address := by
    apply UInt64.toNat_inj.mp
    rw [Entry.address, UInt64.toNat_add, UInt64.toNat_mul, UInt32.toNat_toUInt64,
      UInt32.toNat_toUInt64, toNat_pageSize]
    omega
  refine ⟨haddress, ?_, ?_⟩
  · rw [pageSize_eq]
    omega
  · rw [haddress, pageSize_eq]
    omega

/-- The table `t'` is the table `t` with some entries and their names behind it. -/
structure Appends (t t' : SymbolTable) (es : List Entry) (names : List String) : Prop where
  entries : t'.entries = t.entries ++ es
  strings : t'.strings = t.strings ++ stringSection names

theorem Appends.refl (t : SymbolTable) : Appends t t [] [] :=
  ⟨(List.append_nil _).symm, (List.append_nil _).symm⟩

theorem Appends.trans {t t' t'' : SymbolTable} {es es' : List Entry} {names names' : List String}
    (h : Appends t t' es names) (h' : Appends t' t'' es' names') :
    Appends t t'' (es ++ es') (names ++ names') where
  entries := by rw [h'.entries, h.entries, List.append_assoc]
  strings := by
    rw [h'.strings, h.strings, List.append_assoc, stringSection, stringSection, stringSection,
      List.flatMap_append]

/-- Every name takes a byte at least. -/
theorem length_le_stringSection (names : List String) :
    names.length ≤ (stringSection names).length := by
  induction names with
  | nil => exact Nat.le_refl _
  | cons name names ih =>
    rw [stringSection, List.flatMap_cons, List.length_append, List.length_append,
      List.length_singleton, List.length_cons]
    unfold stringSection at ih
    omega

/-- The symbol that is added at an address which fits. -/
theorem exists_appends_add (t : SymbolTable) (kind : SymbolKind) (linkage : Virtual.Linkage)
    (part : Section) (name : String) (address size : UInt64) (h : Fits address.toNat) :
    ∃ e : Entry, Appends t (t.add kind linkage part name address size) [e] [name] ∧
      e.kind = kind ∧ e.part = part ∧ e.linkage = linkage ∧ e.size = size ∧
      e.address = address ∧ e.IsSplit := by
  refine ⟨_, ⟨rfl, ?_⟩, rfl, rfl, rfl, rfl, ?_⟩
  · simp [SymbolTable.add, stringSection]
  · exact address_eq_of_split h rfl rfl

/-! ### Placed symbols -/

section Placed

variable {α : Type} {P : α → Nat → Entry → Prop} {n stop : Nat} {xs : List α} {es : List Entry}

theorem Placed.length_eq (h : Placed P n xs es stop) : es.length = xs.length := by
  induction h with
  | nil => rfl
  | cons _ _ ih => rw [List.length_cons, List.length_cons, ih]

theorem Placed.le (h : Placed P n xs es stop) (hP : ∀ x n e, P x n e → n ≤ e.address.toNat) :
    n ≤ stop := by
  induction h with
  | nil => exact Nat.le_refl _
  | cons hx _ ih =>
    have hle := hP _ _ _ hx
    unfold Entry.stop at ih
    omega

/-- Symbols lie between the two addresses. -/
theorem Placed.mem (h : Placed P n xs es stop) (hP : ∀ x n e, P x n e → n ≤ e.address.toNat)
    {e : Entry} (he : e ∈ es) : n ≤ e.address.toNat ∧ e.stop ≤ stop := by
  induction h with
  | nil => cases he
  | cons hx hrest ih =>
    have hle := hP _ _ _ hx
    rcases List.mem_cons.mp he with rfl | he
    · exact ⟨hle, hrest.le hP⟩
    · obtain ⟨haddress, hstop⟩ := ih he
      unfold Entry.stop at haddress
      exact ⟨by omega, hstop⟩

/-- The ranges of the symbols are apart and in order. -/
theorem Placed.pairwise (h : Placed P n xs es stop)
    (hP : ∀ x n e, P x n e → n ≤ e.address.toNat) :
    es.Pairwise fun e e' => e.stop ≤ e'.address.toNat := by
  induction h with
  | nil => exact .nil
  | cons _ hrest ih => exact .cons (fun _ he' => (hrest.mem hP he').1) ih

end Placed

theorem GlobalAt.le_address (g : Global) (n : Nat) (e : Entry) (h : GlobalAt g n e) :
    n ≤ e.address.toNat := by
  obtain ⟨t, -, -, hfirst⟩ := h.typed
  exact hfirst.le

theorem FunctionAt.le_address (f : Function) (n : Nat) (e : Entry) (h : FunctionAt f n e) :
    n ≤ e.address.toNat :=
  Nat.le_of_eq h.address.symm

/-! ### The data section -/

theorem toNat_ofInt (size : Int) (h : byteCount size < 2 ^ 64) :
    (UInt64.ofInt size).toNat = byteCount size := by
  unfold byteCount at h ⊢
  by_cases hsign : 0 ≤ size
  · rw [if_pos hsign] at h ⊢
    change (UInt64.ofNat (size % 2 ^ 64).toNat).toNat = _
    rw [UInt64.toNat_ofNat', Int.emod_eq_of_lt hsign (by omega), Nat.mod_eq_of_lt h]
  · rw [if_neg hsign]

theorem byteCount_lt_of_le {a b : Int} (hle : a ≤ b) (h : byteCount b < 2 ^ 64) :
    byteCount a < 2 ^ 64 := by
  unfold byteCount at h ⊢
  by_cases hsign : 0 ≤ a
  · rw [if_pos (by omega)] at h
    rw [if_pos hsign]
    omega
  · rw [if_neg hsign]
    exact UInt64.toNat_lt _

theorem size?_of_type {g : Global} {t : ValueType} (ht : g.type = some t) :
    g.size? = some (extent g t) := by
  unfold Virtual.Global.size?
  rw [ht]
  rfl

theorem bytes_le_extent (g : Global) (t : ValueType) : t.bytes ≤ extent g t := by
  unfold extent
  split
  · exact Int.le_max_left _ _
  · exact Int.le_refl _

theorem le_dataEnd (x : Nat) (gs : List Global) : x ≤ dataEnd x gs := by
  induction gs generalizing x with
  | nil => exact Nat.le_refl x
  | cons g gs ih =>
    unfold dataEnd
    cases g.type with
    | none => exact ih x
    | some t =>
      have := ih (x + padding x (byteCount t.bytes) + byteCount (extent g t))
      simp only
      omega

/-- A global is laid out at the first aligned address. -/
theorem exists_addGlobal (t : SymbolTable) {x : UInt64} {g : Global} {type : ValueType}
    (ht : g.type = some type)
    (h : Fits (x.toNat + padding x.toNat (byteCount type.bytes) + byteCount (extent g type))) :
    ∃ t' x' e, SymbolTable.addGlobal (t, x) g = .ok (t', x') ∧ Appends t t' [e] [g.name] ∧
      GlobalAt g x.toNat e ∧ x'.toNat = e.stop ∧
      e.stop = x.toNat + padding x.toNat (byteCount type.bytes) + byteCount (extent g type) := by
  have hlt := h.lt
  -- the size, the alignment and the aligned address as natural numbers
  have hsize := toNat_ofInt (extent g type) (by omega)
  have halign := toNat_ofInt type.bytes (byteCount_lt_of_le (bytes_le_extent g type) (by omega))
  have haddress := toNat_align (x := x) (a := UInt64.ofInt type.bytes)
    (by rw [halign]; exact h.mono (Nat.le_add_right _ _))
  rw [halign] at haddress
  obtain ⟨e, happends, hkind, hpart, hlinkage, hesize, headdress, hsplit⟩ :=
    exists_appends_add t .global g.linkage .data g.name (align x (UInt64.ofInt type.bytes))
      (UInt64.ofInt (extent g type)) (by rw [haddress]; exact h.mono (Nat.le_add_right _ _))
  have hstop : e.stop =
      x.toNat + padding x.toNat (byteCount type.bytes) + byteCount (extent g type) := by
    rw [Entry.stop, headdress, hesize, haddress, hsize]
  refine ⟨_, align x (UInt64.ofInt type.bytes) + UInt64.ofInt (extent g type), e, ?_, happends,
    ⟨hkind, hpart, hlinkage, hsplit, type, ht, ?_, ?_⟩, ?_, hstop⟩
  · unfold SymbolTable.addGlobal
    rw [ht, size?_of_type ht]
  · rw [hesize, hsize]
  · rw [headdress, haddress]
    exact isFirstAligned_padding _ _
  · rw [hstop, UInt64.toNat_add, haddress, hsize, Nat.mod_eq_of_lt (by omega)]

/-- All globals are laid out, one after the other. -/
theorem exists_foldlM_addGlobal (gs : List Global) (t : SymbolTable) (x : UInt64)
    (htyped : ∀ g ∈ gs, g.type ≠ none) (h : Fits (dataEnd x.toNat gs)) :
    ∃ t' x' es, gs.foldlM SymbolTable.addGlobal (t, x) = .ok (t', x') ∧
      Appends t t' es (gs.map Global.name) ∧ Placed GlobalAt x.toNat gs es x'.toNat ∧
      x'.toNat = dataEnd x.toNat gs := by
  induction gs generalizing t x with
  | nil => exact ⟨t, x, [], rfl, .refl t, .nil, rfl⟩
  | cons g gs ih =>
    obtain ⟨type, ht⟩ := Option.ne_none_iff_exists'.mp (htyped g List.mem_cons_self)
    simp only [dataEnd, ht] at h ⊢
    obtain ⟨t₁, x₁, e, hadd, happends, hglobal, hx₁, hstop⟩ :=
      exists_addGlobal t (x := x) ht (h.mono (le_dataEnd _ _))
    -- the rest of the globals is laid out from where this one stops
    rw [← hstop, ← hx₁] at h
    obtain ⟨t', x', es, hrun, happends', hplaced, hend⟩ :=
      ih t₁ x₁ (fun g' hg' => htyped g' (List.mem_cons_of_mem g hg')) h
    refine ⟨t', x', e :: es, ?_, happends.trans happends', .cons hglobal (hx₁ ▸ hplaced), ?_⟩
    · rw [List.foldlM_cons, hadd]
      exact hrun
    · rw [hend, hx₁, hstop]

/-! ### The code section -/

/-- A function is laid out right behind the code so far. -/
theorem exists_addFunction (t : SymbolTable) {x : UInt64} {f : Function}
    (h : Fits (x.toNat + 8 * f.code.length)) :
    ∃ t' x' e, SymbolTable.addFunction (t, x) f = (t', x') ∧ Appends t t' [e] [f.name] ∧
      FunctionAt f x.toNat e ∧ x'.toNat = e.stop ∧
      e.stop = x.toNat + 8 * f.code.length := by
  have hlt := h.lt
  -- the product does not wrap, since the end of the code fits
  have hsize : (UInt64.ofNat f.length * UInt64.ofNat instructionSize).toNat =
      8 * f.code.length := by
    have hcount : (UInt64.ofNat f.length).toNat = f.code.length := by
      rw [UInt64.toNat_ofNat', f.length_eq, Nat.mod_eq_of_lt (by omega)]
    rw [UInt64.toNat_mul, hcount]
    change f.code.length * 8 % 2 ^ 64 = _
    omega
  obtain ⟨e, happends, hkind, hpart, hlinkage, hesize, headdress, hsplit⟩ :=
    exists_appends_add t .function f.linkage .code f.name x
      (UInt64.ofNat f.length * UInt64.ofNat instructionSize) (h.mono (Nat.le_add_right _ _))
  have hstop : e.stop = x.toNat + 8 * f.code.length := by
    rw [Entry.stop, headdress, hesize, hsize]
  refine ⟨_, _, e, rfl, happends, ⟨hkind, hpart, hlinkage, hsplit, ?_, ?_⟩, ?_, hstop⟩
  · rw [hesize, hsize]
  · rw [headdress]
  · change (x + _).toNat = _
    rw [hstop, UInt64.toNat_add, hsize, Nat.mod_eq_of_lt (by omega)]

/-- All functions are laid out, one after the other. -/
theorem exists_foldl_addFunction (fs : List Function) (t : SymbolTable) (x : UInt64)
    (h : Fits (x.toNat + codeSize fs)) :
    ∃ t' x' es, fs.foldl SymbolTable.addFunction (t, x) = (t', x') ∧
      Appends t t' es (fs.map Function.name) ∧ Placed FunctionAt x.toNat fs es x'.toNat ∧
      x'.toNat = x.toNat + codeSize fs := by
  induction fs generalizing t x with
  | nil => exact ⟨t, x, [], rfl, .refl t, .nil, rfl⟩
  | cons f fs ih =>
    rw [codeSize, ← Nat.add_assoc] at h ⊢
    obtain ⟨t₁, x₁, e, hadd, happends, hfunction, hx₁, hstop⟩ :=
      exists_addFunction t (x := x) (f := f) (h.mono (Nat.le_add_right _ _))
    rw [← hstop, ← hx₁] at h
    obtain ⟨t', x', es, hrun, happends', hplaced, hend⟩ := ih t₁ x₁ h
    refine ⟨t', x', e :: es, ?_, happends.trans happends', .cons hfunction (hx₁ ▸ hplaced), ?_⟩
    · rw [List.foldl_cons, hadd]
      exact hrun
    · rw [hend, hx₁, hstop]

/-! ### Whole modules -/

/-- Both sections of a module are laid out, each from the address zero on. -/
theorem exists_ofModule (m : Module) (htyped : ∀ g ∈ m.globals, g.type ≠ none)
    (hdata : Fits (dataEnd 0 m.globals)) (hcode : Fits (codeSize m.functions)) :
    ∃ t x y ds cs, SymbolTable.ofModule m = .ok (t.withHeader x y) ∧
      Appends {} t (ds ++ cs) (symbolNames m) ∧ x.toNat = dataEnd 0 m.globals ∧
      y.toNat = codeSize m.functions ∧ Placed GlobalAt 0 m.globals ds x.toNat ∧
      Placed FunctionAt 0 m.functions cs y.toNat := by
  obtain ⟨t₁, x, ds, hglobals, hdataAppends, hdataPlaced, hx⟩ :=
    exists_foldlM_addGlobal m.globals {} 0 htyped hdata
  -- the functions have a section of their own, which begins at zero again
  obtain ⟨t₂, y, cs, hfunctions, hcodeAppends, hcodePlaced, hy⟩ :=
    exists_foldl_addFunction m.functions t₁ 0 (by simpa using hcode)
  refine ⟨t₂, x, y, ds, cs, ?_, hdataAppends.trans hcodeAppends, hx, ?_, hdataPlaced, hcodePlaced⟩
  · refine Fallible.bind_eq_ok.mpr ⟨(t₁, x), hglobals, ?_⟩
    simp only [hfunctions]
    rfl
  · simpa using hy

/-- The string section is counted right if its bytes can be counted in 32 bits. -/
theorem isPageCount_strings {t : SymbolTable} (h : t.strings.length < 2 ^ 32) :
    IsPageCount t.strings.length (pages (UInt64.ofNat t.strings.length)).toNat := by
  have hbytes : (UInt64.ofNat t.strings.length).toNat = t.strings.length := by
    rw [UInt64.toNat_ofNat', Nat.mod_eq_of_lt (by omega)]
  have hpages := isPageCount_pages (UInt64.ofNat t.strings.length) (by
    rw [hbytes, Fits, pageSize_eq]
    omega)
  rwa [hbytes] at hpages

/-- **A module whose globals have types and whose sections fit has a symbol table**, which lists the
globals and then the functions, each at its place. -/
theorem ofModule_laidOut (m : Module) (htyped : ∀ g ∈ m.globals, g.type ≠ none)
    (hdata : Fits (dataEnd 0 m.globals)) (hcode : Fits (codeSize m.functions))
    (hstrings : (stringSection (symbolNames m)).length < 2 ^ 32) :
    ∃ t ds cs, SymbolTable.ofModule m = .ok t ∧
      LaidOut m t ds cs (dataEnd 0 m.globals) (codeSize m.functions) := by
  obtain ⟨t, x, y, ds, cs, htable, happends, hx, hy, hdataPlaced, hcodePlaced⟩ :=
    exists_ofModule m htyped hdata hcode
  have hdataPages := isPageCount_pages x (by rw [hx]; exact hdata)
  have hcodePages := isPageCount_pages y (by rw [hy]; exact hcode)
  rw [hx] at hdataPages hdataPlaced
  rw [hy] at hcodePages hcodePlaced
  have hentries : t.entries = ds ++ cs := happends.entries
  have hsection : t.strings = stringSection (symbolNames m) := happends.strings
  rw [← hsection] at hstrings
  -- every symbol has a name, so there are no more symbols than bytes
  have hcount : t.entries.length ≤ t.strings.length := by
    have hle := length_le_stringSection (symbolNames m)
    rw [symbolNames, List.length_append, List.length_map, List.length_map] at hle
    rw [hsection, hentries, List.length_append, hdataPlaced.length_eq, hcodePlaced.length_eq]
    exact hle
  have hinData : ∀ e ∈ ds, e.stop ≤ (pages x).toNat * pageSize := fun e he =>
    Nat.le_trans (hdataPlaced.mem GlobalAt.le_address he).2 hdataPages.holds
  have hinCode : ∀ e ∈ cs, e.stop ≤ (pages y).toNat * pageSize := fun e he =>
    Nat.le_trans (hcodePlaced.mem FunctionAt.le_address he).2 hcodePages.holds
  exact ⟨t.withHeader x y, ds, cs, htable, {
    entries := hentries
    strings := hsection
    globals := hdataPlaced
    functions := hcodePlaced
    apart := hdataPlaced.pairwise GlobalAt.le_address
    inData := hinData
    inCode := hinCode
    dataPages := hdataPages
    codePages := hcodePages
    stringPages := isPageCount_strings hstrings
    symbols := (UInt32.toNat_ofNat' ..).trans (Nat.mod_eq_of_lt (by omega))
    stringBytes := (UInt32.toNat_ofNat' ..).trans (Nat.mod_eq_of_lt hstrings) }⟩

/-- A module with two globals, of which the first starts with an array of five bytes, and with a
function of one instruction and an empty one. -/
def sampleModule : Module where
  name := "sample"
  globals := [
    { name := "text", type := some .i16, linkage := .external,
      init := some (.array (some .i8) [1, 2, 3, 4, 5]) },
    { name := "count", type := some .i64, linkage := .hidden }]
  functions := [
    { name := "stop", linkage := .external,
      blocks := [{ id := 0, name := "entry", code := [{ opcode := .ret }] }] },
    { name := "empty", linkage := .hidden }]

theorem sampleModule_laidOut :
    (∀ g ∈ sampleModule.globals, g.type ≠ none) ∧ Fits (dataEnd 0 sampleModule.globals) ∧
      Fits (codeSize sampleModule.functions) ∧
      (stringSection (symbolNames sampleModule)).length < 2 ^ 32 ∧
      ∃ t ds cs, SymbolTable.ofModule sampleModule = .ok t ∧ LaidOut sampleModule t ds cs 16 8 :=
  ⟨by decide, by decide, by decide, by decide +kernel,
    ofModule_laidOut sampleModule (by decide) (by decide) (by decide) (by decide +kernel)⟩

end KernelIR.Container
