import KernelIR.Proofs.Container.Layout
import KernelIR.Proofs.Table
import KernelIR.Proofs.Text.Utf8
import Mathlib.Data.List.TakeWhile

/-!
# The names of symbols

The string section holds the names of the symbols one after the other, each ended by a zero byte,
and an entry says where its name begins.  `ofModule_named`: what is read there is the name of the
symbol up to its first null character, and a name is looked up as the first symbol whose name, so
cut, it is.  If no name has a null character and none is repeated, reading and looking up are
inverse to each other.

The offsets are right because every symbol is added behind the names of all before it (`Lists.add`);
nothing about the data and the code is needed for that, so this holds also where their addresses
wrap around.
-/

namespace KernelIR.Container

open Virtual (Global Function Module)

/-- A name up to its first null character. -/
def cutName (name : String) : String :=
  String.ofList (name.toList.takeWhile (· ≠ '\x00'))

theorem cutName_eq_self {name : String} (h : '\x00' ∉ name.toList) : cutName name = name := by
  have hall : ∀ c ∈ name.toList, decide (c ≠ '\x00') = true := by
    intro c hc
    refine decide_eq_true ?_
    rintro rfl
    exact h hc
  rw [cutName, List.takeWhile_eq_self_iff.mpr hall, String.ofList_toList]

theorem bytes_cutName (name : String) (bs : List UInt8) :
    (Text.bytes name ++ 0 :: bs).takeWhile (· ≠ 0) = Text.bytes (cutName name) := by
  rw [Text.bytes, Text.takeWhile_bytes_append, Text.bytes, cutName, String.toList_ofList]

/-! ### The string section -/

theorem stringSection_append (names names' : List String) :
    stringSection (names ++ names') = stringSection names ++ stringSection names' :=
  List.flatMap_append

/-- The string section from the `i`-th name on. -/
theorem drop_stringSection (names : List String) (i : Nat) :
    (stringSection names).drop (stringSection (names.take i)).length =
      stringSection (names.drop i) := by
  conv_lhs => rw [← List.take_append_drop i names, stringSection_append]
  rw [List.take_append_drop, List.drop_left]

theorem length_stringSection_take_le (names : List String) (i : Nat) :
    (stringSection (names.take i)).length ≤ (stringSection names).length := by
  conv_rhs => rw [← List.take_append_drop i names, stringSection_append, List.length_append]
  omega

/-- The table has an entry for each of the names, which says where the name begins. -/
structure Lists (t : SymbolTable) (names : List String) : Prop where
  strings : t.strings = stringSection names
  length : t.entries.length = names.length
  offset : ∀ i e, t.entries[i]? = some e →
    e.nameOffset = UInt32.ofNat (stringSection (names.take i)).length

theorem lists_empty : Lists {} [] :=
  ⟨rfl, rfl, fun i e he => by cases he⟩

section Lists

variable {t : SymbolTable} {names : List String}

/-- A symbol that is added has its name behind all others. -/
theorem Lists.add (h : Lists t names) (kind : SymbolKind) (linkage : Virtual.Linkage)
    (part : Section) (name : String) (address size : UInt64) :
    Lists (t.add kind linkage part name address size) (names ++ [name]) := by
  refine ⟨?_, ?_, fun i e he => ?_⟩
  · rw [stringSection_append, ← h.strings]
    simp [SymbolTable.add, stringSection]
  · simp [SymbolTable.add, h.length]
  · have hentries : (t.entries ++ [_])[i]? = some e := he
    rcases Nat.lt_or_ge i t.entries.length with hi | hi
    · rw [List.getElem?_append_left hi] at hentries
      rw [List.take_append_of_le_length (by rw [← h.length]; omega)]
      exact h.offset i e hentries
    · -- the last entry begins where the names so far end
      rw [List.getElem?_append_right hi] at hentries
      have hlast := (List.getElem?_eq_some_iff.mp hentries).1
      rw [List.length_singleton] at hlast
      have hi' : i = t.entries.length := by omega
      rw [hi', Nat.sub_self] at hentries
      cases hentries
      rw [hi', h.length, List.take_left, ← h.strings]

/-- The bytes of the names are found where the entries say, each up to its first zero. -/
theorem Lists.nameBytes (h : Lists t names) (hsize : (stringSection names).length < 2 ^ 32) :
    t.entries.map t.nameBytes = names.map fun name => Text.bytes (cutName name) := by
  refine List.ext_getElem (by simp [h.length]) fun i hi hi' => ?_
  rw [List.length_map] at hi hi'
  rw [List.getElem_map, List.getElem_map]
  have hoffset := h.offset i _ (List.getElem?_eq_getElem hi)
  have hlt := length_stringSection_take_le names i
  rw [SymbolTable.nameBytes, hoffset, UInt32.toNat_ofNat', Nat.mod_eq_of_lt (by omega), h.strings,
    drop_stringSection, List.drop_eq_getElem_cons hi', stringSection, List.flatMap_cons,
    List.append_assoc]
  exact bytes_cutName _ _

/-- **The names that are read from a table** are those that it was made for, each up to its first
null character. -/
theorem Lists.nameOf (h : Lists t names) (hsize : (stringSection names).length < 2 ^ 32) :
    t.entries.map t.nameOf = names.map cutName := by
  have hdecode : t.entries.map t.nameOf =
      (t.entries.map t.nameBytes).map fun bs => String.ofList (Text.decodeLossy bs) := by
    rw [List.map_map]
    rfl
  rw [hdecode, h.nameBytes hsize, List.map_map]
  refine List.map_congr_left fun name _ => ?_
  show String.ofList (Text.decodeLossy (Text.bytes (cutName name))) = cutName name
  rw [Text.decodeLossy_bytes, String.ofList_toList]

/-- **A name is looked up** as the first one that is equal to it up to its first null character. -/
theorem Lists.find? (h : Lists t names) (hsize : (stringSection names).length < 2 ^ 32)
    (n : String) : t.find? n = names.findIdx? fun name => cutName name = n := by
  have hbytes : t.find? n = (t.entries.map t.nameBytes).findIdx? fun bs => bs = Text.bytes n := by
    rw [List.findIdx?_map]
    rfl
  have heq : ∀ name, decide (Text.bytes (cutName name) = Text.bytes n) = decide (cutName name = n) := by
    intro name
    rw [decide_eq_decide]
    exact Text.bytes_inj
  rw [hbytes, h.nameBytes hsize, List.findIdx?_map]
  simp only [Function.comp_def, heq]

/-- A global of some type is added under its name, wherever it comes to lie. -/
theorem Lists.addGlobal {x : UInt64} {g : Global} (h : Lists t names) (htyped : g.type ≠ none) :
    ∃ acc, SymbolTable.addGlobal (t, x) g = .ok acc ∧ Lists acc.1 (names ++ [g.name]) := by
  obtain ⟨type, ht⟩ := Option.ne_none_iff_exists'.mp htyped
  have hadd : SymbolTable.addGlobal (t, x) g =
      .ok (t.add .global g.linkage .data g.name (align x (UInt64.ofInt type.bytes))
        (UInt64.ofInt (extent g type)),
        align x (UInt64.ofInt type.bytes) + UInt64.ofInt (extent g type)) := by
    unfold SymbolTable.addGlobal
    rw [ht, size?_of_type ht]
  exact ⟨_, hadd, h.add ..⟩

/-- Adding the globals lists their names. -/
theorem Lists.foldlM_addGlobal {x : UInt64} (gs : List Global) (h : Lists t names)
    (htyped : ∀ g ∈ gs, g.type ≠ none) :
    ∃ acc, gs.foldlM SymbolTable.addGlobal (t, x) = .ok acc ∧
      Lists acc.1 (names ++ gs.map Global.name) := by
  induction gs generalizing t x names with
  | nil => exact ⟨(t, x), rfl, by rwa [List.map_nil, List.append_nil]⟩
  | cons g gs ih =>
    obtain ⟨⟨t₁, x₁⟩, hadd, h₁⟩ := h.addGlobal (x := x) (htyped g List.mem_cons_self)
    obtain ⟨acc, hrun, hacc⟩ := ih h₁ fun g' hg' => htyped g' (List.mem_cons_of_mem g hg')
    refine ⟨acc, ?_, ?_⟩
    · rw [List.foldlM_cons, hadd]
      exact hrun
    · rw [List.map_cons, List.append_cons]
      exact hacc

/-- Adding the functions lists their names. -/
theorem Lists.foldl_addFunction {x : UInt64} (fs : List Function) (h : Lists t names) :
    Lists (fs.foldl SymbolTable.addFunction (t, x)).1 (names ++ fs.map Function.name) := by
  induction fs generalizing t x names with
  | nil => rwa [List.map_nil, List.append_nil]
  | cons f fs ih =>
    rw [List.foldl_cons, List.map_cons, List.append_cons]
    exact ih (h.add ..)

end Lists

/-! ### Whole modules -/

/-- The table of a module whose globals have types lists the names of its symbols. -/
theorem exists_ofModule_lists (m : Module) (htyped : ∀ g ∈ m.globals, g.type ≠ none) :
    ∃ t, SymbolTable.ofModule m = .ok t ∧ Lists t (symbolNames m) := by
  obtain ⟨⟨t₁, x⟩, hglobals, h₁⟩ := lists_empty.foldlM_addGlobal (x := 0) m.globals htyped
  rw [List.nil_append] at h₁
  have h₂ := h₁.foldl_addFunction (x := 0) m.functions
  refine ⟨(m.functions.foldl SymbolTable.addFunction (t₁, 0)).1.withHeader x
    (m.functions.foldl SymbolTable.addFunction (t₁, 0)).2, ?_, h₂.strings, h₂.length, h₂.offset⟩
  exact Fallible.bind_eq_ok.mpr ⟨(t₁, x), hglobals, rfl⟩

/-- The names of a module in its symbol table. -/
structure Named (m : Module) (t : SymbolTable) : Prop where
  /-- the names of globals and then of functions, each ended by a zero byte -/
  strings : t.strings = stringSection (symbolNames m)
  /-- every entry has the name of its symbol, up to the first null character -/
  names : t.entries.map t.nameOf = (symbolNames m).map cutName
  /-- a name is looked up as the first symbol that has it, up to the first null character -/
  find? : ∀ n, t.find? n = (symbolNames m).findIdx? fun name => cutName name = n
  /-- names that are different and have no null character are looked up as the entries that have
  them -/
  inverse : (symbolNames m).Nodup → (∀ name ∈ symbolNames m, '\x00' ∉ name.toList) →
    ∀ i e, t.entries[i]? = some e → ∀ n, t.find? n = some i ↔ t.nameOf e = n

/-- **A module whose globals have types and whose names fit has a symbol table from which its names
can be read and in which they are found.** -/
theorem ofModule_named (m : Module) (htyped : ∀ g ∈ m.globals, g.type ≠ none)
    (hsize : (stringSection (symbolNames m)).length < 2 ^ 32) :
    ∃ t, SymbolTable.ofModule m = .ok t ∧ Named m t := by
  obtain ⟨t, ht, h⟩ := exists_ofModule_lists m htyped
  have hnames := h.nameOf hsize
  refine ⟨t, ht, h.strings, hnames, h.find? hsize, fun hnodup hnull i e he n => ?_⟩
  -- nothing is cut off, so the entry has the name of the symbol in its place
  have hcut : (symbolNames m).map cutName = symbolNames m :=
    (List.map_congr_left fun name hname => cutName_eq_self (hnull name hname)).trans (List.map_id _)
  have hname : (symbolNames m)[i]? = some (t.nameOf e) := by
    rw [← hcut, ← hnames, List.getElem?_map, he]
    rfl
  have hfind : t.find? n = ((symbolNames m).map cutName).findIdx? fun name => name = n := by
    rw [h.find? hsize, List.findIdx?_map]
    rfl
  rw [hfind, hcut, findIdx?_eq_some_iff_of_nodup hnodup, hname, Option.some_inj]

/-- A module with a null character in a name, an empty name, a name that is the end of another and
one that is the part of another before its null character. -/
def overlappingModule : Module where
  name := "overlapping"
  globals := [
    { name := "ab\x00c", type := some .i32, linkage := .external },
    { name := "", type := some .i8, linkage := .hidden }]
  functions := [{ name := "b", linkage := .external }, { name := "ab", linkage := .hidden }]

theorem overlappingModule_named :
    (∀ g ∈ overlappingModule.globals, g.type ≠ none) ∧
      (stringSection (symbolNames overlappingModule)).length < 2 ^ 32 ∧
      ∃ t, SymbolTable.ofModule overlappingModule = .ok t ∧ Named overlappingModule t ∧
        t.find? "ab" = some 0 ∧ t.find? "" = some 1 ∧ t.find? "c" = none := by
  have htyped : ∀ g ∈ overlappingModule.globals, g.type ≠ none := by decide
  have hsize : (stringSection (symbolNames overlappingModule)).length < 2 ^ 32 := by decide +kernel
  obtain ⟨t, ht, hnamed⟩ := ofModule_named overlappingModule htyped hsize
  refine ⟨htyped, hsize, t, ht, hnamed, ?_, ?_, ?_⟩
  · rw [hnamed.find?]
    decide +kernel
  · rw [hnamed.find?]
    decide +kernel
  · rw [hnamed.find?]
    decide +kernel

end KernelIR.Container
