import KernelIR.Lowering.Kernel
import KernelIR.Proofs.Text.Numeral
import Mathlib.Data.List.Nodup

/-!
# Names of registers

A register of a function is named in one of three ways: a declared one by a stem and a number, one
that stands for a special register by the name of that and its lane, and one for a result that
nobody wants by its number alone.  A stem is distinctive if the first way cannot give what the other
two give (`Distinctive`).  Only one name of a special register ends in a digit, so there is not much
to avoid.  Within each way different numbers, or registers and lanes, have different names.
-/

namespace KernelIR

/-! ### Decimal numbers -/

namespace Text

theorem isDigit_of_mem_decimal {n : Nat} {c : Char} (hc : c ∈ (decimal n).toList) :
    c.isDigit = true := by
  rw [toList_decimal] at hc
  exact Nat.isDigit_of_mem_toDigits (by decide) (le_refl 10) hc

theorem toList_decimal_ne_nil (n : Nat) : (decimal n).toList ≠ [] := by
  rw [toList_decimal]
  exact Nat.toDigits_ne_nil

/-- Different numbers have different numerals, for they are read back. -/
theorem decimal_inj {n m : Nat} (h : decimal n = decimal m) : n = m := by
  have hread := congrArg (fun s => Nat.ofDigitChars 10 (String.toList s) 0) h
  simpa [toList_decimal] using hread

end Text

/-! ### Special registers -/

/-- The special registers with the lanes that lines can spell. -/
def Source.Special.lanes : List (Source.Special × Source.Lane) :=
  Special.named.flatMap fun r => if r.isVector then [(r, .x), (r, .y), (r, .z)] else [(r, .x)]

theorem Source.Special.mem_lanes {r : Source.Special} {lane : Source.Lane} (hr : r ∈ Special.named)
    (hlane : if r.isVector then lane ∈ [Lane.x, .y, .z] else lane = .x) : (r, lane) ∈ lanes := by
  refine List.mem_flatMap.mpr ⟨r, hr, ?_⟩
  split_ifs at hlane ⊢ with hvector
  · simpa using hlane
  · rw [hlane]
    exact List.mem_singleton_self _

namespace Lowering

open Source (Special)

/-- Different special registers and lanes are told apart by their keys. -/
theorem specialKey_inj {p q : Special × Source.Lane} (hp : p ∈ Special.lanes)
    (hq : q ∈ Special.lanes) (h : specialKey p.1 p.2 = specialKey q.1 q.2) : p = q := by
  have hnodup : (Special.lanes.map fun e => specialKey e.1 e.2).Nodup := by decide
  exact List.inj_on_of_nodup_map hnodup hp hq h

/-- Different special registers and lanes have different names. -/
theorem specialName_inj {p q : Special × Source.Lane} (hp : p ∈ Special.lanes)
    (hq : q ∈ Special.lanes) (h : specialName p.1 p.2 = specialName q.1 q.2) : p = q := by
  have hnodup : (Special.lanes.map fun e => specialName e.1 e.2).Nodup := by decide
  exact List.inj_on_of_nodup_map hnodup hp hq h

/-- No special register has digits alone for a name. -/
theorem exists_not_isDigit_specialName {p : Special × Source.Lane} (hp : p ∈ Special.lanes) :
    ∃ c ∈ (specialName p.1 p.2).toList, c.isDigit = false := by
  have hall : ∀ p ∈ Special.lanes,
      (specialName p.1 p.2).toList.any (fun c => !c.isDigit) = true := by
    decide
  simpa using hall p hp

/-- Only `clock64` ends in a digit. -/
theorem specialName_eq_clock64 {p : Special × Source.Lane} (hp : p ∈ Special.lanes) {c : Char}
    (hc : (specialName p.1 p.2).toList.getLast? = some c) (hdigit : c.isDigit = true) :
    specialName p.1 p.2 = "clock64" := by
  have hall : ∀ p ∈ Special.lanes, (specialName p.1 p.2).toList.getLast?.any Char.isDigit = true →
      specialName p.1 p.2 = "clock64" := by
    decide
  refine hall p hp ?_
  rw [hc]
  exact hdigit

/-! ### Stems -/

/-- With digits behind it, the stem becomes neither a number nor the name of a special register. -/
structure Distinctive (stem : String) : Prop where
  nondigit : ∃ c ∈ stem.toList, c.isDigit = false
  clock : ∀ ds : List Char, ds ≠ [] → (∀ c ∈ ds, c.isDigit = true) →
    stem.toList ++ ds ≠ "clock64".toList

variable {stem : String}

theorem stem_decimal_inj {n m : Nat} (h : stem ++ Text.decimal n = stem ++ Text.decimal m) :
    n = m := by
  have hlist := congrArg String.toList h
  rw [String.toList_append, String.toList_append] at hlist
  exact Text.decimal_inj (String.toList_injective (List.append_cancel_left hlist))

theorem stem_decimal_ne_empty (n : Nat) : stem ++ Text.decimal n ≠ "" := by
  intro h
  have hlist := congrArg String.toList h
  rw [String.toList_append] at hlist
  exact Text.toList_decimal_ne_nil n (List.append_eq_nil_iff.mp hlist).2

theorem Distinctive.ne_decimal (h : Distinctive stem) (n m : Nat) :
    stem ++ Text.decimal n ≠ Text.decimal m := by
  intro heq
  obtain ⟨c, hc, hdigit⟩ := h.nondigit
  have hmem : c ∈ (Text.decimal m).toList := by
    rw [← heq, String.toList_append]
    exact List.mem_append_left _ hc
  rw [Text.isDigit_of_mem_decimal hmem] at hdigit
  cases hdigit

theorem specialName_ne_decimal {p : Special × Source.Lane} (hp : p ∈ Special.lanes) (n : Nat) :
    specialName p.1 p.2 ≠ Text.decimal n := by
  intro heq
  obtain ⟨c, hc, hdigit⟩ := exists_not_isDigit_specialName hp
  rw [heq] at hc
  rw [Text.isDigit_of_mem_decimal hc] at hdigit
  cases hdigit

theorem specialName_ne_empty {p : Special × Source.Lane} (hp : p ∈ Special.lanes) :
    specialName p.1 p.2 ≠ "" := by
  intro heq
  obtain ⟨c, hc, -⟩ := exists_not_isDigit_specialName hp
  rw [heq] at hc
  cases hc

/-- A declared register is not named like a special one. -/
theorem Distinctive.ne_specialName (h : Distinctive stem) (n : Nat) {p : Special × Source.Lane}
    (hp : p ∈ Special.lanes) : stem ++ Text.decimal n ≠ specialName p.1 p.2 := by
  intro heq
  -- the name ends in a digit, so it can only be one
  obtain ⟨c, hc⟩ := Option.isSome_iff_exists.mp
    (List.getLast?_isSome.mpr (Text.toList_decimal_ne_nil n))
  have hlast : (specialName p.1 p.2).toList.getLast? = some c := by
    rw [← heq, String.toList_append, List.getLast?_append, hc]
    rfl
  have hclock := specialName_eq_clock64 hp hlast
    (Text.isDigit_of_mem_decimal (List.mem_of_getLast? hc))
  refine h.clock _ (Text.toList_decimal_ne_nil n) (fun c hc => Text.isDigit_of_mem_decimal hc) ?_
  rw [← String.toList_append, heq, hclock]

end Lowering

end KernelIR
