import KernelIR.Proofs.Table
import KernelIR.Source.Operand
import KernelIR.Source.Scope

/-!
# Register names and their numbers

A scope that is made by declarations and lines alone is tidy (`Scope.Tidy`): every declared register
is known by its name, and as long as the names are fewer than the numbers, they are numbered from
one on in the order in which they were met.  So different names have different numbers
(`Scope.Tidy.name_eq`).

Reading lines only adds names.  `Scope.Interns` says so: the second scope comes from the first by
numbering names.  What is known before is known behind (`Scope.Interns.idOf?`).
-/

namespace KernelIR.Source

namespace Scope

variable {s s' : Scope} {name : String}

/-! ### One name -/

/-- The largest number in use. -/
def highest (s : Scope) : UInt32 :=
  s.registers.foldl (fun last r => max last r.id) s.lastId

/-- The largest of some numbers is the first if it is not below the others. -/
theorem foldl_max_eq {rs : List Register} {last : UInt32} (h : ∀ r ∈ rs, r.id ≤ last) :
    rs.foldl (fun last r => max last r.id) last = last := by
  induction rs with
  | nil => rfl
  | cons r rs ih =>
    have hr : max last r.id = last := by
      show (if last ≤ r.id then r.id else last) = last
      split_ifs with hle
      · exact UInt32.le_antisymm (h r List.mem_cons_self) hle
      · rfl
    rw [List.foldl_cons, hr]
    exact ih fun r' hr' => h r' (List.mem_cons_of_mem _ hr')

theorem intern_of_known {id : UInt32} (h : s.idOf? name = some id) : s.intern name = (id, s) := by
  rw [intern, h]

theorem intern_of_new (h : s.idOf? name = none) :
    s.intern name = (s.highest + 1,
      { s with names := (name, s.highest + 1) :: s.names, lastId := s.highest + 1 }) := by
  rw [intern, h]
  rfl

/-- A name has its number from then on. -/
theorem idOf?_intern (s : Scope) (name : String) :
    (s.intern name).2.idOf? name = some (s.intern name).1 := by
  cases h : s.idOf? name with
  | some id => rw [intern_of_known h, h]
  | none =>
    rw [intern_of_new h]
    exact List.lookup_cons_self

/-- Other names keep their numbers. -/
theorem idOf?_intern_of_known {known : String} {id : UInt32} (h : s.idOf? known = some id)
    (name : String) : (s.intern name).2.idOf? known = some id := by
  cases hname : s.idOf? name with
  | some id' => rwa [intern_of_known hname]
  | none =>
    rw [intern_of_new hname]
    have hne : (known == name) = false := by
      rw [beq_eq_false_iff_ne]
      rintro rfl
      rw [hname] at h
      cases h
    show List.lookup known ((name, _) :: s.names) = some id
    rw [List.lookup_cons, hne]
    exact h

theorem registers_intern (s : Scope) (name : String) :
    (s.intern name).2.registers = s.registers := by
  cases h : s.idOf? name with
  | some id => rw [intern_of_known h]
  | none => rw [intern_of_new h]

theorem params_intern (s : Scope) (name : String) : (s.intern name).2.params = s.params := by
  cases h : s.idOf? name with
  | some id => rw [intern_of_known h]
  | none => rw [intern_of_new h]

/-! ### Numbering names -/

/-- The second scope comes from the first by numbering names. -/
inductive Interns : Scope → Scope → Prop
  | refl (s : Scope) : Interns s s
  | step {s s' : Scope} (name : String) : Interns s s' → Interns s (s'.intern name).2

namespace Interns

theorem one (s : Scope) (name : String) : s.Interns (s.intern name).2 :=
  .step name (.refl s)

theorem trans {s₁ s₂ s₃ : Scope} (h₁ : s₁.Interns s₂) (h₂ : s₂.Interns s₃) : s₁.Interns s₃ := by
  induction h₂ with
  | refl => exact h₁
  | step name _ ih => exact .step name ih

theorem registers (h : s.Interns s') : s'.registers = s.registers := by
  induction h with
  | refl => rfl
  | step name _ ih => rw [registers_intern, ih]

theorem params (h : s.Interns s') : s'.params = s.params := by
  induction h with
  | refl => rfl
  | step name _ ih => rw [params_intern, ih]

theorem isParam (h : s.Interns s') (name : String) : s'.isParam name = s.isParam name := by
  rw [Scope.isParam, Scope.isParam, h.params]

/-- **A known name keeps its number.** -/
theorem idOf? (h : s.Interns s') {known : String} {id : UInt32} (hid : s.idOf? known = some id) :
    s'.idOf? known = some id := by
  induction h with
  | refl => exact hid
  | step name _ ih => exact idOf?_intern_of_known ih name

end Interns

/-! ### Tidy scopes -/

/-- The scope is made by declarations and lines alone. -/
structure Tidy (s : Scope) : Prop where
  /-- a name is listed once -/
  nodup : (s.names.map Prod.fst).Nodup
  /-- declared registers are known by their names -/
  declared : ∀ r ∈ s.registers, s.idOf? r.name = some r.id
  /-- names are numbered in order, if there are enough numbers -/
  numbered : s.names.length < UInt32.size →
    s.lastId.toNat = s.names.length ∧
      s.names.map (fun e => e.2.toNat) = (List.range' 1 s.names.length).reverse

theorem tidy_empty : Tidy {} :=
  ⟨List.nodup_nil, fun _ hr => absurd hr List.not_mem_nil, fun _ => ⟨rfl, rfl⟩⟩

namespace Tidy

/-- No number is above that of the latest name. -/
theorem toNat_le (h : s.Tidy) (hsize : s.names.length < UInt32.size) {id : UInt32}
    (hid : s.idOf? name = some id) : id.toNat ≤ s.names.length := by
  have hmem : id.toNat ∈ s.names.map (fun e => e.2.toNat) :=
    List.mem_map_of_mem (f := fun e : String × UInt32 => e.2.toNat) (mem_of_lookup hid)
  rw [(h.numbered hsize).2, List.mem_reverse, List.mem_range'_1] at hmem
  omega

/-- The latest name has the largest number. -/
theorem highest_eq (h : s.Tidy) (hsize : s.names.length < UInt32.size) : s.highest = s.lastId := by
  refine foldl_max_eq fun r hr => ?_
  rw [UInt32.le_iff_toNat_le, (h.numbered hsize).1]
  exact h.toNat_le hsize (h.declared r hr)

theorem intern (h : s.Tidy) (name : String) : (s.intern name).2.Tidy := by
  cases hname : s.idOf? name with
  | some id => rwa [intern_of_known hname]
  | none =>
    have hdeclared : ∀ r ∈ (s.intern name).2.registers,
        (s.intern name).2.idOf? r.name = some r.id := by
      intro r hr
      rw [registers_intern] at hr
      exact idOf?_intern_of_known (h.declared r hr) name
    -- a new name is put in front, with the number behind the latest one
    rw [intern_of_new hname] at hdeclared ⊢
    refine ⟨?_, hdeclared, ?_⟩
    · refine List.nodup_cons.mpr ⟨?_, h.nodup⟩
      rw [← lookup_isSome_iff_mem]
      show ¬(s.idOf? name).isSome
      rw [hname]
      decide
    · intro hsize
      rw [List.length_cons] at hsize
      have hold : s.names.length < UInt32.size := by omega
      obtain ⟨hlast, hnumbers⟩ := h.numbered hold
      have hnew : (s.highest + 1).toNat = s.names.length + 1 := by
        rw [h.highest_eq hold, UInt32.toNat_add, hlast]
        exact Nat.mod_eq_of_lt hsize
      refine ⟨hnew, ?_⟩
      rw [List.map_cons, List.length_cons, hnumbers, hnew, List.range'_1_concat,
        List.reverse_append, Nat.add_comm 1]
      rfl

theorem interns (h : s.Tidy) (hs : s.Interns s') : s'.Tidy := by
  induction hs with
  | refl => exact h
  | step name _ ih => exact ih.intern name

theorem addParam (h : s.Tidy) (name : String) (type : DataType) : (s.addParam name type).Tidy :=
  ⟨h.nodup, h.declared, h.numbered⟩

theorem addRegister (h : s.Tidy) (name : String) (type : DataType) :
    (s.addRegister name type).Tidy := by
  have hs := h.intern name
  refine ⟨hs.nodup, ?_, hs.numbered⟩
  intro r hr
  rcases List.mem_append.mp hr with hr | hr
  · exact hs.declared r hr
  · rw [List.mem_singleton] at hr
    rw [hr]
    exact idOf?_intern s name

/-- **Different names have different numbers.** -/
theorem name_eq (h : s.Tidy) (hsize : s.names.length < UInt32.size) {name' : String} {id : UInt32}
    (hid : s.idOf? name = some id) (hid' : s.idOf? name' = some id) : name = name' := by
  -- as the numbers of the table are all different, the two entries are one
  have hnodup : (s.names.map (fun e => e.2.toNat)).Nodup := by
    rw [(h.numbered hsize).2, List.nodup_reverse]
    exact List.nodup_range'
  have heq := List.inj_on_of_nodup_map hnodup (mem_of_lookup hid) (mem_of_lookup hid') rfl
  exact congrArg Prod.fst heq

end Tidy

end Scope

/-- The scope knows the register by its name. -/
def RegisterUse.Bound (s : Scope) (r : RegisterUse) : Prop :=
  s.idOf? r.name = some r.id

theorem RegisterUse.Bound.interns {s s' : Scope} {r : RegisterUse} (h : r.Bound s)
    (hs : s.Interns s') : r.Bound s' :=
  hs.idOf? h

/-- Registers that a scope knows are the same if their names are. -/
theorem RegisterUse.Bound.id_eq_iff {s : Scope} (hs : s.Tidy) (hsize : s.names.length < UInt32.size)
    {r r' : RegisterUse} (h : r.Bound s) (h' : r'.Bound s) : r.id = r'.id ↔ r.name = r'.name := by
  constructor
  · intro hid
    unfold Bound at h'
    rw [← hid] at h'
    exact hs.name_eq hsize h h'
  · intro hname
    unfold Bound at h h'
    rw [hname, h'] at h
    exact (Option.some.inj h).symm

end KernelIR.Source
