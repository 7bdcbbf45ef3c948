import Mathlib.Data.List.Forall2

/-!
# Steps that can fail

What it means that a composed step succeeds: both parts of a sequence do (`bind_eq_ok`), every
element of a list does (`mapM_eq_ok`), and a property that each step of a fold keeps holds at its
end (`foldlM_keeps`, `foldlM_history`).  `FailsOnly P` says of a step that all its errors have the
property `P`; what composed steps can fail with is what their parts can fail with.
-/

namespace KernelIR.Fallible

variable {ε ε' α β : Type}

theorem bind_eq_ok {x : Except ε α} {f : α → Except ε β} {b : β} :
    x >>= f = .ok b ↔ ∃ a, x = .ok a ∧ f a = .ok b := by
  cases x with
  | error e =>
    refine ⟨fun h => ?_, ?_⟩
    · cases h
    · rintro ⟨a, ha, -⟩
      cases ha
  | ok a =>
    refine ⟨fun h => ⟨a, rfl, h⟩, ?_⟩
    rintro ⟨a', ha, h⟩
    cases ha
    exact h

theorem bind_eq_error {x : Except ε α} {f : α → Except ε β} {e : ε} :
    x >>= f = .error e ↔ x = .error e ∨ ∃ a, x = .ok a ∧ f a = .error e := by
  cases x with
  | error e' =>
    refine ⟨fun h => ?_, ?_⟩
    · cases h
      exact .inl rfl
    · rintro (h | ⟨a, ha, -⟩)
      · cases h
        rfl
      · cases ha
  | ok a =>
    refine ⟨fun h => .inr ⟨a, rfl, h⟩, ?_⟩
    rintro (h | ⟨a', ha, h⟩)
    · cases h
    · cases ha
      exact h

theorem map_eq_ok {x : Except ε α} {f : α → β} {b : β} :
    x.map f = .ok b ↔ ∃ a, x = .ok a ∧ f a = b := by
  cases x with
  | error e => simp [Except.map]
  | ok a => simp [Except.map]

/-- A mapped step succeeds with a property that does not depend on its result. -/
theorem exists_map_eq_ok_and {x : Except ε α} {f : α → β} {Q : β → Prop} {R : Prop}
    (hQ : ∀ a, Q (f a) ↔ R) : (∃ b, x.map f = .ok b ∧ Q b) ↔ (∃ a, x = .ok a) ∧ R := by
  simp only [map_eq_ok]
  constructor
  · rintro ⟨_, ⟨a, ha, rfl⟩, hb⟩
    exact ⟨⟨a, ha⟩, (hQ a).mp hb⟩
  · rintro ⟨⟨a, ha⟩, hR⟩
    exact ⟨f a, ⟨a, ha, rfl⟩, (hQ a).mpr hR⟩

theorem mapError_eq_ok {x : Except ε α} {f : ε → ε'} {a : α} :
    x.mapError f = .ok a ↔ x = .ok a := by
  cases x with
  | error e => simp [Except.mapError]
  | ok a => simp [Except.mapError]

theorem mapError_eq_error {x : Except ε α} {f : ε → ε'} {e' : ε'} :
    x.mapError f = .error e' ↔ ∃ e, x = .error e ∧ f e = e' := by
  cases x with
  | error e => simp [Except.mapError]
  | ok a => simp [Except.mapError]

theorem toOption_eq_some {x : Except ε α} {a : α} : x.toOption = some a ↔ x = .ok a := by
  cases x with
  | error e => simp [Except.toOption]
  | ok a => simp [Except.toOption]

theorem toOption_bind (x : Except ε α) (f : α → Except ε β) :
    (x >>= f).toOption = x.toOption.bind fun a => (f a).toOption := by
  cases x <;> rfl

/-- A list succeeds element by element. -/
theorem mapM_eq_ok {f : α → Except ε β} {xs : List α} {ys : List β} :
    xs.mapM f = .ok ys ↔ List.Forall₂ (fun x y => f x = .ok y) xs ys := by
  induction xs generalizing ys with
  | nil =>
    rw [List.mapM_nil, List.forall₂_nil_left_iff]
    exact ⟨fun h => by cases h; rfl, fun h => by rw [h]; rfl⟩
  | cons x xs ih =>
    rw [List.mapM_cons, bind_eq_ok, List.forall₂_cons_left_iff]
    constructor
    · rintro ⟨y, hy, h⟩
      obtain ⟨zs, hzs, h⟩ := bind_eq_ok.mp h
      cases h
      exact ⟨y, zs, hy, ih.mp hzs, rfl⟩
    · rintro ⟨y, zs, hy, hzs, rfl⟩
      exact ⟨y, hy, bind_eq_ok.mpr ⟨zs, ih.mpr hzs, rfl⟩⟩

theorem exists_mapM_eq_ok {f : α → Except ε β} {xs : List α} :
    (∃ ys, xs.mapM f = .ok ys) ↔ ∀ x ∈ xs, ∃ y, f x = .ok y := by
  simp only [mapM_eq_ok]
  induction xs with
  | nil => simp
  | cons x xs ih =>
    rw [List.forall_mem_cons, ← ih]
    constructor
    · rintro ⟨ys, hys⟩
      obtain ⟨y, zs, hy, hzs, -⟩ := List.forall₂_cons_left_iff.mp hys
      exact ⟨⟨y, hy⟩, zs, hzs⟩
    · rintro ⟨⟨y, hy⟩, ys, hys⟩
      exact ⟨y :: ys, .cons hy hys⟩

/-- A fold over two lists goes through one and then through the other. -/
theorem foldlM_append_ok {f : α → β → Except ε α} {x y z : α} {bs cs : List β}
    (h₁ : bs.foldlM f x = .ok y) (h₂ : cs.foldlM f y = .ok z) : (bs ++ cs).foldlM f x = .ok z := by
  rw [List.foldlM_append, h₁]
  exact h₂

/-- What every step of a fold keeps holds at its end. -/
theorem foldlM_keeps {f : α → β → Except ε α} {P : α → Prop}
    (hstep : ∀ a b a', f a b = .ok a' → P a → P a') {bs : List β} {a a' : α}
    (h : bs.foldlM f a = .ok a') (ha : P a) : P a' := by
  induction bs generalizing a with
  | nil =>
    cases h
    exact ha
  | cons b bs ih =>
    rw [List.foldlM_cons, bind_eq_ok] at h
    obtain ⟨a1, hb, h⟩ := h
    exact ih h (hstep a b a1 hb ha)

/-- A property of a fold and of what it has gone through holds of all at its end. -/
theorem foldlM_history {f : α → β → Except ε α} {P : List β → α → Prop}
    (hstep : ∀ bs b a a', f a b = .ok a' → P bs a → P (bs ++ [b]) a') {bs : List β} {a a' : α}
    (h : bs.foldlM f a = .ok a') (ha : P [] a) : P bs a' := by
  suffices hdone : ∀ done, P done a → P (done ++ bs) a' from hdone [] ha
  clear ha
  induction bs generalizing a with
  | nil =>
    cases h
    intro done hdone
    rwa [List.append_nil]
  | cons b bs ih =>
    rw [List.foldlM_cons, bind_eq_ok] at h
    obtain ⟨a1, hb, h⟩ := h
    intro done hdone
    have hrest := ih h (done ++ [b]) (hstep done b a a1 hb hdone)
    rwa [List.append_assoc] at hrest

/-- A list fails at one of its elements. -/
theorem exists_of_mapM_eq_error {f : α → Except ε β} {xs : List α} {e : ε}
    (h : xs.mapM f = .error e) : ∃ x ∈ xs, f x = .error e := by
  induction xs with
  | nil => cases h
  | cons x xs ih =>
    rw [List.mapM_cons] at h
    rcases bind_eq_error.mp h with hx | ⟨y, -, h⟩
    · exact ⟨x, List.mem_cons_self, hx⟩
    · rcases bind_eq_error.mp h with hxs | ⟨ys, -, h⟩
      · obtain ⟨x', hmem, hx'⟩ := ih hxs
        exact ⟨x', List.mem_cons_of_mem x hmem, hx'⟩
      · cases h

/-- A fold fails at one of its elements, after those in front of it. -/
theorem exists_of_foldlM_eq_error {f : α → β → Except ε α} {bs : List β} {a : α} {e : ε}
    (h : bs.foldlM f a = .error e) :
    ∃ done b rest a', bs = done ++ b :: rest ∧ done.foldlM f a = .ok a' ∧ f a' b = .error e := by
  induction bs generalizing a with
  | nil => cases h
  | cons b bs ih =>
    rw [List.foldlM_cons] at h
    rcases bind_eq_error.mp h with hb | ⟨a1, hb, h⟩
    · exact ⟨[], b, bs, a, rfl, rfl, hb⟩
    · obtain ⟨done, b', rest, a', rfl, hdone, hb'⟩ := ih h
      refine ⟨b :: done, b', rest, a', rfl, ?_, hb'⟩
      rw [List.foldlM_cons]
      exact bind_eq_ok.mpr ⟨a1, hb, hdone⟩

/-! ### Which errors -/

section FailsOnly

variable {P : ε → Prop} {x : Except ε α}

/-- All errors of a step have the property. -/
def FailsOnly (P : ε → Prop) (x : Except ε α) : Prop :=
  ∀ e, x = .error e → P e

theorem failsOnly_ok (P : ε → Prop) (a : α) : FailsOnly P (.ok a) := by
  intro e h
  cases h

theorem failsOnly_error {e : ε} (h : P e) : FailsOnly P (.error e : Except ε α) := by
  intro e' h'
  cases h'
  exact h

theorem FailsOnly.bind {f : α → Except ε β} (hx : FailsOnly P x)
    (hf : ∀ a, x = .ok a → FailsOnly P (f a)) : FailsOnly P (x >>= f) := by
  cases x with
  | error e => exact failsOnly_error (hx e rfl)
  | ok a => exact hf a rfl

theorem FailsOnly.map {f : α → β} (hx : FailsOnly P x) : FailsOnly P (x.map f) := by
  cases x with
  | error e => exact failsOnly_error (hx e rfl)
  | ok a => exact failsOnly_ok P (f a)

theorem FailsOnly.mapError {Q : ε' → Prop} {g : ε → ε'} (hx : FailsOnly P x)
    (hg : ∀ e, P e → Q (g e)) : FailsOnly Q (x.mapError g) := by
  cases x with
  | error e => exact failsOnly_error (hg e (hx e rfl))
  | ok a => exact failsOnly_ok Q a

theorem FailsOnly.mapM {f : α → Except ε β} (hf : ∀ a, FailsOnly P (f a)) (xs : List α) :
    FailsOnly P (xs.mapM f) := by
  induction xs with
  | nil => exact failsOnly_ok P []
  | cons x xs ih =>
    rw [List.mapM_cons]
    refine (hf x).bind fun y _ => ih.bind fun ys _ => ?_
    exact failsOnly_ok P (y :: ys)

theorem FailsOnly.foldlM {f : α → β → Except ε α} (hf : ∀ a b, FailsOnly P (f a b)) (bs : List β)
    (a : α) : FailsOnly P (bs.foldlM f a) := by
  induction bs generalizing a with
  | nil => exact failsOnly_ok P a
  | cons b bs ih =>
    rw [List.foldlM_cons]
    exact (hf a b).bind fun a' _ => ih a'

end FailsOnly

end KernelIR.Fallible
