import Mathlib.Data.List.Forall2
import Mathlib.Data.List.GetD
import Mathlib.Data.List.InsertIdx

/-!
# Lists

Facts about lists that do not depend on what stands in them.  Two lists are related if they have the
same length and the elements at each place are; the first part carries facts from the elements of
one list over to those of the other.  The second part is about lists that are changed at one place,
or taken apart at one.
-/

namespace KernelIR

/-! ### Related lists -/

/-- Related lists have the same values where related elements have. -/
theorem map_eq_of_forall₂ {α β γ : Type} {R : α → β → Prop} {p : α → γ} {q : β → γ}
    (hpq : ∀ x y, R x y → q y = p x) {xs : List α} {ys : List β} (h : List.Forall₂ R xs ys) :
    ys.map q = xs.map p := by
  induction h with
  | nil => rfl
  | cons hxy _ ih => rw [List.map_cons, List.map_cons, ih, hpq _ _ hxy]

/-- The elements at one place of related lists are related. -/
theorem forall₂_getElem? {α β : Type} {R : α → β → Prop} {xs : List α} {ys : List β}
    (h : List.Forall₂ R xs ys) {t : Nat} {x : α} (hx : xs[t]? = some x) :
    ∃ y, ys[t]? = some y ∧ R x y := by
  obtain ⟨hlt, rfl⟩ := List.getElem?_eq_some_iff.mp hx
  have hlt' : t < ys.length := by rw [← h.length_eq]; exact hlt
  exact ⟨ys[t], List.getElem?_eq_getElem hlt', h.get hlt hlt'⟩

theorem exists_of_forall₂_left {α β : Type} {R : α → β → Prop} {xs : List α} {ys : List β}
    (h : List.Forall₂ R xs ys) {x : α} (hx : x ∈ xs) : ∃ y ∈ ys, R x y := by
  obtain ⟨t, ht⟩ := List.mem_iff_getElem?.mp hx
  obtain ⟨y, hy, hxy⟩ := forall₂_getElem? h ht
  exact ⟨y, List.mem_of_getElem? hy, hxy⟩

theorem exists_of_forall₂_right {α β : Type} {R : α → β → Prop} {xs : List α} {ys : List β}
    (h : List.Forall₂ R xs ys) {y : β} (hy : y ∈ ys) : ∃ x ∈ xs, R x y :=
  exists_of_forall₂_left (R := fun y x => R x y) h.flip hy

/-- Relations between three lists are composed element by element. -/
theorem forall₂_comp {α β γ : Type} {R : α → β → Prop} {S : β → γ → Prop} {Q : α → γ → Prop}
    (hRS : ∀ x y z, R x y → S y z → Q x z) {xs : List α} {ys : List β} {zs : List γ}
    (hxy : List.Forall₂ R xs ys) (hyz : List.Forall₂ S ys zs) : List.Forall₂ Q xs zs := by
  induction hxy generalizing zs with
  | nil =>
    cases hyz
    exact .nil
  | cons hx _ ih =>
    cases hyz with
    | cons hy hyz => exact .cons (hRS _ _ _ hx hy) (ih hyz)

/-- What holds of all elements of a list holds of all elements of a related one, where it holds of
related elements alike. -/
theorem forall_mem_iff_of_forall₂ {α β : Type} {R : α → β → Prop} {P : α → Prop} {Q : β → Prop}
    (hPQ : ∀ x y, R x y → (Q y ↔ P x)) {xs : List α} {ys : List β} (h : List.Forall₂ R xs ys) :
    (∀ y ∈ ys, Q y) ↔ ∀ x ∈ xs, P x := by
  induction h with
  | nil => exact iff_of_true (List.forall_mem_nil _) (List.forall_mem_nil _)
  | cons hxy _ ih => rw [List.forall_mem_cons, List.forall_mem_cons, ih, hPQ _ _ hxy]

/-- A list stays related if its elements are changed one by one. -/
theorem forall₂_mapIdx {α β : Type} {R : α → β → Prop} {f : Nat → β → β}
    (hf : ∀ j x y, R x y → R x (f j y)) {xs : List α} {ys : List β} (h : List.Forall₂ R xs ys) :
    List.Forall₂ R xs (ys.mapIdx f) := by
  induction h generalizing f with
  | nil => exact .nil
  | cons hxy _ ih =>
    rw [List.mapIdx_cons]
    exact .cons (hf 0 _ _ hxy) (ih fun j x y hR => hf (j + 1) x y hR)

/-! ### Lists in parts -/

/-- Keeping the values that are there, as optional values. -/
theorem filter_isSome_eq {α : Type} (xs : List (Option α)) :
    xs.filter Option.isSome = (xs.filterMap id).map some := by
  induction xs with
  | nil => rfl
  | cons x xs ih =>
    cases x with
    | none => exact ih
    | some a => exact congrArg (some a :: ·) ih

theorem dropWhile_eq_self_of_head {α : Type} {p : α → Bool} {cs : List α}
    (h : ∀ c, cs.head? = some c → p c = false) : cs.dropWhile p = cs := by
  cases cs with
  | nil => rfl
  | cons c cs => rw [List.dropWhile_cons, h c rfl]; rfl

/-- A part ends where it did if it ended before the end, or if what follows cannot continue it. -/
theorem span_append {α : Type} (p : α → Bool) (cs ds : List α)
    (h : cs.dropWhile p = [] → ∀ c, ds.head? = some c → p c = false) :
    (cs ++ ds).takeWhile p = cs.takeWhile p ∧ (cs ++ ds).dropWhile p = cs.dropWhile p ++ ds := by
  induction cs with
  | nil =>
    have hhead := h rfl
    refine ⟨?_, dropWhile_eq_self_of_head hhead⟩
    cases ds with
    | nil => rfl
    | cons d ds => exact List.takeWhile_cons_of_neg (by rw [hhead d rfl]; decide)
  | cons c cs ih =>
    rw [List.cons_append, List.takeWhile_cons, List.takeWhile_cons, List.dropWhile_cons,
      List.dropWhile_cons]
    cases hc : p c with
    -- the span ends inside `cs`: the condition on `ds` is not needed
    | false => exact ⟨rfl, rfl⟩
    | true =>
      rw [List.dropWhile_cons, hc] at h
      obtain ⟨htake, hdrop⟩ := ih h
      simp only [if_true, htake, hdrop, and_self]

/-- A list is cut at a place, which is where an entry is put in or taken out. -/
theorem exists_split {α : Type} {xs : List α} {p : Nat} {q : α} (h : xs[p]? = some q) :
    ∃ front back, xs = front ++ q :: back ∧ front.length = p ∧
      (∀ y, xs.insertIdx p y = front ++ y :: q :: back) ∧ xs.eraseIdx p = front ++ back := by
  induction xs generalizing p with
  | nil => simp at h
  | cons x xs ih =>
    cases p with
    | zero =>
      obtain rfl : x = q := by simpa using h
      exact ⟨[], xs, rfl, rfl, fun _ => rfl, rfl⟩
    | succ p =>
      obtain ⟨front, back, rfl, rfl, hinsert, herase⟩ := ih (by simpa using h)
      refine ⟨x :: front, back, rfl, rfl, fun y => ?_, ?_⟩
      · exact congrArg (x :: ·) (hinsert y)
      · exact congrArg (x :: ·) herase

theorem insertIdx_before_last {α : Type} (xs : List α) (x last : α) :
    (xs ++ [last]).insertIdx xs.length x = xs ++ [x, last] := by
  induction xs with
  | nil => rfl
  | cons y ys ih =>
    rw [List.cons_append, List.length_cons, List.insertIdx_succ_cons, ih]
    rfl

theorem modify_concat {α : Type} (xs : List α) (x : α) (f : α → α) :
    (xs ++ [x]).modify xs.length f = xs ++ [f x] := by
  induction xs with
  | nil => rfl
  | cons y ys ih =>
    rw [List.cons_append, List.length_cons, List.modify_succ_cons, ih]
    rfl

theorem eraseIdx_concat {α : Type} (xs : List α) (a : α) : (xs ++ [a]).eraseIdx xs.length = xs := by
  rw [List.eraseIdx_append_of_length_le (Nat.le_refl _), Nat.sub_self]
  exact List.append_nil xs

theorem length_eraseIdx_eq {α β : Type} {xs : List α} {ys : List β} (h : xs.length = ys.length)
    (j : Nat) : (xs.eraseIdx j).length = (ys.eraseIdx j).length := by
  rw [List.length_eraseIdx, List.length_eraseIdx, h]

theorem getD_concat {α : Type} (xs : List α) (x : α) (j : Nat) (d : α) :
    (xs ++ [x]).getD j d = if j = xs.length then x else xs.getD j d := by
  rcases Nat.lt_trichotomy j xs.length with hlt | rfl | hgt
  · rw [List.getD_append _ _ _ _ hlt, if_neg (Nat.ne_of_lt hlt)]
  · simp
  · have hlength : (xs ++ [x]).length ≤ j := by
      rw [List.length_append]
      exact hgt
    rw [if_neg (Nat.ne_of_gt hgt), List.getD_eq_default _ _ hlength,
      List.getD_eq_default _ _ (Nat.le_of_lt hgt)]

theorem getD_modify {α : Type} (xs : List α) (i : Nat) (h : α → α) (j : Nat) (d : α) :
    (xs.modify i h).getD j d =
      if i = j ∧ j < xs.length then h (xs.getD j d) else xs.getD j d := by
  rw [List.getD_eq_getElem?_getD, List.getD_eq_getElem?_getD, List.getElem?_modify]
  by_cases hij : i = j
  · by_cases hj : j < xs.length
    · simp [hij, hj]
    · simp [hij, hj]
  · simp [hij]

end KernelIR
