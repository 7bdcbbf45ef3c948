import Mathlib.Data.List.Nodup

/-!
# Tables

Lists of names with values, and other lists that are searched from the front.
-/

namespace KernelIR

theorem mem_of_lookup {α β : Type} [BEq α] [LawfulBEq α] {l : List (α × β)} {k : α} {v : β}
    (h : l.lookup k = some v) : (k, v) ∈ l := by
  obtain ⟨l₁, l₂, rfl, -⟩ := List.lookup_eq_some_iff.mp h
  exact List.mem_append_right l₁ List.mem_cons_self

theorem lookup_isSome_iff_mem {α β : Type} [BEq α] [LawfulBEq α] {l : List (α × β)} {k : α} :
    (l.lookup k).isSome ↔ k ∈ l.map Prod.fst := by
  rw [List.lookup_isSome_iff, List.mem_map]
  simp only [beq_iff_eq, eq_comm (a := k)]

/-- A name that is new to a table of different names can be put behind it. -/
theorem nodup_concat {α β : Type} [BEq α] [LawfulBEq α] {l : List (α × β)} {k : α} (v : β)
    (h : (l.map Prod.fst).Nodup) (hk : ¬(l.lookup k).isSome) :
    ((l ++ [(k, v)]).map Prod.fst).Nodup := by
  rw [lookup_isSome_iff_mem] at hk
  rw [List.map_append, List.nodup_append]
  refine ⟨h, List.nodup_singleton k, ?_⟩
  rintro a ha b hb rfl
  rw [List.map_singleton, List.mem_singleton] at hb
  rw [hb] at ha
  exact hk ha

/-- In a list whose elements differ in a value, an element is found by it. -/
theorem find?_of_nodup {α β : Type} [DecidableEq β] {p : α → β} {xs : List α} {x : α}
    (h : (xs.map p).Nodup) (hx : x ∈ xs) : xs.find? (p · = p x) = some x := by
  induction xs with
  | nil => cases hx
  | cons y ys ih =>
    rw [List.map_cons, List.nodup_cons] at h
    rw [List.find?_cons]
    rcases List.mem_cons.mp hx with rfl | hx
    · rw [decide_eq_true rfl]
    · have hne : p y ≠ p x := by
        intro heq
        exact h.1 (by rw [heq]; exact List.mem_map_of_mem hx)
      rw [decide_eq_false hne]
      exact ih h.2 hx

/-- In a list without repetition the first place of an element is its only one. -/
theorem findIdx?_eq_some_iff_of_nodup {α : Type} [DecidableEq α] {xs : List α} (h : xs.Nodup)
    {x : α} {i : Nat} : (xs.findIdx? fun y => y = x) = some i ↔ xs[i]? = some x := by
  rw [List.findIdx?_eq_some_iff_getElem, List.getElem?_eq_some_iff]
  constructor
  · rintro ⟨hi, hn, -⟩
    exact ⟨hi, of_decide_eq_true hn⟩
  · rintro ⟨hi, hn⟩
    refine ⟨hi, decide_eq_true hn, fun j hj => ?_⟩
    rw [decide_eq_true_iff, ← hn, h.getElem_inj_iff]
    omega

theorem getElem?_of_idxOf? {α : Type} [BEq α] [LawfulBEq α] {xs : List α} {x : α} {p : Nat}
    (h : xs.idxOf? x = some p) : xs[p]? = some x := by
  obtain ⟨hp, hb, -⟩ := List.idxOf?_eq_some_iff.mp h
  rw [List.getElem?_eq_getElem hp, hb]

end KernelIR
