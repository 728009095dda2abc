import Mathlib.Data.List.Induction

/-!
# Numbered lists

A list whose entries carry their own places, such as a log. What is behind a place can be found by
the places alone.
-/

variable {α : Type*} {place : α → ℕ}

def Numbered (place : α → ℕ) (l : List α) : Prop := l.map place = List.range l.length

namespace Numbered

theorem nil : Numbered place [] := rfl

theorem concat {l : List α} {a : α} (h : Numbered place l) (ha : place a = l.length) :
    Numbered place (l ++ [a]) := by
  rw [Numbered, List.map_append, List.length_append, List.length_singleton, List.range_succ, h,
    List.map_singleton, ha]

theorem of_concat {l : List α} {a : α} (h : Numbered place (l ++ [a])) :
    Numbered place l ∧ place a = l.length := by
  rw [Numbered, List.map_append, List.length_append, List.length_singleton, List.range_succ,
    List.map_singleton] at h
  obtain ⟨hl, ha⟩ := List.append_inj' h rfl
  exact ⟨hl, List.singleton_inj.1 ha⟩

theorem place_of_getElem? {l : List α} (h : Numbered place l) {i : ℕ} {a : α}
    (ha : l[i]? = some a) : place a = i := by
  obtain ⟨hi, rfl⟩ := List.getElem?_eq_some_iff.1 ha
  have := congrArg (·[i]?) h
  simpa [hi] using this

theorem place_lt {l : List α} (h : Numbered place l) {a : α} (ha : a ∈ l) : place a < l.length := by
  obtain ⟨i, hi⟩ := List.mem_iff_getElem?.1 ha
  rw [h.place_of_getElem? hi]
  exact (List.getElem?_eq_some_iff.1 hi).1

theorem drop_eq_filter {l : List α} (h : Numbered place l) (n : ℕ) :
    l.drop n = l.filter fun a => n ≤ place a := by
  induction l using List.reverseRecOn generalizing n with
  | nil => simp
  | append_singleton l a ih =>
    obtain ⟨hl, ha⟩ := h.of_concat
    rw [List.drop_append, List.filter_append, ih hl]
    congr 1
    by_cases hn : n ≤ l.length
    · simp [ha, hn]
    · rw [List.drop_eq_nil_of_le (by rw [List.length_singleton]; omega)]
      simp [ha, hn]

theorem mem_drop {l : List α} (h : Numbered place l) {n : ℕ} {a : α} :
    a ∈ l.drop n ↔ a ∈ l ∧ n ≤ place a := by
  rw [h.drop_eq_filter, List.mem_filter, decide_eq_true_eq]

end Numbered
