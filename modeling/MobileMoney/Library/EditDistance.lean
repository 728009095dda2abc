import Mathlib.Data.List.Basic
import Mathlib.Order.Bounds.Basic
import Mathlib.Order.MinMax
import Mathlib.Tactic.Common

/-!
# Edit distance

The least number of insertions, deletions and substitutions of single letters that turn one list
into another, and its recursive definition. Edits may be made at any place and in any order; the
recursive definition looks at the first letters only.
-/

namespace EditDistance

variable {α : Type*}

/-- One letter is inserted, deleted or replaced. -/
inductive Edit : List α → List α → Prop
  | insert (before after : List α) (c : α) : Edit (before ++ after) (before ++ c :: after)
  | delete (before after : List α) (c : α) : Edit (before ++ c :: after) (before ++ after)
  | substitute (before after : List α) (c d : α) :
      Edit (before ++ c :: after) (before ++ d :: after)

/-- So many edits turn one list into the other. -/
inductive Edits : ℕ → List α → List α → Prop
  | refl (s : List α) : Edits 0 s s
  | step {n : ℕ} {s t u : List α} : Edit s t → Edits n t u → Edits (n + 1) s u

variable {s t u : List α} {m n : ℕ}

theorem Edit.cons (c : α) (h : Edit s t) : Edit (c :: s) (c :: t) := by
  cases h with
  | insert before after d => exact .insert (c :: before) after d
  | delete before after d => exact .delete (c :: before) after d
  | substitute before after d e => exact .substitute (c :: before) after d e

theorem Edit.symm (h : Edit s t) : Edit t s := by
  cases h with
  | insert before after c => exact .delete before after c
  | delete before after c => exact .insert before after c
  | substitute before after c d => exact .substitute before after d c

theorem Edit.reverse (h : Edit s t) : Edit s.reverse t.reverse := by
  cases h with
  | insert before after c => simpa using Edit.insert after.reverse before.reverse c
  | delete before after c => simpa using Edit.delete after.reverse before.reverse c
  | substitute before after c d =>
    simpa using Edit.substitute after.reverse before.reverse c d

theorem Edits.cons (c : α) (h : Edits n s t) : Edits n (c :: s) (c :: t) := by
  induction h with
  | refl s => exact .refl _
  | step edit _ ih => exact .step (edit.cons c) ih

theorem Edits.reverse (h : Edits n s t) : Edits n s.reverse t.reverse := by
  induction h with
  | refl s => exact .refl _
  | step edit _ ih => exact .step edit.reverse ih

theorem Edits.trans (h : Edits m s t) (h' : Edits n t u) : Edits (m + n) s u := by
  induction h with
  | refl s => simpa using h'
  | step edit _ ih =>
    rw [Nat.add_right_comm]
    exact .step edit (ih h')

theorem Edits.symm (h : Edits n s t) : Edits n t s := by
  induction h with
  | refl s => exact .refl s
  | step edit _ ih => exact ih.trans (.step edit.symm (.refl _))

@[simp] theorem edits_zero_iff : Edits 0 s t ↔ s = t := by
  constructor
  · rintro ⟨⟩
    rfl
  · rintro rfl
    exact .refl s

theorem edits_nil (t : List α) : Edits t.length [] t := by
  induction t with
  | nil => exact .refl []
  | cons c t ih => exact .step (.insert [] [] c) (ih.cons c)

variable [DecidableEq α]

/-- By the first letters of both lists. -/
@[grind =] def distance : List α → List α → ℕ
  | [], t => t.length
  | s, [] => s.length
  | c :: s, d :: t =>
    min (distance s (d :: t) + 1)
      (min (distance (c :: s) t + 1) (distance s t + if c = d then 0 else 1))

@[simp] theorem distance_nil_left (t : List α) : distance [] t = t.length := by
  simp [distance]

@[simp] theorem distance_nil_right (s : List α) : distance s [] = s.length := by
  cases s <;> simp [distance]

theorem distance_cons_cons (c d : α) (s t : List α) :
    distance (c :: s) (d :: t) = min (distance s (d :: t) + 1)
      (min (distance (c :: s) t + 1) (distance s t + if c = d then 0 else 1)) := by
  simp [distance]

/-! ## So many edits suffice -/

theorem edits_distance (s t : List α) : Edits (distance s t) s t := by
  induction s generalizing t with
  | nil => simpa using edits_nil t
  | cons c s ihs =>
    induction t with
    | nil => simpa using (edits_nil (c :: s)).symm
    | cons d t iht =>
      rw [distance_cons_cons]
      rcases min_choice (distance s (d :: t) + 1)
        (min (distance (c :: s) t + 1) (distance s t + if c = d then 0 else 1)) with h | h
      · rw [h]
        exact .step (.delete [] s c) (ihs (d :: t))
      · rw [h]
        rcases min_choice (distance (c :: s) t + 1)
          (distance s t + if c = d then 0 else 1) with h | h
        · rw [h]
          exact iht.trans (.step (.insert [] t d) (.refl _))
        · rw [h]
          split_ifs with hcd
          · exact hcd ▸ (ihs t).cons c
          · exact .step (.substitute [] s c d) ((ihs t).cons d)

/-! ## Fewer edits do not -/

theorem distance_cons_left_le (c : α) (s t : List α) :
    distance (c :: s) t ≤ distance s t + 1 := by
  cases t with
  | nil => simp
  | cons d t =>
    rw [distance_cons_cons]
    exact min_le_left _ _

theorem distance_cons_right_le (s : List α) (d : α) (t : List α) :
    distance s (d :: t) ≤ distance s t + 1 := by
  cases s with
  | nil => simp
  | cons c s =>
    rw [distance_cons_cons]
    exact (min_le_right _ _).trans (min_le_left _ _)

theorem distance_le_cons_left (c : α) (s t : List α) :
    distance s t ≤ distance (c :: s) t + 1 := by
  induction t with
  | nil =>
    simp only [distance_nil_right, List.length_cons]
    omega
  | cons d t ih =>
    have := distance_cons_right_le s d t
    rw [distance_cons_cons]
    omega

/-- An edit moves the distance from any list by one at most. -/
theorem Edit.distance_le (h : Edit s t) (u : List α) : distance s u ≤ distance t u + 1 := by
  -- Letters in front that both lists share make no difference.
  have shared (before s t : List α) (h : ∀ u, distance s u ≤ distance t u + 1) (u : List α) :
      distance (before ++ s) u ≤ distance (before ++ t) u + 1 := by
    induction before generalizing u with
    | nil => exact h u
    | cons c before ih =>
      induction u with
      | nil => simpa using ih []
      | cons d u ihu =>
        have here := ih u
        have there := ih (d :: u)
        rw [List.cons_append, List.cons_append] at ihu ⊢
        rw [distance_cons_cons, distance_cons_cons]
        omega
  cases h with
  | insert before after c => exact shared before _ _ (distance_le_cons_left c after) u
  | delete before after c => exact shared before _ _ (distance_cons_left_le c after) u
  | substitute before after c d =>
    refine shared before _ _ (fun u => ?_) u
    induction u with
    | nil => simp
    | cons e u ih =>
      rw [distance_cons_cons, distance_cons_cons]
      split_ifs <;> omega

theorem Edits.distance_le (h : Edits n s t) : distance s t ≤ n := by
  induction h with
  | refl s =>
    induction s with
    | nil => simp
    | cons c s ih =>
      rw [distance_cons_cons, if_pos rfl]
      omega
  | step edit _ ih => exact (edit.distance_le _).trans (by omega)

/-! ## The distance -/

theorem distance_isLeast (s t : List α) : IsLeast {n | Edits n s t} (distance s t) :=
  ⟨edits_distance s t, fun _ h => h.distance_le⟩

theorem distance_reverse (s t : List α) : distance s.reverse t.reverse = distance s t := by
  apply le_antisymm (edits_distance s t).reverse.distance_le
  simpa using (edits_distance s.reverse t.reverse).reverse.distance_le

theorem distance_comm (s t : List α) : distance s t = distance t s :=
  le_antisymm (edits_distance t s).symm.distance_le (edits_distance s t).symm.distance_le

theorem distance_eq_zero_iff : distance s t = 0 ↔ s = t := by
  constructor
  · intro h
    exact edits_zero_iff.1 (h ▸ edits_distance s t)
  · rintro rfl
    exact Nat.le_zero.1 (Edits.refl s).distance_le

theorem distance_triangle (s t u : List α) : distance s u ≤ distance s t + distance t u :=
  ((edits_distance s t).trans (edits_distance t u)).distance_le

end EditDistance
