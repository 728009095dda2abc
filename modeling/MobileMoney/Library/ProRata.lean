import Mathlib.Algebra.BigOperators.Group.List.Basic
import Mathlib.Algebra.Order.BigOperators.Group.List
import Mathlib.Algebra.Order.Ring.Int
import Mathlib.Tactic.Linarith

/-!
# Shares of a whole, rounded down

A whole is divided in proportion to weights and every share is rounded down. The shares
never exceed the whole; what is missing is the sum of the remainders over the total
weight, so the shares make up the whole exactly when every exact share is an integer.
-/

namespace ProRata

/-- The share of one weight out of a total weight. -/
def share (whole total weight : ℤ) : ℤ := whole * weight / total

variable {whole total : ℤ} {weights : List ℤ}

theorem share_nonneg {weight : ℤ} (hwhole : 0 ≤ whole) (htotal : 0 ≤ total)
    (hweight : 0 ≤ weight) : 0 ≤ share whole total weight :=
  Int.ediv_nonneg (mul_nonneg hwhole hweight) htotal

/-- The shares times the total weight, and the remainders, make up the whole times the sum
of the weights. -/
theorem total_mul_sum_share (whole total : ℤ) (weights : List ℤ) :
    total * (weights.map (share whole total)).sum +
      (weights.map fun w => whole * w % total).sum = whole * weights.sum := by
  induction weights with
  | nil => simp
  | cons w ws ih =>
    have hdiv := Int.mul_ediv_add_emod (whole * w) total
    simp only [List.map_cons, List.sum_cons, mul_add, share] at ih ⊢
    linarith

theorem sum_eq_zero_iff {xs : List ℤ} (nonneg : ∀ x ∈ xs, 0 ≤ x) :
    xs.sum = 0 ↔ ∀ x ∈ xs, x = 0 := by
  induction xs with
  | nil => simp
  | cons x xs ih =>
    have hx := nonneg x List.mem_cons_self
    have hxs : ∀ y ∈ xs, 0 ≤ y := fun y hy => nonneg y (List.mem_cons_of_mem x hy)
    have hsum := List.sum_nonneg hxs
    rw [List.sum_cons, List.forall_mem_cons, ← ih hxs]
    omega

theorem remainder_nonneg (hpos : 0 < total) (whole : ℤ) (weights : List ℤ) :
    ∀ r ∈ weights.map fun w => whole * w % total, 0 ≤ r := by
  intro r hr
  obtain ⟨w, -, rfl⟩ := List.mem_map.1 hr
  exact Int.emod_nonneg _ hpos.ne'

theorem sum_share_le (hpos : 0 < total) (hsum : weights.sum = total) :
    (weights.map (share whole total)).sum ≤ whole := by
  have hdiv := total_mul_sum_share whole total weights
  have hrem := List.sum_nonneg (remainder_nonneg hpos whole weights)
  rw [hsum] at hdiv
  have hle : total * (weights.map (share whole total)).sum ≤ total * whole := by linarith
  exact le_of_mul_le_mul_left hle hpos

/-- Nothing is lost exactly when no share was rounded. -/
theorem sum_share_eq_iff (hpos : 0 < total) (hsum : weights.sum = total) :
    (weights.map (share whole total)).sum = whole ↔
      ∀ w ∈ weights, total ∣ whole * w := by
  have hdiv := total_mul_sum_share whole total weights
  rw [hsum] at hdiv
  have zero : (weights.map (share whole total)).sum = whole ↔
      (weights.map fun w => whole * w % total).sum = 0 := by
    constructor
    · intro h
      rw [h] at hdiv
      linarith
    · intro h
      have heq : total * (weights.map (share whole total)).sum = total * whole := by linarith
      exact mul_left_cancel₀ hpos.ne' heq
  rw [zero, sum_eq_zero_iff (remainder_nonneg hpos whole weights), List.forall_mem_map]
  simp only [Int.dvd_iff_emod_eq_zero]

/-- Leaving out what is not positive does not change a sum without negative terms. -/
theorem sum_filter_pos {α : Type*} (f : α → ℤ) {xs : List α} (nonneg : ∀ x ∈ xs, 0 ≤ f x) :
    ((xs.filter fun x => 0 < f x).map f).sum = (xs.map f).sum := by
  induction xs with
  | nil => rfl
  | cons x xs ih =>
    have hx := nonneg x List.mem_cons_self
    have htail := ih fun y hy => nonneg y (List.mem_cons_of_mem x hy)
    by_cases hpos : 0 < f x
    · simp [hpos, htail]
    · have hzero : f x = 0 := by omega
      simp [hzero, htail]

end ProRata
