import Mathlib.Algebra.BigOperators.Group.Finset.Basic
import Mathlib.Algebra.BigOperators.Group.List.Basic
import Mathlib.Tactic.Common

/-!
# Tallies over a family that changes in one place

Every member of a family contributes a part to a total. When one member is exchanged for
another, the total changes by the difference of their parts. Summed key by key, rows give
the sum of the rows that have one of the keys.
-/

namespace Tally

variable {ι τ M : Type*} [DecidableEq ι] [AddCommMonoid M]

theorem sum_update (s : Finset ι) (part : τ → M) (f : ι → τ) {i : ι} (hi : i ∈ s) (x : τ) :
    ∑ j ∈ s, part (Function.update f i x j) + part (f i) = ∑ j ∈ s, part (f j) + part x := by
  have hrest : ∑ j ∈ s.erase i, part (Function.update f i x j) =
      ∑ j ∈ s.erase i, part (f j) := by
    apply Finset.sum_congr rfl
    intro j hj
    rw [Function.update_of_ne (Finset.ne_of_mem_erase hj)]
  rw [← Finset.sum_erase_add _ _ hi, ← Finset.sum_erase_add s (fun j => part (f j)) hi, hrest,
    Function.update_self]
  exact add_right_comm _ _ _

/-- A member outside the range that is counted does not matter. -/
theorem sum_update_of_notMem (s : Finset ι) (part : τ → M) (f : ι → τ) {i : ι} (hi : i ∉ s)
    (x : τ) : ∑ j ∈ s, part (Function.update f i x j) = ∑ j ∈ s, part (f j) := by
  apply Finset.sum_congr rfl
  intro j hj
  rw [Function.update_of_ne (by rintro rfl; exact hi hj)]

/-- The family grows by the member at the end of the range. -/
theorem sum_range_succ_update (n : ℕ) (part : τ → M) (f : ℕ → τ) (x : τ) :
    ∑ j ∈ Finset.range (n + 1), part (Function.update f n x j) =
      ∑ j ∈ Finset.range n, part (f j) + part x := by
  rw [Finset.sum_range_succ, sum_update_of_notMem _ _ _ Finset.notMem_range_self,
    Function.update_self]

/-! ## Rows by their keys -/

theorem sum_map_single {keys : List ι} (nodup : keys.Nodup) (i : ι) (x : M) :
    (keys.map fun k => if i = k then x else 0).sum = if i ∈ keys then x else 0 := by
  induction keys with
  | nil => rfl
  | cons k keys ih =>
    obtain ⟨hk, nodup⟩ := List.nodup_cons.1 nodup
    rw [List.map_cons, List.sum_cons, ih nodup]
    by_cases hi : i = k
    · subst hi
      simp [hk]
    · simp [hi]

theorem sum_by_key {keys : List ι} (nodup : keys.Nodup) (key : τ → ι) (part : τ → M)
    (rows : List τ) :
    (keys.map fun k => ((rows.filter fun r => key r = k).map part).sum).sum =
      ((rows.filter fun r => key r ∈ keys).map part).sum := by
  induction rows with
  | nil => simp
  | cons r rows ih =>
    have head : ∀ (p : τ → Prop) [DecidablePred p],
        (((r :: rows).filter fun r => p r).map part).sum =
          (if p r then part r else 0) + ((rows.filter fun r => p r).map part).sum := by
      intro p _
      by_cases h : p r <;> simp [h]
    simp only [head, List.sum_map_add, ih, sum_map_single nodup]

end Tally
