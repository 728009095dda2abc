import Mathlib.Data.Int.Basic
import Mathlib.Data.Option.Basic
import Mathlib.Tactic.NormNum
import Mathlib.Tactic.Positivity
import Mathlib.Tactic.Linarith

/-!
# Checked arithmetic on bounded machine integers

A machine integer type is an interval of `ℤ`; values stay ordinary integers. A
checked operation computes the exact result and answers `none` when it leaves the
interval, which is both what `checked_*` methods return and where an
overflow-checked operator traps.
-/

namespace MachineInt

/-- A machine integer type, given by its least and greatest value. -/
structure IntType where
  min : ℤ
  max : ℤ
  deriving DecidableEq, Repr

def i32 : IntType := ⟨-2 ^ 31, 2 ^ 31 - 1⟩
def u64 : IntType := ⟨0, 2 ^ 64 - 1⟩
def i128 : IntType := ⟨-2 ^ 127, 2 ^ 127 - 1⟩

namespace IntType

/-- Keep an exact result only when the type can hold it. -/
def checked (t : IntType) (x : ℤ) : Option ℤ :=
  if t.min ≤ x ∧ x ≤ t.max then some x else none

def checkedAdd (t : IntType) (x y : ℤ) : Option ℤ := t.checked (x + y)
def checkedSub (t : IntType) (x y : ℤ) : Option ℤ := t.checked (x - y)
def checkedMul (t : IntType) (x y : ℤ) : Option ℤ := t.checked (x * y)

/-- Division rounds toward zero and refuses a zero divisor. -/
def checkedDiv (t : IntType) (x y : ℤ) : Option ℤ :=
  if y = 0 then none else t.checked (x.tdiv y)

/-- Addition that stops at the greatest value instead of overflowing. -/
def saturatingAdd (t : IntType) (x y : ℤ) : ℤ := Min.min (x + y) t.max

/-- Subtraction that stops at the ends of the type. -/
def saturatingSub (t : IntType) (x y : ℤ) : ℤ := Max.max t.min (Min.min (x - y) t.max)

/-- Multiplication that stops at the ends of the type. -/
def saturatingMul (t : IntType) (x y : ℤ) : ℤ := Max.max t.min (Min.min (x * y) t.max)

theorem checked_eq_some {t : IntType} {x y : ℤ} :
    t.checked x = some y ↔ x = y ∧ t.min ≤ y ∧ y ≤ t.max := by
  unfold checked
  split_ifs with h
  · simp only [Option.some.injEq]
    exact ⟨fun e => ⟨e, e ▸ h⟩, fun e => e.1⟩
  · simp only [false_iff]
    rintro ⟨rfl, hx⟩
    exact h hx

theorem checked_of_mem {t : IntType} {x : ℤ} (h₁ : t.min ≤ x) (h₂ : x ≤ t.max) :
    t.checked x = some x :=
  checked_eq_some.2 ⟨rfl, h₁, h₂⟩

theorem saturatingSub_of_mem {t : IntType} {x y : ℤ} (h₁ : t.min ≤ x - y)
    (h₂ : x - y ≤ t.max) : t.saturatingSub x y = x - y := by
  rw [saturatingSub, min_eq_left h₂, max_eq_right h₁]

theorem saturatingAdd_of_le {t : IntType} {x y : ℤ} (h : x + y ≤ t.max) :
    t.saturatingAdd x y = x + y := min_eq_left h

end IntType

/-- The lower end of `i128` never matters for what is not negative. -/
theorem checked_i128_of_nonneg {x : ℤ} (h : 0 ≤ x) :
    i128.checked x = some x ↔ x ≤ i128.max := by
  have hmin : i128.min ≤ x := le_trans (by norm_num [i128]) h
  simp [IntType.checked_eq_some, hmin]

theorem tdiv_le_self {x : ℤ} (y : ℤ) (hx : 0 ≤ x) : x.tdiv y ≤ x := by
  rw [Int.tdiv_eq_ediv_of_nonneg hx]
  exact Int.ediv_le_self y hx

/-- Multiplying after the division and dividing the product of the remainder gives what
dividing the whole product gives. -/
theorem tdiv_mul_add_tmod_mul_tdiv (a : ℤ) {b d : ℤ} (hb : 0 ≤ b) (hd : 0 < d) :
    a.tdiv d * b + (a.tmod d * b).tdiv d = (a * b).tdiv d := by
  have upward : ∀ a : ℤ, 0 ≤ a →
      a.tdiv d * b + (a.tmod d * b).tdiv d = (a * b).tdiv d := by
    intro a ha
    have hrest : 0 ≤ a.tmod d * b := mul_nonneg (Int.tmod_nonneg d ha) hb
    have split : a * b = a.tmod d * b + a.tdiv d * b * d := by
      rw [mul_right_comm, ← add_mul, Int.tmod_add_tdiv_mul]
    rw [Int.tdiv_eq_ediv_of_nonneg hrest, Int.tdiv_eq_ediv_of_nonneg (mul_nonneg ha hb), split,
      Int.add_mul_ediv_right _ _ hd.ne', add_comm]
  rcases le_total 0 a with ha | ha
  · exact upward a ha
  · have := upward (-a) (neg_nonneg.2 ha)
    simp only [Int.neg_tdiv, Int.neg_tmod, neg_mul] at this
    omega

/-- A part `part` of `scale` of a non-negative amount is between zero and the amount,
however the division is rounded. -/
theorem tdiv_share_bounds {amount part scale : ℤ} (ha : 0 ≤ amount) (hp : 0 ≤ part)
    (hs : 0 < scale) (hle : part ≤ scale) :
    0 ≤ (amount * part).tdiv scale ∧ (amount * part).tdiv scale ≤ amount := by
  have hprod : 0 ≤ amount * part := mul_nonneg ha hp
  rw [Int.tdiv_eq_ediv_of_nonneg hprod]
  refine ⟨Int.ediv_nonneg hprod hs.le, ?_⟩
  apply Int.ediv_le_of_le_mul hs
  exact mul_le_mul_of_nonneg_left hle ha

end MachineInt
