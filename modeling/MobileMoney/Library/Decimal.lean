import Mathlib.Algebra.Order.Round
import Mathlib.Data.Rat.Floor
import Mathlib.Tactic.Linarith
import Mathlib.Tactic.Push

/-!
# Fixed-point decimal columns

A column with a precision and a scale stores an integer number of units of
`10 ^ (-scale)`. A cast rounds to the nearest unit, halves away from zero, and fails
when the result has more digits than the precision; an assignment of a sum fails in the
same way.
-/

namespace Decimal

/-- The nearest integer, halves away from zero. -/
def roundHalfAway (x : ℚ) : ℤ := if 0 ≤ x then ⌊x + 1 / 2⌋ else -⌊-x + 1 / 2⌋

theorem roundHalfAway_of_nonneg {x : ℚ} (hx : 0 ≤ x) : roundHalfAway x = ⌊x + 1 / 2⌋ :=
  if_pos hx

@[simp] theorem roundHalfAway_zero : roundHalfAway 0 = 0 := by
  rw [roundHalfAway_of_nonneg le_rfl, Int.floor_eq_zero_iff]
  constructor <;> norm_num

theorem roundHalfAway_eq_iff {x : ℚ} (hx : 0 ≤ x) {n : ℤ} :
    roundHalfAway x = n ↔ (n : ℚ) - 1 / 2 ≤ x ∧ x < n + 1 / 2 := by
  rw [roundHalfAway_of_nonneg hx, Int.floor_eq_iff]
  constructor
  · rintro ⟨h₁, h₂⟩
    constructor <;> linarith
  · rintro ⟨h₁, h₂⟩
    constructor <;> linarith

theorem roundHalfAway_pos_iff {x : ℚ} : 0 < roundHalfAway x ↔ 1 / 2 ≤ x := by
  by_cases hx : 0 ≤ x
  · rw [roundHalfAway_of_nonneg hx, Int.floor_pos]
    constructor <;> intro h <;> linarith
  · have hfloor : 0 ≤ ⌊-x + 1 / 2⌋ := Int.floor_nonneg.2 (by linarith)
    rw [roundHalfAway, if_neg hx]
    constructor
    · intro h
      omega
    · intro h
      linarith

theorem roundHalfAway_lt_iff {x : ℚ} (hx : 0 ≤ x) {n : ℤ} :
    roundHalfAway x < n ↔ x < n - 1 / 2 := by
  rw [roundHalfAway_of_nonneg hx, Int.floor_lt]
  constructor <;> intro h <;> linarith

structure Format where
  precision : ℕ
  scale : ℕ
  deriving DecidableEq, Repr

namespace Format

variable (f : Format)

/-- The integers the column can hold, in units. -/
def Fits (n : ℤ) : Prop := |n| < 10 ^ f.precision

instance (n : ℤ) : Decidable (f.Fits n) := inferInstanceAs (Decidable (_ < _))

/-- Keep an integer number of units only when the column can hold it. -/
def store (n : ℤ) : Option ℤ := if f.Fits n then some n else none

/-- The nearest number of units to an exact value. -/
def nearest (x : ℚ) : ℤ := roundHalfAway (x * 10 ^ f.scale)

def cast (x : ℚ) : Option ℤ := f.store (f.nearest x)

@[simp] theorem store_eq_some {m n : ℤ} : f.store m = some n ↔ m = n ∧ f.Fits n := by
  unfold store
  split_ifs with h
  · simp only [Option.some.injEq]
    exact ⟨fun e => ⟨e, e ▸ h⟩, fun e => e.1⟩
  · simp only [false_iff]
    rintro ⟨rfl, hn⟩
    exact h hn

theorem fits_mono {m n : ℤ} (h : |m| ≤ |n|) (hn : f.Fits n) : f.Fits m := lt_of_le_of_lt h hn

end Format

end Decimal
