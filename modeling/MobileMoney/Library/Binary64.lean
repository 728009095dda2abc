import Mathlib.Algebra.Order.Field.Power
import Mathlib.Algebra.Order.Round
import Mathlib.Data.Int.Log
import Mathlib.Data.Rat.Floor
import Mathlib.Tactic.Linarith
import Mathlib.Tactic.NormNum
import Mathlib.Tactic.Positivity
import Mathlib.Tactic.Ring
import Mathlib.Tactic.FieldSimp

/-!
# Binary64 numbers over the rationals

A finite binary64 number is the rational it denotes; the sign of zero is not kept. An
operation computes the exact rational and rounds it to the nearest representable number,
ties to even, with gradual underflow; from `2 ^ 1024` on the result is infinite.
-/

namespace Binary64

/-! ## Rounding to an integer, ties to even -/

def roundEven (x : ℚ) : ℤ :=
  let k := ⌊x⌋
  if x - k < 1 / 2 then k else if 1 / 2 < x - k then k + 1 else k + k % 2

theorem roundEven_error (x : ℚ) : |(roundEven x : ℚ) - x| ≤ 1 / 2 := by
  have hlo := Int.floor_le x
  have hhi := Int.lt_floor_add_one x
  unfold roundEven
  dsimp only
  split_ifs with hdown hup
  · rw [abs_le]
    constructor <;> linarith
  · rw [abs_le]
    push_cast
    constructor <;> linarith
  · have half : x - ⌊x⌋ = 1 / 2 := by linarith
    rcases Int.emod_two_eq_zero_or_one ⌊x⌋ with h | h <;> rw [h, abs_le] <;> push_cast <;>
      constructor <;> linarith

@[simp] theorem roundEven_intCast (n : ℤ) : roundEven (n : ℚ) = n := by
  simp [roundEven]

theorem roundEven_nonpos {x : ℚ} (hx : x ≤ 0) : roundEven x ≤ 0 := by
  have herr := (abs_le.1 (roundEven_error x)).2
  have hlt : (roundEven x : ℚ) < 1 := by linarith
  have hlt' : roundEven x < 1 := by exact_mod_cast hlt
  omega

theorem roundEven_nonneg {x : ℚ} (hx : 0 ≤ x) : 0 ≤ roundEven x := by
  have herr := (abs_le.1 (roundEven_error x)).1
  have hlt : (-1 : ℚ) < roundEven x := by linarith
  have hlt' : -1 < roundEven x := by exact_mod_cast hlt
  omega

/-- Rounding to an integer does not leave an interval with integer ends. -/
theorem abs_roundEven_le {x : ℚ} {n : ℤ} (hx : |x| < n) : |roundEven x| ≤ n := by
  obtain ⟨hlo, hhi⟩ := abs_le.1 (roundEven_error x)
  obtain ⟨hx₁, hx₂⟩ := abs_lt.1 hx
  have h₁ : (-n - 1 : ℚ) < roundEven x := by linarith
  have h₂ : (roundEven x : ℚ) < n + 1 := by linarith
  have h₁' : -n - 1 < roundEven x := by exact_mod_cast h₁
  have h₂' : roundEven x < n + 1 := by exact_mod_cast h₂
  rw [abs_le]
  omega

/-! ## Rounding to 53 bits -/

/-- The exponent of the last place of the numbers around `x`. -/
def exponent (x : ℚ) : ℤ := max (Int.log 2 |x| - 52) (-1074)

def round (x : ℚ) : ℚ := roundEven (x / 2 ^ exponent x) * 2 ^ exponent x

theorem spacing_pos (e : ℤ) : (0 : ℚ) < 2 ^ e := zpow_pos (by norm_num) e

theorem exponent_ge (x : ℚ) : -1074 ≤ exponent x := le_max_right _ _

theorem exponent_le {x : ℚ} (hx : x ≠ 0) {k : ℤ} (hk : -1021 ≤ k) (h : |x| < 2 ^ k) :
    exponent x ≤ k - 53 := by
  have hlog : Int.log 2 |x| < k := by
    rw [← Int.lt_zpow_iff_log_lt (by norm_num) (abs_pos.2 hx)]
    exact_mod_cast h
  unfold exponent
  omega

theorem abs_lt_zpow_exponent (x : ℚ) : |x| < 2 ^ (exponent x + 53) := by
  by_cases hx : x = 0
  · rw [hx, abs_zero]
    exact spacing_pos _
  · have hlog := Int.lt_zpow_succ_log_self (b := 2) (by norm_num) |x|
    refine lt_of_lt_of_le (by exact_mod_cast hlog) ?_
    apply zpow_le_zpow_right₀ (by norm_num)
    unfold exponent
    omega

theorem round_error (x : ℚ) : |round x - x| ≤ 2 ^ exponent x / 2 := by
  have hpos := spacing_pos (exponent x)
  have herr := roundEven_error (x / 2 ^ exponent x)
  have scale : round x - x =
      (roundEven (x / 2 ^ exponent x) - x / 2 ^ exponent x) * 2 ^ exponent x := by
    rw [sub_mul, div_mul_cancel₀ _ hpos.ne']
    rfl
  rw [scale, abs_mul, abs_of_pos hpos]
  calc |(roundEven (x / 2 ^ exponent x) : ℚ) - x / 2 ^ exponent x| * 2 ^ exponent x
      ≤ 1 / 2 * 2 ^ exponent x := mul_le_mul_of_nonneg_right herr hpos.le
    _ = 2 ^ exponent x / 2 := by ring

@[simp] theorem round_zero : round 0 = 0 := by
  have h : roundEven 0 = 0 := by exact_mod_cast roundEven_intCast 0
  simp [round, h]

theorem round_error_of_lt {x : ℚ} {k : ℤ} (hk : -1021 ≤ k) (h : |x| < 2 ^ k) :
    |round x - x| ≤ 2 ^ (k - 54) := by
  by_cases hx : x = 0
  · rw [hx, round_zero, sub_zero, abs_zero]
    exact (spacing_pos _).le
  · have hexp := exponent_le hx hk h
    calc |round x - x| ≤ 2 ^ exponent x / 2 := round_error x
      _ ≤ 2 ^ (k - 53) / 2 := by
        apply div_le_div_of_nonneg_right _ (by norm_num)
        exact zpow_le_zpow_right₀ (by norm_num) hexp
      _ = 2 ^ (k - 54) := by
        rw [show k - 53 = (k - 54) + 1 by ring, zpow_add₀ (by norm_num), zpow_one]
        ring

theorem round_nonpos {x : ℚ} (hx : x ≤ 0) : round x ≤ 0 := by
  have hpos := spacing_pos (exponent x)
  have hint : roundEven (x / 2 ^ exponent x) ≤ 0 :=
    roundEven_nonpos (div_nonpos_of_nonpos_of_nonneg hx hpos.le)
  exact mul_nonpos_of_nonpos_of_nonneg (by exact_mod_cast hint) hpos.le

theorem round_nonneg {x : ℚ} (hx : 0 ≤ x) : 0 ≤ round x := by
  have hpos := spacing_pos (exponent x)
  have hint : 0 ≤ roundEven (x / 2 ^ exponent x) := roundEven_nonneg (div_nonneg hx hpos.le)
  exact mul_nonneg (by exact_mod_cast hint) hpos.le

/-- Rounding does not pass a multiple of the spacing. -/
theorem round_le_of_multiple {x a : ℚ} {n : ℤ} (ha : a = n * 2 ^ exponent x) (h : x ≤ a) :
    round x ≤ a := by
  have hpos := spacing_pos (exponent x)
  have hquot : x / 2 ^ exponent x ≤ n := by
    rw [div_le_iff₀ hpos, ← ha]
    exact h
  have herr := (abs_le.1 (roundEven_error (x / 2 ^ exponent x))).2
  have hlt : (roundEven (x / 2 ^ exponent x) : ℚ) < n + 1 := by linarith
  have hle : roundEven (x / 2 ^ exponent x) ≤ n := by
    have hlt' : roundEven (x / 2 ^ exponent x) < n + 1 := by exact_mod_cast hlt
    omega
  rw [round, ha]
  exact mul_le_mul_of_nonneg_right (by exact_mod_cast hle) hpos.le

theorem round_le_one {x : ℚ} (hx : x ≤ 1) : round x ≤ 1 := by
  by_cases hpos : x ≤ 0
  · exact (round_nonpos hpos).trans zero_le_one
  · have habs : |x| < 2 ^ (1 : ℤ) := by
      rw [abs_of_pos (not_le.1 hpos)]
      norm_num
      linarith
    have hexp := exponent_le (not_le.1 hpos).ne' (by norm_num) habs
    apply round_le_of_multiple (n := 2 ^ (-exponent x).toNat) _ hx
    have hneg : ((-exponent x).toNat : ℤ) = -exponent x := Int.toNat_of_nonneg (by omega)
    push_cast
    rw [← zpow_natCast, hneg, ← zpow_add₀ (by norm_num), neg_add_cancel, zpow_zero]

/-- Multiples of a spacing that is coarse enough are representable. -/
theorem round_of_multiple {x : ℚ} {n e : ℤ} (hx : x = n * 2 ^ e) (he : exponent x ≤ e) :
    round x = x := by
  obtain ⟨d, hd⟩ : ∃ d : ℕ, e = exponent x + d :=
    ⟨(e - exponent x).toNat, by omega⟩
  have hpos := spacing_pos (exponent x)
  have hquot : x / 2 ^ exponent x = ((n * 2 ^ d : ℤ) : ℚ) := by
    rw [div_eq_iff hpos.ne']
    have split : (2 : ℚ) ^ e = 2 ^ d * 2 ^ exponent x := by
      rw [hd, zpow_add₀ (by norm_num), zpow_natCast, mul_comm]
    push_cast
    rw [mul_assoc, ← split]
    exact hx
  rw [round, hquot, roundEven_intCast, ← hquot, div_mul_cancel₀ _ hpos.ne']

theorem zpow_exponent_le {x : ℚ} (hx : x ≠ 0) (h : -1074 < exponent x) :
    2 ^ (exponent x + 52) ≤ |x| := by
  have hlog := Int.zpow_log_le_self (b := 2) (by norm_num) (abs_pos.2 hx)
  have : exponent x + 52 = Int.log 2 |x| := by
    unfold exponent at *
    omega
  rw [this]
  exact_mod_cast hlog

/-- A representable number is on the grid of the numbers around `x`, or closer to zero than they
are. -/
theorem multiple_or_small {x a : ℚ} (hx : x ≠ 0) (ha : round a = a) :
    (∃ n : ℤ, a = n * 2 ^ exponent x) ∨
      |a| < 2 ^ (exponent x + 52) ∧ 2 ^ (exponent x + 52) ≤ |x| := by
  rcases le_or_gt (exponent x) (exponent a) with hle | hlt
  · obtain ⟨d, hd⟩ : ∃ d : ℕ, exponent a = exponent x + d :=
      ⟨(exponent a - exponent x).toNat, by omega⟩
    refine .inl ⟨roundEven (a / 2 ^ exponent a) * 2 ^ d, ?_⟩
    have split : (2 : ℚ) ^ exponent a = 2 ^ d * 2 ^ exponent x := by
      rw [hd, zpow_add₀ (by norm_num), zpow_natCast, mul_comm]
    push_cast
    rw [mul_assoc, ← split]
    exact ha.symm
  · have hge := exponent_ge a
    refine .inr ⟨(abs_lt_zpow_exponent a).trans_le ?_, zpow_exponent_le hx (by omega)⟩
    exact zpow_le_zpow_right₀ (by norm_num) (by omega)

theorem zpow_eq_multiple (e : ℤ) : (2 : ℚ) ^ (e + 52) = ((2 ^ 52 : ℤ) : ℚ) * 2 ^ e := by
  rw [zpow_add₀ (by norm_num), mul_comm]
  norm_num

/-- Rounding does not pass a representable number. -/
theorem round_le {x a : ℚ} (ha : round a = a) (h : x ≤ a) : round x ≤ a := by
  by_cases hx : x = 0
  · rwa [hx, round_zero, ← hx]
  rcases multiple_or_small hx ha with ⟨n, hn⟩ | ⟨small, large⟩
  · exact round_le_of_multiple hn h
  · -- The number is below all of its own grid, so the argument is far below zero.
    have far : x ≤ -2 ^ (exponent x + 52) := by
      have := le_abs_self a
      rcases abs_choice x with habs | habs <;> rw [habs] at large <;> linarith
    have grid : (-2 ^ (exponent x + 52) : ℚ) = ((-2 ^ 52 : ℤ) : ℚ) * 2 ^ exponent x := by
      rw [zpow_eq_multiple]
      push_cast
      ring
    have := round_le_of_multiple grid far
    have := neg_abs_le a
    linarith

theorem le_round_of_multiple {x a : ℚ} {n : ℤ} (ha : a = n * 2 ^ exponent x) (h : a ≤ x) :
    a ≤ round x := by
  have hpos := spacing_pos (exponent x)
  have hquot : n ≤ x / 2 ^ exponent x := by
    rw [le_div_iff₀ hpos, ← ha]
    exact h
  have herr := (abs_le.1 (roundEven_error (x / 2 ^ exponent x))).1
  have hlt : (n : ℚ) < roundEven (x / 2 ^ exponent x) + 1 := by linarith
  have hle : n ≤ roundEven (x / 2 ^ exponent x) := by
    have hlt' : n < roundEven (x / 2 ^ exponent x) + 1 := by exact_mod_cast hlt
    omega
  rw [round, ha]
  exact mul_le_mul_of_nonneg_right (by exact_mod_cast hle) hpos.le

theorem le_round {x a : ℚ} (ha : round a = a) (h : a ≤ x) : a ≤ round x := by
  by_cases hx : x = 0
  · rwa [hx, round_zero, ← hx]
  rcases multiple_or_small hx ha with ⟨n, hn⟩ | ⟨small, large⟩
  · exact le_round_of_multiple hn h
  · have far : 2 ^ (exponent x + 52) ≤ x := by
      have := neg_abs_le a
      rcases abs_choice x with habs | habs <;> rw [habs] at large <;> linarith
    have := le_round_of_multiple (zpow_eq_multiple (exponent x)) far
    have := le_abs_self a
    linarith

/-- Rounded numbers are representable. -/
theorem round_round (x : ℚ) : round (round x) = round x := by
  set e := exponent x with he
  set m := roundEven (x / 2 ^ e) with hm
  have hpos := spacing_pos e
  have hquot : |x / 2 ^ e| < ((2 ^ 53 : ℤ) : ℚ) := by
    rw [abs_div, abs_of_pos hpos, div_lt_iff₀ hpos]
    have h := abs_lt_zpow_exponent x
    rw [zpow_add₀ (by norm_num)] at h
    push_cast
    linarith
  have hmle : |m| ≤ 2 ^ 53 := abs_roundEven_le hquot
  have hround : round x = m * 2 ^ e := rfl
  by_cases hzero : round x = 0
  · rw [hzero, round_zero]
  have habs : |round x| = |m| * 2 ^ e := by
    rw [hround, abs_mul, abs_of_pos hpos]
    push_cast
    rfl
  rcases lt_or_eq_of_le hmle with hlt | heq
  · refine round_of_multiple hround ?_
    have hbound : |round x| < 2 ^ (e + 53) := by
      rw [habs, zpow_add₀ (by norm_num), mul_comm]
      have : (|m| : ℚ) < 2 ^ (53 : ℤ) := by exact_mod_cast hlt
      push_cast
      exact mul_lt_mul_of_pos_left this hpos
    have := exponent_le hzero (by have := exponent_ge x; omega) hbound
    omega
  · -- The rounded significand reached the next power of two: use the coarser spacing.
    obtain ⟨n, hn⟩ : ∃ n : ℤ, m = n * 2 := by
      rcases abs_eq (by norm_num : (0 : ℤ) ≤ 2 ^ 53) |>.1 heq with h | h
      · exact ⟨2 ^ 52, by rw [h]; norm_num⟩
      · exact ⟨-2 ^ 52, by rw [h]; norm_num⟩
    have hnext : round x = n * 2 ^ (e + 1) := by
      rw [hround, hn, zpow_add₀ (by norm_num), zpow_one]
      push_cast
      ring
    refine round_of_multiple hnext ?_
    have hbound : |round x| < 2 ^ (e + 54) := by
      rw [habs, heq, zpow_add₀ (by norm_num), mul_comm]
      push_cast
      apply mul_lt_mul_of_pos_left _ hpos
      norm_num
    have := exponent_le hzero (by have := exponent_ge x; omega) hbound
    omega

/-! ## Numbers -/

/-- Representable, and below the overflow threshold. -/
def IsDouble (x : ℚ) : Prop := round x = x ∧ |x| < 2 ^ 1024

instance (x : ℚ) : Decidable (IsDouble x) := inferInstanceAs (Decidable (_ ∧ _))

theorem exponent_neg (x : ℚ) : exponent (-x) = exponent x := by
  rw [exponent, exponent, abs_neg]

theorem IsDouble.neg {x : ℚ} (h : IsDouble x) : IsDouble (-x) := by
  refine ⟨?_, by rw [abs_neg]; exact h.2⟩
  apply round_of_multiple (n := -roundEven (x / 2 ^ exponent x)) (e := exponent x)
  · rw [Int.cast_neg, neg_mul]
    exact congrArg _ h.1.symm
  · rw [exponent_neg]

theorem IsDouble.abs {x : ℚ} (h : IsDouble x) : IsDouble |x| := by
  rcases abs_choice x with hx | hx <;> rw [hx]
  · exact h
  · exact h.neg

theorem isDouble_zero : IsDouble 0 := ⟨round_zero, by norm_num⟩

theorem isDouble_of_multiple {x : ℚ} {n k : ℤ} (hx : x = n * 2 ^ (k - 53)) (hk : -1021 ≤ k)
    (hk' : k ≤ 1024) (h : |x| < 2 ^ k) : IsDouble x := by
  have bound : |x| < 2 ^ 1024 := by
    refine h.trans_le ?_
    exact_mod_cast zpow_le_zpow_right₀ (one_le_two : (1 : ℚ) ≤ 2) hk'
  by_cases hzero : x = 0
  · rw [hzero]
    exact isDouble_zero
  · exact ⟨round_of_multiple hx (exponent_le hzero hk h), bound⟩

/-- Numbers are multiples of the least spacing. -/
theorem IsDouble.multiple {x : ℚ} (h : IsDouble x) : ∃ n : ℤ, x = n * 2 ^ (-1074 : ℤ) := by
  have := exponent_ge x
  obtain ⟨d, hd⟩ : ∃ d : ℕ, exponent x = -1074 + d := ⟨(exponent x + 1074).toNat, by omega⟩
  refine ⟨roundEven (x / 2 ^ exponent x) * 2 ^ d, ?_⟩
  have split : (2 : ℚ) ^ exponent x = 2 ^ d * 2 ^ (-1074 : ℤ) := by
    rw [hd, zpow_add₀ (by norm_num), zpow_natCast, mul_comm]
  rw [Int.cast_mul, Int.cast_pow, Int.cast_ofNat, mul_assoc, ← split]
  exact h.1.symm

/-- From a half on numbers are multiples of the spacing below one, so the distance from one is
exact, and so is its half. -/
theorem isDouble_one_sub {x : ℚ} (hx : IsDouble x) (half : 1 / 2 ≤ x) (one : x ≤ 1) :
    IsDouble (1 - x) ∧ IsDouble ((1 - x) / 2) := by
  have spacing : exponent (1 / 2) = -53 := by decide +kernel
  obtain ⟨n, hn⟩ : ∃ n : ℤ, x = n * 2 ^ (-53 : ℤ) := by
    rcases multiple_or_small (x := 1 / 2) (by norm_num) hx.1 with multiple | ⟨small, -⟩
    · rwa [spacing] at multiple
    · rw [spacing, abs_of_nonneg (by linarith)] at small
      norm_num at small
      linarith
  have distance : 1 - x = ((2 ^ 53 - n : ℤ) : ℚ) * 2 ^ (-53 : ℤ) := by
    rw [hn]
    push_cast
    rw [sub_mul]
    norm_num
  have nonneg : 0 ≤ 1 - x := by linarith
  constructor
  · apply isDouble_of_multiple (k := 0) distance (by norm_num) (by norm_num)
    rw [abs_of_nonneg nonneg, zpow_zero]
    linarith
  · apply isDouble_of_multiple (n := 2 ^ 53 - n) (k := -1) _ (by norm_num) (by norm_num)
    · rw [abs_of_nonneg (by linarith)]
      norm_num
      linarith
    · rw [distance, show (-1 - 53 : ℤ) = -53 - 1 by norm_num, zpow_sub_one₀ (by norm_num)]
      ring

/-- The finite numbers. -/
abbrev Double := {x : ℚ // IsDouble x}

inductive Number where
  | nan
  | infinite (negative : Bool)
  | finite (x : Double)
  deriving DecidableEq

namespace Number

/-- The number an exact rational result is rounded to. -/
def ofRat (x : ℚ) : Number :=
  if h : |round x| < 2 ^ 1024 then .finite ⟨round x, round_round x, h⟩ else .infinite (x < 0)

/-- The rational a number denotes, if it is finite. -/
def value? : Number → Option ℚ
  | .finite x => some x.1
  | _ => none

def add : Number → Number → Number
  | .nan, _ | _, .nan => .nan
  | .infinite a, .infinite b => if a = b then .infinite a else .nan
  | .infinite a, .finite _ | .finite _, .infinite a => .infinite a
  | .finite x, .finite y => ofRat (x.1 + y.1)

def neg : Number → Number
  | .nan => .nan
  | .infinite a => .infinite !a
  | .finite x => .finite ⟨-x.1, x.2.neg⟩

def sub (x y : Number) : Number := x.add y.neg

def mul : Number → Number → Number
  | .nan, _ | _, .nan => .nan
  | .infinite a, .infinite b => .infinite (a != b)
  | .infinite a, .finite x | .finite x, .infinite a =>
    if x.1 = 0 then .nan else .infinite (a != decide (x.1 < 0))
  | .finite x, .finite y => ofRat (x.1 * y.1)

/-- Division. A zero divisor counts as a positive zero. -/
def div : Number → Number → Number
  | .nan, _ | _, .nan => .nan
  | .infinite _, .infinite _ => .nan
  | .infinite a, .finite x => .infinite (a != decide (x.1 < 0))
  | .finite _, .infinite _ => .finite ⟨0, isDouble_zero⟩
  | .finite x, .finite y =>
    if y.1 = 0 then if x.1 = 0 then .nan else .infinite (x.1 < 0) else ofRat (x.1 / y.1)

def abs : Number → Number
  | .nan => .nan
  | .infinite _ => .infinite false
  | .finite x => .finite ⟨|x.1|, x.2.abs⟩

/-- `<`; every comparison with a NaN is false. -/
def lt : Number → Number → Bool
  | .nan, _ | _, .nan => false
  | .infinite a, .infinite b => a && !b
  | .infinite a, .finite _ => a
  | .finite _, .infinite b => !b
  | .finite x, .finite y => x.1 < y.1

/-- `<=`. -/
def le : Number → Number → Bool
  | .nan, _ | _, .nan => false
  | x, y => !(lt y x)

def zero : Number := .finite ⟨0, isDouble_zero⟩

theorem ofRat_of_isDouble {x : ℚ} (h : IsDouble x) : ofRat x = .finite ⟨x, h⟩ := by
  have hlt : |round x| < 2 ^ 1024 := by rw [h.1]; exact h.2
  rw [ofRat, dif_pos hlt]
  simp only [h.1]

@[simp] theorem add_finite (x y : Double) : add (.finite x) (.finite y) = ofRat (x.1 + y.1) :=
  rfl

@[simp] theorem sub_finite (x y : Double) : sub (.finite x) (.finite y) = ofRat (x.1 - y.1) := by
  rw [sub_eq_add_neg]
  rfl

@[simp] theorem lt_finite (x y : Double) : lt (.finite x) (.finite y) = decide (x.1 < y.1) := rfl

@[simp] theorem le_finite (x y : Double) : le (.finite x) (.finite y) = decide (x.1 ≤ y.1) := by
  simp [le, lt, decide_not, ← not_lt]

theorem zero_add_finite (x : Double) : add zero (.finite x) = .finite x := by
  rw [zero, add_finite, zero_add, ofRat_of_isDouble x.2]

theorem finite_add_zero (x : Double) : add (.finite x) zero = .finite x := by
  rw [zero, add_finite, add_zero, ofRat_of_isDouble x.2]

/-- A finite result is the rounded one. -/
theorem ofRat_eq_finite {x : ℚ} {y : Double} (h : ofRat x = .finite y) : y.1 = round x := by
  unfold ofRat at h
  split_ifs at h with hlt
  rw [Number.finite.injEq] at h
  rw [← h]

/-- Results well below the overflow threshold are finite and close. -/
theorem exists_ofRat {x : ℚ} {k : ℤ} (hk : -1021 ≤ k) (hk' : k ≤ 1023) (h : |x| < 2 ^ k) :
    ∃ y : Double, ofRat x = .finite y ∧ |y.1 - x| ≤ 2 ^ (k - 54) := by
  have herror := round_error_of_lt hk h
  have hspacing : (2 : ℚ) ^ (k - 54) ≤ 2 ^ k := zpow_le_zpow_right₀ (by norm_num) (by omega)
  have hpow : (2 : ℚ) ^ k ≤ 2 ^ 1023 := by
    exact_mod_cast zpow_le_zpow_right₀ (one_le_two : (1 : ℚ) ≤ 2) hk'
  have hfinite : |round x| < 2 ^ 1024 := by
    have hsub := abs_sub_abs_le_abs_sub (round x) x
    calc |round x| < 2 ^ k + 2 ^ k := by linarith
      _ ≤ 2 ^ 1023 * 2 := by
        rw [mul_two]
        exact add_le_add hpow hpow
      _ = 2 ^ 1024 := (pow_succ 2 1023).symm
  exact ⟨⟨round x, round_round x, hfinite⟩, dif_pos hfinite, herror⟩

@[simp] theorem add_zero (x : Number) : x.add zero = x := by
  cases x with
  | nan | infinite => rfl
  | finite x => exact finite_add_zero x

@[simp] theorem sub_zero (x : Number) : x.sub zero = x := by
  have hzero : zero.neg = zero := by decide +kernel
  rw [sub, hzero, add_zero]

/-! ## Bounds -/

@[simp] theorem mul_finite (x y : Double) : mul (.finite x) (.finite y) = ofRat (x.1 * y.1) :=
  rfl

theorem div_finite (x : Double) {y : Double} (hy : y.1 ≠ 0) :
    div (.finite x) (.finite y) = ofRat (x.1 / y.1) := if_neg hy

/-- A result between representable numbers is finite, and rounded to one that is between the same
representable numbers as the result. -/
theorem ofRat_within {q low high : ℚ} (hlow : IsDouble low) (hhigh : IsDouble high) (hle : low ≤ q)
    (hge : q ≤ high) : ∃ d : Double, ofRat q = .finite d ∧
      (∀ a, IsDouble a → a ≤ q → a ≤ d.1) ∧ ∀ a, IsDouble a → q ≤ a → d.1 ≤ a := by
  have finite : |round q| < 2 ^ 1024 :=
    (abs_le_max_abs_abs (le_round hlow.1 hle) (round_le hhigh.1 hge)).trans_lt
      (max_lt hlow.2 hhigh.2)
  exact ⟨⟨round q, round_round q, finite⟩, dif_pos finite, fun _ ha => le_round ha.1,
    fun _ ha => round_le ha.1⟩

theorem ofRat_le_zero {q : ℚ} {n : ℤ} (hq : q = n * 2 ^ (-1074 : ℤ)) :
    (ofRat q).le zero = decide (q ≤ 0) := by
  have hpos := spacing_pos (-1074)
  rcases le_or_gt q 0 with nonpos | pos
  · have rounded := round_nonpos nonpos
    rw [decide_eq_true nonpos]
    cases result : ofRat q with
    | nan =>
      unfold ofRat at result
      split_ifs at result
    | infinite negative =>
      unfold ofRat at result
      split_ifs at result with hfinite
      have neg : q < 0 := by
        refine lt_of_le_of_ne nonpos fun hzero => hfinite ?_
        rw [hzero, round_zero]
        norm_num
      rw [Number.infinite.injEq, decide_eq_true neg] at result
      rw [← result]
      rfl
    | finite d =>
      rw [zero, le_finite, ofRat_eq_finite result, decide_eq_true rounded]
  · -- A positive multiple of the least spacing is not rounded to zero.
    have hn : 1 ≤ n := by
      rw [hq] at pos
      have : (0 : ℚ) < n := (mul_pos_iff_of_pos_right hpos).1 pos
      exact_mod_cast this
    have least : round (2 ^ (-1074 : ℤ)) = 2 ^ (-1074 : ℤ) := by decide +kernel
    have hle : 2 ^ (-1074 : ℤ) ≤ q := by
      rw [hq]
      exact le_mul_of_one_le_left hpos.le (by exact_mod_cast hn)
    have rounded := hpos.trans_le (le_round least hle)
    rw [decide_eq_false (not_le.2 pos)]
    cases result : ofRat q with
    | nan =>
      unfold ofRat at result
      split_ifs at result
    | infinite negative =>
      unfold ofRat at result
      split_ifs at result with hfinite
      rw [Number.infinite.injEq, decide_eq_false (not_lt.2 pos.le)] at result
      rw [← result]
      rfl
    | finite d =>
      rw [zero, le_finite, ofRat_eq_finite result, decide_eq_false (not_le.2 rounded)]

/-- The difference of two numbers has the sign that tells them apart, however close they are. -/
theorem sub_le_zero (x y : Double) :
    (sub (.finite x) (.finite y)).le zero = decide (x.1 ≤ y.1) := by
  obtain ⟨n, hn⟩ := x.2.multiple
  obtain ⟨m, hm⟩ := y.2.multiple
  have difference : x.1 - y.1 = ((n - m : ℤ) : ℚ) * 2 ^ (-1074 : ℤ) := by
    rw [hn, hm, Int.cast_sub, sub_mul]
  rw [sub_finite, ofRat_le_zero difference]
  exact decide_eq_decide.2 sub_nonpos

end Number

/-! ## Decimal text -/

/-- The largest decimal with `k` digits not above a positive number, as a significand and
a power of ten. -/
def decimalBelow (x : ℚ) (k : ℕ) : ℤ × ℤ :=
  let p := Int.log 10 x + 1 - k
  (⌊x / 10 ^ p⌋, p)

/-- The next decimal with `k` digits; after all nines it has one digit. -/
def decimalAbove (x : ℚ) (k : ℕ) : ℤ × ℤ :=
  let low := decimalBelow x k
  if low.1 + 1 = 10 ^ k then (1, low.2 + k) else (low.1 + 1, low.2)

def decimalValue (d : ℤ × ℤ) : ℚ := d.1 * 10 ^ d.2

/-- Of two neighbouring decimals the one closer to `x`, the even one at a tie. -/
def closer (x : ℚ) (low high : ℤ × ℤ) : ℤ × ℤ :=
  let below := x - decimalValue low
  let above := decimalValue high - x
  if below < above then low else if above < below then high
  else if low.1 % 2 = 0 then low else high

/-- The decimal with `k` digits closest to `x` among those that are read back as `x`. -/
def decimalAt (x : ℚ) (k : ℕ) : Option (ℤ × ℤ) :=
  let low := decimalBelow x k
  let high := decimalAbove x k
  match decide (round (decimalValue low) = x), decide (round (decimalValue high) = x) with
  | true, true => some (closer x low high)
  | true, false => some low
  | false, true => some high
  | false, false => none

/-- The significand and exponent of the shortest decimal that is read back as the positive
number `x`; seventeen digits are always enough. -/
def shortest (x : ℚ) : ℤ × ℤ :=
  ((List.range 16).findSome? fun i => decimalAt x (i + 1)).getD
    (closer x (decimalBelow x 17) (decimalAbove x 17))

theorem decimalBelow_nonneg {x : ℚ} (hx : 0 < x) (k : ℕ) : 0 ≤ (decimalBelow x k).1 :=
  Int.floor_nonneg.2 (div_nonneg hx.le (zpow_nonneg (by norm_num) _))

theorem decimalAbove_nonneg {x : ℚ} (hx : 0 < x) (k : ℕ) : 0 ≤ (decimalAbove x k).1 := by
  have hlow := decimalBelow_nonneg hx k
  unfold decimalAbove
  dsimp only
  split_ifs
  · norm_num
  · omega

theorem closer_cases (x : ℚ) (low high : ℤ × ℤ) :
    closer x low high = low ∨ closer x low high = high := by
  unfold closer
  dsimp only
  split_ifs <;> simp

theorem decimalAt_cases {x : ℚ} {k : ℕ} {d : ℤ × ℤ} (h : decimalAt x k = some d) :
    d = decimalBelow x k ∨ d = decimalAbove x k := by
  unfold decimalAt at h
  dsimp only at h
  split at h
  · rw [Option.some.injEq] at h
    rw [← h]
    exact closer_cases x _ _
  · exact .inl (Option.some.inj h).symm
  · exact .inr (Option.some.inj h).symm
  · cases h

theorem shortest_nonneg {x : ℚ} (hx : 0 < x) : 0 ≤ (shortest x).1 := by
  have both : ∀ (k : ℕ) (d : ℤ × ℤ), d = decimalBelow x k ∨ d = decimalAbove x k → 0 ≤ d.1 := by
    rintro k d (rfl | rfl)
    · exact decimalBelow_nonneg hx k
    · exact decimalAbove_nonneg hx k
  unfold shortest
  cases hfind : (List.range 16).findSome? fun i => decimalAt x (i + 1) with
  | none => exact both 17 _ (closer_cases x _ _)
  | some d =>
    obtain ⟨i, -, hi⟩ := List.exists_of_findSome?_eq_some hfind
    exact both (i + 1) d (decimalAt_cases hi)

theorem decimalValue_nonneg {d : ℤ × ℤ} (h : 0 ≤ d.1) : 0 ≤ decimalValue d :=
  mul_nonneg (by exact_mod_cast h) (zpow_nonneg (by norm_num) _)

namespace Number

/-- The value of the decimal text of a finite number. -/
def decimal (x : ℚ) : ℚ :=
  if x = 0 then 0 else if 0 < x then decimalValue (shortest x)
  else -decimalValue (shortest (-x))

theorem pos_of_decimal_pos {x : ℚ} (h : 0 < decimal x) : 0 < x := by
  unfold decimal at h
  split_ifs at h with hzero hpos
  · exact absurd h (lt_irrefl 0)
  · exact hpos
  · have hneg : 0 < -x := by
      have := lt_of_le_of_ne (not_lt.1 hpos) hzero
      linarith
    have := decimalValue_nonneg (shortest_nonneg hneg)
    linarith

/-- Digits with the decimal point after the first `n` of them, in the notation JavaScript
chooses for it. -/
def layout (digits : String) (n : ℤ) : String :=
  let k := digits.length
  if k ≤ n ∧ n ≤ 21 then digits ++ "".pushn '0' (n.toNat - k)
  else if 0 < n ∧ n ≤ 21 then
    String.ofList (digits.toList.take n.toNat) ++ "." ++
      String.ofList (digits.toList.drop n.toNat)
  else if -6 < n ∧ n ≤ 0 then "0." ++ "".pushn '0' (-n).toNat ++ digits
  else
    let sign := if 0 < n then "+" else "-"
    let mantissa := String.ofList (digits.toList.take 1) ++
      (if k = 1 then "" else "." ++ String.ofList (digits.toList.drop 1))
    mantissa ++ "e" ++ sign ++ toString (n - 1).natAbs

/-- The text of a positive number. -/
def positiveText (x : ℚ) : String :=
  let d := shortest x
  let digits := toString d.1.natAbs
  layout digits (digits.length + d.2)

/-- `String(x)`. -/
def text : Number → String
  | .nan => "NaN"
  | .infinite negative => if negative then "-Infinity" else "Infinity"
  | .finite x =>
    if x.1 = 0 then "0" else if 0 < x.1 then positiveText x.1 else "-" ++ positiveText (-x.1)

/-- `Math.max` of two numbers. -/
def max : Number → Number → Number
  | .nan, _ | _, .nan => .nan
  | x, y => if lt x y then y else x

end Number

end Binary64
