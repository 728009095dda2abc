import Mathlib.Algebra.Module.Basic
import Mathlib.Data.Int.GCD
import Mathlib.Data.Int.ModEq
import Mathlib.Data.Nat.Prime.Basic
import Mathlib.Tactic.Linarith
import Mathlib.Tactic.Module

/-!
# Groups of prime order

Multiples of the points of an additive group in which `q` times every point is zero, for a prime
`q`: they depend on the factor modulo `q` only, and a factor that is not divisible by `q` can be
divided by. Two answers to different challenges therefore determine what was asked about.
-/

namespace PrimeOrder

variable {P : Type*} [AddCommGroup P] {q : ℕ}

/-- The inverse modulo `q`, by the extended algorithm of Euclid. -/
def inverse (x : ℤ) (q : ℕ) : ℤ := Int.gcdA x q % q

theorem inverse_mul_modEq (hq : q.Prime) {x : ℤ} (hx : ¬ (q : ℤ) ∣ x) :
    inverse x q * x ≡ 1 [ZMOD q] := by
  have coprime : Nat.Coprime q x.natAbs :=
    hq.coprime_iff_not_dvd.2 fun h => hx (Int.natCast_dvd.2 h)
  have hgcd : Int.gcd x q = 1 := coprime.symm
  have bezout := Int.gcd_eq_gcd_ab x q
  rw [hgcd] at bezout
  have reduced : inverse x q ≡ Int.gcdA x q [ZMOD q] := Int.mod_modEq _ _
  refine (reduced.mul_right x).trans (Int.modEq_iff_dvd.2 ⟨Int.gcdB x q, ?_⟩)
  push_cast at bezout
  linarith

theorem zsmul_congr (exponent : ∀ p : P, (q : ℤ) • p = 0) {x y : ℤ} (h : x ≡ y [ZMOD q]) (p : P) :
    x • p = y • p := by
  obtain ⟨k, hk⟩ := h.symm.dvd
  have hx : x = y + k * q := by linarith
  rw [hx, add_zsmul, mul_zsmul, exponent, smul_zero, add_zero]

theorem emod_zsmul (exponent : ∀ p : P, (q : ℤ) • p = 0) (x : ℤ) (p : P) :
    (x % q) • p = x • p :=
  zsmul_congr exponent (Int.mod_modEq x q) p

theorem inverse_zsmul (hq : q.Prime) (exponent : ∀ p : P, (q : ℤ) • p = 0) {x : ℤ}
    (hx : ¬ (q : ℤ) ∣ x) (p : P) : inverse x q • (x • p) = p := by
  rw [← mul_zsmul, zsmul_congr exponent (inverse_mul_modEq hq hx), one_zsmul]

/-- A multiple of a point that is not zero is zero only for multiples of `q`. -/
theorem zsmul_eq_zero_iff (hq : q.Prime) (exponent : ∀ p : P, (q : ℤ) • p = 0) {p : P}
    (hp : p ≠ 0) {x : ℤ} : x • p = 0 ↔ (q : ℤ) ∣ x := by
  constructor
  · intro hx
    by_contra hnot
    apply hp
    rw [← inverse_zsmul hq exponent hnot p, hx, smul_zero]
  · intro hx
    rw [zsmul_congr exponent (Int.modEq_zero_iff_dvd.2 hx), zero_zsmul]

/-- Two answers to different challenges, with one announcement, give what the challenges are
multiplied with. -/
theorem eq_of_two_answers (hq : q.Prime) (exponent : ∀ p : P, (q : ℤ) • p = 0)
    {T X answer answer' : P} {c c' : ℤ} (h : answer = T + c • X) (h' : answer' = T + c' • X)
    (hc : ¬ c ≡ c' [ZMOD q]) : X = inverse (c - c') q • (answer - answer') := by
  have hdvd : ¬ (q : ℤ) ∣ c - c' := fun hdvd => hc (Int.modEq_iff_dvd.2 hdvd).symm
  have difference : answer - answer' = (c - c') • X := by
    rw [h, h']
    module
  rw [difference, inverse_zsmul hq exponent hdvd]

end PrimeOrder
