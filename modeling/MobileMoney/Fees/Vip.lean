import Mathlib.Order.Monotone.Basic
import MobileMoney.Fees.Strategies

/-!
# The discount of the VIP tiers

The discount by volume is implemented twice: `calculateFee` of `services/feeStrategyEngine.ts`
discounts the raw fee and the bounds that took effect, `calculateFeeForUser` of `utils/fees.ts` the
rate and both bounds. Both are modelled here in exact arithmetic and up to the rounding to cents.
A clamp commutes with a positive factor, so that both charge the discounted clamped fee.
-/

namespace MobileMoney.Fees.Vip

open Binary64 (Number Double)

/-! ## Tiers -/

inductive VipTier where
  | standard | silver | gold | platinum | diamond
  deriving DecidableEq, Repr

structure TierConfig where
  tier : VipTier
  minVolume : ℚ
  discountPercent : ℚ

/-- From the highest volume to the lowest, so that the first match is the best tier. -/
def vipTiers : List TierConfig :=
  [⟨.diamond, 50000, 65⟩, ⟨.platinum, 20000, 50⟩, ⟨.gold, 5000, 35⟩, ⟨.silver, 1000, 20⟩,
    ⟨.standard, 0, 0⟩]

def mapVolumeToTier (volume : ℚ) : TierConfig :=
  (vipTiers.find? fun tier => tier.minVolume ≤ volume).getD ⟨.standard, 0, 0⟩

/-- What is left of a fee after the discount of a volume. -/
def multiplier (volume : ℚ) : ℚ := 1 - (mapVolumeToTier volume).discountPercent / 100

theorem mapVolumeToTier_eq (volume : ℚ) : mapVolumeToTier volume =
    if 50000 ≤ volume then ⟨.diamond, 50000, 65⟩
    else if 20000 ≤ volume then ⟨.platinum, 20000, 50⟩
    else if 5000 ≤ volume then ⟨.gold, 5000, 35⟩
    else if 1000 ≤ volume then ⟨.silver, 1000, 20⟩
    else ⟨.standard, 0, 0⟩ := by
  simp only [mapVolumeToTier, vipTiers, List.find?_cons, List.find?_nil]
  split_ifs with diamond platinum gold silver <;> simp [*]
  cases decide (0 ≤ volume) <;> rfl

theorem multiplier_eq (volume : ℚ) : multiplier volume =
    if 50000 ≤ volume then 7 / 20 else if 20000 ≤ volume then 1 / 2
    else if 5000 ≤ volume then 13 / 20 else if 1000 ≤ volume then 4 / 5 else 1 := by
  rw [multiplier, mapVolumeToTier_eq]
  split_ifs <;> norm_num

theorem multiplier_pos (volume : ℚ) : 0 < multiplier volume := by
  rw [multiplier_eq]
  split_ifs <;> norm_num

theorem multiplier_antitone : Antitone multiplier := by
  intro volume volume' h
  rw [multiplier_eq, multiplier_eq]
  split_ifs <;> linarith

/-- The tiers of the engine are these, as numbers of the program. -/
theorem mapVolumeToTier_finite (volume : Double) :
    Fees.mapVolumeToTier (.finite volume) =
      number (mapVolumeToTier volume.1).discountPercent := by
  have bound (n : ℚ) (h : Binary64.IsDouble n) :
      (number n).le (.finite volume) = decide (n ≤ volume.1) := by
    rw [number, Number.ofRat_of_isDouble h, Number.le_finite]
  rw [mapVolumeToTier_eq]
  simp only [Fees.mapVolumeToTier, Fees.vipTiers, List.find?_cons, List.find?_nil,
    bound 50000 (by decide +kernel), bound 20000 (by decide +kernel),
    bound 5000 (by decide +kernel), bound 1000 (by decide +kernel), bound 0 (by decide +kernel)]
  split_ifs with diamond platinum gold silver <;> simp [*]
  cases decide (0 ≤ volume.1) <;> rfl

/-! ## Clamps -/

/-- The fee within its bounds, and the bounds that took effect. -/
def clampFee (fee : ℚ) (minimum maximum : Option ℚ) : ℚ × Option ℚ × Option ℚ :=
  let low := minimum.filter fun bound => fee < bound
  let raised := low.getD fee
  let high := maximum.filter fun bound => bound < raised
  (high.getD raised, low, high)

/-- The clamp of the engine makes no rounding error. -/
theorem clampFee_finite (fee : Double) (minimum maximum : Option Double) :
    let clamped := clampFee fee.1 (minimum.map (·.1)) (maximum.map (·.1))
    ∃ result low high, Fees.clampFee (.finite fee) (minimum.map .finite) (maximum.map .finite) =
        (.finite result, low, high) ∧ result.1 = clamped.1 := by
  cases minimum with
  | none =>
    cases maximum with
    | none => exact ⟨fee, none, none, rfl, rfl⟩
    | some maximum =>
      by_cases h : maximum.1 < fee.1 <;> simp [Fees.clampFee, clampFee, Option.filter_some, h]
  | some minimum =>
    cases maximum with
    | none =>
      by_cases h : fee.1 < minimum.1 <;> simp [Fees.clampFee, clampFee, Option.filter_some, h]
    | some maximum =>
      by_cases h : fee.1 < minimum.1
      · by_cases h' : maximum.1 < minimum.1 <;>
        simp [Fees.clampFee, clampFee, Option.filter_some, h, h']
      · by_cases h' : maximum.1 < fee.1 <;>
        simp [Fees.clampFee, clampFee, Option.filter_some, h, h']

/-- A positive factor on the fee and both bounds is a factor on the clamped fee. -/
theorem clampFee_mul (fee : ℚ) (minimum maximum : Option ℚ) {factor : ℚ} (h : 0 < factor) :
    (clampFee (fee * factor) (minimum.map (· * factor)) (maximum.map (· * factor))).1 =
      (clampFee fee minimum maximum).1 * factor := by
  have scaled (x y : ℚ) : x * factor < y * factor ↔ x < y := mul_lt_mul_iff_left₀ h
  cases minimum with
  | none =>
    cases maximum with
    | none => rfl
    | some maximum => by_cases h : maximum < fee <;> simp [clampFee, Option.filter_some, scaled, h]
  | some minimum =>
    by_cases low : fee < minimum
    · cases maximum with
      | none => simp [clampFee, Option.filter_some, scaled, low]
      | some maximum =>
        by_cases high : maximum < minimum <;>
          simp [clampFee, Option.filter_some, scaled, low, high]
    · cases maximum with
      | none => simp [clampFee, Option.filter_some, scaled, low]
      | some maximum =>
        by_cases high : maximum < fee <;> simp [clampFee, Option.filter_some, scaled, low, high]

/-! ## The two discounts -/

structure StrategyApplyResult where
  rawFee : ℚ
  clampedFee : ℚ
  appliedMinimum : Option ℚ
  appliedMaximum : Option ℚ

/-- How every kind of strategy makes a result of its raw fee. -/
def clampedResult (rawFee : ℚ) (minimum maximum : Option ℚ) : StrategyApplyResult :=
  let (clamped, appliedMin, appliedMax) := clampFee rawFee minimum maximum
  ⟨rawFee, clamped, appliedMin, appliedMax⟩

/-- The fee that `calculateFee` of the engine charges a user. No maximum counts as an infinite
one. -/
def engineFee (result : StrategyApplyResult) (volume : ℚ) : ℚ :=
  let discount := (mapVolumeToTier volume).discountPercent
  if 0 < discount then
    let multiplier := 1 - discount / 100
    let discountedRaw := result.rawFee * multiplier
    let discountedMin := result.appliedMinimum.getD 0 * multiplier
    let discountedMax := result.appliedMaximum.map (· * multiplier)
    (clampFee discountedRaw (some discountedMin) discountedMax).1
  else result.clampedFee

structure FeeConfiguration where
  feePercentage : ℚ
  feeMinimum : ℚ
  feeMaximum : ℚ

/-- The fee of `calculateFeeForUser`. -/
def calculateFeeForUser (config : FeeConfiguration) (amount volume : ℚ) : ℚ :=
  let multiplier := 1 - (mapVolumeToTier volume).discountPercent / 100
  let effectiveRate := config.feePercentage * multiplier
  let fee := amount * (effectiveRate / 100)
  let discountedMin := config.feeMinimum * multiplier
  let discountedMax := config.feeMaximum * multiplier
  (clampFee fee (some discountedMin) (some discountedMax)).1

/-- The bounds that took effect clamp the fee in the same way as all of them. -/
theorem clampFee_applied {rawFee : ℚ} (nonneg : 0 ≤ rawFee) (minimum maximum : Option ℚ) :
    (clampFee rawFee (some ((clampFee rawFee minimum maximum).2.1.getD 0))
      (clampFee rawFee minimum maximum).2.2).1 = (clampFee rawFee minimum maximum).1 := by
  have raw := nonneg.not_gt
  cases minimum with
  | none =>
    cases maximum with
    | none => simp [clampFee, Option.filter_some, raw]
    | some maximum =>
      by_cases high : maximum < rawFee <;> simp [clampFee, Option.filter_some, raw, high]
  | some minimum =>
    by_cases low : rawFee < minimum
    · cases maximum with
      | none => simp [clampFee, Option.filter_some, low]
      | some maximum =>
        by_cases high : maximum < minimum <;> simp [clampFee, Option.filter_some, low, high]
    · cases maximum with
      | none => simp [clampFee, Option.filter_some, low, raw]
      | some maximum =>
        by_cases high : maximum < rawFee <;> simp [clampFee, Option.filter_some, low, raw, high]

theorem discountPercent_nonneg (volume : ℚ) : 0 ≤ (mapVolumeToTier volume).discountPercent := by
  rw [mapVolumeToTier_eq]
  split_ifs <;> norm_num

/-- The discount of the engine is that of the clamped fee. -/
theorem engineFee_eq {rawFee : ℚ} (nonneg : 0 ≤ rawFee) (minimum maximum : Option ℚ)
    (volume : ℚ) : engineFee (clampedResult rawFee minimum maximum) volume =
      (clampFee rawFee minimum maximum).1 * multiplier volume := by
  by_cases discounted : 0 < (mapVolumeToTier volume).discountPercent
  · rw [← clampFee_applied nonneg, ← clampFee_mul _ _ _ (multiplier_pos volume)]
    simp only [engineFee, if_pos discounted]
    rfl
  · have none : multiplier volume = 1 := by
      rw [multiplier, le_antisymm (not_lt.1 discounted) (discountPercent_nonneg volume)]
      norm_num
    rw [none, mul_one]
    simp only [engineFee, if_neg discounted]
    rfl

/-- The configuration has the bounds of the strategy. Where the strategy has none, the bound of the
configuration takes no effect. -/
structure SameBounds (rawFee : ℚ) (minimum maximum : Option ℚ) (config : FeeConfiguration) :
    Prop where
  lower : ∀ bound ∈ minimum, config.feeMinimum = bound
  noLower : minimum = none → config.feeMinimum ≤ rawFee
  upper : ∀ bound ∈ maximum, config.feeMaximum = bound
  noUpper : maximum = none → (clampFee rawFee minimum none).1 ≤ config.feeMaximum

theorem clampFee_of_sameBounds {rawFee : ℚ} {minimum maximum : Option ℚ}
    {config : FeeConfiguration} (same : SameBounds rawFee minimum maximum config) :
    (clampFee rawFee (some config.feeMinimum) (some config.feeMaximum)).1 =
      (clampFee rawFee minimum maximum).1 := by
  have lower (maximum : Option ℚ) : (clampFee rawFee (some config.feeMinimum) maximum).1 =
      (clampFee rawFee minimum maximum).1 := by
    cases minimum with
    | none => simp [clampFee, Option.filter_some, (same.noLower rfl).not_gt]
    | some minimum => rw [same.lower minimum rfl]
  cases maximum with
  | none =>
    have upper := (same.noUpper rfl).not_gt
    rw [lower]
    simp only [clampFee, Option.filter_none, Option.getD_none] at upper ⊢
    rw [Option.filter_some, if_neg (by simpa using upper), Option.getD_none]
  | some maximum => rw [same.upper maximum rfl, lower]

theorem calculateFeeForUser_eq (config : FeeConfiguration) (amount volume : ℚ) :
    calculateFeeForUser config amount volume =
      (clampFee (amount * (config.feePercentage / 100)) (some config.feeMinimum)
        (some config.feeMaximum)).1 * multiplier volume := by
  rw [← clampFee_mul _ _ _ (multiplier_pos volume)]
  have rate : amount * (config.feePercentage * multiplier volume / 100) =
      amount * (config.feePercentage / 100) * multiplier volume := by ring
  rw [← rate]
  rfl

theorem clampFee_nonneg {rawFee : ℚ} (nonneg : 0 ≤ rawFee) {minimum maximum : Option ℚ}
    (bound : ∀ bound ∈ maximum, 0 ≤ bound) : 0 ≤ (clampFee rawFee minimum maximum).1 := by
  have raised : 0 ≤ (minimum.filter fun bound => rawFee < bound).getD rawFee := by
    cases hlow : minimum.filter fun bound => rawFee < bound with
    | none => exact nonneg
    | some low =>
      have := (Option.filter_eq_some_iff.1 hlow).2
      exact nonneg.trans (of_decide_eq_true this).le
  simp only [clampFee]
  cases hhigh : maximum.filter fun bound => bound <
      (minimum.filter fun bound => rawFee < bound).getD rawFee with
  | none => exact raised
  | some high => exact bound high (Option.filter_eq_some_iff.1 hhigh).1

/-! ## Percentage strategies -/

/-- The minimum of a strategy for a single user is not applied. -/
def applyPercentageFee (scope : FeeStrategyScope) (feePercentage : ℚ)
    (feeMinimum feeMaximum : Option ℚ) (amount : ℚ) : StrategyApplyResult :=
  let rawFee := amount * (feePercentage / 100)
  let minimum := if scope = .user then none else feeMinimum
  clampedResult rawFee minimum feeMaximum

/-- A percentage strategy charges what a configuration with the same rate and bounds does, where a
strategy for a single user has no minimum. -/
theorem applyPercentageFee_eq {scope : FeeStrategyScope} {amount : ℚ}
    {feeMinimum feeMaximum : Option ℚ} {config : FeeConfiguration}
    (nonneg : 0 ≤ amount * (config.feePercentage / 100))
    (same : SameBounds (amount * (config.feePercentage / 100))
      (if scope = .user then none else feeMinimum) feeMaximum config) (volume : ℚ) :
    engineFee (applyPercentageFee scope config.feePercentage feeMinimum feeMaximum amount)
        volume =
      calculateFeeForUser config amount volume := by
  rw [applyPercentageFee, engineFee_eq nonneg, calculateFeeForUser_eq,
    clampFee_of_sameBounds same]

/-! ## The two discounts agree -/

/-- The fee of a user is the clamped fee with the discount of the tier, whichever bounds took
effect; that of a percentage strategy is the fee under a configuration with its rate, its maximum
and, unless it is for a single user, its minimum; and it does not rise with the volume, as no bound
that a strategy can be given is negative. -/
theorem vip_discount {rawFee : ℚ} (nonneg : 0 ≤ rawFee) (minimum maximum : Option ℚ) :
    (∀ volume, engineFee (clampedResult rawFee minimum maximum) volume =
      (clampFee rawFee minimum maximum).1 *
        (1 - (mapVolumeToTier volume).discountPercent / 100)) ∧
    (∀ (scope : FeeStrategyScope) (config : FeeConfiguration) (amount volume : ℚ),
      amount * (config.feePercentage / 100) = rawFee →
      SameBounds rawFee (if scope = .user then none else minimum) maximum config →
        engineFee (applyPercentageFee scope config.feePercentage minimum maximum amount) volume =
          calculateFeeForUser config amount volume) ∧
    ((∀ bound ∈ maximum, 0 ≤ bound) →
      Antitone (engineFee (clampedResult rawFee minimum maximum))) := by
  refine ⟨engineFee_eq nonneg minimum maximum, ?_, ?_⟩
  · rintro scope config amount volume rfl same
    exact applyPercentageFee_eq nonneg same volume
  · intro bound volume volume' h
    rw [engineFee_eq nonneg, engineFee_eq nonneg]
    exact mul_le_mul_of_nonneg_left (multiplier_antitone h) (clampFee_nonneg nonneg bound)

/-- Seven thousand in thirty days is the gold tier. A strategy of a provider has its minimum, one of
a user does not. -/
theorem vip_discount_of_gold :
    engineFee (clampedResult 1 (some 50) (some 100)) 7000 = 65 / 2 ∧
      engineFee (applyPercentageFee .provider 1 (some 50) (some 100) 100) 7000 =
        calculateFeeForUser ⟨1, 50, 100⟩ 100 7000 ∧
      engineFee (applyPercentageFee .user 1 (some 50) (some 100) 100) 7000 =
        calculateFeeForUser ⟨1, 0, 100⟩ 100 7000 ∧
      engineFee (clampedResult 1 (some 50) (some 100)) 20000 ≤
        engineFee (clampedResult 1 (some 50) (some 100)) 7000 := by
  obtain ⟨discount, agree, antitone⟩ :=
    vip_discount (show (0 : ℚ) ≤ 1 by norm_num) (some 50) (some 100)
  refine ⟨?_, ?_, ?_, antitone (by norm_num) (by norm_num)⟩
  · rw [discount, mapVolumeToTier_eq]
    norm_num [clampFee, Option.filter_some]
  · exact agree .provider ⟨1, 50, 100⟩ 100 7000 (by norm_num)
      ⟨by simp, by simp, by simp, by simp⟩
  · exact agree .user ⟨1, 0, 100⟩ 100 7000 (by norm_num) ⟨by simp, by simp, by simp, by simp⟩

/-- One percent of 100 for a user whose strategy has a minimum of 50, at the gold tier: the engine
charges 0.65, the configuration with the same rate and bounds 32.5. -/
theorem user_minimum_dropped :
    engineFee (applyPercentageFee .user 1 (some 50) (some 100) 100) 7000 = 13 / 20 ∧
      calculateFeeForUser ⟨1, 50, 100⟩ 100 7000 = 65 / 2 := by
  decide +kernel

end MobileMoney.Fees.Vip
