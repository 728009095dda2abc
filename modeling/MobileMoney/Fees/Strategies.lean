import MobileMoney.Library.Binary64
import MobileMoney.Library.Keyed
import MobileMoney.Library.Precedence

/-!
# Fee strategies

`services/feeStrategyEngine.ts`: which of the active strategies sets the fee of a transaction, and
what that fee is. The answers of the other services are parameters: the history of prices, and
the volume of a user in the last thirty days. A list of candidates is kept for a minute under the
user and the provider; it is an answer of the query all the same.
-/

namespace MobileMoney.Fees

open Binary64 (Number)

inductive FeeStrategyType where
  | flat | percentage | timeBased | volumeBased | volatilityBased
  deriving DecidableEq, Repr

inductive FeeStrategyScope where
  | user | provider | global
  deriving DecidableEq, Repr

structure VolumeTier where
  minAmount : Number
  maxAmount : Option Number
  feePercentage : Option Number
  flatAmount : Option Number

structure FeeStrategy where
  id : String
  name : String
  strategyType : FeeStrategyType
  scope : FeeStrategyScope
  userId : Option String
  provider : Option String
  priority : ℤ
  isActive : Bool
  flatAmount : Option Number
  feePercentage : Option Number
  feeMinimum : Option Number
  feeMaximum : Option Number
  daysOfWeek : Option (List ℕ)
  timeStart : Option String
  timeEnd : Option String
  overridePercentage : Option Number
  overrideFlatAmount : Option Number
  volumeTiers : Option (List VolumeTier)
  volatilityBaseCurrency : Option String
  volatilityQuoteCurrency : Option String
  volatilityMultiplier : Option Number
  volatilityWindowHours : Option ℕ

/-- `getUTCDay` (0 is Sunday), `getUTCHours` and `getUTCMinutes` of the evaluation time. -/
structure UtcTime where
  day : ℕ
  hours : ℕ
  minutes : ℕ

structure FeeCalculationContext where
  amount : Number
  userId : Option String
  provider : Option String
  evaluationTime : UtcTime

structure StrategyApplyResult where
  rawFee : Number
  clampedFee : Number
  appliedMinimum : Option Number
  appliedMaximum : Option Number
  volatilityCoefficient : Option Number

structure Breakdown where
  strategyId : String
  strategyType : FeeStrategyType
  rawFee : Number
  clampedFee : Number
  appliedMinimum : Option Number
  appliedMaximum : Option Number
  volatilityCoefficient : Option Number

structure FeeCalculationResult where
  fee : Number
  total : Number
  strategyUsed : String
  scopeUsed : FeeStrategyScope
  timeOverrideActive : Bool
  breakdown : Breakdown

/-- The answers of the other services; an error is thrown on. -/
structure Services where
  computeVolatility : String → String → ℕ → Except String (Option Number)
  getThirtyDayVolume : String → Except String Number

/-! ## The strategies -/

def number (x : ℚ) : Number := .ofRat x

def percent (amount percentage : Number) : Number := amount.mul (percentage.div (number 100))

/-- The fee within its bounds, and the bounds that took effect. -/
def clampFee (fee : Number) (minimum maximum : Option Number) :
    Number × Option Number × Option Number :=
  let low := minimum.filter fee.lt
  let raised := low.getD fee
  let high := maximum.filter fun bound => bound.lt raised
  (high.getD raised, low, high)

def clampedResult (rawFee : Number) (minimum maximum volatilityCoefficient : Option Number) :
    StrategyApplyResult :=
  let (clamped, appliedMin, appliedMax) := clampFee rawFee minimum maximum
  ⟨rawFee, clamped, appliedMin, appliedMax, volatilityCoefficient⟩

def applyFlatFee (strategy : FeeStrategy) : StrategyApplyResult :=
  clampedResult (strategy.flatAmount.getD .zero) strategy.feeMinimum strategy.feeMaximum none

def applyPercentageFee (strategy : FeeStrategy) (amount : Number) : StrategyApplyResult :=
  clampedResult (percent amount (strategy.feePercentage.getD .zero))
    (if strategy.scope = .user then none else strategy.feeMinimum) strategy.feeMaximum none

def UtcTime.isoDay (time : UtcTime) : ℕ := if time.day = 0 then 7 else time.day

def padStart (n : ℕ) : String := if n < 10 then "0" ++ toString n else toString n

def UtcTime.hhmm (time : UtcTime) : String := padStart time.hours ++ ":" ++ padStart time.minutes

/-- Both bounds of the window, where they are given. -/
def FeeStrategy.window (strategy : FeeStrategy) : Option (String × String) :=
  match strategy.timeStart, strategy.timeEnd with
  | some timeStart, some timeEnd =>
    if timeStart ≠ "" ∧ timeEnd ≠ "" then some (timeStart, timeEnd) else none
  | _, _ => none

/-- The conditions of `applyTimeBasedFee`. -/
def FeeStrategy.InTime (strategy : FeeStrategy) (time : UtcTime) : Prop :=
  time.isoDay ∈ strategy.daysOfWeek.getD [] ∧
    ∀ window ∈ strategy.window, ¬ time.hhmm < window.1 ∧ time.hhmm < window.2

instance (strategy : FeeStrategy) (time : UtcTime) : Decidable (strategy.InTime time) :=
  inferInstanceAs (Decidable (_ ∧ ∀ window ∈ strategy.window, _))

def applyTimeBasedFee (strategy : FeeStrategy) (amount : Number) (time : UtcTime) :
    Option StrategyApplyResult :=
  if strategy.InTime time then
    some (clampedResult
      (strategy.overrideFlatAmount.getD
        (percent amount (strategy.overridePercentage.getD .zero)))
      none strategy.feeMaximum none)
  else none

def VolumeTier.Matches (tier : VolumeTier) (amount : Number) : Prop :=
  tier.minAmount.le amount = true ∧ ∀ bound ∈ tier.maxAmount, amount.lt bound = true

instance (tier : VolumeTier) (amount : Number) : Decidable (tier.Matches amount) :=
  inferInstanceAs (Decidable (_ ∧ ∀ bound ∈ tier.maxAmount, _))

def VolumeTier.rawFee (tier : VolumeTier) (amount : Number) : Number :=
  match tier.feePercentage, tier.flatAmount with
  | some feePercentage, _ => percent amount feePercentage
  | none, some flatAmount => flatAmount
  | none, none => .zero

def applyVolumeBasedFee (strategy : FeeStrategy) (amount : Number) : StrategyApplyResult :=
  match (strategy.volumeTiers.getD []).find? fun tier => tier.Matches amount with
  | some tier =>
    clampedResult (tier.rawFee amount) strategy.feeMinimum strategy.feeMaximum none
  | none => clampedResult .zero none strategy.feeMaximum none

/-- The coefficient of variation, where the pair is configured and has a history. -/
def volatilityOf (services : Services) (strategy : FeeStrategy) :
    Except String (Option Number) :=
  match strategy.volatilityBaseCurrency, strategy.volatilityQuoteCurrency with
  | some base, some quote =>
    if base ≠ "" ∧ quote ≠ "" then
      services.computeVolatility base quote (strategy.volatilityWindowHours.getD 24)
    else .ok none
  | _, _ => .ok none

def applyVolatilityBasedFee (services : Services) (strategy : FeeStrategy) (amount : Number) :
    Except String StrategyApplyResult := do
  let basePercentage := strategy.feePercentage.getD .zero
  let coefficient ← volatilityOf services strategy
  let surcharge := coefficient.map fun coefficientOfVariation =>
    coefficientOfVariation.mul (strategy.volatilityMultiplier.getD (number 1))
  let effectivePercentage := (surcharge.map basePercentage.add).getD basePercentage
  return clampedResult (percent amount effectivePercentage) strategy.feeMinimum
    strategy.feeMaximum coefficient

def applyStrategy (services : Services) (strategy : FeeStrategy) (amount : Number)
    (time : UtcTime) : Except String (Option StrategyApplyResult) :=
  match strategy.strategyType with
  | .flat => .ok (applyFlatFee strategy)
  | .percentage => .ok (applyPercentageFee strategy amount)
  | .timeBased => .ok (applyTimeBasedFee strategy amount time)
  | .volumeBased => .ok (applyVolumeBasedFee strategy amount)
  | .volatilityBased => (applyVolatilityBasedFee services strategy amount).map some

/-! ## The candidates -/

/-- The order of the scopes in the query. -/
def FeeStrategyScope.rank : FeeStrategyScope → ℕ
  | .user => 1
  | .provider => 2
  | .global => 3

abbrev Strategies := Keyed FeeStrategy.id

/-- The rows that `resolveStrategies` asks for; an empty user or provider counts as none. -/
def FeeStrategy.Candidate (strategy : FeeStrategy) (userId provider : Option String) : Prop :=
  strategy.isActive = true ∧
    (strategy.scope = .global ∨
      strategy.scope = .provider ∧ (∃ slug ∈ provider, slug ≠ "" ∧ strategy.provider = some slug) ∨
      strategy.scope = .user ∧ ∃ user ∈ userId, user ≠ "" ∧ strategy.userId = some user)

instance (strategy : FeeStrategy) (userId provider : Option String) :
    Decidable (strategy.Candidate userId provider) :=
  inferInstanceAs (Decidable (_ ∧ (_ ∨ _ ∧ (∃ slug ∈ provider, _) ∨ _ ∧ ∃ user ∈ userId, _)))

/-- The order of the query; rows with the same scope and priority come in any order. -/
def queryKey : FeeStrategy → ℕ ×ₗ ℤ :=
  Precedence.ungrouped (fun strategy => strategy.scope.rank) fun strategy => strategy.priority

/-- What the query of `resolveStrategies` can answer. -/
structure Resolves (strategies : Strategies) (ctx : FeeCalculationContext)
    (candidates : List FeeStrategy) : Prop where
  perm : candidates.Perm
    (strategies.rows.filter fun strategy => strategy.Candidate ctx.userId ctx.provider)
  sorted : candidates.Pairwise fun strategy strategy' => queryKey strategy ≤ queryKey strategy'

/-! ## The fee -/

/-- `toFixed(2)`, read as a number again. -/
def toFixed2 : Number → Number
  | .finite x =>
    if |x.1| < 10 ^ 21 then
      let cents : ℚ := (⌊|x.1| * 100 + 1 / 2⌋ : ℤ)
      number (if x.1 < 0 then -(cents / 100) else cents / 100)
    else .finite x
  | x => x

/-- `VIP_TIERS` by the least volume, with the discount in percent. -/
def vipTiers : List (Number × Number) :=
  [(number 50000, number 65), (number 20000, number 50), (number 5000, number 35),
    (number 1000, number 20), (number 0, number 0)]

def mapVolumeToTier (volume : Number) : Number :=
  ((vipTiers.find? fun tier => tier.1.le volume).map (·.2)).getD (number 0)

/-- The fee after the discount of a tier, and what the breakdown says then. -/
def discounted (result : StrategyApplyResult) (discount : Number) :
    Number × StrategyApplyResult :=
  let multiplier := (number 1).sub (discount.div (number 100))
  let discountedRaw := result.rawFee.mul multiplier
  let low := (result.appliedMinimum.getD .zero).mul multiplier
  let high := result.appliedMaximum.map (·.mul multiplier)
  let (finalFee, appliedMin, appliedMax) := clampFee discountedRaw (some low) high
  (finalFee,
    { result with
      rawFee := toFixed2 discountedRaw
      clampedFee := toFixed2 finalFee
      appliedMinimum := (appliedMin.map toFixed2) <|> result.appliedMinimum
      appliedMaximum := (appliedMax.map toFixed2) <|> result.appliedMaximum })

def vipDiscount (services : Services) (ctx : FeeCalculationContext)
    (result : StrategyApplyResult) : Except String (Number × StrategyApplyResult) :=
  match ctx.userId.filter (· ≠ "") with
  | none => .ok (result.clampedFee, result)
  | some userId => do
    let discount := mapVolumeToTier (← services.getThirtyDayVolume userId)
    return if Number.zero.lt discount then discounted result discount
      else (result.clampedFee, result)

def feeOf (ctx : FeeCalculationContext) (strategy : FeeStrategy) (fee : Number)
    (result : StrategyApplyResult) : FeeCalculationResult where
  fee := toFixed2 fee
  total := toFixed2 (ctx.amount.add fee)
  strategyUsed := strategy.name
  scopeUsed := strategy.scope
  timeOverrideActive := strategy.strategyType = .timeBased
  breakdown :=
    { strategyId := strategy.id
      strategyType := strategy.strategyType
      rawFee := toFixed2 result.rawFee
      clampedFee := toFixed2 result.clampedFee
      appliedMinimum := result.appliedMinimum
      appliedMaximum := result.appliedMaximum
      volatilityCoefficient := result.volatilityCoefficient }

/-- No strategy has matched. -/
def zeroFee (ctx : FeeCalculationContext) : FeeCalculationResult where
  fee := .zero
  total := ctx.amount
  strategyUsed := "none"
  scopeUsed := .global
  timeOverrideActive := false
  breakdown := ⟨"", .flat, .zero, .zero, none, none, none⟩

/-- The first candidate that has a result. -/
def firstResult (services : Services) (ctx : FeeCalculationContext) :
    List FeeStrategy → Except String (Option (FeeStrategy × StrategyApplyResult))
  | [] => .ok none
  | strategy :: candidates => do
    match ← applyStrategy services strategy ctx.amount ctx.evaluationTime with
    | some result => return some (strategy, result)
    | none => firstResult services ctx candidates

def calculateFee (services : Services) (ctx : FeeCalculationContext)
    (candidates : List FeeStrategy) : Except String FeeCalculationResult := do
  match ← firstResult services ctx candidates with
  | some (strategy, result) =>
    let (fee, result) ← vipDiscount services ctx result
    return feeOf ctx strategy fee result
  | none => return zeroFee ctx

end MobileMoney.Fees
