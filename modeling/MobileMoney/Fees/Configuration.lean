import MobileMoney.Fees.TimeWindow
import MobileMoney.Library.Checked

/-!
# The fee of the active configuration

`services/feeService.ts` and the fee of `utils/fees.ts`. A configuration comes from the driver or
from the cache with its `NUMERIC` columns as texts. A text is a number where it is compared with
one; where a bound becomes the fee, the fee is a text, which has no `toFixed`, and the error is
answered with the fee of the environment.
-/

namespace MobileMoney.Fees.Configuration

open Binary64 (Number)
open Checked

/-- A value of the program that may be a text where a number is meant. -/
inductive Value where
  | number (x : Number)
  | text (s : String)
  deriving DecidableEq

def Value.toNumber : Value → Number
  | .number x => x
  | .text s => parseNumeric s

/-- `<`: two texts are compared as texts, everything else as numbers. -/
def Value.lt : Value → Value → Bool
  | .text s, .text t => s < t
  | a, b => a.toNumber.lt b.toNumber

/-- `parseFloat(x.toFixed(2))`. -/
def Value.toFixed2 : Value → Except String Number
  | .number x => .ok (Fees.toFixed2 x)
  | .text _ => .error "fee.toFixed is not a function"

/-- `+`, which joins when one of the two is a text. -/
def Value.add : Value → Value → Value
  | .number x, .number y => .number (x.add y)
  | .number x, .text t => .text (x.text ++ t)
  | .text s, .number y => .text (s ++ y.text)
  | .text s, .text t => .text (s ++ t)

structure FeeConfiguration where
  name : String
  feePercentage : String
  feeMinimum : String
  feeMaximum : String
  deriving DecidableEq, Repr

structure FeeResult where
  fee : Number
  total : Number
  configUsed : String
  deriving DecidableEq

/-! ## The service -/

/-- What the cache holds, and the answer to the query for the latest active configuration. -/
structure Store where
  cached : Option FeeConfiguration
  rows : Except String (List FeeConfiguration)

def getActiveConfiguration (store : Store) : Except String FeeConfiguration :=
  match store.cached with
  | some config => .ok config
  | none => do
    let rows ← store.rows
    orFail rows.head? "No active fee configuration found"

/-- The fee after the two comparisons. -/
def clampValue (fee minimum maximum : Value) : Value :=
  let fee := if fee.lt minimum then minimum else fee
  if maximum.lt fee then maximum else fee

/-- The fee as it is charged under a configuration. -/
def feeUnder (config : FeeConfiguration) (amount : Number) : Value :=
  clampValue (.number (percent amount (parseNumeric config.feePercentage)))
    (.text config.feeMinimum) (.text config.feeMaximum)

/-- `FeeService.calculateFee`. -/
def serviceFee (store : Store) (amount : Number) : Except String FeeResult := do
  let config ← getActiveConfiguration store
  let fee := feeUnder config amount
  let rounded ← fee.toFixed2
  let total ← ((Value.number amount).add fee).toFixed2
  return ⟨rounded, total, config.name⟩

/-! ## The fallback -/

/-- `FEE_PERCENTAGE`, `FEE_MINIMUM` and `FEE_MAXIMUM` of the environment. -/
structure Env where
  feePercentage : Number
  feeMinimum : Number
  feeMaximum : Number

/-- A fee between two bounds, the upper one last. -/
def clamp (fee minimum maximum : Number) : Number :=
  let fee := if fee.lt minimum then minimum else fee
  if maximum.lt fee then maximum else fee

def calculateFeeSync (env : Env) (amount : Number) : FeeResult :=
  let fee := clamp (percent amount env.feePercentage) env.feeMinimum env.feeMaximum
  ⟨Fees.toFixed2 fee, Fees.toFixed2 (amount.add fee), "env_fallback"⟩

/-- `calculateFee` of `utils/fees.ts`. -/
def calculateFee (env : Env) (store : Store) (amount : Number) : FeeResult :=
  match serviceFee store amount with
  | .ok result => result
  | .error _ => calculateFeeSync env amount

/-! ## When the fee is the configured one -/

section Numbers

variable (config : FeeConfiguration) (amount : Number)

/-- The percentage of the amount. -/
def rawFee : Number := percent amount (parseNumeric config.feePercentage)

/-- The percentage is within the bounds. -/
def WithinBounds : Prop :=
  (rawFee config amount).lt (parseNumeric config.feeMinimum) = false ∧
    (parseNumeric config.feeMaximum).lt (rawFee config amount) = false

instance : Decidable (WithinBounds config amount) := inferInstanceAs (Decidable (_ ∧ _))

def configuredFee : Number :=
  clamp (rawFee config amount) (parseNumeric config.feeMinimum) (parseNumeric config.feeMaximum)

/-- The percentage within the bounds, rounded. -/
def configuredResult : FeeResult :=
  ⟨Fees.toFixed2 (configuredFee config amount),
    Fees.toFixed2 (amount.add (configuredFee config amount)), config.name⟩

end Numbers

variable {config : FeeConfiguration} {amount : Number}

theorem feeUnder_of_within (h : WithinBounds config amount) :
    feeUnder config amount = .number (rawFee config amount) ∧
      configuredFee config amount = rawFee config amount := by
  obtain ⟨low, high⟩ := h
  have below : (Value.number (rawFee config amount)).lt (.text config.feeMinimum) = false := low
  have above : (Value.text config.feeMaximum).lt (.number (rawFee config amount)) = false := high
  constructor
  · unfold rawFee at below above ⊢
    simp only [feeUnder, clampValue, below, above, Bool.false_eq_true, if_false]
  · simp only [configuredFee, clamp, low, high, Bool.false_eq_true, if_false]

/-- A bound that takes effect turns the fee into a text. -/
theorem feeUnder_of_not_within (h : ¬ WithinBounds config amount) :
    ∃ bound, feeUnder config amount = .text bound := by
  have raw : percent amount (parseNumeric config.feePercentage) = rawFee config amount := rfl
  unfold feeUnder clampValue
  rw [raw]
  dsimp only
  cases low : (Value.number (rawFee config amount)).lt (.text config.feeMinimum) with
  | true =>
    rw [if_pos rfl]
    split_ifs
    · exact ⟨_, rfl⟩
    · exact ⟨_, rfl⟩
  | false =>
    have high : (Value.text config.feeMaximum).lt (.number (rawFee config amount)) = true := by
      by_contra hnot
      exact h ⟨low, Bool.not_eq_true _ ▸ hnot⟩
    rw [if_neg Bool.false_ne_true, if_pos high]
    exact ⟨_, rfl⟩

theorem serviceFee_of_within {store : Store} (found : getActiveConfiguration store = .ok config)
    (h : WithinBounds config amount) :
    serviceFee store amount = .ok (configuredResult config amount) := by
  obtain ⟨hfee, hconfigured⟩ := feeUnder_of_within h
  simp only [serviceFee, bind_eq_ok, pure_eq_ok]
  refine ⟨config, found, Fees.toFixed2 (rawFee config amount), by rw [hfee]; rfl,
    Fees.toFixed2 (amount.add (rawFee config amount)), by rw [hfee]; rfl, ?_⟩
  rw [configuredResult, hconfigured]

theorem serviceFee_of_not_within {store : Store}
    (found : getActiveConfiguration store = .ok config) (h : ¬ WithinBounds config amount) :
    serviceFee store amount = .error "fee.toFixed is not a function" := by
  obtain ⟨bound, hfee⟩ := feeUnder_of_not_within h
  simp only [serviceFee, bind_eq_error]
  exact .inr ⟨config, found, .inl (by rw [hfee]; rfl)⟩

/-- The service answers with the configured fee, and so nobody falls back to another. -/
def Charged (env : Env) (store : Store) (config : FeeConfiguration) (amount : Number) : Prop :=
  serviceFee store amount = .ok (configuredResult config amount) ∧
    calculateFee env store amount = configuredResult config amount

/-- The configured fee is charged exactly when no bound takes effect. -/
theorem charged_iff (env : Env) {store : Store} (amount : Number)
    (found : getActiveConfiguration store = .ok config) :
    Charged env store config amount ↔ WithinBounds config amount := by
  constructor
  · rintro ⟨hfee, -⟩
    by_contra h
    rw [serviceFee_of_not_within found h] at hfee
    cases hfee
  · intro h
    have hfee := serviceFee_of_within found h
    exact ⟨hfee, by rw [calculateFee, hfee]⟩

/-- Otherwise it is the fee of the environment. -/
theorem calculateFee_of_not_within (env : Env) {store : Store}
    (found : getActiveConfiguration store = .ok config) (h : ¬ WithinBounds config amount) :
    calculateFee env store amount = calculateFeeSync env amount := by
  rw [calculateFee, serviceFee_of_not_within found h]

/-! ## The default configuration -/

def defaultConfiguration : FeeConfiguration := ⟨"default", "1.5000", "50.0000000", "5000.0000000"⟩

/-- The environment's defaults. -/
def defaultEnv : Env := ⟨number (3 / 2), number 50, number 5000⟩

def fromDatabase : Store := ⟨none, .ok [defaultConfiguration]⟩

theorem fee_of_ten_thousand : Charged defaultEnv fromDatabase defaultConfiguration (number 10000) :=
  (charged_iff defaultEnv (number 10000) rfl).2 (by decide +kernel)

/-- The percentage of a hundred is below the minimum. -/
theorem fee_of_hundred_thrown :
    getActiveConfiguration fromDatabase = .ok defaultConfiguration ∧
      (number 0).le (number 100) = true ∧
      ¬ Charged defaultEnv fromDatabase defaultConfiguration (number 100) := by
  refine ⟨rfl, by decide +kernel, ?_⟩
  rintro ⟨hfee, -⟩
  rw [serviceFee_of_not_within rfl (by decide +kernel)] at hfee
  cases hfee

end MobileMoney.Fees.Configuration
