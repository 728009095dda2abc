import MobileMoney.Library.MachineInt
import MobileMoney.Soroban.External

/-!
# The rebalancer contract

`contracts/rebalancer`: the contract holds two assets and, when their split has drifted too
far from a target, sells some of the overweight one through the router. What the oracle
and the router answer is part of a call, `none` where they trap. TTL extensions and the
getter of the configuration are left out.
-/

namespace MobileMoney.Rebalancer

open Soroban MachineInt

variable {A : Type}

def defaultImbalanceThresholdBps : ℕ := 500

def defaultMaxSlippageBps : ℕ := 100

def bpsDenominator : ℕ := 10000

inductive RebalancerError where
  | alreadyInitialized
  | notInitialized
  | invalidTargetRatio
  | nothingToRebalance
  | overflow
  | oracleSlippageExceeded
  deriving DecidableEq, Repr

structure RebalancerConfig (A : Type) where
  admin : A
  assetA : A
  assetB : A
  targetRatioBps : ℕ
  imbalanceThresholdBps : ℕ
  maxSlippageBps : ℕ
  router : A
  oracle : A
  pathAToB : List A
  pathBToA : List A
  deriving DecidableEq, Repr

inductive Published (A : Type) where
  | rebalanceExecuted (balanceABefore balanceBBefore balanceAAfter balanceBAfter : ℤ)
      (amountSwapped : ℤ) (soldAssetA : Bool)
  | rebalanceSkipped (balanceA balanceB : ℤ) (currentRatioBps targetRatioBps : ℕ)
  deriving DecidableEq, Repr

/-- Instance storage holds the one `CONFIG` entry. -/
abbrev RebalancerWorld (A : Type) := World A (Option (RebalancerConfig A)) (Published A)

abbrev Result (α : Type) := Outcome RebalancerError α

variable {contract : A}

def getConfig (w : RebalancerWorld A) : Result (RebalancerConfig A) :=
  orFail w.storage (.error .notInitialized)

/-- `(a * b) / divisor`, by way of quotient and remainder where the product overflows. -/
def mulDiv (a b divisor : ℤ) : Result ℤ :=
  if divisor ≤ 0 then .error (.error .overflow)
  else
    match i128.checkedMul a b with
    | some product => orFail (i128.checkedDiv product divisor) (.error .overflow)
    | none => do
      let part1 ← orFail (i128.checkedMul (a.tdiv divisor) b) (.error .overflow)
      let part2 ← orFail ((i128.checkedMul (a.tmod divisor) b).bind
        fun value => i128.checkedDiv value divisor) (.error .overflow)
      orFail (i128.checkedAdd part1 part2) (.error .overflow)

structure InitializeArgs (A : Type) where
  admin : A
  assetA : A
  assetB : A
  targetRatioBps : ℕ
  router : A
  oracle : A
  pathAToB : List A
  pathBToA : List A
  deriving DecidableEq, Repr

def InitializeArgs.config (args : InitializeArgs A) : RebalancerConfig A where
  admin := args.admin
  assetA := args.assetA
  assetB := args.assetB
  targetRatioBps := args.targetRatioBps
  imbalanceThresholdBps := defaultImbalanceThresholdBps
  maxSlippageBps := defaultMaxSlippageBps
  router := args.router
  oracle := args.oracle
  pathAToB := args.pathAToB
  pathBToA := args.pathBToA

def initializeRebalancer (env : Invocation A contract) (args : InitializeArgs A)
    (w : RebalancerWorld A) : Result (RebalancerWorld A) := do
  require (w.storage.isSome = false) (.error .alreadyInitialized)
  require (¬ (args.targetRatioBps = 0 ∨ bpsDenominator ≤ args.targetRatioBps))
    (.error .invalidTargetRatio)
  env.requireAuth args.admin
  return w.store (some args.config)

def configureThresholds (env : Invocation A contract)
    (imbalanceThresholdBps maxSlippageBps : ℕ) (w : RebalancerWorld A) :
    Result (RebalancerWorld A) := do
  let config ← getConfig w
  env.requireAuth config.admin
  return w.store (some { config with
    imbalanceThresholdBps := imbalanceThresholdBps, maxSlippageBps := maxSlippageBps })

/-- The share of `balanceA` in the total, clamped to the whole. -/
def currentRatio (balanceA total : ℤ) : Result ℕ := do
  let ratio ← mulDiv balanceA bpsDenominator total
  return (max 0 (min ratio bpsDenominator)).toNat

/-- `u32::abs_diff`. -/
def absDiff (x y : ℕ) : ℕ := if x ≤ y then y - x else x - y

/-- The one swap of a rebalancing. -/
structure Trade (A : Type) where
  soldAssetA : Bool
  amountToSwap : ℤ
  assetIn : A
  assetOut : A
  path : List A
  deriving DecidableEq, Repr

/-- The swap that brings the share of the first asset to the target, given the current
total. -/
def sizeTrade (config : RebalancerConfig A) (balanceA balanceB total : ℤ) : Result (Trade A) := do
  let targetA ← mulDiv total config.targetRatioBps bpsDenominator
  if targetA < balanceA then
    let amount ← orFail (i128.checkedSub balanceA targetA) (.error .overflow)
    return ⟨true, amount, config.assetA, config.assetB, config.pathAToB⟩
  else
    let targetB ← orFail (i128.checkedSub total targetA) (.error .overflow)
    let amount ← orFail (i128.checkedSub balanceB targetB) (.error .overflow)
    return ⟨false, amount, config.assetB, config.assetA, config.pathBToA⟩

/-- What the router answers: the transfer of the sold asset, which is authorised beforehand,
is made or not. -/
structure RouterAnswer (A : Type) (contract : A) extends Answer A contract where
  paid : Bool

variable [DecidableEq A]

/-- The swap through the router, for at least the oracle's quote less the slippage. -/
def executeTrade (env : Invocation A contract) (config : RebalancerConfig A) (trade : Trade A)
    (quote : Option (Answer A contract)) (answer : Option (RouterAnswer A contract))
    (w : RebalancerWorld A) : Result (ℤ × RebalancerWorld A) := do
  let quote ← orFail quote (.panic "get_rate")
  let w := w.deliver quote.moved
  require (config.maxSlippageBps ≤ bpsDenominator) .arithmetic
  let minAmountOut ← mulDiv quote.value (bpsDenominator - config.maxSlippageBps : ℕ)
    bpsDenominator
  require (¬ minAmountOut ≤ 0) (.error .oracleSlippageExceeded)
  let answer ← orFail answer (.panic "execute_swap")
  let w ← (if answer.paid then
      env.transfer ⟨trade.assetIn, contract, config.router, trade.amountToSwap⟩ w
    else .ok w)
  return (answer.value, w.deliver answer.moved)

def checkAndRebalance (env : Invocation A contract) (quote : Option (Answer A contract))
    (answer : Option (RouterAnswer A contract)) (w : RebalancerWorld A) :
    Result (ℤ × RebalancerWorld A) := do
  let config ← getConfig w
  let balanceA := w.balances config.assetA contract
  let balanceB := w.balances config.assetB contract
  require (¬ (balanceA ≤ 0 ∧ balanceB ≤ 0)) (.error .nothingToRebalance)
  let total ← orFail (i128.checkedAdd balanceA balanceB) (.error .overflow)
  let ratio ← currentRatio balanceA total
  let skipped := w.publish (.rebalanceSkipped balanceA balanceB ratio config.targetRatioBps)
  if absDiff ratio config.targetRatioBps ≤ config.imbalanceThresholdBps then
    return (0, skipped)
  else
    let trade ← sizeTrade config balanceA balanceB total
    if trade.amountToSwap ≤ 0 then
      return (0, skipped)
    else
      let (amountOut, w) ← executeTrade env config trade quote answer w
      return (amountOut, w.publish (.rebalanceExecuted balanceA balanceB
        (w.balances config.assetA contract) (w.balances config.assetB contract)
        trade.amountToSwap trade.soldAssetA))

/-- What `preview` returns: the balances, the current ratio and whether it would rebalance. -/
def preview (contract : A) (w : RebalancerWorld A) : Result (ℤ × ℤ × ℕ × Bool) := do
  let config ← getConfig w
  let balanceA := w.balances config.assetA contract
  let balanceB := w.balances config.assetB contract
  let total ← orFail (i128.checkedAdd balanceA balanceB) (.error .overflow)
  if total ≤ 0 then
    return (balanceA, balanceB, 0, false)
  else
    let ratio ← currentRatio balanceA total
    return (balanceA, balanceB, ratio,
      decide (config.imbalanceThresholdBps < absDiff ratio config.targetRatioBps))

inductive Operation (A : Type) (contract : A) where
  | initializeRebalancer (args : InitializeArgs A)
  | configureThresholds (imbalanceThresholdBps maxSlippageBps : ℕ)
  | checkAndRebalance (quote : Option (Answer A contract))
      (answer : Option (RouterAnswer A contract))
  | preview

def invoke (env : Invocation A contract) (op : Operation A contract) (w : RebalancerWorld A) :
    Result (RebalancerWorld A) :=
  match op with
  | .initializeRebalancer args => initializeRebalancer env args w
  | .configureThresholds imbalanceThresholdBps maxSlippageBps =>
    configureThresholds env imbalanceThresholdBps maxSlippageBps w
  | .checkAndRebalance quote answer => (checkAndRebalance env quote answer w).map Prod.snd
  | .preview => (preview contract w).map fun _ => w

/-- A deployed contract that has not been initialised. -/
def deployed (balances : A → A → ℤ) : RebalancerWorld A where
  storage := none
  balances := balances
  transfers := []
  events := []

end MobileMoney.Rebalancer
