import MobileMoney.Library.MachineInt
import MobileMoney.Soroban.Host
import Mathlib.Order.Defs.LinearOrder

/-!
# The fee pool contract

`contracts/fee_pool`: each fee is split between the platform and the pool, and the pool is
distributed to the providers in proportion to weights made of liquidity, uptime and
transaction count. The truncated floating-point square root is a parameter `s`. TTL
extensions are left out.
-/

namespace MobileMoney.FeePool

open Soroban MachineInt

variable {A : Type}

def bpsDenominator : ℤ := 10000

inductive FeePoolError where
  | alreadyInitialised
  | notInitialised
  | alreadyRegistered
  | notRegistered
  | invalidFeeBps
  | invalidLiquidity
  | invalidUptime
  | noFeesAvailable
  | distributionTooSoon
  deriving DecidableEq, Repr

structure ProviderMetrics where
  liquidity : ℤ
  uptime : ℕ
  transactionCount : ℕ
  lastUpdated : ℕ
  deriving DecidableEq, Repr

structure FeePoolState (A : Type) where
  token : A
  admin : A
  platformTreasury : A
  feeBps : ℕ
  distributionInterval : ℕ
  lastDistribution : ℕ
  totalFees : ℤ
  deriving DecidableEq, Repr

inductive Published (A : Type) where
  | feesAccumulated (payer : A) (amount platformCut providerCut : ℤ)
  deriving DecidableEq, Repr

/-- A host map: entries in the order of their keys, which is also how it is iterated. -/
abbrev HostMap (K V : Type) := List (K × V)

namespace HostMap

variable {K V : Type} [LinearOrder K]

def get (k : K) : HostMap K V → Option V
  | [] => none
  | (k', v) :: rest => if k' = k then some v else get k rest

def set (k : K) (v : V) : HostMap K V → HostMap K V
  | [] => [(k, v)]
  | (k', v') :: rest =>
    if k < k' then (k, v) :: (k', v') :: rest
    else if k = k' then (k, v) :: rest
    else (k', v') :: set k v rest

/-- Setting a key adds its entry and otherwise only keeps entries. -/
theorem mem_set {k : K} {v : V} {m : HostMap K V} {e : K × V} (h : e ∈ set k v m) :
    e = (k, v) ∨ e ∈ m := by
  induction m with
  | nil => exact .inl (List.mem_singleton.1 h)
  | cons head rest ih =>
    obtain ⟨k', v'⟩ := head
    unfold set at h
    split_ifs at h <;> grind

end HostMap

/-- Instance storage under `STATE`, `PROVIDERS` and `TOTAL_SHARES`. -/
structure Storage (A : Type) where
  state : Option (FeePoolState A)
  providers : Option (HostMap A ProviderMetrics)
  totalShares : Option ℤ

abbrev FeePoolWorld (A : Type) := World A (Storage A) (Published A)

abbrev Result (α : Type) := Outcome FeePoolError α

variable {contract : A}

def loadState (w : FeePoolWorld A) : Result (FeePoolState A) :=
  orFail w.storage.state (.error .notInitialised)

/-! ## Administration and providers -/

def initializeFeePool (env : Invocation A contract) (admin token platformTreasury : A)
    (feeBps distributionInterval : ℕ) (w : FeePoolWorld A) : Result (FeePoolWorld A) := do
  env.requireAuth admin
  require (w.storage.state.isSome = false) (.panic "already initialised")
  require (feeBps ≤ 10000) (.panic "fee basis points must be in [0, 10000]")
  require (0 < distributionInterval) (.panic "distribution interval must be positive")
  return w.store { w.storage with
    state := some ⟨token, admin, platformTreasury, feeBps, distributionInterval, 0, 0⟩
    totalShares := some 0 }

def registerProvider [LinearOrder A] (env : Invocation A contract) (provider : A)
    (liquidity : ℤ) (uptime : ℕ) (w : FeePoolWorld A) : Result (FeePoolWorld A) := do
  env.requireAuth provider
  let _ ← loadState w
  require (0 < liquidity) (.panic "liquidity must be positive")
  require (uptime ≤ 100) (.panic "uptime must be in [0, 100]")
  let providers := w.storage.providers.getD []
  require ((providers.get provider).isSome = false) (.panic "provider already registered")
  let metrics : ProviderMetrics := ⟨liquidity, uptime, 0, env.timestamp⟩
  let totalShares ← orFail (i128.checkedAdd (w.storage.totalShares.getD 0) liquidity)
    .arithmetic
  return w.store { w.storage with
    providers := some (providers.set provider metrics)
    totalShares := some totalShares }

def updateMetrics [LinearOrder A] (env : Invocation A contract) (provider : A)
    (liquidity : ℤ) (uptime transactionCount : ℕ) (w : FeePoolWorld A) :
    Result (FeePoolWorld A) := do
  env.requireAuth provider
  require (0 < liquidity) (.panic "liquidity must be positive")
  require (uptime ≤ 100) (.panic "uptime must be in [0, 100]")
  let providers ← orFail w.storage.providers (.error .notInitialised)
  let metrics ← orFail (providers.get provider) (.error .notRegistered)
  let liquidityDelta ← orFail (i128.checkedSub liquidity metrics.liquidity) .arithmetic
  require ((metrics.transactionCount + transactionCount : ℕ) ≤ u64.max) .arithmetic
  let metrics : ProviderMetrics :=
    ⟨liquidity, uptime, metrics.transactionCount + transactionCount, env.timestamp⟩
  let totalShares ← orFail (i128.checkedAdd (w.storage.totalShares.getD 0) liquidityDelta)
    .arithmetic
  return w.store { w.storage with
    providers := some (providers.set provider metrics)
    totalShares := some totalShares }

/-! ## Fees -/

variable [DecidableEq A]

/-- A transfer that is only made for a positive amount. -/
def transferPositive (env : Invocation A contract) (t : Transfer A) (w : FeePoolWorld A) :
    Result (FeePoolWorld A) :=
  if 0 < t.amount then env.transfer t w else .ok w

def accumulateFees (env : Invocation A contract) (payer : A) (amount : ℤ)
    (w : FeePoolWorld A) : Result (FeePoolWorld A) := do
  env.requireAuth payer
  require (0 < amount) (.panic "amount must be positive")
  let state ← loadState w
  let product ← orFail (i128.checkedMul amount state.feeBps) .arithmetic
  let platformCut ← orFail (i128.checkedDiv product bpsDenominator) .arithmetic
  let providerCut ← orFail (i128.checkedSub amount platformCut) .arithmetic
  let w ← transferPositive env ⟨state.token, payer, state.platformTreasury, platformCut⟩ w
  let w ← transferPositive env ⟨state.token, payer, contract, providerCut⟩ w
  let totalFees ← orFail (i128.checkedAdd state.totalFees providerCut) .arithmetic
  let w := w.store { w.storage with state := some { state with totalFees := totalFees } }
  return w.publish (.feesAccumulated payer amount platformCut providerCut)

/-! ## Distribution -/

/-- The transaction factor of a weight: 1 without transactions. -/
def txFactor (s : ℕ → ℕ) (metrics : ProviderMetrics) : ℤ :=
  if 0 < metrics.transactionCount then s metrics.transactionCount else 1

/-- The weight of a provider before any overflow check. -/
def exactWeight (s : ℕ → ℕ) (metrics : ProviderMetrics) : ℤ :=
  (metrics.liquidity * metrics.uptime * txFactor s metrics).tdiv 10000

def weightOf (s : ℕ → ℕ) (metrics : ProviderMetrics) : Result ℤ := do
  let scaled ← orFail (i128.checkedMul metrics.liquidity metrics.uptime) .arithmetic
  let product ← orFail (i128.checkedMul scaled (txFactor s metrics)) .arithmetic
  orFail (i128.checkedDiv product 10000) .arithmetic

omit [DecidableEq A] in
/-- The first loop of `distribute`: the weight of each provider, and their sum added to
`total`. The map of weights has the keys of the map of providers, in the same order. -/
def weightedShares (s : ℕ → ℕ) (total : ℤ) :
    HostMap A ProviderMetrics → Result (HostMap A ℤ × ℤ)
  | [] => .ok ([], total)
  | (provider, metrics) :: rest => do
    let weight ← weightOf s metrics
    let total ← orFail (i128.checkedAdd total weight) .arithmetic
    let (shares, total) ← weightedShares s total rest
    return ((provider, weight) :: shares, total)

/-- The second loop of `distribute`: pay each provider its share, rounded down. -/
def payShares (env : Invocation A contract) (token : A) (totalFees totalWeight : ℤ) :
    HostMap A ℤ → FeePoolWorld A → Result (FeePoolWorld A)
  | [], w => .ok w
  | (provider, weight) :: rest, w => do
    let product ← orFail (i128.checkedMul totalFees weight) .arithmetic
    let share ← orFail (i128.checkedDiv product totalWeight) .arithmetic
    let w ← transferPositive env ⟨token, contract, provider, share⟩ w
    payShares env token totalFees totalWeight rest w

def distribute (s : ℕ → ℕ) (env : Invocation A contract) (w : FeePoolWorld A) :
    Result (FeePoolWorld A) := do
  let state ← loadState w
  env.requireAuth state.admin
  let currentTime := env.timestamp
  require (0 < state.lastDistribution →
      (state.lastDistribution + state.distributionInterval : ℕ) ≤ u64.max) .arithmetic
  require (¬ (0 < state.lastDistribution ∧
      currentTime < state.lastDistribution + state.distributionInterval))
    (.error .distributionTooSoon)
  require (¬ state.totalFees ≤ 0) (.error .noFeesAvailable)
  let providers ← orFail w.storage.providers (.error .notInitialised)
  require (providers ≠ []) (.error .noFeesAvailable)
  let (shares, totalWeight) ← weightedShares s 0 providers
  require (¬ totalWeight ≤ 0) (.error .noFeesAvailable)
  let w ← payShares env state.token state.totalFees totalWeight shares w
  return w.store { w.storage with
    state := some { state with totalFees := 0, lastDistribution := currentTime } }

inductive Operation (A : Type) where
  | initializeFeePool (admin token platformTreasury : A) (feeBps distributionInterval : ℕ)
  | registerProvider (provider : A) (liquidity : ℤ) (uptime : ℕ)
  | updateMetrics (provider : A) (liquidity : ℤ) (uptime transactionCount : ℕ)
  | accumulateFees (payer : A) (amount : ℤ)
  | distribute
  deriving DecidableEq, Repr

/-- The entry points that write; the getters only read. -/
def invoke {A : Type} [LinearOrder A] {contract : A} (s : ℕ → ℕ)
    (env : Invocation A contract) (op : Operation A) (w : FeePoolWorld A) :
    Result (FeePoolWorld A) :=
  match op with
  | .initializeFeePool admin token platformTreasury feeBps distributionInterval =>
    initializeFeePool env admin token platformTreasury feeBps distributionInterval w
  | .registerProvider provider liquidity uptime => registerProvider env provider liquidity uptime w
  | .updateMetrics provider liquidity uptime transactionCount =>
    updateMetrics env provider liquidity uptime transactionCount w
  | .accumulateFees payer amount => accumulateFees env payer amount w
  | .distribute => distribute s env w

/-- A deployed contract that has not been initialised. -/
def deployed (balances : A → A → ℤ) : FeePoolWorld A where
  storage := ⟨none, none, none⟩
  balances := balances
  transfers := []
  events := []

end MobileMoney.FeePool
