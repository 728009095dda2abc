import MobileMoney.Library.MachineInt
import MobileMoney.Soroban.Host

/-!
# The fee-tier contract

`contracts/fee_tier`: staking-based discounts on the bridge fee. A tier table accepted by
`validateTiers` discounts at most half of a fee, and no fee the bridge can compute makes
the quote overflow. The staking contract's answers are parameters of a call; TTL
extensions are left out.
-/

namespace MobileMoney.FeeTier

open Soroban MachineInt

variable {A : Type}

def bpsDenominator : ℤ := 10000

/-- Discounts can never exceed 50% of the standard fee. -/
def maxDiscountBps : ℕ := 5000
def maxTiers : ℕ := 10
def maxDecimals : ℕ := 18

inductive FeeTierError where
  | alreadyInitialised
  | notInitialised
  | invalidTiers
  | invalidFee
  | invalidDecimals
  deriving DecidableEq, Repr

abbrev Result (α : Type) := Outcome FeeTierError α

structure Tier where
  minStake : ℤ
  discountBps : ℕ
  deriving DecidableEq, Repr

structure FeeQuote where
  tier : ℕ
  discountBps : ℕ
  standardFee : ℤ
  discount : ℤ
  fee : ℤ
  deriving DecidableEq, Repr

/-- Instance storage under `Admin`, `Staking` and `Tiers`. -/
structure Storage (A : Type) where
  admin : Option A
  staking : Option A
  tiers : Option (List Tier)
  deriving DecidableEq, Repr

/-- The contract moves no tokens and publishes nothing. -/
abbrev FeeTierWorld (A : Type) := World A (Storage A) Empty

/-! ## Tier tables -/

/-- Highest tier whose threshold is met, from tier number `i` on; the loop stops at the
first threshold that is not. -/
def tierForStakeFrom (staked : ℤ) : ℕ → ℕ × ℕ → List Tier → ℕ × ℕ
  | _, result, [] => result
  | i, result, tier :: rest =>
    if tier.minStake ≤ staked then
      tierForStakeFrom staked (i + 1) (i + 1, tier.discountBps) rest
    else result

/-- The 1-based tier number and its discount, 0 and 0 for no tier. -/
def tierForStake (tiers : List Tier) (staked : ℤ) : ℕ × ℕ :=
  tierForStakeFrom staked 0 (0, 0) tiers

/-- The loop of `validate_tiers`, with the tier before. -/
def validateTiersFrom : Option Tier → List Tier → Result Unit
  | _, [] => .ok ()
  | prev, tier :: rest => do
    require (¬ (tier.minStake ≤ 0 ∨ tier.discountBps = 0 ∨ maxDiscountBps < tier.discountBps))
      (.error .invalidTiers)
    require (∀ p ∈ prev, ¬ (tier.minStake ≤ p.minStake ∨ tier.discountBps ≤ p.discountBps))
      (.error .invalidTiers)
    validateTiersFrom (some tier) rest

def validateTiers (tiers : List Tier) : Result Unit := do
  require (¬ (tiers = [] ∨ maxTiers < tiers.length)) (.error .invalidTiers)
  validateTiersFrom none tiers

/-- The 10% / 25% / 50% tiers at 1k / 5k / 10k whole tokens. -/
def defaultTiers (unit : ℤ) : List Tier :=
  [⟨1000 * unit, 1000⟩, ⟨5000 * unit, 2500⟩, ⟨10000 * unit, 5000⟩]

/-- The breakdown of a fee at a tier. The discount is floored, so rounding never
undercharges. -/
def quoteAt (tierAndBps : ℕ × ℕ) (standardFee : ℤ) : Result FeeQuote := do
  let product ← orFail (i128.checkedMul standardFee tierAndBps.2) .arithmetic
  let discount ← orFail (i128.checkedDiv product bpsDenominator) .arithmetic
  let fee ← orFail (i128.checkedSub standardFee discount) .arithmetic
  return ⟨tierAndBps.1, tierAndBps.2, standardFee, discount, fee⟩

/-! ## Entry points -/

variable {contract : A}

def requireAdmin (env : Invocation A contract) (w : FeeTierWorld A) : Result Unit := do
  let admin ← orFail w.storage.admin (.error .notInitialised)
  env.requireAuth admin

def initializeFeeTier (env : Invocation A contract) (admin stakingContract : A)
    (decimals : ℕ) (w : FeeTierWorld A) : Result (FeeTierWorld A) := do
  env.requireAuth admin
  require (w.storage.admin.isSome = false) (.error .alreadyInitialised)
  require (decimals ≤ maxDecimals) (.error .invalidDecimals)
  return w.store ⟨some admin, some stakingContract, some (defaultTiers (10 ^ decimals))⟩

def setTiers (env : Invocation A contract) (tiers : List Tier) (w : FeeTierWorld A) :
    Result (FeeTierWorld A) := do
  requireAdmin env w
  validateTiers tiers
  return w.store { w.storage with tiers := some tiers }

def setStakingContract (env : Invocation A contract) (stakingContract : A)
    (w : FeeTierWorld A) : Result (FeeTierWorld A) := do
  requireAdmin env w
  return w.store { w.storage with staking := some stakingContract }

def getTiers (w : FeeTierWorld A) : Result (List Tier) :=
  orFail w.storage.tiers (.error .notInitialised)

def getStakingContract (w : FeeTierWorld A) : Result A :=
  orFail w.storage.staking (.error .notInitialised)

/-- What a staking contract answers about a user, or how its call fails. -/
abbrev StakedBalance (A : Type) := A → A → Result ℤ

def getStakedBalance (stakedBalance : StakedBalance A) (user : A) (w : FeeTierWorld A) :
    Result ℤ := do
  let staking ← getStakingContract w
  stakedBalance staking user

def resolve (stakedBalance : StakedBalance A) (user : A) (w : FeeTierWorld A) :
    Result (ℕ × ℕ) := do
  let tiers ← getTiers w
  let staked ← getStakedBalance stakedBalance user w
  return tierForStake tiers staked

def quote (stakedBalance : StakedBalance A) (user : A) (standardFee : ℤ)
    (w : FeeTierWorld A) : Result FeeQuote := do
  require (¬ standardFee < 0) (.error .invalidFee)
  let tierAndBps ← resolve stakedBalance user w
  quoteAt tierAndBps standardFee

def discountedFee (stakedBalance : StakedBalance A) (user : A) (standardFee : ℤ)
    (w : FeeTierWorld A) : Result ℤ := do
  let q ← quote stakedBalance user standardFee w
  return q.fee

inductive Operation (A : Type) where
  | initializeFeeTier (admin stakingContract : A) (decimals : ℕ)
  | setTiers (tiers : List Tier)
  | setStakingContract (stakingContract : A)
  deriving DecidableEq, Repr

/-- The entry points that write; all others only read. -/
def invoke (env : Invocation A contract) (op : Operation A) (w : FeeTierWorld A) :
    Result (FeeTierWorld A) :=
  match op with
  | .initializeFeeTier admin stakingContract decimals =>
    initializeFeeTier env admin stakingContract decimals w
  | .setTiers tiers => setTiers env tiers w
  | .setStakingContract stakingContract => setStakingContract env stakingContract w

/-- A deployed contract that has not been initialised. -/
def deployed (balances : A → A → ℤ) : FeeTierWorld A where
  storage := ⟨none, none, none⟩
  balances := balances
  transfers := []
  events := []

/-! ## What validation ensures -/

/-- One turn of the validation loop. -/
theorem validateTiersFrom_cons_eq_ok {prev : Option Tier} {tier : Tier} {rest : List Tier}
    {u : Unit} : validateTiersFrom prev (tier :: rest) = .ok u ↔
      (0 < tier.minStake ∧ 0 < tier.discountBps ∧ tier.discountBps ≤ maxDiscountBps) ∧
      (∀ p ∈ prev, p.minStake < tier.minStake ∧ p.discountBps < tier.discountBps) ∧
      validateTiersFrom (some tier) rest = .ok u := by
  simp only [validateTiersFrom, bind_eq_ok, require_eq_ok, exists_const]
  have bounds : ¬ (tier.minStake ≤ 0 ∨ tier.discountBps = 0 ∨
      maxDiscountBps < tier.discountBps) ↔
      0 < tier.minStake ∧ 0 < tier.discountBps ∧ tier.discountBps ≤ maxDiscountBps := by omega
  have order : ∀ p : Tier,
      ¬ (tier.minStake ≤ p.minStake ∨ tier.discountBps ≤ p.discountBps) ↔
        p.minStake < tier.minStake ∧ p.discountBps < tier.discountBps := by
    intro p
    omega
  simp only [bounds, order]

theorem validateTiersFrom_bounds {prev : Option Tier} {tiers : List Tier} {u : Unit}
    (h : validateTiersFrom prev tiers = .ok u) :
    ∀ tier ∈ tiers, tier.discountBps ≤ maxDiscountBps := by
  induction tiers generalizing prev with
  | nil => simp
  | cons tier rest ih =>
    obtain ⟨bounds, -, hrest⟩ := validateTiersFrom_cons_eq_ok.1 h
    intro t ht
    rcases List.mem_cons.1 ht with rfl | ht
    · exact bounds.2.2
    · exact ih hrest t ht

/-- Every tier discounts at most half. -/
def Valid (tiers : List Tier) : Prop :=
  ∀ tier ∈ tiers, tier.discountBps ≤ maxDiscountBps

theorem valid_of_validateTiers {tiers : List Tier} {u : Unit}
    (h : validateTiers tiers = .ok u) : Valid tiers := by
  simp only [validateTiers, bind_eq_ok, require_eq_ok, exists_const] at h
  exact validateTiersFrom_bounds h.2

/-- The default table passes the contract's own check, for every supported unit. -/
theorem validateTiers_default {unit : ℤ} (h : 0 < unit) :
    validateTiers (defaultTiers unit) = .ok () := by
  have short : ¬ (defaultTiers unit = [] ∨ maxTiers < (defaultTiers unit).length) := by
    simp [defaultTiers, maxTiers]
  have ordered : validateTiersFrom none (defaultTiers unit) = .ok () := by
    simp only [defaultTiers, validateTiersFrom_cons_eq_ok, maxDiscountBps, Option.mem_some_iff,
      forall_eq']
    refine ⟨by omega, by simp, by omega, by omega, by omega, by omega, rfl⟩
  exact bind_eq_ok.2 ⟨(), require_eq_ok.2 short, ordered⟩

theorem discount_le {tiers : List Tier} (h : Valid tiers) (staked : ℤ) :
    (tierForStake tiers staked).2 ≤ maxDiscountBps := by
  have loop : ∀ (tiers : List Tier) i (result : ℕ × ℕ), Valid tiers →
      result.2 ≤ maxDiscountBps →
      (tierForStakeFrom staked i result tiers).2 ≤ maxDiscountBps := by
    intro tiers
    induction tiers with
    | nil => intro i result _ hresult; exact hresult
    | cons tier rest ih =>
      intro i result hvalid hresult
      unfold tierForStakeFrom
      split_ifs
      · exact ih _ _ (fun t ht => hvalid t (List.mem_cons_of_mem _ ht))
          (hvalid tier List.mem_cons_self)
      · exact hresult
  exact loop tiers 0 (0, 0) h (by simp [maxDiscountBps])

/-- Every stored table has passed validation. -/
def Validated (w : FeeTierWorld A) : Prop :=
  ∀ tiers, w.storage.tiers = some tiers → validateTiers tiers = .ok ()

theorem validated_invariant : Invariant (@invoke A contract) Validated where
  outside _ hw _ := hw
  call env op w w' hw h := by
    intro tiers htiers
    cases op with
    | initializeFeeTier admin stakingContract decimals =>
      simp only [invoke, initializeFeeTier, bind_eq_ok, Invocation.requireAuth_eq_ok,
        require_eq_ok, pure_eq_ok, exists_const] at h
      obtain ⟨-, -, -, rfl⟩ := h
      simp only [World.store_storage, Option.some.injEq] at htiers
      subst htiers
      exact validateTiers_default (by positivity)
    | setTiers new =>
      simp only [invoke, setTiers, bind_eq_ok, pure_eq_ok] at h
      obtain ⟨_, -, _, valid, rfl⟩ := h
      simp only [World.store_storage, Option.some.injEq] at htiers
      subst htiers
      exact valid
    | setStakingContract stakingContract =>
      simp only [invoke, setStakingContract, bind_eq_ok, pure_eq_ok] at h
      obtain ⟨_, -, rfl⟩ := h
      exact hw tiers htiers

/-! ## The quote -/

/-- Of a fee with room for the greatest discount, the quote keeps at least half. -/
theorem quoteAt_of_room {tierAndBps : ℕ × ℕ} {standardFee : ℤ} (nonneg : 0 ≤ standardFee)
    (room : standardFee * maxDiscountBps ≤ i128.max) (hbps : tierAndBps.2 ≤ maxDiscountBps) :
    ∃ q, quoteAt tierAndBps standardFee = .ok q ∧ standardFee ≤ 2 * q.fee ∧
      q.fee ≤ standardFee := by
  obtain ⟨tier, bps⟩ := tierAndBps
  have hle : (bps : ℤ) ≤ 5000 := by exact_mod_cast hbps
  have hnonneg : (0 : ℤ) ≤ bps := Int.natCast_nonneg _
  have hprod : 0 ≤ standardFee * bps := mul_nonneg nonneg hnonneg
  have hhalf : standardFee * bps ≤ standardFee * 5000 := mul_le_mul_of_nonneg_left hle nonneg
  have hmax : standardFee * 5000 ≤ i128.max := by simpa [maxDiscountBps] using room
  simp only [i128] at hmax
  have hdiv : (standardFee * bps).tdiv bpsDenominator = standardFee * bps / 10000 :=
    Int.tdiv_eq_ediv_of_nonneg hprod
  have hlow : 0 ≤ standardFee * bps / 10000 := Int.ediv_nonneg hprod (by norm_num)
  have hhigh : standardFee * bps / 10000 * 10000 ≤ standardFee * bps :=
    Int.ediv_mul_le _ (by norm_num)
  have hmul : i128.checkedMul standardFee bps = some (standardFee * bps) := by
    apply IntType.checked_of_mem <;> simp only [i128] <;> omega
  have hdivide : i128.checkedDiv (standardFee * bps) bpsDenominator =
      some (standardFee * bps / 10000) := by
    rw [IntType.checkedDiv, if_neg (by norm_num [bpsDenominator]), hdiv]
    apply IntType.checked_of_mem <;> simp only [i128] <;> omega
  have hsub : i128.checkedSub standardFee (standardFee * bps / 10000) =
      some (standardFee - standardFee * bps / 10000) := by
    apply IntType.checked_of_mem <;> simp only [i128] <;> omega
  refine ⟨⟨tier, bps, standardFee, standardFee * bps / 10000,
    standardFee - standardFee * bps / 10000⟩, ?_, ?_, ?_⟩
  · simp only [quoteAt, bind_eq_ok, orFail_eq_ok, pure_eq_ok]
    exact ⟨_, hmul, _, hdivide, _, hsub, rfl⟩
  · dsimp only
    omega
  · dsimp only
    omega

/-- With a validated table and an answer of the staking contract, the quote of such a fee
succeeds and keeps at least half. -/
theorem quote_of_room {w : FeeTierWorld A} {tiers : List Tier} {staking user : A}
    {stakedBalance : StakedBalance A} {staked standardFee : ℤ}
    (stored : w.storage.tiers = some tiers) (valid : validateTiers tiers = .ok ())
    (connected : w.storage.staking = some staking)
    (answered : stakedBalance staking user = .ok staked) (nonneg : 0 ≤ standardFee)
    (room : standardFee * maxDiscountBps ≤ i128.max) :
    ∃ q, quote stakedBalance user standardFee w = .ok q ∧ standardFee ≤ 2 * q.fee ∧
      q.fee ≤ standardFee := by
  obtain ⟨q, hq, hlow, hhigh⟩ := quoteAt_of_room nonneg room
    (discount_le (valid_of_validateTiers valid) staked)
  refine ⟨q, ?_, hlow, hhigh⟩
  simp only [quote, resolve, getTiers, getStakedBalance, getStakingContract, bind_eq_ok,
    require_eq_ok, orFail_eq_ok, pure_eq_ok, exists_const]
  exact ⟨by omega, _, ⟨tiers, stored, staked, ⟨staking, connected, answered⟩, rfl⟩, hq⟩

end MobileMoney.FeeTier
