import MobileMoney.Library.MachineInt
import MobileMoney.Soroban.Host

/-!
# The bridge contract

`contracts/bridge`: users deposit tokens, the admin settles off-ramps by paying tokens out
minus a fee. The fee rate and the admin change in two steps with a delay in between. What
the blacklist registry and the fee-tier contract answer is up to each call; TTL extensions
are left out.
-/

namespace MobileMoney.Bridge

open Soroban MachineInt

variable {A : Type}

/-- Delay between proposing and accepting a new admin (24 hours). -/
def adminTransferDelay : ℕ := 24 * 60 * 60

/-- Delay between proposing and executing a new settlement fee (24 hours). -/
def feeTimelockDelay : ℕ := 24 * 60 * 60

def bpsDenominator : ℤ := 10000

/-- Standard fee can never exceed 10%. -/
def maxFeeBps : ℕ := 1000

inductive BridgeError where
  | alreadyInitialised
  | notInitialised
  | invalidAmount
  | invalidFee
  | blacklisted
  | noPendingAdmin
  | adminTransferNotReady
  | invalidAdmin
  | insufficientBalance
  | noPendingFeeUpdate
  | feeUpdateNotReady
  | contractPaused
  deriving DecidableEq, Repr

structure PendingAdmin (A : Type) where
  newAdmin : A
  proposedAt : ℕ
  acceptAfter : ℕ
  deriving DecidableEq, Repr

structure Settlement where
  amount : ℤ
  standardFee : ℤ
  fee : ℤ
  payout : ℤ
  deriving DecidableEq, Repr

structure PendingFeeUpdate where
  feeBps : ℕ
  proposedAt : ℕ
  executeAfter : ℕ
  deriving DecidableEq, Repr

inductive Published (A : Type) where
  | adminProposed (currentAdmin newAdmin : A) (acceptAfter : ℕ)
  | adminProposalRevoked (revokedAdmin : A)
  | adminTransferred (previousAdmin newAdmin : A)
  | deposited (depositor : A) (amount : ℤ)
  | settled (target : A) (amount fee : ℤ)
  | feeUpdateProposed (admin : A) (feeBps executeAfter : ℕ)
  | feeUpdateRevoked (admin : A)
  | feeUpdateExecuted (admin : A) (feeBps : ℕ)
  | emergencyPaused (admin : A)
  | emergencyUnpaused (admin : A)
  deriving DecidableEq, Repr

/-- Instance storage, one field for each `DataKey`. -/
structure Storage (A : Type) where
  admin : Option A
  pendingAdmin : Option (PendingAdmin A)
  token : Option A
  feeRecipient : Option A
  feeBps : Option ℕ
  blacklist : Option A
  feeTier : Option A
  pendingFeeUpdate : Option PendingFeeUpdate
  paused : Option Bool
  deriving DecidableEq, Repr

def Storage.empty : Storage A := ⟨none, none, none, none, none, none, none, none, none⟩

abbrev BridgeWorld (A : Type) := World A (Storage A) (Published A)

abbrev Result (α : Type) := Outcome BridgeError α

/-- What the contracts that a call consults answer, by contract address: any value at all,
or a failure that aborts the call. -/
structure Registries (A : Type) where
  isBlacklisted : A → A → Result Bool
  discountedFee : A → A → ℤ → Result ℤ

variable {contract : A}

/-! ## Internal -/

def getAdmin (w : BridgeWorld A) : Result A := orFail w.storage.admin (.error .notInitialised)

def requireAdmin (env : Invocation A contract) (w : BridgeWorld A) : Result A := do
  let admin ← getAdmin w
  env.requireAuth admin
  return admin

def pendingAdmin (w : BridgeWorld A) : Result (PendingAdmin A) :=
  orFail w.storage.pendingAdmin (.error .noPendingAdmin)

def pendingFeeUpdate (w : BridgeWorld A) : Result PendingFeeUpdate :=
  orFail w.storage.pendingFeeUpdate (.error .noPendingFeeUpdate)

def isPaused (w : BridgeWorld A) : Bool := w.storage.paused.getD false

def requireNotPaused (w : BridgeWorld A) : Result Unit :=
  require (isPaused w = false) (.error .contractPaused)

def getFeeBps (w : BridgeWorld A) : Result ℕ :=
  orFail w.storage.feeBps (.error .notInitialised)

def getToken (w : BridgeWorld A) : Result A := orFail w.storage.token (.error .notInitialised)

def ensureNotBlacklisted (registries : Registries A) (address : A) (w : BridgeWorld A) :
    Result Unit :=
  match w.storage.blacklist with
  | some blacklist => do
    let flagged ← registries.isBlacklisted blacklist address
    require (flagged = false) (.error .blacklisted)
  | none => .ok ()

/-- A `u64` deadline; the addition traps when it overflows. -/
def deadline (now delay : ℕ) : Result ℕ := do
  require ((now + delay : ℕ) ≤ u64.max) .arithmetic
  return now + delay

/-! ## Initialisation and admin transfer -/

def initializeBridge (env : Invocation A contract) (admin token feeRecipient : A)
    (feeBps : ℕ) (w : BridgeWorld A) : Result (BridgeWorld A) := do
  env.requireAuth admin
  require (w.storage.admin.isSome = false) (.error .alreadyInitialised)
  require (¬ maxFeeBps < feeBps) (.error .invalidFee)
  return w.store { w.storage with
    admin := some admin
    token := some token
    feeRecipient := some feeRecipient
    feeBps := some feeBps }

def proposeAdmin [DecidableEq A] (env : Invocation A contract) (newAdmin : A)
    (w : BridgeWorld A) : Result (PendingAdmin A × BridgeWorld A) := do
  let admin ← requireAdmin env w
  require (newAdmin ≠ admin) (.error .invalidAdmin)
  let acceptAfter ← deadline env.timestamp adminTransferDelay
  let pending : PendingAdmin A := ⟨newAdmin, env.timestamp, acceptAfter⟩
  let w := w.store { w.storage with pendingAdmin := some pending }
  return (pending, w.publish (.adminProposed admin newAdmin pending.acceptAfter))

def revokeAdminProposal (env : Invocation A contract) (w : BridgeWorld A) :
    Result (BridgeWorld A) := do
  let _ ← requireAdmin env w
  let pending ← pendingAdmin w
  let w := w.store { w.storage with pendingAdmin := none }
  return w.publish (.adminProposalRevoked pending.newAdmin)

def acceptAdmin (env : Invocation A contract) (w : BridgeWorld A) :
    Result (BridgeWorld A) := do
  let pending ← pendingAdmin w
  env.requireAuth pending.newAdmin
  require (¬ env.timestamp < pending.acceptAfter) (.error .adminTransferNotReady)
  let previousAdmin ← getAdmin w
  let w := w.store { w.storage with admin := some pending.newAdmin, pendingAdmin := none }
  return w.publish (.adminTransferred previousAdmin pending.newAdmin)

/-! ## Configuration -/

def setBlacklist (env : Invocation A contract) (blacklist : Option A) (w : BridgeWorld A) :
    Result (BridgeWorld A) := do
  let _ ← requireAdmin env w
  return w.store { w.storage with blacklist := blacklist }

def setFeeTier (env : Invocation A contract) (feeTier : Option A) (w : BridgeWorld A) :
    Result (BridgeWorld A) := do
  let _ ← requireAdmin env w
  return w.store { w.storage with feeTier := feeTier }

/-! ## Settlement fee -/

def proposeFeeBps (env : Invocation A contract) (feeBps : ℕ) (w : BridgeWorld A) :
    Result (PendingFeeUpdate × BridgeWorld A) := do
  let admin ← requireAdmin env w
  require (¬ maxFeeBps < feeBps) (.error .invalidFee)
  let executeAfter ← deadline env.timestamp feeTimelockDelay
  let pending : PendingFeeUpdate := ⟨feeBps, env.timestamp, executeAfter⟩
  let w := w.store { w.storage with pendingFeeUpdate := some pending }
  return (pending, w.publish (.feeUpdateProposed admin feeBps pending.executeAfter))

def revokeFeeUpdate (env : Invocation A contract) (w : BridgeWorld A) :
    Result (BridgeWorld A) := do
  let admin ← requireAdmin env w
  let _ ← pendingFeeUpdate w
  let w := w.store { w.storage with pendingFeeUpdate := none }
  return w.publish (.feeUpdateRevoked admin)

def executeFeeUpdate (env : Invocation A contract) (w : BridgeWorld A) :
    Result (BridgeWorld A) := do
  let admin ← requireAdmin env w
  let pending ← pendingFeeUpdate w
  require (¬ env.timestamp < pending.executeAfter) (.error .feeUpdateNotReady)
  let w := w.store
    { w.storage with pendingFeeUpdate := none, feeBps := some pending.feeBps }
  return w.publish (.feeUpdateExecuted admin pending.feeBps)

/-! ## Emergency circuit breaker -/

def pause (env : Invocation A contract) (w : BridgeWorld A) : Result (BridgeWorld A) := do
  let admin ← requireAdmin env w
  let w := w.store { w.storage with paused := some true }
  return w.publish (.emergencyPaused admin)

def unpause (env : Invocation A contract) (w : BridgeWorld A) : Result (BridgeWorld A) := do
  let admin ← requireAdmin env w
  let w := w.store { w.storage with paused := some false }
  return w.publish (.emergencyUnpaused admin)

/-! ## Bridge operations -/

/-- `i128::clamp`. -/
def clamp (x low high : ℤ) : ℤ := if x < low then low else if high < x then high else x

def standardFee (amount : ℤ) (feeBps : ℕ) : Option ℤ := do
  let product ← i128.checkedMul amount feeBps
  i128.checkedDiv product bpsDenominator

/-- What the fee-tier contract answers about a standard fee; without one there is no
discount. -/
def feeAnswer (registries : Registries A) (target : A) (standard : ℤ) (w : BridgeWorld A) :
    Result ℤ :=
  match w.storage.feeTier with
  | some feeTier => registries.discountedFee feeTier target standard
  | none => .ok standard

def quoteSettlement (registries : Registries A) (target : A) (amount : ℤ)
    (w : BridgeWorld A) : Result Settlement := do
  require (¬ amount ≤ 0) (.error .invalidAmount)
  let feeBps ← getFeeBps w
  let standard ← orFail (standardFee amount feeBps) .arithmetic
  let answer ← feeAnswer registries target standard w
  -- The external contract is not trusted to raise the fee or go negative.
  let fee := clamp answer 0 standard
  let payout ← orFail (i128.checkedSub amount fee) .arithmetic
  return ⟨amount, standard, fee, payout⟩

variable [DecidableEq A]

def deposit (env : Invocation A contract) (registries : Registries A) (depositor : A)
    (amount : ℤ) (w : BridgeWorld A) : Result (BridgeWorld A) := do
  requireNotPaused w
  env.requireAuth depositor
  require (¬ amount ≤ 0) (.error .invalidAmount)
  ensureNotBlacklisted registries depositor w
  let token ← getToken w
  let w ← env.transfer ⟨token, depositor, contract, amount⟩ w
  return w.publish (.deposited depositor amount)

/-- The fee leg of a settlement, paid only when there is a fee. -/
def payFee (env : Invocation A contract) (token : A) (fee : ℤ) (w : BridgeWorld A) :
    Result (BridgeWorld A) :=
  if 0 < fee then do
    let feeRecipient ← orFail w.storage.feeRecipient (.error .notInitialised)
    env.transfer ⟨token, contract, feeRecipient, fee⟩ w
  else .ok w

def settle (env : Invocation A contract) (registries : Registries A) (target : A)
    (amount : ℤ) (w : BridgeWorld A) : Result (Settlement × BridgeWorld A) := do
  requireNotPaused w
  let _ ← requireAdmin env w
  ensureNotBlacklisted registries target w
  let settlement ← quoteSettlement registries target amount w
  let token ← getToken w
  require (¬ w.balances token contract < amount) (.error .insufficientBalance)
  let w ← env.transfer ⟨token, contract, target, settlement.payout⟩ w
  let w ← payFee env token settlement.fee w
  return (settlement, w.publish (.settled target amount settlement.fee))

inductive Operation (A : Type) where
  | initializeBridge (admin token feeRecipient : A) (feeBps : ℕ)
  | proposeAdmin (newAdmin : A)
  | revokeAdminProposal
  | acceptAdmin
  | setBlacklist (blacklist : Option A)
  | setFeeTier (feeTier : Option A)
  | proposeFeeBps (feeBps : ℕ)
  | revokeFeeUpdate
  | executeFeeUpdate
  | pause
  | unpause
  | deposit (registries : Registries A) (depositor : A) (amount : ℤ)
  | settle (registries : Registries A) (target : A) (amount : ℤ)

/-- The entry points that write; `quote_settlement` and the getters only read. -/
def invoke (env : Invocation A contract) (op : Operation A) (w : BridgeWorld A) :
    Result (BridgeWorld A) :=
  match op with
  | .initializeBridge admin token feeRecipient feeBps =>
    initializeBridge env admin token feeRecipient feeBps w
  | .proposeAdmin newAdmin => (proposeAdmin env newAdmin w).map (·.2)
  | .revokeAdminProposal => revokeAdminProposal env w
  | .acceptAdmin => acceptAdmin env w
  | .setBlacklist blacklist => setBlacklist env blacklist w
  | .setFeeTier feeTier => setFeeTier env feeTier w
  | .proposeFeeBps feeBps => (proposeFeeBps env feeBps w).map (·.2)
  | .revokeFeeUpdate => revokeFeeUpdate env w
  | .executeFeeUpdate => executeFeeUpdate env w
  | .pause => pause env w
  | .unpause => unpause env w
  | .deposit registries depositor amount => deposit env registries depositor amount w
  | .settle registries target amount => (settle env registries target amount w).map (·.2)

/-- A deployed contract that has not been initialised. -/
def deployed (balances : A → A → ℤ) : BridgeWorld A where
  storage := .empty
  balances := balances
  transfers := []
  events := []

end MobileMoney.Bridge
