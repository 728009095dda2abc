import MobileMoney.Library.MachineInt
import MobileMoney.Soroban.Host

/-!
# The proof-of-reserve contract

`contracts/proof_of_reserve`: a quorum of auditors attests the reserves behind a token, and
the admin can change the freshness window of attestations after a timelock. TTL
extensions, and the getters that only read one entry, are left out.
-/

namespace MobileMoney.ProofOfReserve

open Soroban MachineInt

variable {A : Type}

def defaultMaxAttestationAgeSeconds : ℕ := 24 * 60 * 60

def maxAttestationAgeSeconds : ℕ := defaultMaxAttestationAgeSeconds

def freshnessUpdateTimelockSeconds : ℕ := 48 * 60 * 60

inductive ProofOfReserveError where
  | alreadyInitialized
  | notInitialized
  | invalidThreshold
  | unauthorizedAuditor
  | insufficientSignatures
  | invalidAmount
  | noAttestation
  | staleAttestation
  | invalidFreshnessWindow
  | noPendingFreshnessUpdate
  | freshnessUpdateTimelockActive
  deriving DecidableEq, Repr

structure Attestation (A : Type) where
  onChainSupply : ℤ
  reserveBalance : ℤ
  attestedAt : ℕ
  signers : List A
  deriving DecidableEq, Repr

structure PendingFreshnessUpdate where
  newMaxAgeSeconds : ℕ
  executableAt : ℕ
  deriving DecidableEq, Repr

inductive Published (A : Type) where
  | attestationSubmitted (attestedAt : ℕ) (onChainSupply reserveBalance : ℤ) (signerCount : ℕ)
  | freshnessUpdateScheduled (admin : A) (newMaxAgeSeconds executableAt : ℕ)
  | freshnessUpdated (admin : A) (oldMaxAgeSeconds newMaxAgeSeconds : ℕ)
  deriving DecidableEq, Repr

/-- Instance storage under `ADMIN`, `AUDITORS`, `REQ_SIGS`, `LATEST`, `MAX_AGE` and
`PEND_AGE`. -/
structure Storage (A : Type) where
  admin : Option A
  auditors : Option (List A)
  requiredSignatures : Option ℕ
  latest : Option (Attestation A)
  maxAge : Option ℕ
  pendingMaxAge : Option PendingFreshnessUpdate
  deriving DecidableEq, Repr

abbrev ReserveWorld (A : Type) := World A (Storage A) (Published A)

abbrev Result (α : Type) := Outcome ProofOfReserveError α

variable {contract : A}

def getAdmin (w : ReserveWorld A) : Result A := orFail w.storage.admin (.error .notInitialized)

def getAuditors (w : ReserveWorld A) : Result (List A) :=
  orFail w.storage.auditors (.error .notInitialized)

/-- The freshness window in force. -/
def maxAge (w : ReserveWorld A) : ℕ := w.storage.maxAge.getD maxAttestationAgeSeconds

def initializeReserve (env : Invocation A contract) (admin : A) (auditors : List A)
    (requiredSignatures : ℕ) (w : ReserveWorld A) : Result (ReserveWorld A) := do
  require (w.storage.admin.isSome = false) (.error .alreadyInitialized)
  require (¬ (requiredSignatures = 0 ∨ auditors.length < requiredSignatures))
    (.error .invalidThreshold)
  env.requireAuth admin
  return w.store { w.storage with
    admin := some admin
    auditors := some auditors
    requiredSignatures := some requiredSignatures
    maxAge := some maxAttestationAgeSeconds }

/-- The signature loop: every listed signer is an auditor, and each is asked for its
authorisation the first time it is listed. -/
def collectSigners [DecidableEq A] (env : Invocation A contract) (auditors : List A) :
    List A → List A → Result (List A)
  | [], validSigners => .ok validSigners
  | signer :: rest, validSigners => do
    require (signer ∈ auditors) (.error .unauthorizedAuditor)
    if signer ∈ validSigners then
      collectSigners env auditors rest validSigners
    else
      env.requireAuth signer
      collectSigners env auditors rest (validSigners ++ [signer])

def submitAttestation [DecidableEq A] (env : Invocation A contract)
    (onChainSupply reserveBalance : ℤ) (signers : List A) (w : ReserveWorld A) :
    Result (ReserveWorld A) := do
  require (¬ (onChainSupply < 0 ∨ reserveBalance < 0)) (.error .invalidAmount)
  let auditors ← getAuditors w
  let required ← orFail w.storage.requiredSignatures (.error .notInitialized)
  let validSigners ← collectSigners env auditors signers []
  require (¬ validSigners.length < required) (.error .insufficientSignatures)
  let attestedAt := env.timestamp
  let w := w.store { w.storage with
    latest := some ⟨onChainSupply, reserveBalance, attestedAt, validSigners⟩ }
  return w.publish
    (.attestationSubmitted attestedAt onChainSupply reserveBalance validSigners.length)

def latestAttestation (w : ReserveWorld A) : Result (Attestation A) :=
  orFail w.storage.latest (.error .noAttestation)

def requireFresh (env : Invocation A contract) (attestation : Attestation A)
    (w : ReserveWorld A) : Result Unit :=
  require (¬ maxAge w < env.timestamp - attestation.attestedAt) (.error .staleAttestation)

def isFullyBacked (env : Invocation A contract) (w : ReserveWorld A) : Result Bool := do
  let attestation ← latestAttestation w
  requireFresh env attestation w
  return decide (attestation.onChainSupply ≤ attestation.reserveBalance)

def reserveRatioBps (env : Invocation A contract) (w : ReserveWorld A) : Result ℤ := do
  let attestation ← latestAttestation w
  requireFresh env attestation w
  require (¬ attestation.onChainSupply = 0) (.error .invalidAmount)
  return (i128.checkedDiv (i128.saturatingMul attestation.reserveBalance 10000)
    attestation.onChainSupply).getD i128.max

def scheduleFreshnessUpdate (env : Invocation A contract) (newMaxAgeSeconds : ℕ)
    (w : ReserveWorld A) : Result (ReserveWorld A) := do
  let admin ← getAdmin w
  env.requireAuth admin
  require (¬ newMaxAgeSeconds = 0) (.error .invalidFreshnessWindow)
  let executableAt := (u64.saturatingAdd env.timestamp freshnessUpdateTimelockSeconds).toNat
  let w := w.store { w.storage with pendingMaxAge := some ⟨newMaxAgeSeconds, executableAt⟩ }
  return w.publish (.freshnessUpdateScheduled admin newMaxAgeSeconds executableAt)

def executeFreshnessUpdate (env : Invocation A contract) (w : ReserveWorld A) :
    Result (ReserveWorld A) := do
  let admin ← getAdmin w
  env.requireAuth admin
  let pending ← orFail w.storage.pendingMaxAge (.error .noPendingFreshnessUpdate)
  require (¬ env.timestamp < pending.executableAt) (.error .freshnessUpdateTimelockActive)
  let oldMaxAgeSeconds := maxAge w
  let w := w.store { w.storage with
    maxAge := some pending.newMaxAgeSeconds
    pendingMaxAge := none }
  return w.publish (.freshnessUpdated admin oldMaxAgeSeconds pending.newMaxAgeSeconds)

inductive Operation (A : Type) where
  | initializeReserve (admin : A) (auditors : List A) (requiredSignatures : ℕ)
  | submitAttestation (onChainSupply reserveBalance : ℤ) (signers : List A)
  | scheduleFreshnessUpdate (newMaxAgeSeconds : ℕ)
  | executeFreshnessUpdate
  | latestAttestation
  | isFullyBacked
  | reserveRatioBps
  deriving DecidableEq, Repr

def invoke [DecidableEq A] (env : Invocation A contract) (op : Operation A)
    (w : ReserveWorld A) : Result (ReserveWorld A) :=
  match op with
  | .initializeReserve admin auditors requiredSignatures =>
    initializeReserve env admin auditors requiredSignatures w
  | .submitAttestation onChainSupply reserveBalance signers =>
    submitAttestation env onChainSupply reserveBalance signers w
  | .scheduleFreshnessUpdate newMaxAgeSeconds => scheduleFreshnessUpdate env newMaxAgeSeconds w
  | .executeFreshnessUpdate => executeFreshnessUpdate env w
  | .latestAttestation => (latestAttestation w).map fun _ => w
  | .isFullyBacked => (isFullyBacked env w).map fun _ => w
  | .reserveRatioBps => (reserveRatioBps env w).map fun _ => w

/-- A deployed contract that has not been initialised. -/
def deployed (balances : A → A → ℤ) : ReserveWorld A where
  storage := ⟨none, none, none, none, none, none⟩
  balances := balances
  transfers := []
  events := []

end MobileMoney.ProofOfReserve
