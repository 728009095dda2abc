import MobileMoney.Library.MachineInt
import MobileMoney.Soroban.Signatures

/-!
# The escrow contract

`contracts/escrow`: a depositor's tokens are held until the arbiter releases them to
the beneficiary, or one of three refund paths returns them. The hot state and the
admin signer list live under two storage keys; an entry written by an older build
holds both and is split the first time it is loaded.

TTL extensions have no effect on the state modelled here and are left out. A run
stays a run of this contract: `upgrade` records the installed code hash, and later
calls are calls of the same source.
-/

namespace MobileMoney.Escrow

open Soroban MachineInt

inductive EscrowError where
  | alreadyInitialised | notInitialised | alreadyReleased | lockNotExpired | lockExpired
  | invalidAmount | invalidFeeBps | invalidBeneficiary | invalidArbiter
  | upgradeNotConfigured | invalidAdminSigner | insufficientAdminSignatures
  deriving DecidableEq, Repr

inductive EscrowStatus where
  | pending | completed | refunded
  deriving DecidableEq, Repr

variable {A : Type}

structure EscrowState (A : Type) where
  depositor : A
  beneficiary : A
  arbiter : A
  token : A
  amount : ℤ
  emergencyUnlockTimestamp : ℕ
  lockUntilLedger : ℕ
  feeBps : ℕ
  feeRecipient : A
  status : EscrowStatus
  deriving DecidableEq, Repr

/-- The pair (fee, net beneficiary amount). -/
def EscrowState.split (s : EscrowState A) : Option (ℤ × ℤ) := do
  let scaled ← i128.checkedMul s.amount s.feeBps
  let fee ← i128.checkedDiv scaled 10000
  let net ← i128.checkedSub s.amount fee
  return (fee, net)

structure EscrowAdmins (A : Type) where
  adminSigners : List A
  requiredAdminSignatures : ℕ
  deriving DecidableEq, Repr

structure EscrowReleased (A : Type) where
  beneficiary : A
  releaseTimestamp : ℕ
  netAmount : ℤ
  feeAmount : ℤ
  deriving DecidableEq, Repr

/-- The single entry an older build kept under `ESCROW`. -/
structure LegacyEscrowState (A : Type) where
  depositor : A
  beneficiary : A
  arbiter : A
  token : A
  amount : ℤ
  emergencyUnlockTimestamp : ℕ
  lockUntilLedger : ℕ
  feeBps : ℕ
  feeRecipient : A
  released : Bool
  adminSigners : List A
  requiredAdminSignatures : ℕ
  deriving DecidableEq, Repr

/-- What can lie under the `ESCROW` key. -/
inductive EscrowEntry (A : Type) where
  | hot (state : EscrowState A)
  | legacy (state : LegacyEscrowState A)
  deriving DecidableEq, Repr

/-- Instance storage under `ESCROW`, `ESC_ADM` and `REENTR`, and the installed code. -/
structure Storage (A : Type) where
  escrow : Option (EscrowEntry A)
  escrowAdmins : Option (EscrowAdmins A)
  reentrancy : Bool
  wasm : BitVec 256
  deriving DecidableEq, Repr

def Storage.empty (wasm : BitVec 256) : Storage A := ⟨none, none, false, wasm⟩

def LegacyEscrowState.admins (legacy : LegacyEscrowState A) : EscrowAdmins A :=
  ⟨legacy.adminSigners, legacy.requiredAdminSignatures⟩

def LegacyEscrowState.hot (legacy : LegacyEscrowState A) : EscrowState A where
  depositor := legacy.depositor
  beneficiary := legacy.beneficiary
  arbiter := legacy.arbiter
  token := legacy.token
  amount := legacy.amount
  emergencyUnlockTimestamp := legacy.emergencyUnlockTimestamp
  lockUntilLedger := legacy.lockUntilLedger
  feeBps := legacy.feeBps
  feeRecipient := legacy.feeRecipient
  status := if legacy.released then .completed else .pending

abbrev EscrowWorld (A : Type) := World A (Storage A) (EscrowReleased A)

abbrev Result (α : Type) := Outcome EscrowError α

/-- Read the hot entry, splitting a legacy entry first. Reading an entry of the other
layout fails to decode. -/
def loadState (w : EscrowWorld A) : Result (Option (EscrowState A) × EscrowWorld A) :=
  match w.storage.escrow, w.storage.escrowAdmins with
  | none, _ => .ok (none, w)
  | some (.hot state), some _ => .ok (some state, w)
  | some (.legacy _), some _ => .error .decode
  | some (.hot _), none => .error .decode
  | some (.legacy legacy), none =>
    .ok (some legacy.hot, w.store { w.storage with
      escrow := some (.hot legacy.hot)
      escrowAdmins := some legacy.admins })

/-- `ReentrancyGuard::enter`. -/
def enterGuard (w : EscrowWorld A) : Result (EscrowWorld A) := do
  require (w.storage.reentrancy = false) (.panic "escrow: reentrancy detected")
  return w.store { w.storage with reentrancy := true }

/-- The guard's `Drop`. -/
def dropGuard (w : EscrowWorld A) : EscrowWorld A :=
  w.store { w.storage with reentrancy := false }

/-- The opening lines of the fund-moving calls: take the guard, load the state. -/
def openState (missing : Failure EscrowError) (w : EscrowWorld A) :
    Result (EscrowState A × EscrowWorld A) := do
  let w ← enterGuard w
  let (loaded, w) ← loadState w
  let state ← orFail loaded missing
  return (state, w)

def setState (w : EscrowWorld A) (state : EscrowState A) : EscrowWorld A :=
  w.store { w.storage with escrow := some (.hot state) }

structure InitializeArgs (A : Type) where
  depositor : A
  beneficiary : A
  arbiter : A
  token : A
  amount : ℤ
  emergencyUnlockTimestamp : ℕ
  lockUntilLedger : ℕ
  feeBps : ℕ
  feeRecipient : A
  adminSigners : List A
  requiredAdminSignatures : ℕ
  deriving DecidableEq, Repr

def InitializeArgs.state (args : InitializeArgs A) : EscrowState A where
  depositor := args.depositor
  beneficiary := args.beneficiary
  arbiter := args.arbiter
  token := args.token
  amount := args.amount
  emergencyUnlockTimestamp := args.emergencyUnlockTimestamp
  lockUntilLedger := args.lockUntilLedger
  feeBps := args.feeBps
  feeRecipient := args.feeRecipient
  status := .pending

variable [DecidableEq A] {contract : A}

def initializeEscrow (env : Invocation A contract) (args : InitializeArgs A) (w : EscrowWorld A) :
    Result (EscrowWorld A) := do
  let w ← enterGuard w
  env.requireAuth args.depositor
  require (0 < args.amount) (.panic "amount must be positive")
  require (args.amount ≤ i128.max / 10000)
    (.panic "amount is too large to prevent fee overflow")
  require (w.storage.escrow = none) (.panic "already initialised")
  require (env.timestamp < args.emergencyUnlockTimestamp)
    (.panic "emergency unlock must be in the future")
  require (args.feeBps ≤ 10000) (.panic "fee basis points must be in [0, 10000]")
  require (args.depositor ≠ args.beneficiary)
    (.panic "beneficiary must differ from depositor")
  require (args.arbiter ≠ args.depositor ∧ args.arbiter ≠ args.beneficiary)
    (.panic "arbiter must differ from depositor and beneficiary")
  require (args.adminSigners ≠ [] →
      0 < args.requiredAdminSignatures ∧
        args.requiredAdminSignatures ≤ args.adminSigners.length)
    (.panic "required_admin_signatures must be between 1 and number of admin signers")
  -- The escrow is published before the deposit is pulled in.
  let w := setState w args.state
  let w := w.store { w.storage with
    escrowAdmins := some ⟨args.adminSigners, args.requiredAdminSignatures⟩ }
  let w ← env.transfer ⟨args.token, args.depositor, contract, args.amount⟩ w
  return dropGuard w

/-- The signature loop of `upgrade`. -/
def countAdminSignatures (env : Invocation A contract) (approved adminSigners : List A) :
    Result ℕ :=
  countSigners env (.error .invalidAdminSigner) approved adminSigners

def upgrade (env : Invocation A contract) (newWasmHash : BitVec 256) (adminSigners : List A)
    (w : EscrowWorld A) : Result (EscrowWorld A) := do
  let (_, w) ← openState (.error .notInitialised) w
  let admins ← orFail w.storage.escrowAdmins (.error .notInitialised)
  require (admins.adminSigners ≠ []) (.error .upgradeNotConfigured)
  let validSigCount ← countAdminSignatures env admins.adminSigners adminSigners
  require (admins.requiredAdminSignatures ≤ validSigCount)
    (.error .insufficientAdminSignatures)
  return dropGuard (w.store { w.storage with wasm := newWasmHash })

/-- `ensure_trustline` for the fee recipient and the fee transfer, when there is a fee. -/
def payFee (env : Invocation A contract) (state : EscrowState A) (fee : ℤ)
    (w : EscrowWorld A) : Result (EscrowWorld A) :=
  if 0 < fee then do
    env.trust state.token state.feeRecipient
    env.transfer ⟨state.token, contract, state.feeRecipient, fee⟩ w
  else .ok w

def release (env : Invocation A contract) (w : EscrowWorld A) : Result (EscrowWorld A) := do
  let (state, w) ← openState (.error .notInitialised) w
  env.requireAuth state.arbiter
  require (state.status = .pending) (.error .alreadyReleased)
  require (¬ (0 < state.lockUntilLedger ∧ state.lockUntilLedger < env.sequence))
    (.error .lockExpired)
  let (fee, net) ← orFail state.split (.error .invalidAmount)
  let w := setState w { state with status := .completed }
  env.trust state.token state.beneficiary
  let w ← payFee env state fee w
  let w ← env.transfer ⟨state.token, contract, state.beneficiary, net⟩ w
  return dropGuard (w.publish ⟨state.beneficiary, env.timestamp, net, fee⟩)

/-- The effects shared by the three refund paths: close the escrow, then return the whole
amount to the depositor. -/
def returnDeposit (env : Invocation A contract) (state : EscrowState A)
    (w : EscrowWorld A) : Result (EscrowWorld A) := do
  let w := setState w { state with status := .refunded }
  let w ← env.transfer ⟨state.token, contract, state.depositor, state.amount⟩ w
  return dropGuard w

def refund (env : Invocation A contract) (w : EscrowWorld A) : Result (EscrowWorld A) := do
  let (state, w) ← openState (.error .notInitialised) w
  env.requireAuth state.arbiter
  require (state.status = .pending) (.error .alreadyReleased)
  require (¬ (0 < state.lockUntilLedger ∧ state.lockUntilLedger < env.sequence))
    (.error .lockExpired)
  returnDeposit env state w

def emergencyRefund (env : Invocation A contract) (w : EscrowWorld A) :
    Result (EscrowWorld A) := do
  let (state, w) ← openState (.panic "not initialised") w
  env.requireAuth state.depositor
  require (state.status = .pending) (.panic "already released")
  require (state.emergencyUnlockTimestamp ≤ env.timestamp)
    (.panic "emergency unlock not yet available")
  returnDeposit env state w

def selfRefund (env : Invocation A contract) (w : EscrowWorld A) :
    Result (EscrowWorld A) := do
  let (state, w) ← openState (.error .notInitialised) w
  env.requireAuth state.depositor
  require (state.status = .pending) (.error .alreadyReleased)
  require (¬ (state.lockUntilLedger = 0 ∨ env.sequence ≤ state.lockUntilLedger))
    (.error .lockNotExpired)
  returnDeposit env state w

def getState (w : EscrowWorld A) : Result (EscrowState A × EscrowWorld A) := do
  let (loaded, w) ← loadState w
  let state ← orFail loaded (.panic "not initialised")
  return (state, w)

def getAdmins (w : EscrowWorld A) : Result (EscrowAdmins A × EscrowWorld A) := do
  let (loaded, w) ← loadState w
  let _ ← orFail loaded (.panic "not initialised")
  let admins ← orFail w.storage.escrowAdmins (.panic "not initialised")
  return (admins, w)

def reentrancyGuardActive (w : EscrowWorld A) : Bool := w.storage.reentrancy

inductive Operation (A : Type) where
  | initializeEscrow (args : InitializeArgs A)
  | upgrade (newWasmHash : BitVec 256) (adminSigners : List A)
  | release
  | refund
  | emergencyRefund
  | selfRefund
  | getState
  | getAdmins
  | reentrancyGuardActive
  deriving DecidableEq, Repr

def invoke (env : Invocation A contract) (op : Operation A) (w : EscrowWorld A) :
    Result (EscrowWorld A) :=
  match op with
  | .initializeEscrow args => initializeEscrow env args w
  | .upgrade newWasmHash adminSigners => upgrade env newWasmHash adminSigners w
  | .release => release env w
  | .refund => refund env w
  | .emergencyRefund => emergencyRefund env w
  | .selfRefund => selfRefund env w
  | .getState => (getState w).map (·.2)
  | .getAdmins => (getAdmins w).map (·.2)
  | .reentrancyGuardActive => .ok w

end MobileMoney.Escrow
