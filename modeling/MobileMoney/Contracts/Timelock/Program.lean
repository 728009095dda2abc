import MobileMoney.Library.MachineInt
import MobileMoney.Soroban.Host
import Mathlib.Logic.Function.Basic

/-!
# The timelock contract

`contracts/timelock`: an admin withdraws small amounts at once and initiates larger
withdrawals, which anyone executes 48 hours later unless enough governance admins have
voted to cancel. A `Map` entry of instance storage is a partial function of its key.
The XDR encoding and SHA-256 behind `operation_hash` are one parameter, and TTL
extensions are left out.
-/

namespace MobileMoney.Timelock

open Soroban MachineInt

def timelockDurationSeconds : ℕ := 48 * 60 * 60

inductive TimelockError where
  | alreadyInitialized | notInitialized | invalidAmount | requestNotFound
  | requestAlreadyResolved | timelockNotExpired | invalidGovernanceConfig
  | unauthorizedGovernanceAdmin | alreadyVoted
  deriving DecidableEq, Repr

inductive WithdrawalStatus where
  | pending | executed | cancelled
  deriving DecidableEq, Repr

variable {A : Type}

structure TimelockConfig (A : Type) where
  admin : A
  token : A
  minTimelockAmount : ℤ
  deriving DecidableEq, Repr

structure GovernanceConfig (A : Type) where
  admins : List A
  cancellationThreshold : ℕ
  deriving DecidableEq, Repr

structure CancellationStatus (A : Type) where
  requestId : ℕ
  approvals : List A
  threshold : ℕ
  deriving DecidableEq, Repr

structure WithdrawalRequest (A : Type) where
  id : ℕ
  recipient : A
  amount : ℤ
  requestedAt : ℕ
  executableAt : ℕ
  status : WithdrawalStatus
  deriving DecidableEq, Repr

inductive Published (A : Type) where
  | withdrawalInitiated (requestId : ℕ) (amount : ℤ) (executableAt : ℕ)
  | withdrawalCancelled (requestId : ℕ)
  | withdrawalExecuted (requestId : ℕ)
  | cancellationVoteCast (requestId : ℕ) (admin : A) (approvals threshold : ℕ)
  | operationCancelled (requestId : ℕ) (operationHash : BitVec 256) (approvingAdmins : List A)
  deriving DecidableEq, Repr

/-- Instance storage under `CONFIG`, `GOVERN`, `REQUESTS`, `CANCEL_V` and `NEXT_ID`. -/
structure Storage (A : Type) where
  config : Option (TimelockConfig A)
  governance : Option (GovernanceConfig A)
  requests : Option (ℕ → Option (WithdrawalRequest A))
  cancelVotes : Option (ℕ → Option (List A))
  nextId : Option ℕ

namespace Storage

def empty : Storage A := ⟨none, none, none, none, none⟩

def getRequests (s : Storage A) : ℕ → Option (WithdrawalRequest A) :=
  s.requests.getD fun _ => none

def getCancelVotes (s : Storage A) : ℕ → Option (List A) := s.cancelVotes.getD fun _ => none

def nextIdOr (s : Storage A) : ℕ := s.nextId.getD 0

end Storage

abbrev TimelockWorld (A : Type) := World A (Storage A) (Published A)

abbrev Result (α : Type) := Outcome TimelockError α

def getConfig (w : TimelockWorld A) : Result (TimelockConfig A) :=
  orFail w.storage.config (.error .notInitialized)

def loadGovernance (w : TimelockWorld A) : Result (GovernanceConfig A) :=
  orFail w.storage.governance (.error .notInitialized)

/-- The hashed fields of a request, in the order their encodings are appended. -/
def operationHash (hash : ℕ × A × ℤ × ℕ × ℕ → BitVec 256) (request : WithdrawalRequest A) :
    BitVec 256 :=
  hash (request.id, request.recipient, request.amount, request.requestedAt,
    request.executableAt)

/-- `next_id`: the id to use, with the stored counter moved past it. -/
def nextId (w : TimelockWorld A) : Result (ℕ × TimelockWorld A) := do
  let id := w.storage.nextIdOr
  require ((id + 1 : ℕ) ≤ u64.max) .arithmetic
  return (id, w.store { w.storage with nextId := some (id + 1) })

variable {contract : A}

def initializeTimelock (env : Invocation A contract) (admin token : A)
    (minTimelockAmount : ℤ) (w : TimelockWorld A) : Result (TimelockWorld A) := do
  require (w.storage.config.isSome = false) (.error .alreadyInitialized)
  require (0 < minTimelockAmount) (.error .invalidAmount)
  env.requireAuth admin
  return w.store
    { config := some ⟨admin, token, minTimelockAmount⟩
      governance := some ⟨[admin], 1⟩
      requests := some fun _ => none
      cancelVotes := some fun _ => none
      nextId := some 0 }

def initiateWithdrawal (env : Invocation A contract) (recipient : A) (amount : ℤ)
    (w : TimelockWorld A) : Result (ℕ × TimelockWorld A) := do
  let config ← getConfig w
  env.requireAuth config.admin
  require (0 < amount) (.error .invalidAmount)
  let requests := w.storage.getRequests
  let (id, w) ← nextId w
  -- `saturating_add`: close to the greatest timestamp the delay is cut short.
  let executableAt := (u64.saturatingAdd env.timestamp timelockDurationSeconds).toNat
  let request : WithdrawalRequest A :=
    ⟨id, recipient, amount, env.timestamp, executableAt, .pending⟩
  let w := w.store
    { w.storage with requests := some (Function.update requests id (some request)) }
  return (id, w.publish (.withdrawalInitiated id amount executableAt))

variable [DecidableEq A]

def configureGovernance (env : Invocation A contract) (admins : List A)
    (cancellationThreshold : ℕ) (w : TimelockWorld A) : Result (TimelockWorld A) := do
  let config ← getConfig w
  env.requireAuth config.admin
  require (¬ (admins = [] ∨ cancellationThreshold = 0)) (.error .invalidGovernanceConfig)
  require (¬ admins.length < cancellationThreshold) (.error .invalidGovernanceConfig)
  require admins.Nodup (.error .invalidGovernanceConfig)
  return w.store { w.storage with
    governance := some ⟨admins, cancellationThreshold⟩
    cancelVotes := some fun _ => none }

def voteCancel (hash : ℕ × A × ℤ × ℕ × ℕ → BitVec 256) (env : Invocation A contract)
    (requestId : ℕ) (admin : A) (w : TimelockWorld A) : Result (ℕ × TimelockWorld A) := do
  let governance ← loadGovernance w
  require (admin ∈ governance.admins) (.error .unauthorizedGovernanceAdmin)
  env.requireAuth admin
  let requests := w.storage.getRequests
  let request ← orFail (requests requestId) (.error .requestNotFound)
  require (request.status = .pending) (.error .requestAlreadyResolved)
  let votes := w.storage.getCancelVotes
  let approvals := (votes requestId).getD []
  require (admin ∉ approvals) (.error .alreadyVoted)
  let approvals := approvals ++ [admin]
  if governance.cancellationThreshold ≤ approvals.length then
    let cancelled : WithdrawalRequest A := { request with status := .cancelled }
    let w := w.store { w.storage with
      requests := some (Function.update requests requestId (some cancelled))
      cancelVotes := some (Function.update votes requestId none) }
    let w := w.publish (.withdrawalCancelled requestId)
    return (approvals.length,
      w.publish (.operationCancelled requestId (operationHash hash request) approvals))
  else
    let w := w.store { w.storage with
      cancelVotes := some (Function.update votes requestId (some approvals)) }
    return (approvals.length, w.publish (.cancellationVoteCast requestId admin
      approvals.length governance.cancellationThreshold))

def cancelOperation (hash : ℕ × A × ℤ × ℕ × ℕ → BitVec 256) (env : Invocation A contract)
    (requestId : ℕ) (admin : A) (w : TimelockWorld A) : Result (ℕ × TimelockWorld A) :=
  voteCancel hash env requestId admin w

def cancelWithdrawal (hash : ℕ × A × ℤ × ℕ × ℕ → BitVec 256) (env : Invocation A contract)
    (requestId : ℕ) (w : TimelockWorld A) : Result (TimelockWorld A) := do
  let config ← getConfig w
  let (_, w) ← voteCancel hash env requestId config.admin w
  return w

def getCancellationStatus (requestId : ℕ) (w : TimelockWorld A) :
    Result (CancellationStatus A) := do
  let governance ← loadGovernance w
  let approvals := (w.storage.getCancelVotes requestId).getD []
  return ⟨requestId, approvals, governance.cancellationThreshold⟩

def executeWithdrawal (env : Invocation A contract) (requestId : ℕ) (w : TimelockWorld A) :
    Result (TimelockWorld A) := do
  let config ← getConfig w
  let requests := w.storage.getRequests
  let request ← orFail (requests requestId) (.error .requestNotFound)
  require (request.status = .pending) (.error .requestAlreadyResolved)
  require (request.executableAt ≤ env.timestamp) (.error .timelockNotExpired)
  let w ← env.transfer ⟨config.token, contract, request.recipient, request.amount⟩ w
  let executed : WithdrawalRequest A := { request with status := .executed }
  let votes := w.storage.getCancelVotes
  let w := w.store { w.storage with
    requests := some (Function.update requests requestId (some executed))
    cancelVotes := some (Function.update votes requestId none) }
  return w.publish (.withdrawalExecuted requestId)

def withdrawImmediate (env : Invocation A contract) (recipient : A) (amount : ℤ)
    (w : TimelockWorld A) : Result (TimelockWorld A) := do
  let config ← getConfig w
  env.requireAuth config.admin
  require (0 < amount) (.error .invalidAmount)
  require (¬ config.minTimelockAmount ≤ amount) (.error .invalidAmount)
  env.transfer ⟨config.token, contract, recipient, amount⟩ w

omit [DecidableEq A] in
def getRequest (requestId : ℕ) (w : TimelockWorld A) : Result (WithdrawalRequest A) :=
  orFail (w.storage.getRequests requestId) (.error .requestNotFound)

omit [DecidableEq A] in
def minTimelockAmount (w : TimelockWorld A) : Result ℤ := do
  let config ← getConfig w
  return config.minTimelockAmount

inductive Operation (A : Type) where
  | initializeTimelock (admin token : A) (minTimelockAmount : ℤ)
  | initiateWithdrawal (recipient : A) (amount : ℤ)
  | configureGovernance (admins : List A) (cancellationThreshold : ℕ)
  | voteCancel (requestId : ℕ) (admin : A)
  | cancelOperation (requestId : ℕ) (admin : A)
  | cancelWithdrawal (requestId : ℕ)
  | getGovernance
  | getCancellationStatus (requestId : ℕ)
  | executeWithdrawal (requestId : ℕ)
  | withdrawImmediate (recipient : A) (amount : ℤ)
  | getRequest (requestId : ℕ)
  | minTimelockAmount
  deriving DecidableEq, Repr

def invoke (hash : ℕ × A × ℤ × ℕ × ℕ → BitVec 256) (env : Invocation A contract)
    (op : Operation A) (w : TimelockWorld A) : Result (TimelockWorld A) :=
  match op with
  | .initializeTimelock admin token amount => initializeTimelock env admin token amount w
  | .initiateWithdrawal recipient amount =>
    (initiateWithdrawal env recipient amount w).map (·.2)
  | .configureGovernance admins threshold => configureGovernance env admins threshold w
  | .voteCancel requestId admin => (voteCancel hash env requestId admin w).map (·.2)
  | .cancelOperation requestId admin => (cancelOperation hash env requestId admin w).map (·.2)
  | .cancelWithdrawal requestId => cancelWithdrawal hash env requestId w
  | .getGovernance => (loadGovernance w).map fun _ => w
  | .getCancellationStatus requestId => (getCancellationStatus requestId w).map fun _ => w
  | .executeWithdrawal requestId => executeWithdrawal env requestId w
  | .withdrawImmediate recipient amount => withdrawImmediate env recipient amount w
  | .getRequest requestId => (getRequest requestId w).map fun _ => w
  | .minTimelockAmount => (minTimelockAmount w).map fun _ => w

/-- A deployed contract that has not been initialised. -/
def deployed (balances : A → A → ℤ) : TimelockWorld A where
  storage := .empty
  balances := balances
  transfers := []
  events := []

end MobileMoney.Timelock
