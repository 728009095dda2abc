import MobileMoney.Library.Answers
import MobileMoney.Library.Budget
import MobileMoney.Library.Interleaving
import MobileMoney.Library.Keyed

/-!
# Multi-signature custody

`services/multisigCustodyLedgerService.ts` with the tables of its migration. Calls of any number
of processes take turns; a turn is one query or a crash, and a query that fails may have been
executed. An account has at most one configuration, so that the account stands for the id of its
configuration. Configurations do not change, and their cache is left out; signers come and go.
Amounts are whole numbers of the last decimal place of their columns. Of the audit log only the
turn that inserts an event is kept.
-/

namespace MobileMoney.Custody

variable {K R A : Type}

inductive MultisigRequestStatus where
  | pending | approved | rejected | cancelled | expired | executed
  deriving DecidableEq, Repr

def MultisigRequestStatus.Final : MultisigRequestStatus → Bool
  | .rejected | .cancelled | .expired | .executed => true
  | .pending | .approved => false

structure MultisigConfig where
  requiredSignatures : ℕ
  dailyCapXaf : ℕ
  perTransactionCapXaf : ℕ
  timeLockMinutes : ℕ
  isActive : Bool

/-- A row with its signers from `multisig_signatures`, and with what each write of its status has
found and put there. -/
structure MultisigRequest (K R A : Type) where
  id : R
  account : K
  amountXaf : ℕ
  status : MultisigRequestStatus
  requiredSignatures : ℕ
  collectedSignatures : ℕ
  expiresAt : ℕ
  createdAt : ℕ
  signatures : List A
  statusWrites : List (MultisigRequestStatus × MultisigRequestStatus)
  deriving DecidableEq

def dayMs : ℕ := 24 * 60 * 60 * 1000

def dayOf (now : ℕ) : ℕ := now / dayMs

/-! ## Statements -/

/-- What a statement does to the row of a request. -/
inductive Change (A : Type) where
  | sign (signerId : A)
  | count
  | setStatus (status : MultisigRequestStatus)
  deriving DecidableEq

section Changes

variable [DecidableEq A]

/-- No signer has two signatures for a request. -/
def Change.apply (request : MultisigRequest K R A) : Change A → MultisigRequest K R A
  | .sign signerId =>
    if signerId ∈ request.signatures then request
    else { request with signatures := request.signatures ++ [signerId] }
  | .count => { request with collectedSignatures := request.collectedSignatures + 1 }
  | .setStatus status =>
    { request with
      status := status
      statusWrites := request.statusWrites ++ [(request.status, status)] }

@[simp] theorem Change.apply_id (change : Change A) (request : MultisigRequest K R A) :
    (change.apply request).id = request.id := by
  cases change with
  | sign signerId =>
    simp only [Change.apply]
    split_ifs <;> rfl
  | count => rfl
  | setStatus status => rfl

theorem Change.apply_requiredSignatures (change : Change A) (request : MultisigRequest K R A) :
    (change.apply request).requiredSignatures = request.requiredSignatures := by
  cases change with
  | sign signerId =>
    simp only [Change.apply]
    split_ifs <;> rfl
  | count => rfl
  | setStatus status => rfl

theorem Change.le_apply_collectedSignatures (change : Change A)
    (request : MultisigRequest K R A) :
    request.collectedSignatures ≤ (change.apply request).collectedSignatures := by
  cases change with
  | sign signerId =>
    simp only [Change.apply]
    split_ifs <;> exact Nat.le_refl _
  | count => exact Nat.le_succ _
  | setStatus status => exact Nat.le_refl _

end Changes

/-- `signers` are the active ones. A pair in `vetted` says that a call has found the signer
active on the account of the request it is to sign. -/
structure State (K R A : Type) where
  now : ℕ
  signers : K → List A
  requests : Keyed fun request : MultisigRequest K R A => request.id
  vetted : List (R × A)

/-- The requests of an account that are created on a day. -/
def MultisigRequest.On (account : K) (day : ℕ) (request : MultisigRequest K R A) : Prop :=
  request.account = account ∧ dayOf request.createdAt = day

instance [DecidableEq K] (account : K) (day : ℕ) (request : MultisigRequest K R A) :
    Decidable (request.On account day) :=
  inferInstanceAs (Decidable (_ ∧ _))

section Tables

variable [DecidableEq K] [DecidableEq R] [DecidableEq A]

/-- The amounts of an account's requests that are created on a day and have one of the
statuses. -/
def State.total (s : State K R A) (account : K) (day : ℕ)
    (statuses : List MultisigRequestStatus) : ℕ :=
  Budget.total (·.amountXaf) (fun request => request.On account day ∧ request.status ∈ statuses)
    s.requests.rows

/-- No request is created after now, so those since the beginning of the day are of that day. -/
def State.getDailyTotal (s : State K R A) (account : K) : ℕ :=
  s.total account (dayOf s.now) [.approved, .executed]

def State.execute (s : State K R A) (id : R) (change : Change A) (answer : DbAnswer) :
    State K R A :=
  if answer.executed then { s with requests := s.requests.modify id change.apply change.apply_id }
  else s

end Tables

/-! ## The calls -/

structure Withdrawal (K : Type) where
  account : K
  amountXaf : ℕ

inductive Call (K R A : Type) where
  | requestWithdrawal (withdrawal : Withdrawal K)
  | addSignature (id : R) (signerId : A)
  | executeApprovedRequest (id : R)
  | cancelRequest (id : R)

inductive CustodyError (K : Type) where
  | noActiveConfig (account : K)
  | exceedsTransactionCap (amount cap : ℕ)
  | exceedsDailyCap (cap total : ℕ)
  | configNotFound
  | database
  deriving DecidableEq

/-- What a call returns, by its message. -/
inductive Reply (R : Type) where
  | created (id : R)
  | requestNotFound
  | alreadyIn (status : MultisigRequestStatus)
  | requestExpired
  | notAuthorized
  | alreadyCollected
  | signed (fullyApproved : Bool)
  | mustBeApproved (status : MultisigRequestStatus)
  | executed
  | cannotCancel (status : MultisigRequestStatus)
  | configurationNotFound
  | timeLocked (minutes : ℕ)
  | cancelled
  deriving DecidableEq

/-- What a process waits for. A withdrawal keeps the total of the day that it has been checked
with, and a call that signs or executes a request the status in which it has found it. -/
inductive Phase (K R A : Type) where
  | idle
  | getMultisigConfig (withdrawal : Withdrawal K)
  | getDailyTotal (withdrawal : Withdrawal K) (config : MultisigConfig)
  | getConfigById (withdrawal : Withdrawal K) (dailyTotal : ℕ)
  | insertRequest (withdrawal : Withdrawal K) (dailyTotal requiredSignatures expiresAt : ℕ)
  | findToSign (id : R) (signerId : A)
  | expire (id : R)
  | getSigners (id : R) (account : K) (signerId : A) (found : MultisigRequestStatus)
  | getSignature (id : R) (signerId : A) (found : MultisigRequestStatus)
  | insertSignature (id : R) (signerId : A) (found : MultisigRequestStatus)
  | incrementSignatureCount (id : R) (found : MultisigRequestStatus)
  | logSignature (id : R) (fullyApproved : Bool) (found : MultisigRequestStatus)
  | approve (id : R) (found : MultisigRequestStatus)
  | findToExecute (id : R)
  | execute (id : R) (found : MultisigRequestStatus)
  | findToCancel (id : R)
  | getConfigToCancel (id : R) (account : K) (createdAt : ℕ)
  | cancel (id : R)
  | logAuditEvent (reply : Reply R)
  | returned (reply : Reply R)
  | threw (error : CustodyError K)

inductive Input (K R A : Type) where
  | passes (elapsed : ℕ)
  | setSigners (account : K) (signers : List A)
  | begin (call : Call K R A)
  | query (answer : DbAnswer)
  | insert (id : R) (answer : DbAnswer)
  | crash

def Phase.AtRest : Phase K R A → Bool
  | .idle | .returned _ | .threw _ => true
  | _ => false

def Call.begin : Call K R A → Phase K R A
  | .requestWithdrawal withdrawal => .getMultisigConfig withdrawal
  | .addSignature id signerId => .findToSign id signerId
  | .executeApprovedRequest id => .findToExecute id
  | .cancelRequest id => .findToCancel id

/-- The statement that is sent in a phase, if it changes a request. -/
def Phase.statement : Phase K R A → Option (R × Change A)
  | .expire id => some (id, .setStatus .expired)
  | .insertSignature id signerId _ => some (id, .sign signerId)
  | .incrementSignatureCount id _ => some (id, .count)
  | .approve id _ => some (id, .setStatus .approved)
  | .execute id _ => some (id, .setStatus .executed)
  | .cancel id => some (id, .setStatus .cancelled)
  | _ => none

/-! ## The checks on what has been read -/

def checkTransactionCap (withdrawal : Withdrawal K) : Option MultisigConfig → Phase K R A
  | none => .threw (.noActiveConfig withdrawal.account)
  | some config =>
    if config.perTransactionCapXaf < withdrawal.amountXaf then
      .threw (.exceedsTransactionCap withdrawal.amountXaf config.perTransactionCapXaf)
    else .getDailyTotal withdrawal config

def checkDailyCap (withdrawal : Withdrawal K) (config : MultisigConfig) (dailyTotal : ℕ) :
    Phase K R A :=
  if config.dailyCapXaf < dailyTotal + withdrawal.amountXaf then
    .threw (.exceedsDailyCap config.dailyCapXaf dailyTotal)
  else .getConfigById withdrawal dailyTotal

def createApprovalRequest (now : ℕ) (withdrawal : Withdrawal K) (dailyTotal : ℕ) :
    Option MultisigConfig → Phase K R A
  | none => .threw .configNotFound
  | some config =>
    .insertRequest withdrawal dailyTotal config.requiredSignatures
      (now + config.timeLockMinutes * 60 * 1000)

def checkToSign (now : ℕ) (signerId : A) : Option (MultisigRequest K R A) → Phase K R A
  | none => .returned .requestNotFound
  | some request =>
    if request.status ≠ .pending then .returned (.alreadyIn request.status)
    else if request.expiresAt < now then .expire request.id
    else .getSigners request.id request.account signerId request.status

/-- `updated` is the row after the increment. -/
def afterIncrement (found : MultisigRequestStatus) :
    Option (MultisigRequest K R A) → Phase K R A
  | none => .threw .database
  | some updated =>
    .logSignature updated.id
      (decide (updated.requiredSignatures ≤ updated.collectedSignatures)) found

def checkToExecute : Option (MultisigRequest K R A) → Phase K R A
  | none => .returned .requestNotFound
  | some request =>
    if request.status ≠ .approved then .returned (.mustBeApproved request.status)
    else .execute request.id request.status

def checkToCancel : Option (MultisigRequest K R A) → Phase K R A
  | none => .returned .requestNotFound
  | some request =>
    if request.status ≠ .pending then .returned (.cannotCancel request.status)
    else .getConfigToCancel request.id request.account request.createdAt

def checkTimeLock (now : ℕ) (id : R) (createdAt : ℕ) : Option MultisigConfig → Phase K R A
  | none => .returned .configurationNotFound
  | some config =>
    let timeLockMs := config.timeLockMinutes * 60 * 1000
    let requestAge := now - createdAt
    if requestAge < timeLockMs then
      .returned (.timeLocked ((timeLockMs - requestAge + 59999) / 60000))
    else .cancel id

/-! ## The turns -/

section Turns

variable [DecidableEq K] [DecidableEq R] [DecidableEq A] (configs : K → Option MultisigConfig)

/-- How a call goes on when its query has been answered. -/
def Phase.next (s : State K R A) : Phase K R A → Phase K R A
  | .getMultisigConfig withdrawal =>
    checkTransactionCap withdrawal ((configs withdrawal.account).filter (·.isActive))
  | .getDailyTotal withdrawal config =>
    checkDailyCap withdrawal config (s.getDailyTotal withdrawal.account)
  | .getConfigById withdrawal dailyTotal =>
    createApprovalRequest s.now withdrawal dailyTotal (configs withdrawal.account)
  | .findToSign id signerId => checkToSign s.now signerId (s.requests.find? id)
  | .expire _ => .returned .requestExpired
  | .getSigners id account signerId found =>
    if signerId ∈ s.signers account then .getSignature id signerId found
    else .returned .notAuthorized
  | .getSignature id signerId found =>
    if ∃ request ∈ s.requests.find? id, signerId ∈ request.signatures then
      .returned .alreadyCollected
    else .insertSignature id signerId found
  -- the row refers to a request, and no signer has two for the same
  | .insertSignature id signerId found =>
    if ∃ request ∈ s.requests.find? id, signerId ∉ request.signatures then
      .incrementSignatureCount id found
    else .threw .database
  | .incrementSignatureCount id found =>
    afterIncrement found ((s.requests.find? id).map fun request => Change.count.apply request)
  | .logSignature id fullyApproved found =>
    if fullyApproved then .approve id found else .returned (.signed false)
  | .approve _ _ => .logAuditEvent (.signed true)
  | .findToExecute id => checkToExecute (s.requests.find? id)
  | .execute _ _ => .logAuditEvent .executed
  | .findToCancel id => checkToCancel (s.requests.find? id)
  | .getConfigToCancel id account createdAt => checkTimeLock s.now id createdAt (configs account)
  | .cancel _ => .logAuditEvent .cancelled
  | .logAuditEvent reply => .returned reply
  | phase => phase

/-- A call has found the signer active. -/
def State.vet (s : State K R A) : Phase K R A → State K R A
  | .getSigners id account signerId _ =>
    if signerId ∈ s.signers account then { s with vetted := (id, signerId) :: s.vetted } else s
  | _ => s

def Phase.Waits : Phase K R A → Bool
  | .idle | .insertRequest .. | .returned _ | .threw _ => false
  | _ => true

def State.send (s : State K R A) (phase : Phase K R A) (answer : DbAnswer) : State K R A :=
  match phase.statement with
  | some (id, change) => s.execute id change answer
  | none => if answer = .answered then s.vet phase else s

def query (answer : DbAnswer) (s : State K R A) (phase : Phase K R A) :
    State K R A × Phase K R A :=
  if phase.Waits then
    (s.send phase answer,
      if answer = .answered then phase.next configs s else .threw .database)
  else (s, phase)

def Withdrawal.row (withdrawal : Withdrawal K) (id : R) (now requiredSignatures expiresAt : ℕ) :
    MultisigRequest K R A where
  id := id
  account := withdrawal.account
  amountXaf := withdrawal.amountXaf
  status := .pending
  requiredSignatures := requiredSignatures
  collectedSignatures := 0
  expiresAt := expiresAt
  createdAt := now
  signatures := []
  statusWrites := []

/-- Amounts are positive, and the generated id is a new one. -/
def State.Admits (s : State K R A) (request : MultisigRequest K R A) : Prop :=
  0 < request.amountXaf ∧ s.requests.find? request.id = none

instance (s : State K R A) (request : MultisigRequest K R A) : Decidable (s.Admits request) :=
  inferInstanceAs (Decidable (_ ∧ _))

def insert (id : R) (answer : DbAnswer) (s : State K R A) :
    Phase K R A → State K R A × Phase K R A
  | .insertRequest withdrawal _ requiredSignatures expiresAt =>
    let request := withdrawal.row id s.now requiredSignatures expiresAt
    (if s.Admits request ∧ answer.executed then
      { s with requests := s.requests.insert request }
    else s,
      if s.Admits request ∧ answer = .answered then .logAuditEvent (.created id)
      else .threw .database)
  | phase => (s, phase)

def step (input : Input K R A) (s : State K R A) (phase : Phase K R A) :
    State K R A × Phase K R A :=
  match input with
  | .passes elapsed => ({ s with now := s.now + elapsed }, phase)
  | .setSigners account signers =>
    ({ s with signers := Function.update s.signers account signers }, phase)
  | .begin call => (s, if phase.AtRest then call.begin else phase)
  | .query answer => query configs answer s phase
  | .insert id answer => insert id answer s phase
  | .crash => (s, .idle)

abbrev World (K R A ι : Type) := Interleaving.World (State K R A) ι (Phase K R A)

/-- No request has been made. -/
def World.of {ι : Type} (signers : K → List A) : World K R A ι :=
  ⟨⟨0, signers, ⟨[], List.nodup_nil⟩, []⟩, fun _ => .idle⟩

end Turns

end MobileMoney.Custody
