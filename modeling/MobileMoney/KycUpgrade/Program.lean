import MobileMoney.Library.Answers
import MobileMoney.Limits

/-!
# Requests for a KYC upgrade

`services/kycTierUpgradeService.ts`, for one request of one user. An approval is a transaction that
locks the row of the request until it ends, and that of the user from its first update on. A
statement that comes to a locked row waits, so that it is no step; what a transaction has written
is there for others once it has been committed. The level of the user is also written elsewhere,
by `updateUserKYCLevel` or the approval of another request. The scan for users near their limit,
the mails and pushes, volumes and times are left out.
-/

namespace MobileMoney.KycUpgrade

open Limits (KYCLevel)

variable {P : Type}

/-- The higher tier has the higher limit. -/
def tier : KYCLevel → ℕ
  | .unverified => 0
  | .basic => 1
  | .full => 2

def nextKycLevel : KYCLevel → Option KYCLevel
  | .unverified => some .basic
  | .basic => some .full
  | .full => none

inductive RequestStatus where
  | pending | approved | rejected | notified
  deriving DecidableEq, Repr

def RequestStatus.text : RequestStatus → String
  | .pending => "pending"
  | .approved => "approved"
  | .rejected => "rejected"
  | .notified => "notified"

structure KycUpgradeRequest where
  currentKycLevel : KYCLevel
  requestedLevel : KYCLevel
  status : RequestStatus
  reviewedBy : Option String
  reviewNotes : Option String
  rejectionReason : Option String
  deriving DecidableEq

/-- The status is one that a reviewer may act on. -/
def KycUpgradeRequest.Reviewable (request : KycUpgradeRequest) : Prop :=
  request.status = .pending ∨ request.status = .notified

instance (request : KycUpgradeRequest) : Decidable request.Reviewable :=
  inferInstanceAs (Decidable (_ ∨ _))

structure ApproveUpgradeOptions where
  reviewedBy : String
  notes : Option String
  deriving DecidableEq

structure RejectUpgradeOptions where
  reviewedBy : String
  notes : Option String
  rejectionReason : String
  deriving DecidableEq

inductive ReviewError where
  | notFound
  | terminal (status : RequestStatus)
  | reasonRequired
  | notFoundOrTerminal
  | database
  deriving DecidableEq

/-- The database has messages of its own. -/
def ReviewError.message (requestId : String) : ReviewError → Option String
  | .notFound => some ("Upgrade request " ++ requestId ++ " not found")
  | .terminal status =>
    some ("Upgrade request " ++ requestId ++ " is already in terminal state: " ++ status.text)
  | .reasonRequired => some "Rejection reason is required when rejecting KYC"
  | .notFoundOrTerminal =>
    some ("Upgrade request " ++ requestId ++ " not found or already in terminal state")
  | .database => none

/-! ## The state -/

/-- How far the transaction of an approval has come. -/
inductive Progress where
  | locked | levelSet | marked
  deriving DecidableEq

/-- The approval whose transaction holds the row of the request. -/
structure Approval (P : Type) where
  call : P
  options : ApproveUpgradeOptions
  newKycLevel : KYCLevel
  progress : Progress
  deriving DecidableEq

/-- A decision that has taken effect, an approval with the user's level before and after it. -/
inductive Decision where
  | approved (reviewedBy : String) (before after : KYCLevel)
  | rejected (reviewedBy : String)
  deriving DecidableEq

/-- `decisions` is read by nothing in the code. -/
structure State (P : Type) where
  level : KYCLevel
  request : Option KycUpgradeRequest
  approval : Option (Approval P)
  decisions : List Decision
  deriving DecidableEq

/-- A turn of `approveKycUpgrade` is one of its queries; `rollback` also stands for a query that
fails and for a connection that is lost. -/
inductive Event (P : Type) where
  | createUpgradeRequestIfNeeded (kycLevel : KYCLevel) (existing : Bool) (answer : DbAnswer)
  | notifyUserForUpgrade (kycLevel : KYCLevel) (answer : DbAnswer)
  | selectForUpdate (call : P) (options : ApproveUpgradeOptions)
  | updateUser (call : P)
  | markApproved (call : P)
  | commit (call : P) (answer : DbAnswer)
  | rollback (call : P)
  | rejectKycUpgrade (options : RejectUpgradeOptions) (answer : DbAnswer)
  | setLevel (level : KYCLevel)

/-! ## The statements -/

/-- The insertion, unless there is an open request or no higher level. The level is the one that
the scan has read. -/
def createUpgradeRequestIfNeeded (s : State P) (kycLevel : KYCLevel) (existing : Bool)
    (answer : DbAnswer) : State P :=
  match nextKycLevel kycLevel, s.request with
  | some requestedLevel, none =>
    if existing = false ∧ answer.executed then
      { s with request := some ⟨kycLevel, requestedLevel, .pending, none, none, none⟩ }
    else s
  | _, _ => s

/-- `UPDATE … SET status = 'notified' … WHERE id = $1`, after the mail and the push. -/
def notifyUserForUpgrade (s : State P) (kycLevel : KYCLevel) (answer : DbAnswer) : State P :=
  if (nextKycLevel kycLevel).isSome ∧ answer.executed then
    { s with request := s.request.map fun request => { request with status := .notified } }
  else s

/-- The row is locked by the query that reads it. -/
def selectForUpdate (s : State P) (call : P) (options : ApproveUpgradeOptions) :
    State P × Option ReviewError :=
  match s.request with
  | none => (s, some .notFound)
  | some request =>
    if request.Reviewable then
      ({ s with approval := some ⟨call, options, request.requestedLevel, .locked⟩ }, none)
    else (s, some (.terminal request.status))

def KycUpgradeRequest.approve (request : KycUpgradeRequest) (options : ApproveUpgradeOptions) :
    KycUpgradeRequest :=
  { request with
    status := .approved
    reviewedBy := some options.reviewedBy
    reviewNotes := options.notes
    rejectionReason := none }

/-- The end of the transaction, with what it has written if it is committed. -/
def commit (s : State P) (approval : Approval P) (answer : DbAnswer) : State P :=
  if answer.executed then
    { level := approval.newKycLevel
      request := s.request.map (·.approve approval.options)
      approval := none
      decisions := s.decisions ++
        [.approved approval.options.reviewedBy s.level approval.newKycLevel] }
  else { s with approval := none }

def KycUpgradeRequest.reject (request : KycUpgradeRequest) (options : RejectUpgradeOptions) :
    KycUpgradeRequest :=
  { request with
    status := .rejected
    reviewedBy := some options.reviewedBy
    reviewNotes := options.notes
    rejectionReason := some options.rejectionReason }

/-- `UPDATE … WHERE id = $4 AND status IN ('pending', 'notified')`. -/
def rejectKycUpgrade (s : State P) (options : RejectUpgradeOptions) (answer : DbAnswer) :
    State P × Option ReviewError :=
  if options.rejectionReason = "" then (s, some .reasonRequired)
  else
    match s.request with
    | none => (s, some (if answer = .answered then .notFoundOrTerminal else .database))
    | some request =>
      if request.Reviewable then
        (if answer.executed then
            { s with
              request := some (request.reject options)
              decisions := s.decisions ++ [.rejected options.reviewedBy] }
          else s,
          if answer = .answered then none else some .database)
      else (s, some (if answer = .answered then .notFoundOrTerminal else .database))

variable [DecidableEq P]

/-- The transaction of this call, at this point. -/
def State.approvalAt (s : State P) (call : P) (progress : Progress) : Option (Approval P) :=
  s.approval.filter fun approval => approval.call = call ∧ approval.progress = progress

/-- The transaction that has updated the user. -/
def State.holdsUser (s : State P) : Bool :=
  s.approval.any fun approval => approval.progress ≠ .locked

def State.proceed (s : State P) (call : P) (progress next : Progress) : State P :=
  match s.approvalAt call progress with
  | some approval => { s with approval := some { approval with progress := next } }
  | none => s

def step (s : State P) : Event P → State P
  | .createUpgradeRequestIfNeeded kycLevel existing answer =>
    createUpgradeRequestIfNeeded s kycLevel existing answer
  | .notifyUserForUpgrade kycLevel answer =>
    if s.approval.isSome then s else notifyUserForUpgrade s kycLevel answer
  | .selectForUpdate call options =>
    if s.approval.isSome then s else (selectForUpdate s call options).1
  | .updateUser call => s.proceed call .locked .levelSet
  | .markApproved call => s.proceed call .levelSet .marked
  | .commit call answer =>
    match s.approvalAt call .marked with
    | some approval => commit s approval answer
    | none => s
  | .rollback call => { s with approval := s.approval.filter fun approval => approval.call ≠ call }
  | .rejectKycUpgrade options answer =>
    if s.approval.isSome then s else (rejectKycUpgrade s options answer).1
  | .setLevel level => if s.holdsUser then s else { s with level := level }

/-- A user without a request. -/
def start (level : KYCLevel) : State P := ⟨level, none, none, []⟩

def run (level : KYCLevel) (events : List (Event P)) : State P := events.foldl step (start level)

end MobileMoney.KycUpgrade
