import Mathlib.Algebra.GroupWithZero.Nat
import MobileMoney.Library.Answers
import MobileMoney.Library.Interleaving
import MobileMoney.Library.Keyed
import MobileMoney.Queue.Status

/-!
# The velocity check

`services/amlVelocityService.ts`, from the creation of a transaction in
`controllers/transactionController.ts` to its job. Requests of any number of users take turns; a
turn is one query, a creation or a change of status by others, or a crash, and what fails may have
been executed. Amounts are whole numbers of the last decimal place of their column. The texts of
hits, tags, metadata and notes are left out.
-/

namespace MobileMoney.Aml.Velocity

open Queue (TransactionStatus)

variable {I U : Type}

structure Transaction (I U : Type) where
  id : I
  userId : Option U
  amount : ℕ
  createdAt : ℤ
  status : TransactionStatus
  deriving DecidableEq

/-! ## The windows -/

/-- `"1h"`, `"24h"` and `"30d"`. -/
inductive VelocityWindowName where
  | h1 | h24 | d30
  deriving DecidableEq, Repr

structure VelocityWindowConfig where
  name : VelocityWindowName
  durationMs : ℕ
  thresholdXaf : ℕ
  deriving DecidableEq, Repr

def hourMs : ℕ := 60 * 60 * 1000

def VelocityWindowName.durationMs : VelocityWindowName → ℕ
  | .h1 => hourMs
  | .h24 => 24 * hourMs
  | .d30 => 30 * 24 * hourMs

/-- The last decimal place of an amount is the seventh. -/
def xaf : ℕ := 10 ^ 7

/-- `isVelocityMonitoringEnabled()` and the numbers in the environment. -/
structure Config where
  enabled : Bool
  env : VelocityWindowName → Option ℕ

def numberFromEnv (value : Option ℕ) (fallback : ℕ) : ℕ :=
  match value with
  | some parsed => if 0 < parsed then parsed else fallback
  | none => fallback

def Config.thresholdXaf (config : Config) (name : VelocityWindowName) : ℕ :=
  numberFromEnv (config.env name) (match name with
    | .h1 => 2000000 * xaf
    | .h24 => 5000000 * xaf
    | .d30 => 30000000 * xaf)

def getVelocityWindows (config : Config) : List VelocityWindowConfig :=
  [.h1, .h24, .d30].map fun name => ⟨name, name.durationMs, config.thresholdXaf name⟩

/-! ## The evaluation -/

structure VelocityWindowVolume where
  volume : ℕ
  count : ℕ
  deriving DecidableEq, Repr

/-- The numbers in the message of a hit, with what it observes. -/
structure AMLRuleHit where
  window : VelocityWindowName
  count : ℕ
  observed : ℕ
  threshold : ℕ
  deriving DecidableEq, Repr

structure VelocityEvaluation where
  breached : Bool
  ruleHits : List AMLRuleHit
  projected : List (VelocityWindowName × ℕ)
  deriving DecidableEq, Repr

def evaluateVelocity (amount : ℕ) (volumes : VelocityWindowName → VelocityWindowVolume)
    (windows : List VelocityWindowConfig) : VelocityEvaluation :=
  let ruleHits := windows.filterMap fun window =>
    let total := (volumes window.name).volume + amount
    if window.thresholdXaf < total then
      some ⟨window.name, (volumes window.name).count + 1, total, window.thresholdXaf⟩
    else none
  { breached := 0 < ruleHits.length
    ruleHits
    projected := windows.map fun window => (window.name, (volumes window.name).volume + amount) }

/-- Transactions that never moved money do not count. -/
def countedOut : List TransactionStatus := [.failed, .cancelled, .expired]

def volumeOf (rows : List (Transaction I U)) : VelocityWindowVolume :=
  ⟨(rows.map (·.amount)).sum, rows.length⟩

/-- The widest window starts here. -/
def widest (windows : List VelocityWindowConfig) (now : ℤ) : ℤ :=
  now - (windows.map (·.durationMs)).foldl max 0

section Queries

variable [DecidableEq I] [DecidableEq U]

def getRollingVolumes (rows : List (Transaction I U)) (userId : U) (now : ℤ)
    (excludeTransactionId : I) (windows : List VelocityWindowConfig) (name : VelocityWindowName) :
    VelocityWindowVolume :=
  let found := rows.filter fun row =>
    row.userId = some userId ∧ widest windows now ≤ row.createdAt ∧
      row.id ≠ excludeTransactionId ∧ row.status ∉ countedOut
  match name with
  | .h1 => volumeOf (found.filter fun row => now - VelocityWindowName.h1.durationMs ≤ row.createdAt)
  | .h24 =>
    volumeOf (found.filter fun row => now - VelocityWindowName.h24.durationMs ≤ row.createdAt)
  | .d30 => volumeOf found

end Queries

/-! ## The tables -/

inductive AMLAlertSeverity where
  | medium | high
  deriving DecidableEq, Repr

structure AMLAlert (I U : Type) where
  transactionId : I
  userId : U
  severity : AMLAlertSeverity
  ruleHits : List AMLRuleHit
  deriving DecidableEq

/-- What the check of a transaction has found. The code does not keep the table. -/
structure Check (I U : Type) where
  userId : U
  table : List (Transaction I U)
  evaluation : VelocityEvaluation
  deriving DecidableEq

/-- Why a request goes on as it does. `enforce` throws in three places, and the request goes on as
if the transaction were not held. -/
inductive Verdict (I U : Type) where
  | exempt
  | unread
  | within (check : Check I U)
  | unwritten (check : Check I U)
  | refused (check : Check I U) (found : Option TransactionStatus)
  | unfinished (check : Check I U)
  | held (check : Check I U)
  deriving DecidableEq

structure Job (I U : Type) where
  transaction : Transaction I U
  verdict : Verdict I U
  deriving DecidableEq

/-- The steps of a check that can fail. -/
inductive Stage where
  | volumes | hold | alert
  deriving DecidableEq, Repr

/-- The tables, the transactions that a check has put on hold and knows of it, the jobs of the
requests and the failures of the checks. -/
structure State (I U : Type) where
  transactions : Keyed (Transaction.id : Transaction I U → I)
  onHold : List I
  alerts : List (AMLAlert I U)
  jobs : List (Job I U)
  failures : List (I × Stage)

/-- What a request waits for. -/
inductive Phase (I U : Type) where
  | idle
  | checking (transaction : Transaction I U) (userId : U)
  | holding (transaction : Transaction I U) (check : Check I U)
  | alerting (transaction : Transaction I U) (check : Check I U)
  | recording (transaction : Transaction I U) (check : Check I U)
  | adding (transaction : Transaction I U) (verdict : Verdict I U)
  | responded (transaction : Transaction I U) (verdict : Verdict I U)
  | threw
  deriving DecidableEq

/-- `create` is the creation by the request itself, and `insert` one by another part of the
program; `setStatus` is any other update of a status. -/
inductive Input (I U : Type) where
  | create (id : I) (userId : Option U) (amount : ℕ) (createdAt : ℤ) (answer : DbAnswer)
  | insert (transaction : Transaction I U)
  | setStatus (id : I) (status : TransactionStatus)
  | turn (answer : DbAnswer)
  | crash

/-! ## The turns -/

def applyAMLVelocityHold (config : Config) (transaction : Transaction I U) : Phase I U :=
  match transaction.userId with
  | none => .adding transaction .exempt
  | some userId =>
    if config.enabled then .checking transaction userId else .adding transaction .exempt

def State.fail (s : State I U) (transaction : Transaction I U) (stage : Stage) : State I U :=
  { s with failures := s.failures ++ [(transaction.id, stage)] }

def raiseAlert (transaction : Transaction I U) (check : Check I U) : AMLAlert I U where
  transactionId := transaction.id
  userId := check.userId
  severity := if 1 < check.evaluation.ruleHits.length then .high else .medium
  ruleHits := check.evaluation.ruleHits

def State.recordAlert (s : State I U) (alert : AMLAlert I U) (answer : DbAnswer) : State I U :=
  if answer.executed then { s with alerts := s.alerts ++ [alert] } else s

def State.addTransactionJob (s : State I U) (job : Job I U) (answer : DbAnswer) : State I U :=
  if answer.executed then { s with jobs := s.jobs ++ [job] } else s

/-- The statement of the hold finds the row. -/
def Holdable (status : TransactionStatus) : Prop :=
  status = .pendingReview ∨ status ∈ [TransactionStatus.pending]

instance (status : TransactionStatus) : Decidable (Holdable status) :=
  inferInstanceAs (Decidable (_ ∨ _))

section Turns

variable [DecidableEq I]

def State.setStatus (s : State I U) (id : I) (status : TransactionStatus) : State I U :=
  { s with
    transactions := s.transactions.modify id (fun row => { row with status }) fun _ => rfl }

def State.create (s : State I U) (transaction : Transaction I U) (answer : DbAnswer) : State I U :=
  if answer.executed then { s with transactions := s.transactions.insert transaction } else s

/-- The update of the status for the hold, as far as it is executed. -/
def State.hold (s : State I U) (transaction : Transaction I U) (answer : DbAnswer) : State I U :=
  match s.transactions.find? transaction.id with
  | some row =>
    if Holdable row.status ∧ answer.executed then s.setStatus transaction.id .pendingReview else s
  | none => s

variable [DecidableEq U]

def enforce (config : Config) (answer : DbAnswer) (s : State I U) (transaction : Transaction I U)
    (userId : U) : State I U × Phase I U :=
  if answer = .answered then
    let windows := getVelocityWindows config
    let volumes := getRollingVolumes s.transactions.rows userId transaction.createdAt
      transaction.id windows
    let check : Check I U :=
      ⟨userId, s.transactions.rows, evaluateVelocity transaction.amount volumes windows⟩
    (s, if check.evaluation.breached then .holding transaction check
      else .adding transaction (.within check))
  else (s.fail transaction .volumes, .adding transaction .unread)

def turn (config : Config) (answer : DbAnswer) (s : State I U) (phase : Phase I U) :
    State I U × Phase I U :=
  match phase with
  | .checking transaction userId => enforce config answer s transaction userId
  | .holding transaction check =>
    let s' := s.hold transaction answer
    if answer = .answered then
      let found := (s.transactions.find? transaction.id).map (·.status)
      if ∃ status ∈ found, Holdable status then
        ({ s' with onHold := s'.onHold ++ [transaction.id] }, .alerting transaction check)
      else (s', .adding transaction (.refused check found))
    else (s'.fail transaction .hold, .adding transaction (.unwritten check))
  | .alerting transaction check =>
    let s' := s.recordAlert (raiseAlert transaction check) answer
    if answer = .answered then (s', .recording transaction check)
    else (s'.fail transaction .alert, .adding transaction (.unfinished check))
  | .recording transaction check =>
    if answer = .answered then (s, .responded transaction (.held check))
    else (s.fail transaction .alert, .adding transaction (.unfinished check))
  | .adding transaction verdict =>
    (s.addTransactionJob ⟨transaction, verdict⟩ answer,
      if answer = .answered then .responded transaction verdict else .threw)
  | phase => (s, phase)

/-- A request creates one transaction. -/
def step (config : Config) (input : Input I U) (s : State I U) (phase : Phase I U) :
    State I U × Phase I U :=
  match input with
  | .create id userId amount createdAt answer =>
    let transaction : Transaction I U := ⟨id, userId, amount, createdAt, .pending⟩
    if phase = .idle ∧ s.transactions.find? id = none then
      (s.create transaction answer,
        if answer = .answered then applyAMLVelocityHold config transaction else .threw)
    else (s, if phase = .idle then .threw else phase)
  | .insert transaction => (s.create transaction .answered, phase)
  | .setStatus id status => (s.setStatus id status, phase)
  | .turn answer => turn config answer s phase
  | .crash => (s, .threw)

end Turns

abbrev World (I U ι : Type) := Interleaving.World (State I U) ι (Phase I U)

def World.init {ι : Type} : World I U ι := ⟨⟨⟨[], List.nodup_nil⟩, [], [], [], []⟩, fun _ => .idle⟩

end MobileMoney.Aml.Velocity
