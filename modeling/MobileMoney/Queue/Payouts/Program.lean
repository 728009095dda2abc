import MobileMoney.Queue.Worker.Program

/-!
# The batch payout workers

`payoutBatchWorker` and `batchPayoutWorker` select pending withdrawals of a provider, submit
them in one request and record the results row by row. A batch is one call of
`executeProviderBatchPayout` or `processBatch`; batches of either worker and of its replicas
run beside each other and beside the deliveries of the queue worker. A crash is a batch that
takes no further turn. Texts of errors, references and notifications are left out.
-/

namespace MobileMoney.Queue.Payouts

open Replicated Worker

/-- The withdrawals in the order of their creation, and their providers. -/
structure Withdrawals (T : Type) where
  ids : List T
  nodup : ids.Nodup
  provider : T → String

inductive BatchWorker where
  | payoutBatchWorker
  | batchPayoutWorker
  deriving DecidableEq, Repr

/-- `SUPPORTED_PROVIDERS`. -/
def BatchWorker.supportedProviders : BatchWorker → List String
  | .payoutBatchWorker => ["mtn", "mtn_momo", "mtn_cameroon", "mtn_uganda", "mtn_rwanda"]
  | .batchPayoutWorker => ["mtn"]

def batchSize : ℕ := 100

/-- Whether the worker asks for the provider's float before it submits. -/
def BatchWorker.checksFloat (worker : BatchWorker) (provider : String) : Bool :=
  match worker with
  | .payoutBatchWorker => provider = "mtn_momo" || provider = "mtn"
  | .batchPayoutWorker => false

/-- What the provider's answer says of each payout; a payout may be missing from it. -/
abbrev Results (T : Type) := T → Option Bool

/-- Both workers record a missing result as a failure. -/
def outcomeStatus (result : Option Bool) : TransactionStatus :=
  if result = some true then .completed else .failed

/-- Where a batch stands; `rest` is what a loop over the payouts still has before it, and after
an error what it has not recorded for certain. -/
inductive Phase (T : Type) where
  | fetching
  | checkingFloat
  | holding (rest : List T)
  | submitting
  | recording (rest : List T) (results : Results T)
  | announcing (rest : List T) (results : Results T)
  | finished (results : Results T)
  | skipped
  | aborted (rest : List T) (results : Option (Results T))

structure Batch (T : Type) where
  worker : BatchWorker
  provider : String
  supported : provider ∈ worker.supportedProviders
  payouts : List T
  phase : Phase T

inductive Process (T : Type) where
  | delivery (id : T) (d : Delivery)
  | batch (b : Batch T)

/-- The outcome of a turn: of a call as for the queue worker, of the `SELECT` for each row,
and of the submission: which payouts the provider accepts, all of which it executes, and
what it reports. -/
structure Outcome (T : Type) where
  call : Worker.Outcome
  sources : T → Source
  accepted : T → Bool
  results : Results T

/-- The rows and the payments of all transactions. -/
abbrev Ledger (T : Type) := T → Books

variable {T : Type}

/-- `findByStatusAndProvider` with status pending and type withdraw. -/
def findByStatusAndProvider (w : Withdrawals T) (provider : String) (limit : ℕ)
    (sources : T → Source) (ledger : Ledger T) : List T :=
  let capped := min (max limit 1) 50
  (w.ids.filter fun id =>
    ((ledger id).row.read (sources id)).any (·.status = .pending) &&
      w.provider id = provider.toLower).take capped

variable [DecidableEq T]

/-- `updateStatus` of one row. -/
def updateRow (ledger : Ledger T) (o : Worker.Outcome) (id : T) (status : TransactionStatus) :
    Ledger T :=
  Function.update ledger id ((ledger id).update o (Row.withStatus status))

/-- The provider pays what it accepts. -/
def submit (ledger : Ledger T) (payouts : List T) (accepted : T → Bool) : Ledger T :=
  fun id =>
    if id ∈ payouts ∧ accepted id = true then
      { ledger id with payments := (ledger id).payments ++ [.mobileMoney] }
    else ledger id

/-- The next call of a batch. -/
def handle (w : Withdrawals T) (o : Outcome T) (ledger : Ledger T) (b : Batch T) :
    Ledger T × Batch T :=
  match b.phase with
  | .fetching =>
    let payouts := findByStatusAndProvider w b.provider batchSize o.sources ledger
    (ledger, if o.call.db ≠ .done then { b with phase := .aborted [] none }
      else if payouts = [] then { b with phase := .skipped }
      else if b.worker.checksFloat b.provider then
        { b with payouts := payouts, phase := .checkingFloat }
      else { b with payouts := payouts, phase := .submitting })
  | .checkingFloat =>
    (ledger, { b with phase := if o.call.flagged then .holding b.payouts else .submitting })
  | .holding [] => (ledger, { b with phase := .skipped })
  | .holding (id :: rest) =>
    (updateRow ledger o.call id .pending,
      { b with phase := if o.call.db = .done then .holding rest else .aborted [] none })
  | .submitting =>
    (submit ledger b.payouts o.accepted,
      { b with phase :=
          if o.call.db = .done then .recording b.payouts o.results
          else .aborted b.payouts none })
  | .recording [] results => (ledger, { b with phase := .finished results })
  | .recording (id :: rest) results =>
    (updateRow ledger o.call id (outcomeStatus (results id)),
      { b with phase :=
          if o.call.db = .done then .announcing rest results
          else .aborted (id :: rest) (some results) })
  | .announcing rest results =>
    (ledger, { b with phase :=
        if o.call.db = .done then .recording rest results else .aborted rest (some results) })
  | .finished _ | .skipped | .aborted _ _ => (ledger, b)

/-- One turn of a delivery or a batch. -/
def step (w : Withdrawals T) (maxAttempts : ℕ) (o : Outcome T) (ledger : Ledger T)
    (p : Process T) : Ledger T × Process T :=
  match p with
  | .delivery id d =>
    let (books, d) := Worker.step .withdraw maxAttempts o.call (ledger id) d
    (Function.update ledger id books, .delivery id d)
  | .batch b =>
    let (ledger, b) := handle w o ledger b
    (ledger, .batch b)

end MobileMoney.Queue.Payouts
