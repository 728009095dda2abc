import MobileMoney.Library.Interleaving
import MobileMoney.Library.Answers
import MobileMoney.Queue.Status

/-!
# The transaction worker

`processTransaction` for one transaction. Deliveries of its job, redeliveries included, run
side by side; a turn is one awaited call with what comes of it. Progress updates, webhooks,
mails and events are left out where their failure is swallowed and are one call that may
throw where it is not. Of the metadata only the two entries the worker reads are kept.
-/

namespace MobileMoney.Queue.Worker

open Replicated

inductive JobType where
  | deposit | withdraw
  deriving DecidableEq, Repr

/-- `metadata.stellar?.transactionHash`, empty when missing, and
`metadata.mobileMoney?.success`. -/
structure Metadata where
  transactionHash : String
  collected : Bool
  deriving DecidableEq, Repr

structure Row where
  status : TransactionStatus
  metadata : Metadata
  deriving DecidableEq, Repr

/-- A payment that was made. -/
inductive Payment where
  | stellar | mobileMoney
  deriving DecidableEq, Repr

/-- The transaction's row, which may be missing, and the payments made, oldest first. -/
structure Books where
  row : Replicated (Option Row)
  payments : List Payment
  deriving DecidableEq

/-! ## What can come of a call -/

/-- A query that throws may have had its effect nevertheless. -/
inductive DbOutcome where
  | done | failed | lost
  deriving DecidableEq, Repr

/-- A rejected payment has not paid. The high-throughput service reports a failed payment
by an answer without a hash, and so does the mock mode. -/
inductive PaymentOutcome where
  | rejected (isTransient : Bool)
  | unpaid
  | paid (hash : String)
  deriving DecidableEq, Repr

/-- The outcome of the next call: of a query and who answers it, of a check (the address is
blacklisted, the recipient is sanctioned, the metadata is too large), of a payment. -/
structure Outcome where
  db : DbOutcome
  source : Source
  flagged : Bool
  payment : PaymentOutcome
  deriving DecidableEq, Repr

/-! ## Where a delivery stands -/

inductive Phase where
  | checkingIp
  | rejecting
  | claiming
  | rereading
  | loading
  | screening
  | holding
  | firstPayment (attempt : ℕ)
  | recordingFirst (hash : String)
  | writingFirst (metadata : Metadata) (hash : String)
  | loadingMetadata
  | collecting (metadata : Metadata) (attempt : ℕ)
  | patchingCollection (metadata : Metadata)
  | secondPayment (attempt : ℕ)
  | recordingSecond (hash : String)
  | writingSecond (metadata : Metadata) (hash : String)
  | payingOut (attempt : ℕ)
  | completing
  | notifying
  | failing
  | done
  deriving DecidableEq

structure Delivery where
  hasClientIp : Bool
  phase : Phase
  deriving DecidableEq

/-! ## The calls -/

def Row.withStatus (status : TransactionStatus) (row : Row) : Row :=
  { row with status := updateStatus row.status status }

def Row.withMetadata (metadata : Metadata) (row : Row) : Row := { row with metadata := metadata }

def metadataOf (row : Option Row) : Metadata := (row.map (·.metadata)).getD ⟨"", false⟩

/-- An `UPDATE` of the row by its id. -/
def Books.update (b : Books) (o : Outcome) (f : Row → Row) : Books :=
  if o.db = .failed then b else { b with row := b.row.write (b.row.current.map f) }

def write (b : Books) (o : Outcome) (f : Row → Row) (next thrown : Phase) : Books × Phase :=
  (b.update o f, if o.db = .done then next else thrown)

def find (b : Books) (o : Outcome) (next : Option Row → Phase) (thrown : Phase) :
    Books × Phase :=
  (b, if o.db = .done then next (b.row.read o.source) else thrown)

/-- Whether `withRetry` goes on after a rejection; `onRetry` increments a counter first. -/
def canRetry (maxAttempts attempt : ℕ) (o : Outcome) : Bool :=
  match o.payment with
  | .rejected isTransient => isTransient && attempt < maxAttempts && o.db = .done
  | _ => false

def pay (b : Books) (maxAttempts attempt : ℕ) (o : Outcome) (payment : Payment)
    (next : String → Phase) (unpaid retry thrown : Phase) : Books × Phase :=
  match o.payment with
  | .paid hash => ({ b with payments := b.payments ++ [payment] }, next hash)
  | .unpaid => (b, unpaid)
  | .rejected _ => (b, if canRetry maxAttempts attempt o then retry else thrown)

/-- `UPDATE … SET status = 'processing' WHERE id = $1 AND status = 'pending'`. -/
def Row.claimed (row : Row) : Row :=
  if row.status = .pending then { row with status := .processing } else row

def claimForProcessing (b : Books) (o : Outcome) : Books × Phase :=
  let claims := b.row.current.any (·.status = .pending)
  write b o Row.claimed (if claims then .loading else .rereading) .done

/-- `patchMetadata({ mobileMoney })`: when the metadata has become too large the key is
removed again. Errors are swallowed. -/
def patchCollection (b : Books) (o : Outcome) : Books :=
  let patched := b.update o fun row => row.withMetadata { row.metadata with collected := true }
  if o.flagged ∧ o.db = .done then
    patched.update o fun row => row.withMetadata { row.metadata with collected := false }
  else patched

/-! ## The handler -/

def afterFirstPayment (hash : String) : Phase :=
  if hash = "" then .loadingMetadata else .recordingFirst hash

/-- The check for a payment of an earlier attempt. -/
def afterCollection (metadata : Metadata) : Phase :=
  if metadata.transactionHash = "" then .secondPayment 1 else .completing

def afterLoading (job : JobType) (row : Option Row) : Phase :=
  let metadata := metadataOf row
  match job with
  | .deposit => if metadata.collected then afterCollection metadata else .collecting metadata 1
  | .withdraw => .payingOut 1

/-- An `await` that throws ends the delivery before the `try` block, and enters the `catch`
block inside it. -/
def handle (job : JobType) (maxAttempts : ℕ) (o : Outcome) (b : Books) (hasClientIp : Bool) :
    Phase → Books × Phase
  | .checkingIp =>
    if hasClientIp then
      (b, if o.db = .done then if o.flagged then .rejecting else .claiming else .done)
    else (b, .claiming)
  | .rejecting => write b o (Row.withStatus .failed) .done .done
  | .claiming => claimForProcessing b o
  | .rereading =>
    find b o (fun row => if row.any (·.status ≠ .pending) then .done else .loading) .done
  | .loading =>
    find b o (fun _ => match job with
      | .withdraw => .screening
      | .deposit => .firstPayment 1) .done
  | .screening =>
    (b, if o.db = .done then if o.flagged then .holding else .firstPayment 1 else .done)
  | .holding => write b o (Row.withStatus .review) .done .done
  | .firstPayment attempt =>
    pay b maxAttempts attempt o .stellar afterFirstPayment .loadingMetadata
      (.firstPayment (attempt + 1)) .done
  | .recordingFirst hash => find b o (fun row => .writingFirst (metadataOf row) hash) .done
  | .writingFirst metadata hash =>
    write b o (Row.withMetadata { metadata with transactionHash := hash }) .loadingMetadata .done
  | .loadingMetadata => find b o (afterLoading job) .failing
  | .collecting metadata attempt =>
    pay b maxAttempts attempt o .mobileMoney (fun _ => .patchingCollection metadata) .failing
      (.collecting metadata (attempt + 1)) .failing
  | .patchingCollection metadata => (patchCollection b o, afterCollection metadata)
  | .secondPayment attempt =>
    pay b maxAttempts attempt o .stellar .recordingSecond (.recordingSecond "")
      (.secondPayment (attempt + 1)) .failing
  | .recordingSecond hash => find b o (fun row => .writingSecond (metadataOf row) hash) .failing
  | .writingSecond metadata hash =>
    write b o (Row.withMetadata { metadata with transactionHash := hash }) .completing .failing
  | .payingOut attempt =>
    pay b maxAttempts attempt o .mobileMoney (fun _ => .completing) .failing
      (.payingOut (attempt + 1)) .failing
  | .completing => write b o (Row.withStatus .completed) .notifying .failing
  | .notifying => (b, if o.db = .done then .done else .failing)
  | .failing => write b o (Row.withStatus .failed) .done .done
  | .done => (b, .done)

def step (job : JobType) (maxAttempts : ℕ) (o : Outcome) (b : Books) (d : Delivery) :
    Books × Delivery :=
  let (b, phase) := handle job maxAttempts o b d.hasClientIp d.phase
  (b, { d with phase := phase })

end MobileMoney.Queue.Worker
