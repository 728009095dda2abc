import MobileMoney.Ledger.Program
import MobileMoney.Library.Keyed
import MobileMoney.Queue.Status

/-!
# SEP-31 transfers and their monitor

The monitor selects the pending transfers and goes through them one by one. For each it
loads payments of the receiving account, picks the first one of the right amount and asset
and judges its memo. Every write replaces the whole metadata object by one built from the
row that was selected. Runs follow one another; amounts are in units of `10 ^ (-7)`.
-/

namespace MobileMoney.Sep31

open Binary64
open Ledger (parseAmount)

/-! ## Transfers -/

inductive Sep31Status where
  | pendingSender | pendingStellar | pendingReceiver | pendingExternal | completed | error
  deriving DecidableEq, Repr

/-- `VALID_TRANSITIONS`. -/
def validTransitions : Sep31Status → List Sep31Status
  | .pendingSender => [.pendingStellar, .error]
  | .pendingStellar => [.pendingReceiver, .pendingExternal, .completed, .error]
  | .pendingReceiver => [.pendingExternal, .completed, .error]
  | .pendingExternal => [.completed, .error]
  | .completed => []
  | .error => [.pendingStellar, .pendingReceiver]

def isValidTransition (old new : Sep31Status) : Bool := new ∈ validTransitions old

/-- A payment operation of the ledger and the memo of its transaction. -/
structure Payment where
  operationId : ℕ
  source : String
  amount : ℤ
  assetCode : String
  assetIssuer : Option String
  transactionHash : String
  memoType : Option String
  memo : Option String
  deriving DecidableEq, Repr

structure Refund where
  source : String
  amount : ℤ
  transactionHash : String
  memo : Option String
  refundTransactionHash : String
  deriving DecidableEq, Repr

/-- The `sep31` object of the metadata. A transfer is registered with a memo. -/
structure Sep31Metadata where
  status : Option Sep31Status
  memo : String
  memoType : Option String
  assetCode : String
  assetIssuer : Option String
  refunded : Bool
  refund : Option Refund
  memo_ne : memo ≠ ""
  deriving DecidableEq

/-- A row of `transactions` with a `sep31` object. Its amount is a `DECIMAL(20, 7)`. -/
structure Row where
  id : ℕ
  status : Queue.TransactionStatus
  amount : ℤ
  metadata : Sep31Metadata
  inRange : |amount| < 10 ^ 20
  deriving DecidableEq

abbrev Table := Keyed Row.id

/-- `mapToSep31Status`. -/
def mapToSep31Status (row : Row) : Sep31Status :=
  match row.metadata.status with
  | some status => status
  | none =>
    match row.status with
    | .completed => .completed
    | .failed | .cancelled | .expired => .error
    | _ => .pendingSender

/-- What the monitor selects. -/
def Row.isSelected (row : Row) : Bool := row.status = .pending || row.status = .processing

/-! ## Matching -/

/-- A payment as the monitor sees it. The memo is missing when the transaction of the
operation could not be loaded. -/
structure StellarPaymentRecord where
  payment : Payment
  loaded : Bool
  deriving DecidableEq, Repr

def StellarPaymentRecord.memo (p : StellarPaymentRecord) : Option String :=
  if p.loaded then p.payment.memo else none

def StellarPaymentRecord.memoType (p : StellarPaymentRecord) : Option String :=
  if p.loaded then p.payment.memoType else none

/-- A text that is there and not empty. -/
def truthy (text : Option String) : Option String := text.filter fun s => s ≠ ""

def memoMatches (p : StellarPaymentRecord) (expectedMemo expectedMemoType : String) : Bool :=
  match truthy p.memo, truthy p.memoType with
  | some memo, some memoType => memoType = expectedMemoType && memo = expectedMemo
  | _, _ => false

def amountTolerance : Number := .ofRat (1 / 10 ^ 7)

def amountMatches (amount expected : ℤ) : Bool :=
  ((parseAmount amount).sub (parseAmount expected)).abs.lt amountTolerance

def assetMatches (payment : Payment) (metadata : Sep31Metadata) : Bool :=
  payment.assetCode = metadata.assetCode &&
    match truthy metadata.assetIssuer with
    | some issuer => payment.assetIssuer = some issuer
    | none => (truthy payment.assetIssuer).isNone

/-- The payment has the amount and the asset of the transfer. -/
def qualifies (row : Row) (p : StellarPaymentRecord) : Bool :=
  amountMatches p.payment.amount row.amount && assetMatches p.payment row.metadata

def Sep31Metadata.expectedMemoType (metadata : Sep31Metadata) : String :=
  (truthy metadata.memoType).getD "text"

/-- `matchPaymentByMemo`: the first candidate, and whether its memo is the right one. -/
def matchPaymentByMemo (row : Row) (payments : List StellarPaymentRecord) :
    Option (StellarPaymentRecord × Bool) :=
  (payments.find? (qualifies row)).map fun p =>
    (p, memoMatches p row.metadata.memo row.metadata.expectedMemoType)

/-! ## The monitor -/

/-- The table, what is left of the current run, and which payments have been credited to
and refunded for which transfers. -/
structure State where
  table : Table
  todo : List Row
  credits : List (ℕ × Payment)
  refunds : List (ℕ × Payment)

/-- How a refund turns out: it is not submitted or fails; it is carried out, and the monitor
learns of it or not; and its record may fail to be written. -/
inductive RefundOutcome where
  | failed
  | unacknowledged
  | sent (hash : String) (recorded : Bool)
  deriving DecidableEq, Repr

/-- What the monitor learns from outside about one transfer: the payments it is shown, if
the call succeeds, and what becomes of a refund. -/
structure Answer where
  payments : Option (List StellarPaymentRecord)
  refund : RefundOutcome
  deriving DecidableEq, Repr

def updateMetadata (table : Table) (id : ℕ) (metadata : Sep31Metadata) : Table :=
  table.modify id (fun row => { row with metadata := metadata }) fun _ => rfl

def updateStatus (table : Table) (id : ℕ) (status : Queue.TransactionStatus) : Table :=
  table.modify id (fun row => { row with status := Queue.updateStatus row.status status })
    fun _ => rfl

def transactionStatus : Sep31Status → Queue.TransactionStatus
  | .completed => .completed
  | .error => .failed
  | _ => .pending

def updateSep31Status (table : Table) (id : ℕ) (newStatus : Sep31Status)
    (currentMetadata : Sep31Metadata) : Table :=
  updateStatus (updateMetadata table id { currentMetadata with status := some newStatus }) id
    (transactionStatus newStatus)

def refundRecord (p : StellarPaymentRecord) (hash : String) : Refund :=
  ⟨p.payment.source, p.payment.amount, p.payment.transactionHash, p.memo, hash⟩

/-- `refundMismatchedPayment`, whose errors are only logged. -/
def refundMismatchedPayment (s : State) (row : Row) (p : StellarPaymentRecord)
    (outcome : RefundOutcome) : State :=
  match outcome with
  | .failed => s
  | .unacknowledged => { s with refunds := s.refunds ++ [(row.id, p.payment)] }
  | .sent hash recorded =>
    let metadata : Sep31Metadata :=
      { row.metadata with refunded := true, refund := some (refundRecord p hash) }
    { s with
      refunds := s.refunds ++ [(row.id, p.payment)]
      table := if recorded then updateMetadata s.table row.id metadata else s.table }

/-- What the monitor does for a selected row. -/
def checkRow (s : State) (row : Row) (answer : Answer) : State :=
  match mapToSep31Status row with
  | .pendingSender =>
    match answer.payments.bind (matchPaymentByMemo row) with
    | none => s
    | some (p, true) =>
      if isValidTransition .pendingSender .pendingStellar then
        { s with
          table := updateSep31Status s.table row.id .pendingStellar row.metadata
          credits := s.credits ++ [(row.id, p.payment)] }
      else s
    | some (p, false) =>
      if row.metadata.refunded then s
      else
        let refunded := refundMismatchedPayment s row p answer.refund
        { refunded with table := updateSep31Status refunded.table row.id .error row.metadata }
  | .pendingReceiver =>
    if isValidTransition .pendingReceiver .completed then
      { s with table := updateSep31Status s.table row.id .completed row.metadata }
    else s
  | .completed | .error | .pendingStellar | .pendingExternal => s

/-! ## Runs -/

inductive Event where
  | register (row : Row)
  | select (rows : List Row)
  | check (answer : Answer)

/-- A transfer is registered; a run begins, with the selected rows in any order; or the
monitor goes on with the next row of its run. -/
def advance (s : State) : Event → State
  | .register row => { s with table := s.table.insert row }
  | .select rows =>
    if s.todo = [] ∧ rows.isPerm (s.table.rows.filter Row.isSelected) then { s with todo := rows }
    else s
  | .check answer =>
    match s.todo with
    | [] => s
    | row :: rest => checkRow { s with todo := rest } row answer

/-- Any table, and no run under way. -/
def start (table : Table) : State := ⟨table, [], [], []⟩

end MobileMoney.Sep31
