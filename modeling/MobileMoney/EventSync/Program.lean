import Mathlib.Data.List.Basic
import MobileMoney.Library.Answers
import MobileMoney.Library.Interleaving

/-!
# Ledger event sync

`services/stellar/ledgerEventSync.ts` with `database/eventSyncStateRepository.ts`, for one stream.
Any number of passes take turns, as the timer starts them without waiting for each other and
processes are restarted; a turn is one request to Horizon, one statement, one call of the handler,
or the close of ledgers. Horizon answers with the transactions of the account after a cursor, and
with the first page of the operations of a transaction. Paging tokens are numbers.
-/

namespace MobileMoney.EventSync

variable {C E : Type}

structure Operation (C E : Type) where
  isContractEvent : Bool
  contract : C
  value : E
  deriving DecidableEq

structure Transaction (C E : Type) where
  pagingToken : ℕ
  operations : List (Operation C E)
  deriving DecidableEq

/-- The transactions of the account, in order. -/
structure Ledger (C E : Type) where
  transactions : List (Transaction C E)
  sorted : transactions.Pairwise fun tx tx' => tx.pagingToken < tx'.pagingToken

/-- Ledgers that close append their transactions. -/
def Ledger.close (ledger : Ledger C E) (transactions : List (Transaction C E)) : Ledger C E :=
  if h : (ledger.transactions ++ transactions).Pairwise
      fun tx tx' => tx.pagingToken < tx'.pagingToken then
    ⟨ledger.transactions ++ transactions, h⟩
  else ledger

/-- `now`, which is `none` here, stands for the beginning. -/
def After (cursor : Option ℕ) (pagingToken : ℕ) : Bool := cursor.all fun c => c < pagingToken

/-- The contract, the size of a page of transactions, and that of a page of operations, which the
code leaves to Horizon. -/
structure Config (C : Type) where
  contractId : C
  chunkSize : ℕ
  operationsPage : ℕ
  chunkSize_pos : 0 < chunkSize

/-- `chunkSize` is clamped. -/
def Config.init (contractId : C) (chunkSize : Option ℕ) (operationsPage : ℕ) : Config C where
  contractId := contractId
  chunkSize := min (max 1 (chunkSize.getD 200)) 200
  operationsPage := operationsPage
  chunkSize_pos := by omega

def fetchPage (config : Config C) (ledger : Ledger C E) (cursor : Option ℕ) :
    List (Transaction C E) :=
  (ledger.transactions.filter fun tx => After cursor tx.pagingToken).take config.chunkSize

def Operation.Matches [DecidableEq C] (contractId : C) (operation : Operation C E) : Bool :=
  operation.isContractEvent && operation.contract = contractId

/-- The events that the handler is called with. -/
def Transaction.fetched [DecidableEq C] (config : Config C) (tx : Transaction C E) :
    List (Operation C E) :=
  (tx.operations.take config.operationsPage).filter fun operation =>
    operation.Matches config.contractId

/-- `start` is the cursor before the first pass, `saved` are the cursors that have been saved since,
the last one first, and `handled` is what the handler has been through with. -/
structure State (C E : Type) where
  ledger : Ledger C E
  start : Option ℕ
  saved : List ℕ
  handled : List (Transaction C E × Operation C E)

def State.getEventSyncCursor (s : State C E) : Option ℕ := s.saved.head?.or s.start

structure LedgerEventSyncResult where
  pages : ℕ
  transactions : ℕ
  deriving DecidableEq, Repr

/-- What a pass waits for. It keeps its page, the rest of it, and how many transactions the ledger
had when the page was fetched, which the code does not know. -/
inductive Phase (C E : Type) where
  | idle
  | starting
  | fetching (cursor : Option ℕ) (result : LedgerEventSyncResult)
  | processing (tx : Transaction C E) (rest page : List (Transaction C E)) (seen : ℕ)
    (result : LedgerEventSyncResult)
  | handling (tx : Transaction C E) (operation : Operation C E)
    (operations : List (Operation C E)) (rest page : List (Transaction C E)) (seen : ℕ)
    (result : LedgerEventSyncResult)
  | saving (page : List (Transaction C E)) (seen : ℕ) (result : LedgerEventSyncResult)
  | resolved (seen : ℕ) (result : LedgerEventSyncResult)
  | rejected
  deriving DecidableEq

/-- A request or a call of the handler that fails rejects its pass. -/
inductive Input (C E : Type) where
  | close (transactions : List (Transaction C E))
  | poll
  | turn (answer : DbAnswer)
  | crash

def LedgerEventSyncResult.processed (result : LedgerEventSyncResult) : LedgerEventSyncResult :=
  { result with transactions := result.transactions + 1 }

/-- The next transaction of a page. -/
def nextTransaction (rest page : List (Transaction C E)) (seen : ℕ)
    (result : LedgerEventSyncResult) : Phase C E :=
  match rest with
  | [] => .saving page seen result
  | tx :: rest => .processing tx rest page seen result

/-- The next event of a transaction. -/
def nextOperation (tx : Transaction C E) (operations : List (Operation C E))
    (rest page : List (Transaction C E)) (seen : ℕ) (result : LedgerEventSyncResult) : Phase C E :=
  match operations with
  | [] => nextTransaction rest page seen result.processed
  | operation :: operations => .handling tx operation operations rest page seen result

def fetch (config : Config C) (s : State C E) (cursor : Option ℕ)
    (result : LedgerEventSyncResult) : Phase C E :=
  let page := fetchPage config s.ledger cursor
  match page with
  | [] => .resolved s.ledger.transactions.length result
  | tx :: rest => .processing tx rest page s.ledger.transactions.length result

def State.save (s : State C E) (page : List (Transaction C E)) : State C E :=
  { s with saved := (page.getLast?.map (·.pagingToken)).toList ++ s.saved }

/-- A short page is the last one. -/
def saved (config : Config C) (page : List (Transaction C E)) (seen : ℕ)
    (result : LedgerEventSyncResult) : Phase C E :=
  let result := { result with pages := result.pages + 1 }
  if page.length < config.chunkSize then .resolved seen result
  else .fetching (page.getLast?.map (·.pagingToken)) result

section Turns

variable [DecidableEq C] (config : Config C)

def turn (answer : DbAnswer) (s : State C E) (phase : Phase C E) : State C E × Phase C E :=
  match phase with
  | .starting =>
    (s, if answer = .answered then .fetching s.getEventSyncCursor ⟨0, 0⟩ else .rejected)
  | .fetching cursor result =>
    (s, if answer = .answered then fetch config s cursor result else .rejected)
  | .processing tx rest page seen result =>
    (s, if answer = .answered then nextOperation tx (tx.fetched config) rest page seen result
      else .rejected)
  | .handling tx operation operations rest page seen result =>
    if answer = .answered then
      ({ s with handled := s.handled ++ [(tx, operation)] },
        nextOperation tx operations rest page seen result)
    else (s, .rejected)
  | .saving page seen result =>
    (if answer.executed then s.save page else s,
      if answer = .answered then saved config page seen result else .rejected)
  | phase => (s, phase)

/-- The timer does not look at the passes that are under way, which are processes of their own. -/
def step (input : Input C E) (s : State C E) (phase : Phase C E) : State C E × Phase C E :=
  match input with
  | .close transactions => ({ s with ledger := s.ledger.close transactions }, phase)
  | .poll =>
    (s, match phase with
      | .idle | .resolved _ _ | .rejected => .starting
      | phase => phase)
  | .turn answer => turn config answer s phase
  | .crash => (s, .rejected)

abbrev World (C E ι : Type) := Interleaving.World (State C E) ι (Phase C E)

/-- Nothing has been read since the starting cursor. -/
def World.init {ι : Type} (start : Option ℕ) : World C E ι :=
  ⟨⟨⟨[], List.Pairwise.nil⟩, start, [], []⟩, fun _ => .idle⟩

end Turns

end MobileMoney.EventSync
