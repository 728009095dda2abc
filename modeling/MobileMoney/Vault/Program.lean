import MobileMoney.Ledger.Program
import MobileMoney.Library.Interleaving
import MobileMoney.Queue.Status

/-!
# Savings vaults

A vault's balance is a stored column in `DECIMAL(20, 7)`, here an integer in units of
`10 ^ (-7)`; the main balance is recomputed from the rows of `transactions`.
`transferFunds` runs in one database transaction at READ COMMITTED: it locks the vault's
row, reads, and writes what becomes visible at its COMMIT. Columns that nothing here reads
are left out.
-/

namespace MobileMoney.Vault

open Binary64 Checked
open Ledger (SqlError amountType parseAmount)

/-! ## Tables -/

inductive TransferType where
  | deposit | withdraw
  deriving DecidableEq, Repr

/-- A transfer into a vault is a withdrawal from the main balance. -/
def TransferType.opposite : TransferType → TransferType
  | .deposit => .withdraw
  | .withdraw => .deposit

def TransferType.signed (type : TransferType) (amount : ℤ) : ℤ :=
  match type with
  | .deposit => amount
  | .withdraw => -amount

/-- A row of `vaults`, with its check constraint. -/
@[ext]
structure VaultRow where
  id : String
  userId : String
  name : String
  balance : ℤ
  isActive : Bool
  nonneg : 0 ≤ balance

instance : DecidableEq VaultRow := fun _ _ => decidable_of_iff _ VaultRow.ext_iff.symm

structure VaultTransactionRow where
  vaultId : String
  userId : String
  type : TransferType
  amount : ℤ
  deriving DecidableEq, Repr

/-- A row of `transactions`. -/
structure TransactionRow where
  referenceNumber : String
  type : TransferType
  amount : ℤ
  status : Queue.TransactionStatus
  userId : String
  vaultId : Option String
  deriving DecidableEq, Repr

/-- The committed tables, vaults in the order of their creation, and which rows of
`vaults` are locked. -/
structure Db where
  vaults : List VaultRow
  vaultTransactions : List VaultTransactionRow
  transactions : List TransactionRow
  locked : String → Bool

/-! ## Balances -/

/-- What a row adds to the main balance of a user: only completed rows without a vault do. -/
def mainPart (userId : String) (row : TransactionRow) : ℤ :=
  if row.userId = userId ∧ row.status = .completed ∧ row.vaultId = none then
    row.type.signed row.amount
  else 0

def mainBalance (transactions : List TransactionRow) (userId : String) : ℤ :=
  (transactions.map (mainPart userId)).sum

structure VaultBalance where
  vaultId : String
  vaultName : String
  balance : ℤ
  deriving DecidableEq, Repr

structure UserBalanceSummary where
  mainBalance : ℤ
  vaultBalances : List VaultBalance
  totalBalance : String
  deriving DecidableEq, Repr

def vaultBalances (vaults : List VaultRow) (userId : String) : List VaultBalance :=
  (vaults.filter fun v => v.userId = userId ∧ v.isActive).map fun v => ⟨v.id, v.name, v.balance⟩

/-- `getUserBalanceSummary` of the committed tables: balances are exact, the total is added
in binary floats. -/
def getUserBalanceSummary (db : Db) (userId : String) : UserBalanceSummary :=
  let main := mainBalance db.transactions userId
  let vaults := vaultBalances db.vaults userId
  let total := (parseAmount main).add
    (vaults.foldl (fun sum vault => sum.add (parseAmount vault.balance)) .zero)
  ⟨main, vaults, total.text⟩

def findVault (db : Db) (vaultId : String) : Option VaultRow :=
  db.vaults.find? fun v => v.id = vaultId

/-! ## A transfer -/

inductive TransferError where
  | vaultNotFound
  | inactiveVault
  | insufficientVault
  | insufficientMain
  | sql (e : SqlError)
  | valueTooLong
  | queryFailed
  deriving DecidableEq

/-- The texts of the errors that `transferFunds` raises itself. -/
def TransferError.message : TransferError → Option String
  | .vaultNotFound => "Vault not found"
  | .inactiveVault => "Cannot transfer to inactive vault"
  | .insufficientVault => "Insufficient vault balance"
  | .insufficientMain => "Insufficient main balance"
  | .sql _ | .valueTooLong | .queryFailed => none

/-- The arguments of a call. The amount is a positive decimal text with at most seven
decimals; the reference is made from the time and a random suffix. -/
structure Call where
  userId : String
  vaultId : String
  amount : ℤ
  type : TransferType
  reference : String
  positive : 0 < amount
  deriving DecidableEq

/-- `reference_number` is a `VARCHAR(25)`. -/
def referenceLength : ℕ := 25

/-- Where a call of `transferFunds` stands: which query it sends next. -/
inductive Phase where
  | beginning
  | selecting
  | readingMain (vault : VaultRow)
  | updating (vault : VaultRow) (newBalance : Number)
  | recording (updated : VaultRow)
  | inserting (updated : VaultRow) (record : VaultTransactionRow)
  | committing (updated : VaultRow) (record : VaultTransactionRow) (row : TransactionRow)
  | returning (record : VaultTransactionRow)
  | returned (vault : Option VaultRow) (record : VaultTransactionRow)
  | failed (e : TransferError)
  deriving DecidableEq

structure Process where
  call : Call
  phase : Phase
  deriving DecidableEq

/-- How the database answers a query, and what a read replica shows when it is asked. Only
a commit can be carried out without the client learning of it. -/
structure Answer where
  outcome : Ledger.Commit
  replica : Option VaultRow
  deriving DecidableEq

/-- What `transferFunds` checks about the locked vault, and the query that comes next. -/
def validate (call : Call) (vault : VaultRow) : Except TransferError Phase := do
  require (vault.isActive = true) .inactiveVault
  let amountNum := parseAmount call.amount
  let currentBalance := parseAmount vault.balance
  match call.type with
  | .withdraw =>
    require (currentBalance.lt amountNum = false) .insufficientVault
    return .updating vault (currentBalance.sub amountNum)
  | .deposit => return .readingMain vault

/-- The check of a deposit against the main balance. -/
def checkMain (call : Call) (vault : VaultRow) (main : ℤ) : Except TransferError Phase := do
  let amountNum := parseAmount call.amount
  require ((parseAmount main).lt amountNum = false) .insufficientMain
  return .updating vault ((parseAmount vault.balance).add amountNum)

/-- `updateBalance`: the text of the number is cast to the column and checked. -/
def updateBalance (vault : VaultRow) (newBalance : Number) : Except TransferError VaultRow := do
  let value ← orFail newBalance.value? (.sql .numericOverflow)
  let balance ← orFail (amountType.cast (Number.decimal value)) (.sql .numericOverflow)
  if h : 0 ≤ balance then return { vault with balance := balance, nonneg := h }
  else .error (.sql .checkViolation)

def createVaultTransaction (call : Call) : Except TransferError VaultTransactionRow := do
  let amount ← orFail (amountType.store call.amount) (.sql .numericOverflow)
  require (0 < amount) (.sql .checkViolation)
  return ⟨call.vaultId, call.userId, call.type, amount⟩

/-- The corresponding row of the main table. It carries the vault's id. -/
def createTransaction (call : Call) : Except TransferError TransactionRow := do
  require (call.reference.length ≤ referenceLength) .valueTooLong
  let amount ← orFail (amountType.store call.amount) (.sql .numericOverflow)
  return ⟨call.reference, call.type.opposite, amount, .completed, call.userId,
    some call.vaultId⟩

def Db.setLock (db : Db) (vaultId : String) (locked : Bool) : Db :=
  { db with locked := Function.update db.locked vaultId locked }

/-- What a COMMIT makes visible. -/
def Db.apply (db : Db) (updated : VaultRow) (record : VaultTransactionRow)
    (row : TransactionRow) : Db :=
  { db with
    vaults := db.vaults.map fun v => if v.id = updated.id then updated else v
    vaultTransactions := db.vaultTransactions ++ [record]
    transactions := db.transactions ++ [row] }

/-- Go on, or roll back and release the lock. -/
def proceed (db : Db) (p : Process) (next : Except TransferError Phase) : Db × Process :=
  match next with
  | .ok phase => (db, { p with phase := phase })
  | .error e => (db.setLock p.call.vaultId false, { p with phase := .failed e })

/-- A query of a transaction that holds its lock. -/
def query (answer : Answer) (db : Db) (p : Process) (next : Except TransferError Phase) :
    Db × Process :=
  proceed db p (if answer.outcome = .done then next else .error .queryFailed)

/-- `SELECT … FOR UPDATE`, and what follows it. It waits while the row is locked. -/
def select (db : Db) (p : Process) : Db × Process :=
  match db.vaults.find? fun v => v.id = p.call.vaultId ∧ v.userId = p.call.userId with
  | none => (db, { p with phase := .failed .vaultNotFound })
  | some vault =>
    if db.locked p.call.vaultId then (db, p)
    else
      match validate p.call vault with
      | .ok phase => (db.setLock p.call.vaultId true, { p with phase := phase })
      | .error e => (db, { p with phase := .failed e })

/-- The next query of a call and what it makes of the answer. -/
def step (answer : Answer) (db : Db) (p : Process) : Db × Process :=
  match p.phase with
  | .beginning =>
    if answer.outcome = .done then (db, { p with phase := .selecting })
    else (db, { p with phase := .failed .queryFailed })
  | .selecting =>
    if answer.outcome = .done then select db p
    else (db, { p with phase := .failed .queryFailed })
  | .readingMain vault =>
    query answer db p (checkMain p.call vault (mainBalance db.transactions p.call.userId))
  | .updating vault newBalance =>
    query answer db p ((updateBalance vault newBalance).map .recording)
  | .recording updated =>
    query answer db p ((createVaultTransaction p.call).map (.inserting updated))
  | .inserting updated record =>
    query answer db p ((createTransaction p.call).map (.committing updated record))
  | .committing updated record row =>
    let released := db.setLock p.call.vaultId false
    match answer.outcome with
    | .done => (released.apply updated record row, { p with phase := .returning record })
    | .failed => (released, { p with phase := .failed .queryFailed })
    | .unacknowledged =>
      (released.apply updated record row, { p with phase := .failed .queryFailed })
  | .returning record =>
    -- `findById` is still inside the `try`: when it throws, the call fails after its COMMIT.
    if answer.outcome = .done then (db, { p with phase := .returned answer.replica record })
    else (db, { p with phase := .failed .queryFailed })
  | .returned _ _ | .failed _ => (db, p)

/-! ## Runs -/

/-- A completed deposit or withdrawal from outside. -/
structure External where
  referenceNumber : String
  type : TransferType
  amount : ℤ
  userId : String
  deriving DecidableEq, Repr

def External.row (x : External) : TransactionRow :=
  ⟨x.referenceNumber, x.type, x.amount, .completed, x.userId, none⟩

inductive Event (ι : Type) where
  | turn (i : ι) (answer : Answer)
  | external (x : External)

variable {ι : Type} [DecidableEq ι]

abbrev VaultWorld (ι : Type) := Interleaving.World Db ι Process

def advance (w : VaultWorld ι) : Event ι → VaultWorld ι
  | .turn i answer => Interleaving.advance step w (i, answer)
  | .external x =>
    { w with shared :=
      { w.shared with transactions := w.shared.transactions ++ [x.row] } }

def run (w : VaultWorld ι) (es : List (Event ι)) : VaultWorld ι := es.foldl advance w

omit [DecidableEq ι] in
/-- Any number of calls about to begin, over any tables. -/
def start (calls : ι → Call) (db : Db) : VaultWorld ι :=
  ⟨{ db with locked := fun _ => false }, fun i => ⟨calls i, .beginning⟩⟩

end MobileMoney.Vault
