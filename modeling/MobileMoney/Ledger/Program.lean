import MobileMoney.Library.Binary64
import MobileMoney.Library.Checked
import MobileMoney.Library.Decimal

/-!
# Posting to the double-entry ledger

`ledgerService.ts` checks the entries in binary floats and sends them as JSON;
`post_transaction` in the database casts each amount to `DECIMAL(20, 7)`, compares the
totals and inserts the rows in the caller's transaction. Amounts in the database are
integers in units of `10 ^ (-7)`. The entries' metadata is stored without being read and
is left out.
-/

namespace MobileMoney.Ledger

open Binary64 Checked

structure LedgerEntry where
  accountCode : String
  debitAmount : Option Number
  creditAmount : Option Number
  description : Option String
  settlementDate : Option String
  deriving DecidableEq

/-! ## The client's check -/

inductive LedgerError where
  | tooFewEntries
  | notExactlyOne (index : ℕ)
  | notBalanced (debits credits : Number)
  | zeroAmounts
  deriving DecidableEq

def LedgerError.message : LedgerError → String
  | .tooFewEntries => "At least 2 entries required for double-entry"
  | .notExactlyOne index =>
    let position := toString (index + 1)
    "Ledger entry " ++ position ++ " must have exactly one non-zero amount"
  | .notBalanced debits credits =>
    "Transaction not balanced: debits=" ++ debits.text ++ " credits=" ++ credits.text
  | .zeroAmounts => "Transaction amounts cannot be zero"

def ledgerBalanceTolerance : Number := .ofRat (1 / 10 ^ 7)

/-- `x || 0`: a missing amount and a NaN count as zero. -/
def orZero : Option Number → Number
  | none | some .nan => .zero
  | some x => x

def addTotals (totals : Number × Number) (index : ℕ) (entry : LedgerEntry) :
    Except LedgerError (Number × Number) := do
  let debitAmount := orZero entry.debitAmount
  let creditAmount := orZero entry.creditAmount
  let hasDebit := Number.zero.lt debitAmount
  let hasCredit := Number.zero.lt creditAmount
  require (hasDebit ≠ hasCredit) (.notExactlyOne index)
  return (totals.1.add debitAmount, totals.2.add creditAmount)

/-- The `reduce` over the entries. -/
def sumEntries (totals : Number × Number) (index : ℕ) :
    List LedgerEntry → Except LedgerError (Number × Number)
  | [] => .ok totals
  | entry :: rest => do
    let totals ← addTotals totals index entry
    sumEntries totals (index + 1) rest

def validateLedgerEntries (entries : List LedgerEntry) : Except LedgerError Unit := do
  require (2 ≤ entries.length) .tooFewEntries
  let (totalDebits, totalCredits) ← sumEntries (.zero, .zero) 0 entries
  require (ledgerBalanceTolerance.lt (totalDebits.sub totalCredits).abs = false)
    (.notBalanced totalDebits totalCredits)
  require (totalDebits.le ledgerBalanceTolerance = false) .zeroAmounts

/-! ## The database function -/

/-- The type `DECIMAL(20, 7)`. -/
def amountType : Decimal.Format := ⟨20, 7⟩

/-- The text of a `DECIMAL(20, 7)`. -/
def decimalText (n : ℤ) : String :=
  let fraction := toString (n.natAbs % 10 ^ 7)
  (if n < 0 then "-" else "") ++ toString (n.natAbs / 10 ^ 7) ++ "." ++
    "".pushn '0' (7 - fraction.length) ++ fraction

inductive SqlError where
  | raised (message : String)
  | numericOverflow
  | notNullViolation
  | checkViolation
  | refused
  deriving DecidableEq, Repr

structure Account where
  id : String
  isActive : Bool
  deriving DecidableEq, Repr

structure LedgerRow where
  accountId : String
  debitAmount : ℤ
  creditAmount : ℤ
  transactionId : Option String
  referenceNumber : String
  description : String
  postedBy : Option String
  settlementDate : Option String
  deriving DecidableEq, Repr

/-- The arguments of `postTransaction` beside the entries. -/
structure PostArgs where
  referenceNumber : String
  description : String
  transactionId : Option String
  postedBy : Option String
  deriving DecidableEq, Repr

/-- `transactionId || null` and `postedBy || null`. -/
def PostArgs.orNull (args : PostArgs) : PostArgs :=
  { args with
    transactionId := args.transactionId.filter (· ≠ "")
    postedBy := args.postedBy.filter (· ≠ "") }

/-- What becomes of `COMMIT`: the rows stay and the client knows, nothing stays, or the
rows stay and the answer is lost. -/
inductive Commit where
  | done | failed | unacknowledged
  deriving DecidableEq, Repr

/-- The database during one call: the accounts by code when entries are checked and when
they are inserted, the rows that types and foreign keys of the other columns refuse,
whether the settlement migration has run, and the fate of the commit. -/
structure Session where
  accounts : String → Option Account
  accountsAtInsert : String → Option Account
  refuses : LedgerRow → Bool
  hasSettlement : Bool
  currentDate : String
  commit : Commit

/-- `v_entry->>'debit_amount'`: JSON has no NaN or infinity, so these read as NULL. -/
def jsonAmount (amount : Option Number) : Option ℚ := (amount.bind Number.value?).map Number.decimal

/-- `COALESCE((…)::DECIMAL(20, 7), 0)`. -/
def columnAmount (amount : Option Number) : Except SqlError ℤ :=
  match jsonAmount amount with
  | some x => orFail (amountType.cast x) .numericOverflow
  | none => .ok 0

/-- Assignment to a variable of type `DECIMAL(20, 7)`. -/
def assign (n : ℤ) : Except SqlError ℤ := orFail (amountType.store n) .numericOverflow

/-- The first loop: check the accounts and accumulate the totals. -/
def accumulate (session : Session) (totals : ℤ × ℤ) :
    List LedgerEntry → Except SqlError (ℤ × ℤ)
  | [] => .ok totals
  | entry :: rest => do
    let active := (session.accounts entry.accountCode).any (·.isActive)
    require (active = true) (.raised ("Account not found or inactive: " ++ entry.accountCode))
    let debit ← columnAmount entry.debitAmount
    let totalDebits ← assign (totals.1 + debit)
    let credit ← columnAmount entry.creditAmount
    let totalCredits ← assign (totals.2 + credit)
    accumulate session (totalDebits, totalCredits) rest

/-- `check_debit_or_credit` and the two column checks. -/
def rowChecks (row : LedgerRow) : Bool :=
  0 ≤ row.debitAmount && 0 ≤ row.creditAmount &&
    ((0 < row.debitAmount && row.creditAmount == 0) ||
      (0 < row.creditAmount && row.debitAmount == 0))

/-- One `INSERT INTO ledger_entries`. -/
def insertEntry (session : Session) (args : PostArgs) (entry : LedgerEntry) :
    Except SqlError LedgerRow := do
  let account ← orFail (session.accountsAtInsert entry.accountCode) .notNullViolation
  let debitAmount ← columnAmount entry.debitAmount
  let creditAmount ← columnAmount entry.creditAmount
  let row : LedgerRow :=
    { accountId := account.id
      debitAmount := debitAmount
      creditAmount := creditAmount
      transactionId := args.transactionId
      referenceNumber := args.referenceNumber
      description := entry.description.getD args.description
      postedBy := args.postedBy
      settlementDate := if session.hasSettlement
        then some (entry.settlementDate.getD session.currentDate) else none }
  require (rowChecks row = true) .checkViolation
  require (session.refuses row = false) .refused
  return row

/-- `post_transaction`: the rows to insert, or the error that undoes the call. -/
def Sql.postTransaction (session : Session) (args : PostArgs) (entries : List LedgerEntry) :
    Except SqlError (List LedgerRow) := do
  require (entries ≠ []) (.raised "At least one ledger entry is required")
  require (2 ≤ entries.length)
    (.raised "Double-entry requires at least 2 entries (debit and credit)")
  let (totalDebits, totalCredits) ← accumulate session (0, 0) entries
  require (totalDebits = totalCredits)
    (.raised ("Transaction is not balanced: debits=" ++ decimalText totalDebits ++
      " credits=" ++ decimalText totalCredits))
  require (totalDebits ≠ 0) (.raised "Transaction amounts cannot be zero")
  entries.mapM (insertEntry session args)

/-! ## The service -/

inductive PostFailure where
  | invalid (e : LedgerError)
  | sql (e : SqlError)
  | commit
  deriving DecidableEq

structure PostedEntry where
  accountCode : String
  debit : Number
  credit : Number
  deriving DecidableEq

/-- `parseFloat` of a `DECIMAL(20, 7)`. -/
def parseAmount (n : ℤ) : Number := .ofRat (n / 10 ^ 7)

def posted (entry : LedgerEntry) (row : LedgerRow) : PostedEntry :=
  ⟨entry.accountCode, parseAmount row.debitAmount, parseAmount row.creditAmount⟩

/-- The rows of `ledger_entries`. Triggers keep them from being changed or deleted. -/
abbrev LedgerEntries := List LedgerRow

/-- `postTransaction`: the ledger after the call, and its result. -/
def postTransaction (session : Session) (args : PostArgs) (entries : List LedgerEntry)
    (ledger : LedgerEntries) : LedgerEntries × Except PostFailure (List PostedEntry) :=
  match validateLedgerEntries entries with
  | .error e => (ledger, .error (.invalid e))
  | .ok () =>
    match Sql.postTransaction session args.orNull entries with
    | .error e => (ledger, .error (.sql e))
    | .ok rows =>
      match session.commit with
      | .done => (ledger ++ rows, .ok (List.zipWith posted entries rows))
      | .failed => (ledger, .error .commit)
      | .unacknowledged => (ledger ++ rows, .error .commit)

end MobileMoney.Ledger
