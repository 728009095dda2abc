import MobileMoney.Library.Binary64
import MobileMoney.Library.Keyed
import MobileMoney.Wallet.Program

/-!
# Reconciling an M-Pesa statement

`reconcile` of `services/mobilemoney/mpesaReconciliation.ts`: every row of the statement looks for
its transaction by two keys, and is matched with it or becomes a discrepancy. What `toLowerCase`
does to a text is a parameter. The rows are those that the parser yields; the dates of the query,
the columns that nothing looks at and the storing of the report are left out.
-/

namespace MobileMoney.Reconciliation.Mpesa

open Binary64
open Wallet (digitsValue)

structure MpesaStatementRecord where
  receiptNo : String
  status : String
  amount : String
  conversationId : String
  originatorConversationId : Option String
  deriving DecidableEq, Repr

structure DbRecord where
  id : String
  referenceNumber : String
  providerReference : Option String
  amount : String
  status : String
  deriving DecidableEq, Repr

/-- An empty text is as good as none. -/
def truthy (value : Option String) : Option String := value.filter (· ≠ "")

/-- `provider_reference || reference_number`. -/
def DbRecord.key (r : DbRecord) : Option String :=
  truthy r.providerReference <|> truthy (some r.referenceNumber)

/-! ## Amounts -/

/-- `parseFloat` of a text of digits and dots. -/
def parseFloat (cleaned : List Char) : Number :=
  let whole := cleaned.takeWhile Char.isDigit
  let decimals := match cleaned.dropWhile Char.isDigit with
    | '.' :: rest => rest.takeWhile Char.isDigit
    | _ => []
  if whole = [] ∧ decimals = [] then .nan
  else .ofRat (digitsValue (whole ++ decimals) / 10 ^ decimals.length)

/-- `toFixed(2)`. -/
def toFixed2 : Number → String
  | .finite x =>
    if |x.1| < 10 ^ 21 then
      let cents := ⌊|x.1| * 100 + 1 / 2⌋.toNat
      (if x.1 < 0 then "-" else "") ++ toString (cents / 100) ++ "." ++
        (if cents % 100 < 10 then "0" else "") ++ toString (cents % 100)
    else Number.text (.finite x)
  | x => x.text

def normalizeAmount (amountStr : Option String) : String :=
  match amountStr with
  | none => "0.00"
  | some amountStr =>
    let num := parseFloat (amountStr.toList.filter fun c => c.isDigit || c = '.')
    if num = .nan then "0.00" else toFixed2 num

/-! ## What is reported -/

inductive DiscrepancyType where
  | amountMismatch
  | orphanedDb
  | orphanedProvider
  | missingCallback
  | duplicateDisbursement
  deriving DecidableEq, Repr

structure MpesaReconciliationDiscrepancy where
  type : DiscrepancyType
  conversationId : String
  receiptNo : Option String
  transactionId : Option String
  expectedValue : String
  actualValue : String
  details : String
  deriving DecidableEq, Repr

structure Matched where
  conversationId : String
  transactionId : String
  amount : String
  status : String
  deriving DecidableEq, Repr

structure MpesaReconciliationSummary where
  matchRate : String
  totalStatementRecords : ℕ
  totalDbRecords : ℕ
  totalMatched : ℕ
  totalDiscrepancies : ℕ
  amountDiscrepancies : ℕ
  missingCallbacks : ℕ
  duplicateDisbursements : ℕ
  orphanedProvider : ℕ
  orphanedDb : ℕ
  deriving DecidableEq, Repr

structure MpesaReconciliationResult where
  summary : MpesaReconciliationSummary
  matched : List Matched
  discrepancies : List MpesaReconciliationDiscrepancy
  deriving DecidableEq, Repr

def orphanedProvider (statement : MpesaStatementRecord) : MpesaReconciliationDiscrepancy where
  type := .orphanedProvider
  conversationId := statement.conversationId
  receiptNo := some statement.receiptNo
  transactionId := none
  expectedValue := "Transaction present in DB"
  actualValue := "Statement row exists: amount " ++ statement.amount ++ ", status " ++
    statement.status
  details := "Disbursement in M-Pesa statement with conversation_id " ++
    statement.conversationId ++ " has no internal transaction record"

def duplicateInStatement (statement : MpesaStatementRecord) (count : ℕ) :
    MpesaReconciliationDiscrepancy where
  type := .duplicateDisbursement
  conversationId := statement.conversationId
  receiptNo := some statement.receiptNo
  transactionId := none
  expectedValue := "Single disbursement"
  actualValue := "Duplicate disbursement in statement (" ++ toString count ++ " occurrences)"
  details := "Conversation ID " ++ statement.conversationId ++
    " appears multiple times in M-Pesa statement"

def amountMismatch (statement : MpesaStatementRecord) (dbRecord : DbRecord) :
    MpesaReconciliationDiscrepancy :=
  let dbNormAmount := normalizeAmount (some dbRecord.amount)
  let stmtNormAmount := normalizeAmount (some statement.amount)
  { type := .amountMismatch
    conversationId := statement.conversationId
    receiptNo := some statement.receiptNo
    transactionId := some dbRecord.id
    expectedValue := "Amount: " ++ dbNormAmount
    actualValue := "Amount: " ++ stmtNormAmount
    details := "Amount mismatch for conversation_id " ++ statement.conversationId ++ ": DB has " ++
      dbNormAmount ++ ", statement has " ++ stmtNormAmount }

def missingCallback (statement : MpesaStatementRecord) (dbRecord : DbRecord) :
    MpesaReconciliationDiscrepancy where
  type := .missingCallback
  conversationId := statement.conversationId
  receiptNo := some statement.receiptNo
  transactionId := some dbRecord.id
  expectedValue := "Status: completed"
  actualValue := "Status: pending (callback missing)"
  details := "M-Pesa disbursement completed on-chain/network but internal transaction " ++
    dbRecord.id ++ " is still pending (callback not received)"

def duplicateInDb (statement : MpesaStatementRecord) (dbRecord : DbRecord) :
    MpesaReconciliationDiscrepancy where
  type := .duplicateDisbursement
  conversationId := statement.conversationId
  receiptNo := none
  transactionId := some dbRecord.id
  expectedValue := "Single internal transaction"
  actualValue := "Multiple transactions share this provider reference"
  details := "Duplicate disbursement records found in DB for conversation_id " ++
    statement.conversationId

def orphanedDb (key : String) (dbRecord : DbRecord) : MpesaReconciliationDiscrepancy where
  type := .orphanedDb
  conversationId := key
  receiptNo := none
  transactionId := some dbRecord.id
  expectedValue := "Record in M-Pesa statement for " ++ key
  actualValue := "Missing in M-Pesa statement"
  details := "Internal disbursement transaction " ++ dbRecord.id ++
    " does not appear in M-Pesa statement"

/-! ## The maps -/

structure Index where
  dbByConversationId : Keyed DbRecord.key
  dbSeenConversations : List String
  dbDuplicateConversations : List String

def Index.add (index : Index) (r : DbRecord) : Index :=
  match r.key with
  | none => index
  | some key =>
    { dbByConversationId := index.dbByConversationId.put r
      dbSeenConversations := key :: index.dbSeenConversations
      dbDuplicateConversations :=
        if key ∈ index.dbSeenConversations then key :: index.dbDuplicateConversations
        else index.dbDuplicateConversations }

def Index.ofRecords (dbRecords : List DbRecord) : Index :=
  dbRecords.foldl Index.add ⟨⟨[], List.nodup_nil⟩, [], []⟩

/-- The key of the row itself is tried first. -/
def Index.find (index : Index) (statement : MpesaStatementRecord) : Option DbRecord :=
  index.dbByConversationId.find? (some statement.conversationId) <|>
    (truthy statement.originatorConversationId).bind fun originator =>
      index.dbByConversationId.find? (some originator)

def statementCount (statementRecords : List MpesaStatementRecord) (convId : String) : ℕ :=
  statementRecords.countP fun s => s.conversationId = convId

/-! ## The loops -/

structure Progress where
  matched : List Matched
  discrepancies : List MpesaReconciliationDiscrepancy
  matchedStatementKeys : List String
  matchedDbKeys : List String
  amountDiscrepancies : ℕ
  missingCallbacks : ℕ
  duplicateDisbursements : ℕ

variable (toLowerCase : String → String)

def isStatementSuccess (statement : MpesaStatementRecord) : Bool :=
  toLowerCase statement.status = "completed" || toLowerCase statement.status = "success"

def isPending (dbRecord : DbRecord) : Bool := toLowerCase dbRecord.status = "pending"

/-- One turn of the loop over the statement. -/
def examine (statementRecords : List MpesaStatementRecord) (index : Index) (p : Progress)
    (statement : MpesaStatementRecord) : Progress :=
  let convId := statement.conversationId
  let count := statementCount statementRecords convId
  let p := { p with matchedStatementKeys := convId :: p.matchedStatementKeys }
  match index.find statement with
  | none => { p with discrepancies := p.discrepancies ++ [orphanedProvider statement] }
  | some dbRecord =>
    let p := { p with matchedDbKeys := dbRecord.key.toList ++ p.matchedDbKeys }
    if 1 < count then
      { p with
        duplicateDisbursements := p.duplicateDisbursements + 1
        discrepancies := p.discrepancies ++ [duplicateInStatement statement count] }
    else if normalizeAmount (some dbRecord.amount) ≠ normalizeAmount (some statement.amount) then
      { p with
        amountDiscrepancies := p.amountDiscrepancies + 1
        discrepancies := p.discrepancies ++ [amountMismatch statement dbRecord] }
    else if isStatementSuccess toLowerCase statement ∧ isPending toLowerCase dbRecord then
      { p with
        missingCallbacks := p.missingCallbacks + 1
        discrepancies := p.discrepancies ++ [missingCallback statement dbRecord] }
    else if ∃ dbKey ∈ dbRecord.key, dbKey ∈ index.dbDuplicateConversations then
      { p with
        duplicateDisbursements := p.duplicateDisbursements + 1
        discrepancies := p.discrepancies ++ [duplicateInDb statement dbRecord] }
    else
      { p with
        matched := p.matched ++
          [⟨convId, dbRecord.id, normalizeAmount (some dbRecord.amount), dbRecord.status⟩] }

/-- One turn of the loop over the transactions: the counter and the discrepancies. -/
def examineDb (matchedDbKeys : List String)
    (orphans : ℕ × List MpesaReconciliationDiscrepancy) (dbRecord : DbRecord) :
    ℕ × List MpesaReconciliationDiscrepancy :=
  match dbRecord.key with
  | none => orphans
  | some key =>
    if key ∈ matchedDbKeys then orphans
    else (orphans.1 + 1, orphans.2 ++ [orphanedDb key dbRecord])

def matchRate (totalMatched totalStatementRecords : ℕ) : String :=
  if 0 < totalStatementRecords then
    toFixed2 (((Number.ofRat totalMatched).div (.ofRat totalStatementRecords)).mul (.ofRat 100)) ++
      "%"
  else "0.00%"

/-- The state after the loop over the statement. -/
def examineAll (statementRecords : List MpesaStatementRecord) (dbRecords : List DbRecord) :
    Progress :=
  statementRecords.foldl (examine toLowerCase statementRecords (.ofRecords dbRecords))
    ⟨[], [], [], [], 0, 0, 0⟩

def reconcile (statementRecords : List MpesaStatementRecord) (dbRecords : List DbRecord) :
    MpesaReconciliationResult :=
  let p := examineAll toLowerCase statementRecords dbRecords
  let orphans := dbRecords.foldl (examineDb p.matchedDbKeys) (0, p.discrepancies)
  let discrepancies := orphans.2
  { summary :=
      { matchRate := matchRate p.matched.length statementRecords.length
        totalStatementRecords := statementRecords.length
        totalDbRecords := dbRecords.length
        totalMatched := p.matched.length
        totalDiscrepancies := discrepancies.length
        amountDiscrepancies := p.amountDiscrepancies
        missingCallbacks := p.missingCallbacks
        duplicateDisbursements := p.duplicateDisbursements
        orphanedProvider :=
          (statementRecords.filter fun s => s.conversationId ∉ p.matchedStatementKeys).length
        orphanedDb := orphans.1 }
    matched := p.matched
    discrepancies := discrepancies }

/-! ## The transactions -/

abbrev Transactions := Keyed DbRecord.id

/-- The answer of the query; a query that fails counts as one that finds nothing. -/
def queryTransactions (answer : Option Transactions) : List DbRecord :=
  (answer.map (·.rows)).getD []

end MobileMoney.Reconciliation.Mpesa
