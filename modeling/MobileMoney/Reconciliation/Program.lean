import Mathlib.Data.List.Sort
import MobileMoney.Library.Keyed

/-!
# Reconciling the statement of a provider

`reconcileTransactions` of `services/csvReconciliation.ts`: the rows of a statement and the records
of the database are indexed by their references and compared. Rows are those that `csv-parser`
yields; what `trim`, `toUpperCase` and `toLowerCase` do to a text is a parameter. Times are in
microseconds. `match_rate`, phone numbers and the columns that nothing looks at are left out.

`streamProcessCSV` of `services/highThroughputReconciliationService.ts`: the rows are compared one
by one with a map of the database, and when a chunk of rows is full the discrepancies found since
the last one are handed to a write of alerts. The writes are in the order in which they were
started, and a promise is the place of its write. Sizes are parameters, as the class has them.
-/

namespace MobileMoney.Reconciliation

structure Text where
  trim : String → String
  toUpperCase : String → String
  toLowerCase : String → String

structure ProviderCSVRow where
  referenceNumber : Option String
  referenceId : Option String
  amount : Option String
  status : Option String
  deriving DecidableEq, Repr

structure DbRecord where
  id : String
  referenceNumber : String
  amount : String
  status : String
  provider : String
  createdAt : ℤ
  deriving DecidableEq, Repr

inductive DiscrepancyType where
  | amountMismatch
  | statusMismatch
  deriving DecidableEq, Repr

structure ReconciliationMatch where
  referenceNumber : String
  amount : String
  status : String
  providerStatus : Option String
  matched : Bool
  discrepancyType : Option DiscrepancyType
  dbRecord : DbRecord
  providerRecord : ProviderCSVRow
  deriving DecidableEq, Repr

structure ReconciliationResult where
  totalProviderRows : ℕ
  totalDbRecords : ℕ
  matched : List ReconciliationMatch
  discrepancies : List ReconciliationMatch
  orphanedProvider : List ProviderCSVRow
  orphanedDb : List DbRecord
  deriving DecidableEq, Repr

/-! ## References and amounts -/

/-- An empty text is as good as none. -/
def truthy (value : Option String) : Option String := value.filter (· ≠ "")

section Statement

variable (text : Text)

def normalizeReferenceNumber (ref : Option String) : Option String :=
  (truthy ref).map fun ref => text.toUpperCase (text.trim ref)

def normalizeAmount (amount : Option String) : Option String :=
  (truthy amount).map fun amount =>
    text.trim (String.ofList (amount.toList.filter fun c => c.isDigit || c = '.'))

/-- `parseCSV` trims the values of a row. -/
def normalizeRow (row : ProviderCSVRow) : ProviderCSVRow where
  referenceNumber := row.referenceNumber.map text.trim
  referenceId := row.referenceId.map text.trim
  amount := row.amount.map text.trim
  status := row.status.map text.trim

def parseCSV (rows : List ProviderCSVRow) : List ProviderCSVRow := rows.map (normalizeRow text)

namespace ProviderCSVRow

def reference (row : ProviderCSVRow) : Option String :=
  normalizeReferenceNumber text (truthy row.referenceNumber <|> row.referenceId)

end ProviderCSVRow

def DbRecord.reference (record : DbRecord) : Option String :=
  normalizeReferenceNumber text (some record.referenceNumber)

/-- A normalized reference that counts as one. -/
def carried (ref : Option String) : Bool := (truthy ref).isSome

/-! ## The comparison -/

def amountMatch (record : DbRecord) (row : ProviderCSVRow) : Bool :=
  normalizeAmount text (some record.amount) = normalizeAmount text row.amount

def statusMatch (record : DbRecord) (row : ProviderCSVRow) : Bool :=
  text.toLowerCase record.status = text.toLowerCase (row.status.getD "")

def checkMatch (record : DbRecord) (row : ProviderCSVRow) : Bool :=
  amountMatch text record row && statusMatch text record row

def compare (record : DbRecord) (row : ProviderCSVRow) : ReconciliationMatch where
  referenceNumber := record.referenceNumber
  amount := record.amount
  status := record.status
  providerStatus := row.status
  matched := checkMatch text record row
  discrepancyType :=
    if checkMatch text record row then none
    else if amountMatch text record row then some .statusMismatch else some .amountMismatch
  dbRecord := record
  providerRecord := row

abbrev DbByReference := Keyed (DbRecord.reference text)

abbrev ProviderByReference := Keyed (ProviderCSVRow.reference text)

variable {text} in
/-- The record that is found for a row with a reference. -/
def lookup (dbByReference : DbByReference text) (row : ProviderCSVRow) : Option DbRecord :=
  if carried (row.reference text) then dbByReference.find? (row.reference text) else none

variable {text} in
/-- The entries of the map of the provider that are compared, in its order. -/
def compared (dbByReference : DbByReference text) (providerByReference : ProviderByReference text) :
    List ReconciliationMatch :=
  providerByReference.rows.filterMap fun row =>
    (lookup dbByReference row).map fun record => compare text record row

def reconcile (providerRows : List ProviderCSVRow) (dbRecords : List DbRecord) :
    ReconciliationResult :=
  let entries := compared (.ofList dbRecords : DbByReference text)
    (.ofList providerRows : ProviderByReference text)
  let matchedRefs := entries.map (·.providerRecord.reference text)
  { totalProviderRows := providerRows.length
    totalDbRecords := dbRecords.length
    matched := entries.filter (·.matched)
    discrepancies := entries.filter (!·.matched)
    orphanedProvider := providerRows.filter fun row =>
      carried (row.reference text) ∧ row.reference text ∉ matchedRefs
    orphanedDb := dbRecords.filter fun record =>
      carried (record.reference text) ∧ record.reference text ∉ matchedRefs }

/-! ## The records -/

/-- The bounds as timestamps; a date is its first moment. -/
structure DateRange where
  startsAt : Option ℤ
  endsAt : Option ℤ
  deriving DecidableEq, Repr

def DateRange.Contains (range : DateRange) (time : ℤ) : Prop :=
  (∀ start ∈ range.startsAt, start ≤ time) ∧ ∀ last ∈ range.endsAt, time ≤ last

instance (range : DateRange) (time : ℤ) : Decidable (range.Contains time) :=
  inferInstanceAs (Decidable (_ ∧ _))

/-- The query of `reconcileTransactions`, newest first. -/
def queryTransactions (range : DateRange) (transactions : List DbRecord) : List DbRecord :=
  (transactions.filter fun record => range.Contains record.createdAt).insertionSort
    fun a b => b.createdAt ≤ a.createdAt

def reconcileTransactions (transactions : List DbRecord) (providerRows : List ProviderCSVRow)
    (range : DateRange) : ReconciliationResult :=
  reconcile text providerRows (queryTransactions range transactions)

end Statement

/-! ## Reconciling a statement as a stream -/

structure StreamConfig where
  chunkSize : ℕ
  batchSize : ℕ
  maxConcurrentBatches : ℕ
  batchSize_pos : 0 < batchSize

structure Discrepancy where
  referenceNumber : Option String
  dbRecord : DbRecord
  providerRecord : ProviderCSVRow
  deriving DecidableEq, Repr

structure Alert where
  referenceNumber : Option String
  expectedAmount : String
  actualAmount : Option String
  expectedStatus : String
  actualStatus : Option String
  deriving DecidableEq, Repr

def Discrepancy.alert (d : Discrepancy) : Alert where
  referenceNumber := d.referenceNumber
  expectedAmount := d.dbRecord.amount
  actualAmount := d.providerRecord.amount
  expectedStatus := d.dbRecord.status
  actualStatus := d.providerRecord.status

/-- A call of `createAlertsForDiscrepancies`: the inserts that have not been answered. -/
structure Write where
  pending : List (List Alert)
  failed : Bool
  deriving DecidableEq, Repr

def createAlertsForDiscrepancies (config : StreamConfig) (discrepancies : List Discrepancy) :
    Write where
  pending := (discrepancies.map Discrepancy.alert).toChunks config.batchSize
  failed := false

structure Stream where
  processedRows : ℕ
  matchedCount : ℕ
  discrepanciesCount : ℕ
  chunk : List ProviderCSVRow
  matchedProviderRefs : List (Option String)
  discrepancies : List Discrepancy
  batchCounter : ℕ
  batchPromises : List ℕ
  writes : List Write
  deriving DecidableEq, Repr

def Stream.init : Stream := ⟨0, 0, 0, [], [], [], 0, [], []⟩

structure StreamingResult where
  matchedCount : ℕ
  discrepanciesCount : ℕ
  totalProcessedRows : ℕ
  orphanedProviderCount : ℤ
  orphanedDbCount : ℕ
  deriving DecidableEq, Repr

variable {text : Text} (config : StreamConfig) (dbByReference : DbByReference text)

variable (text) in
def createDbLookupMap (dbRecords : List DbRecord) : DbByReference text :=
  .ofList (dbRecords.filter fun record => carried (record.reference text))

namespace Stream

/-- When the list is full its oldest promise is dropped. -/
def remember (promises : List ℕ) (promise : ℕ) : List ℕ :=
  (if config.maxConcurrentBatches ≤ promises.length then promises.tail else promises) ++ [promise]

/-- The discrepancies found since the last batch are handed to a write. -/
def startBatch (s : Stream) : Stream :=
  if s.discrepancies = [] then s
  else { s with
    batchCounter := s.batchCounter + 1
    batchPromises := remember config s.batchPromises s.writes.length
    writes := s.writes ++ [createAlertsForDiscrepancies config s.discrepancies]
    discrepancies := [] }

def push (normalized : ProviderCSVRow) (s : Stream) : Stream :=
  if config.chunkSize ≤ (s.chunk ++ [normalized]).length then
    startBatch config { s with chunk := [] }
  else { s with chunk := s.chunk ++ [normalized] }

/-- A row with a reference is looked up. -/
def examine (normalized : ProviderCSVRow) (s : Stream) : Stream :=
  match dbByReference.find? (normalized.reference text) with
  | some record =>
    if checkMatch text record normalized then { s with
      matchedProviderRefs := s.matchedProviderRefs.insert (normalized.reference text)
      matchedCount := s.matchedCount + 1 }
    else { s with
      matchedProviderRefs := s.matchedProviderRefs.insert (normalized.reference text)
      discrepanciesCount := s.discrepanciesCount + 1
      discrepancies := s.discrepancies ++ [⟨normalized.reference text, record, normalized⟩] }
  | none => s

def transform (s : Stream) (row : ProviderCSVRow) : Stream :=
  if carried ((normalizeRow text row).reference text) then
    push config (normalizeRow text row)
      (examine dbByReference (normalizeRow text row)
        { s with processedRows := s.processedRows + 1 })
  else { s with processedRows := s.processedRows + 1 }

/-- What is reported at the end. -/
def result (s : Stream) : StreamingResult where
  matchedCount := s.matchedCount
  discrepanciesCount := s.discrepanciesCount
  totalProcessedRows := s.processedRows
  orphanedProviderCount := s.processedRows - s.matchedProviderRefs.length
  orphanedDbCount :=
    (dbByReference.rows.filter fun record =>
      !s.matchedProviderRefs.contains (record.reference text)).length

end Stream

variable (text) in
/-- The result with which the promise of the stream resolves, if it does. -/
def streamProcessCSV (rows : List ProviderCSVRow) (dbRecords : List DbRecord) : StreamingResult :=
  (rows.foldl (Stream.transform config (createDbLookupMap text dbRecords)) .init).result
    (createDbLookupMap text dbRecords)

end MobileMoney.Reconciliation
