import MobileMoney.Library.Binary64
import MobileMoney.Library.Checked
import MobileMoney.Library.Keyed
import MobileMoney.Library.Paging
import Mathlib.Data.List.Sort
import Mathlib.Data.Prod.Lex
import Mathlib.Order.WithBot

/-!
# Reading the entries of an account

`getEntriesByAccountPage` of `ledgerService.ts`: entries are read in pages, latest first, and
each page but the last comes with a cursor made from its last row. A cursor holds a date and a
time as the driver has parsed them into a `Date`, printed by `toISOString`; the database casts
these texts back and ignores their zone.

A `Date` is its number of milliseconds since 1970, and an ISO text is the instant it prints.
The base64 of the JSON of a cursor is read back as it was written. The driver reads columns
without a zone as local time of the process; what that is in UTC is a parameter.
-/

namespace MobileMoney.Ledger

open Binary64 Checked

/-! ## Dates and times -/

/-- A value of a `DATE` column in days or of a `TIMESTAMP` column in microseconds. -/
inductive Column where
  | negInfinity
  | finite (x : ℤ)
  | infinity
  deriving DecidableEq, Repr

namespace Column

def extended : Column → WithBot (WithTop ℤ)
  | .negInfinity => ⊥
  | .finite x => ((x : WithTop ℤ) : WithBot (WithTop ℤ))
  | .infinity => ((⊤ : WithTop ℤ) : WithBot (WithTop ℤ))

theorem extended_injective : Function.Injective extended := by
  intro a b h
  cases a <;> cases b <;> simp_all [extended]

instance : LinearOrder Column := LinearOrder.lift' extended extended_injective

@[simp] theorem finite_lt_finite {x y : ℤ} : finite x < finite y ↔ x < y := by
  change extended (finite x) < extended (finite y) ↔ x < y
  simp [extended]

@[simp] theorem finite_le_finite {x y : ℤ} : finite x ≤ finite y ↔ x ≤ y := by
  change extended (finite x) ≤ extended (finite y) ↔ x ≤ y
  simp [extended]

end Column

/-- Milliseconds in a day. -/
def dayMillis : ℤ := 86400000

/-- What the driver makes of a column: a `Date`, or the number `Infinity`. -/
inductive Parsed where
  | date (time : ℤ)
  | number (negative : Bool)
  deriving DecidableEq, Repr

/-- `postgres-date`: finite values are local time, in whole milliseconds. -/
def parseColumn (zone : ℤ → ℤ) (toMillis : ℤ → ℤ) : Column → Parsed
  | .negInfinity => .number true
  | .finite x => .date (zone (toMillis x))
  | .infinity => .number false

def parseDate (zone : ℤ → ℤ) : Column → Parsed := parseColumn zone fun day => day * dayMillis

def parseTimestamp (zone : ℤ → ℤ) : Column → Parsed := parseColumn zone fun micros => micros / 1000

inductive PageError where
  | invalidTimeValue
  | invalidCursor
  | database
  | typeError
  | unfinished
  deriving DecidableEq, Repr

/-- `toCursorDate`, as JSON prints it: the instant of an ISO text, or nothing for `null`. -/
def toCursorDate : Parsed → Except PageError (Option ℤ)
  | .date time => do
    require (|time| ≤ 8640000000000000) .invalidTimeValue
    return some time
  | .number _ => .ok none

/-- The years 1 to 9999, the only ones whose ISO texts the database reads. -/
def Readable (instant : ℤ) : Prop := -62135596800000 ≤ instant ∧ instant ≤ 253402300799999

instance : DecidablePred Readable := fun instant =>
  inferInstanceAs (Decidable (-62135596800000 ≤ instant ∧ instant ≤ 253402300799999))

/-- `text::DATE`. -/
def castDate (instant : ℤ) : Except PageError Column := do
  require (Readable instant) .database
  return .finite (instant / dayMillis)

/-- `text::TIMESTAMP`. -/
def castTimestamp (instant : ℤ) : Except PageError Column := do
  require (Readable instant) .database
  return .finite (instant * 1000)

/-! ## Entries and cursors -/

structure LedgerEntryRow where
  id : Fin (2 ^ 128)
  entryDate : Column
  accountCode : String
  accountName : String
  debitAmount : ℤ
  creditAmount : ℤ
  description : String
  referenceNumber : String
  transactionId : Option String
  createdAt : Column
  deriving DecidableEq, Repr

/-- What entries are ordered by. -/
abbrev EntryKey := Column ×ₗ Column ×ₗ Fin (2 ^ 128)

def LedgerEntryRow.key (row : LedgerEntryRow) : EntryKey :=
  toLex (row.entryDate, toLex (row.createdAt, row.id))

/-- Nothing stands for a field that is not a string. -/
structure LedgerEntryCursor where
  entryDate : Option ℤ
  createdAt : Option ℤ
  id : Fin (2 ^ 128)
  deriving DecidableEq, Repr

def encodeLedgerEntryCursor (zone : ℤ → ℤ) (entry : LedgerEntryRow) :
    Except PageError LedgerEntryCursor := do
  let entryDate ← toCursorDate (parseDate zone entry.entryDate)
  let createdAt ← toCursorDate (parseTimestamp zone entry.createdAt)
  return ⟨entryDate, createdAt, entry.id⟩

/-- Two texts and an id. Every printed instant is a valid date and every id a UUID. -/
def decodeLedgerEntryCursor (cursor : LedgerEntryCursor) :
    Except PageError (ℤ × ℤ × Fin (2 ^ 128)) := do
  let entryDate ← orFail cursor.entryDate .invalidCursor
  let createdAt ← orFail cursor.createdAt .invalidCursor
  return (entryDate, createdAt, cursor.id)

/-! ## Pages -/

def defaultLedgerEntryLimit : ℕ := 100

def maxLedgerEntryLimit : ℕ := 500

def normalizeLimit : Number → ℕ
  | .finite x => (min (max (x.1.num.tdiv x.1.den) 1) maxLedgerEntryLimit).toNat
  | _ => defaultLedgerEntryLimit

/-- The dates are what the database is given. -/
structure PageOptions where
  startDate : Option Column
  endDate : Option Column
  limit : Option Number
  deriving DecidableEq

def PageOptions.pageLimit (options : PageOptions) : ℕ :=
  match options.limit with
  | some limit => normalizeLimit limit
  | none => defaultLedgerEntryLimit

structure LedgerEntryPage where
  entries : List LedgerEntryRow
  nextCursor : Option LedgerEntryCursor
  hasMore : Bool
  limit : ℕ
  deriving DecidableEq, Repr

abbrev EntryTable := Keyed LedgerEntryRow.id

/-- The conditions on the account and the dates. -/
def Selected (accountCode : String) (options : PageOptions) (row : LedgerEntryRow) : Prop :=
  row.accountCode = accountCode ∧ (∀ date ∈ options.startDate, date ≤ row.entryDate) ∧
    ∀ date ∈ options.endDate, row.entryDate ≤ date

instance (accountCode : String) (options : PageOptions) :
    DecidablePred (Selected accountCode options) := fun row =>
  inferInstanceAs (Decidable (row.accountCode = accountCode ∧
    (∀ date ∈ options.startDate, date ≤ row.entryDate) ∧
      ∀ date ∈ options.endDate, row.entryDate ≤ date))

/-- Latest first. -/
def orderEntries (rows : List LedgerEntryRow) : List LedgerEntryRow :=
  rows.insertionSort fun a b => b.key ≤ a.key

/-- The query; `after` are the three cursor parameters. -/
def selectEntries (table : EntryTable) (accountCode : String) (options : PageOptions)
    (after : Option EntryKey) (queryLimit : ℕ) : List LedgerEntryRow :=
  (orderEntries (table.rows.filter fun row =>
    Selected accountCode options row ∧ ∀ key ∈ after, row.key < key)).take queryLimit

/-- The cursor parameters, decoded and cast. -/
def cursorParameters : Option LedgerEntryCursor → Except PageError (Option EntryKey)
  | none => .ok none
  | some cursor => do
    let (entryDate, createdAt, id) ← decodeLedgerEntryCursor cursor
    let date ← castDate entryDate
    let time ← castTimestamp createdAt
    return some (toLex (date, toLex (time, id)))

/-- The page of the rows found, which are one more than the limit when there is another. -/
def toPage (zone : ℤ → ℤ) (pageLimit : ℕ) (rows : List LedgerEntryRow) :
    Except PageError LedgerEntryPage :=
  if pageLimit < rows.length then do
    let entries := rows.take pageLimit
    let last ← orFail entries.getLast? .typeError
    let nextCursor ← encodeLedgerEntryCursor zone last
    return ⟨entries, some nextCursor, true, pageLimit⟩
  else .ok ⟨rows, none, false, pageLimit⟩

def getEntriesByAccountPage (zone : ℤ → ℤ) (table : EntryTable) (accountCode : String)
    (options : PageOptions) (cursor : Option LedgerEntryCursor) :
    Except PageError LedgerEntryPage := do
  let after ← cursorParameters cursor
  toPage zone options.pageLimit
    (selectEntries table accountCode options after (options.pageLimit + 1))

/-- All pages from a cursor on, following the next cursors. -/
def followPages (zone : ℤ → ℤ) (table : EntryTable) (accountCode : String)
    (options : PageOptions) : ℕ → Option LedgerEntryCursor →
    Except PageError (List LedgerEntryRow)
  | 0, _ => .error .unfinished
  | fuel + 1, cursor => do
    let page ← getEntriesByAccountPage zone table accountCode options cursor
    match page.nextCursor with
    | none => return page.entries
    | some next =>
      let later ← followPages zone table accountCode options fuel (some next)
      return page.entries ++ later

/-- What the pages together should be. -/
def accountEntries (table : EntryTable) (accountCode : String) (options : PageOptions) :
    List LedgerEntryRow :=
  orderEntries (table.rows.filter fun row => Selected accountCode options row)

end MobileMoney.Ledger
