import MobileMoney.Ledger.Conservation
import MobileMoney.Library.Keyed
import MobileMoney.Library.Tally
import Mathlib.Data.List.Sort

/-!
# The trial balance

`get_trial_balance` sums the rows of each active account up to a date and shows the balance
on the account's normal side, or zero when it lies on the other one. What is not shown is
the balances on the other side and the accounts that are not active, so the two columns agree
exactly when these cancel out.
-/

namespace MobileMoney.Ledger

open Binary64 Checked

inductive NormalBalance where
  | debit | credit
  deriving DecidableEq, Repr

/-- A row of `accounts`. -/
structure ChartAccount where
  id : String
  code : String
  name : String
  type : String
  normalBalance : NormalBalance
  isActive : Bool
  deriving DecidableEq, Repr

abbrev Chart := Keyed ChartAccount.id

/-- A row of `ledger_entries` with the `entry_date` it gets by default. -/
structure DatedRow where
  row : LedgerRow
  entryDate : String
  deriving DecidableEq, Repr

structure TrialBalance where
  accountCode : String
  accountName : String
  accountType : String
  debitBalance : ℤ
  creditBalance : ℤ
  deriving DecidableEq, Repr

/-- The group of one account. -/
def trialBalance (account : ChartAccount) (rows : List LedgerRow) : TrialBalance where
  accountCode := account.code
  accountName := account.name
  accountType := account.type
  debitBalance :=
    match account.normalBalance with
    | .debit => max (debits rows - credits rows) 0
    | .credit => 0
  creditBalance :=
    match account.normalBalance with
    | .credit => max (credits rows - debits rows) 0
    | .debit => 0

/-- The rows up to a date; ISO dates compare as texts. -/
def asOf (date : String) (ledger : List DatedRow) : List LedgerRow :=
  (ledger.filter fun entry => entry.entryDate ≤ date).map (·.row)

def ofAccount (account : ChartAccount) (rows : List LedgerRow) : List LedgerRow :=
  rows.filter fun row => row.accountId = account.id

def Chart.active (chart : Chart) : List ChartAccount := chart.rows.filter (·.isActive)

/-- `get_trial_balance`. -/
def getTrialBalance (chart : Chart) (ledger : List DatedRow) (asOfDate : String) :
    List TrialBalance :=
  (chart.active.map fun account =>
      trialBalance account (ofAccount account (asOf asOfDate ledger))).mergeSort
    fun a b => a.accountCode ≤ b.accountCode

def debitColumn (report : List TrialBalance) : ℤ := (report.map (·.debitBalance)).sum

def creditColumn (report : List TrialBalance) : ℤ := (report.map (·.creditBalance)).sum

/-! ## Dated postings -/

def dated (date : String) (rows : List LedgerRow) : List DatedRow := rows.map fun row => ⟨row, date⟩

theorem rows_dated (date : String) (rows : List LedgerRow) :
    (dated date rows).map (·.row) = rows := by
  rw [dated, List.map_map]
  exact List.map_id rows

theorem asOf_dated (date date' : String) (rows : List LedgerRow) :
    asOf date (dated date' rows) = if date' ≤ date then rows else [] := by
  unfold asOf
  split_ifs with before
  · rw [List.filter_eq_self.2, rows_dated]
    rintro _ hrow
    obtain ⟨row, -, rfl⟩ := List.mem_map.1 hrow
    exact decide_eq_true before
  · rw [List.filter_eq_nil_iff.2]
    · rfl
    · rintro _ hrow
      obtain ⟨row, -, rfl⟩ := List.mem_map.1 hrow
      simpa using before

theorem asOf_append (date : String) (ledger ledger' : List DatedRow) :
    asOf date (ledger ++ ledger') = asOf date ledger ++ asOf date ledger' := by
  simp [asOf]

/-- The rows that a call inserts get the date of its transaction. -/
def postDated (ledger : List DatedRow) (call : Call) : List DatedRow :=
  ledger ++ dated call.session.currentDate (call.post []).1

/-- A call appends the same rows to every ledger. -/
theorem post_eq_append (call : Call) (ledger : LedgerEntries) :
    (call.post ledger).1 = ledger ++ (call.post []).1 := by
  unfold Call.post postTransaction
  split
  · exact (List.append_nil _).symm
  · split
    · exact (List.append_nil _).symm
    · cases call.session.commit <;> simp

/-- Without the dates, this is the ledger of before. -/
theorem rows_postDated (calls : List Call) :
    (calls.foldl postDated []).map (·.row) = calls.foldl step [] := by
  induction calls using List.reverseRecOn with
  | nil => rfl
  | append_singleton calls call ih =>
    simp only [List.foldl_append, List.foldl_cons, List.foldl_nil]
    rw [step, post_eq_append, ← ih, postDated, List.map_append, rows_dated]

/-- A posting is before a date as a whole, so what is before it balances. -/
theorem balanced_asOf (date : String) (calls : List Call) :
    Balanced (asOf date (calls.foldl postDated [])) := by
  have start : Balanced (asOf date []) := rfl
  refine Runs.inv_foldl (fun ledger => Balanced (asOf date ledger)) ?_ start calls
  intro ledger call balanced
  rw [postDated, asOf_append, asOf_dated]
  refine balanced.append ?_
  split_ifs
  · rcases postTransaction_cases call.session call.args call.entries [] with
      none | ⟨rows, appended, posting⟩
    · rw [Call.post, none]
      rfl
    · rw [Call.post, appended]
      exact posting.balanced
  · rfl

/-! ## What the report leaves out -/

/-- What the rows leave on the debit side. -/
def net (rows : List LedgerRow) : ℤ := debits rows - credits rows

/-- The balance of an account with this normal side, where it lies on the other one. -/
def contraBalance (side : NormalBalance) (account : ChartAccount) (rows : List LedgerRow) : ℤ :=
  if account.normalBalance = side then
    match side with
    | .debit => max (-net rows) 0
    | .credit => max (net rows) 0
  else 0

def contraTotal (side : NormalBalance) (chart : Chart) (rows : List LedgerRow) : ℤ :=
  (chart.active.map fun account => contraBalance side account (ofAccount account rows)).sum

/-- The rows of accounts that the report does not list. -/
def unlisted (chart : Chart) (rows : List LedgerRow) : List LedgerRow :=
  rows.filter fun row => row.accountId ∉ chart.active.map (·.id)

theorem net_eq_sum (rows : List LedgerRow) :
    net rows = (rows.map fun row => row.debitAmount - row.creditAmount).sum := by
  induction rows with
  | nil => rfl
  | cons row rows ih =>
    simp only [net, debits, credits, List.map_cons, List.sum_cons] at ih ⊢
    omega

/-- The two columns of an account show its net balance, apart from what is clamped. -/
theorem trialBalance_net (account : ChartAccount) (rows : List LedgerRow) :
    (trialBalance account rows).debitBalance + contraBalance .credit account rows =
      (trialBalance account rows).creditBalance + contraBalance .debit account rows +
        net rows := by
  unfold trialBalance contraBalance net
  cases account.normalBalance with
  | debit =>
    simp
    omega
  | credit =>
    simp
    omega

theorem net_split (p : LedgerRow → Prop) [DecidablePred p] (rows : List LedgerRow) :
    net (rows.filter fun row => p row) + net (rows.filter fun row => ¬ p row) = net rows := by
  simp only [net_eq_sum, ← List.sum_append, ← List.map_append]
  have parts := List.filter_append_perm (fun row => decide (p row)) rows
  simp only [← decide_not] at parts
  exact (parts.map _).sum_eq

/-- The listed accounts and the others make up all rows. -/
theorem net_listed (chart : Chart) (rows : List LedgerRow) :
    (chart.active.map fun account => net (ofAccount account rows)).sum +
      net (unlisted chart rows) = net rows := by
  have nodup : (chart.active.map (·.id)).Nodup := chart.nodup.sublist (List.filter_sublist.map _)
  have listed := Tally.sum_by_key nodup (·.accountId)
    (fun row => row.debitAmount - row.creditAmount) rows
  have accounts : (chart.active.map fun account => net (ofAccount account rows)).sum =
      net (rows.filter fun row => row.accountId ∈ chart.active.map (·.id)) := by
    rw [net_eq_sum, ← listed, List.map_map]
    simp only [Function.comp_def, ← net_eq_sum, ofAccount]
  rw [accounts, unlisted, net_split]

/-- The order of the report does not matter for a column. -/
theorem sum_getTrialBalance (part : TrialBalance → ℤ) (chart : Chart) (ledger : List DatedRow)
    (asOfDate : String) : ((getTrialBalance chart ledger asOfDate).map part).sum =
      (chart.active.map fun account =>
        part (trialBalance account (ofAccount account (asOf asOfDate ledger)))).sum := by
  rw [getTrialBalance, ((List.mergeSort_perm _ _).map part).sum_eq, List.map_map]
  rfl

/-- With any chart of accounts, after every run of postings and up to any date: the two
columns have the same sum exactly when the balances on the other side of debit accounts exceed
those of credit accounts by what the rows of unlisted accounts leave on the debit side. -/
theorem trial_balance_iff (chart : Chart) (calls : List Call) (asOfDate : String) :
    let ledger := calls.foldl postDated []
    let rows := asOf asOfDate ledger
    debitColumn (getTrialBalance chart ledger asOfDate) =
        creditColumn (getTrialBalance chart ledger asOfDate) ↔
      contraTotal .debit chart rows - contraTotal .credit chart rows =
        net (unlisted chart rows) := by
  intro ledger rows
  have balanced : net rows = 0 := by
    have h := balanced_asOf asOfDate calls
    unfold Balanced at h
    exact sub_eq_zero.2 h
  have columns : debitColumn (getTrialBalance chart ledger asOfDate) +
      contraTotal .credit chart rows = creditColumn (getTrialBalance chart ledger asOfDate) +
        contraTotal .debit chart rows + (chart.active.map fun account =>
          net (ofAccount account rows)).sum := by
    simp only [debitColumn, creditColumn, sum_getTrialBalance, contraTotal,
      ← List.sum_map_add, trialBalance_net, rows]
  have whole := net_listed chart rows
  omega

/-! ## A balance on the other side -/

def cashAccounts : List ChartAccount :=
  [⟨"1000", "1000", "Cash and Cash Equivalents", "asset", .debit, true⟩,
    ⟨"1100", "1100", "Mobile Money Float", "asset", .debit, true⟩]

theorem cashAccounts_nodup : (cashAccounts.map ChartAccount.id).Nodup := by decide

def cashChart : Chart := ⟨cashAccounts, cashAccounts_nodup⟩

def cashSession : Session :=
  { accounts := fun code => some ⟨code, true⟩
    accountsAtInsert := fun code => some ⟨code, true⟩
    refuses := fun _ => false
    hasSettlement := true
    currentDate := "2026-01-01"
    commit := .done }

/-- 100 are drawn from the float before anything has been paid in. -/
def drawFloat : Call :=
  { session := cashSession
    args := ⟨"FLOAT-1", "Float to cash", none, none⟩
    entries := [⟨"1000", some (.ofRat 100), none, none, none⟩,
      ⟨"1100", none, some (.ofRat 100), none, none⟩] }

theorem trial_balance_disagrees : ¬ ∀ (chart : Chart) (calls : List Call) (asOfDate : String),
    debitColumn (getTrialBalance chart (calls.foldl postDated []) asOfDate) =
      creditColumn (getTrialBalance chart (calls.foldl postDated []) asOfDate) := by
  intro law
  have same := law cashChart [drawFloat] "2026-01-01"
  rw [debitColumn, creditColumn, sum_getTrialBalance, sum_getTrialBalance] at same
  revert same
  decide +kernel

end MobileMoney.Ledger
