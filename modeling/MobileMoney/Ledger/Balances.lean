import MobileMoney.Ledger.TrialBalance

/-!
# Account balances

`get_account_balance`, `get_available_balance` and `get_pending_balance` of the database sum the
rows of one account up to a date; `account_balances` keeps the sums of all of them. The two sides
of a posting need not settle on the same date, so the equation of debit and credit accounts holds
for balances, and for what is available only up to what is pending.
-/

namespace MobileMoney.Ledger

open Checked

/-- `code` is unique in `accounts`. -/
structure Accounts where
  chart : Chart
  codes : (chart.rows.map (·.code)).Nodup

/-- The balance on the normal side of an account. -/
def normalNet (account : ChartAccount) (rows : List LedgerRow) : ℤ :=
  match account.normalBalance with
  | .debit => debits rows - credits rows
  | .credit => credits rows - debits rows

/-- `JOIN accounts a ON le.account_id = a.id WHERE a.code = p_account_code`. -/
def ofCode (accounts : Accounts) (code : String) (rows : List LedgerRow) : List LedgerRow :=
  rows.filter fun row => accounts.chart.rows.any fun a => a.id = row.accountId ∧ a.code = code

/-- What the three functions share: the rows that count differ. -/
def balanceOf (counts : DatedRow → Bool) (accounts : Accounts) (ledger : List DatedRow)
    (accountCode : String) : Except SqlError ℤ := do
  let account ← orFail
    (accounts.chart.rows.find? fun a => a.code = accountCode ∧ a.isActive = true)
    (.raised ("Account not found: " ++ accountCode))
  assign (normalNet account (ofCode accounts accountCode ((ledger.filter counts).map (·.row))))

section Settlement

-- What a text is as a `DATE`, again as an ISO text, and the day on which the migration ran.
variable (toDate : String → String) (migrated : String)

/-- Rows from before the migration got its date. -/
def settlementDate (entry : DatedRow) : String :=
  (entry.row.settlementDate.map toDate).getD migrated

def getAccountBalance (accounts : Accounts) (ledger : List DatedRow)
    (accountCode asOfDate : String) : Except SqlError ℤ :=
  balanceOf (fun entry => entry.entryDate ≤ asOfDate) accounts ledger accountCode

def getAvailableBalance (accounts : Accounts) (ledger : List DatedRow)
    (accountCode asOfDate : String) : Except SqlError ℤ :=
  balanceOf (fun entry => entry.entryDate ≤ asOfDate ∧
    settlementDate toDate migrated entry ≤ asOfDate) accounts ledger accountCode

def getPendingBalance (accounts : Accounts) (ledger : List DatedRow)
    (accountCode asOfDate : String) : Except SqlError ℤ :=
  balanceOf (fun entry => entry.entryDate ≤ asOfDate ∧
    asOfDate < settlementDate toDate migrated entry) accounts ledger accountCode

end Settlement

/-- A row of `account_balances`, but for the time of its last entry. -/
structure AccountBalance where
  accountId : String
  code : String
  name : String
  type : String
  normalBalance : NormalBalance
  totalDebits : ℤ
  totalCredits : ℤ
  balance : ℤ
  deriving DecidableEq

/-- `refresh_account_balances`, over active accounts. -/
def accountBalances (accounts : Accounts) (ledger : List DatedRow) : List AccountBalance :=
  accounts.chart.active.map fun account =>
    let rows := ofAccount account (ledger.map (·.row))
    { accountId := account.id
      code := account.code
      name := account.name
      type := account.type
      normalBalance := account.normalBalance
      totalDebits := debits rows
      totalCredits := credits rows
      balance := normalNet account rows }

/-! ## One account -/

theorem normalNet_append (account : ChartAccount) (rows rows' : List LedgerRow) :
    normalNet account (rows ++ rows') = normalNet account rows + normalNet account rows' := by
  unfold normalNet debits credits
  cases account.normalBalance <;>
  · simp only [List.map_append, List.sum_append]
    omega

theorem normalNet_perm (account : ChartAccount) {rows rows' : List LedgerRow}
    (h : rows.Perm rows') : normalNet account rows = normalNet account rows' := by
  have debits_eq : debits rows = debits rows' := (h.map _).sum_eq
  have credits_eq : credits rows = credits rows' := (h.map _).sum_eq
  simp only [normalNet, debits_eq, credits_eq]

/-- The rows joined by a code are those of the account that has it. -/
theorem ofCode_eq (accounts : Accounts) {account : ChartAccount}
    (member : account ∈ accounts.chart.rows) (rows : List LedgerRow) :
    ofCode accounts account.code rows = ofAccount account rows := by
  refine List.filter_congr fun row _ => ?_
  rw [Bool.eq_iff_iff, List.any_eq_true]
  simp only [decide_eq_true_eq]
  constructor
  · rintro ⟨a, ha, hid, hcode⟩
    rw [← List.inj_on_of_nodup_map accounts.codes ha member hcode, hid]
  · intro hid
    exact ⟨account, member, hid.symm, rfl⟩

theorem balanceOf_active (counts : DatedRow → Bool) (accounts : Accounts)
    (ledger : List DatedRow) {account : ChartAccount} (active : account ∈ accounts.chart.active) :
    balanceOf counts accounts ledger account.code =
      assign (normalNet account (ofAccount account ((ledger.filter counts).map (·.row)))) := by
  obtain ⟨member, isActive⟩ := List.mem_filter.1 active
  have found : accounts.chart.rows.find?
      (fun a => a.code = account.code ∧ a.isActive = true) = some account := by
    cases h : accounts.chart.rows.find? fun a => a.code = account.code ∧ a.isActive = true with
    | none => simpa [isActive] using List.find?_eq_none.1 h account member
    | some a =>
      have hcode := List.find?_some h
      simp only [decide_eq_true_eq] at hcode
      have same : a.code = account.code := hcode.1
      rw [List.inj_on_of_nodup_map accounts.codes (List.mem_of_find?_eq_some h) member same]
  rw [balanceOf, found, ofCode_eq accounts member]
  rfl

/-- A code that no active account has is refused alike by all three. -/
theorem balanceOf_unknown (counts : DatedRow → Bool) (accounts : Accounts)
    (ledger : List DatedRow) {code : String}
    (unknown : ∀ account ∈ accounts.chart.active, account.code ≠ code) :
    balanceOf counts accounts ledger code = .error (.raised ("Account not found: " ++ code)) := by
  have none : accounts.chart.rows.find? (fun a => a.code = code ∧ a.isActive = true) = none := by
    refine List.find?_eq_none.2 fun a ha found => ?_
    simp only [decide_eq_true_eq] at found
    exact unknown a (List.mem_filter.2 ⟨ha, found.2⟩) found.1
  rw [balanceOf, none]
  rfl

/-! ## All accounts -/

/-- What the accounts with this normal side have, taken together. -/
def sideTotal (side : NormalBalance) (accounts : Accounts) (balance : ChartAccount → ℤ) : ℤ :=
  ((accounts.chart.active.filter (·.normalBalance = side)).map balance).sum

theorem sideTotal_sub (accounts : Accounts) (balance : ChartAccount → ℤ) :
    sideTotal .debit accounts balance - sideTotal .credit accounts balance =
      (accounts.chart.active.map fun account =>
        match account.normalBalance with
        | .debit => balance account
        | .credit => -balance account).sum := by
  unfold sideTotal
  induction accounts.chart.active with
  | nil => rfl
  | cons account rest ih =>
    cases side : account.normalBalance <;> simp [side] <;> omega

/-- When every balance can be read, they show what all counted rows leave on the debit side, but
for the rows of accounts that cannot be asked for. -/
theorem sideTotal_of_balanceOf (counts : DatedRow → Bool) (accounts : Accounts)
    (ledger : List DatedRow) (balance : ChartAccount → ℤ)
    (readable : ∀ account ∈ accounts.chart.active,
      balanceOf counts accounts ledger account.code = .ok (balance account)) :
    let rows := (ledger.filter counts).map (·.row)
    sideTotal .debit accounts balance - sideTotal .credit accounts balance =
      net rows - net (unlisted accounts.chart rows) := by
  intro rows
  have each : ∀ account ∈ accounts.chart.active,
      (match account.normalBalance with
        | .debit => balance account
        | .credit => -balance account) = net (ofAccount account rows) := by
    intro account active
    have read := readable account active
    rw [balanceOf_active counts accounts ledger active, assign, orFail_eq_ok,
      Decimal.Format.store_eq_some] at read
    rw [← read.1, normalNet, net]
    cases account.normalBalance with
    | debit => rfl
    | credit => exact neg_sub _ _
  rw [sideTotal_sub, List.map_congr_left each, ← net_listed accounts.chart rows]
  exact (add_sub_cancel_right _ _).symm

/-! ## After every run of postings -/

/-- A row that counts is available or pending. -/
theorem settled_or_pending (toDate : String → String) (migrated asOfDate : String)
    (ledger : List DatedRow) :
    (((ledger.filter fun entry => entry.entryDate ≤ asOfDate ∧
          settlementDate toDate migrated entry ≤ asOfDate).map (·.row)) ++
        ((ledger.filter fun entry => entry.entryDate ≤ asOfDate ∧
          asOfDate < settlementDate toDate migrated entry).map (·.row))).Perm
      (asOf asOfDate ledger) := by
  rw [asOf, ← List.map_append]
  refine List.Perm.map _ ?_
  have split := List.filter_append_perm
    (fun entry => decide (settlementDate toDate migrated entry ≤ asOfDate))
    (ledger.filter fun entry => entry.entryDate ≤ asOfDate)
  simp only [List.filter_filter, ← decide_not] at split
  simpa only [Bool.decide_and, Bool.and_comm, String.not_le] using split

theorem normalNet_settled (account : ChartAccount) (toDate : String → String)
    (migrated asOfDate : String) (ledger : List DatedRow) :
    normalNet account (ofAccount account ((ledger.filter fun entry => entry.entryDate ≤ asOfDate ∧
          settlementDate toDate migrated entry ≤ asOfDate).map (·.row))) +
        normalNet account (ofAccount account ((ledger.filter fun entry =>
          entry.entryDate ≤ asOfDate ∧
            asOfDate < settlementDate toDate migrated entry).map (·.row))) =
      normalNet account (ofAccount account (asOf asOfDate ledger)) := by
  rw [← normalNet_append, ofAccount, ofAccount, ← List.filter_append]
  exact normalNet_perm account ((settled_or_pending toDate migrated asOfDate ledger).filter _)

theorem net_append (rows rows' : List LedgerRow) : net (rows ++ rows') = net rows + net rows' := by
  simp only [net_eq_sum, List.map_append, List.sum_append]

theorem net_perm {rows rows' : List LedgerRow} (h : rows.Perm rows') : net rows = net rows' := by
  simp only [net_eq_sum, (h.map _).sum_eq]

/-- After every run of postings and on any date. An account's balance is what is available and what
is pending; a code without an active account is refused by all. Debit and credit accounts balance,
but for accounts that cannot be asked for, and what is available is out of balance by as much as
what is pending, the other way round. The view has the balances of any date that no row comes
after. -/
theorem account_balances (accounts : Accounts) (calls : List Call) (toDate : String → String)
    (migrated asOfDate : String) :
    let ledger := calls.foldl postDated []
    let available := getAvailableBalance toDate migrated accounts ledger
    let pending := getPendingBalance toDate migrated accounts ledger
    (∀ account ∈ accounts.chart.active, ∃ a p, available account.code asOfDate = assign a ∧
      pending account.code asOfDate = assign p ∧
      getAccountBalance accounts ledger account.code asOfDate = assign (a + p)) ∧
    (∀ code, (∀ account ∈ accounts.chart.active, account.code ≠ code) →
      let refused := .error (.raised ("Account not found: " ++ code))
      available code asOfDate = refused ∧ pending code asOfDate = refused ∧
        getAccountBalance accounts ledger code asOfDate = refused) ∧
    (∀ balance : ChartAccount → ℤ,
      (∀ account ∈ accounts.chart.active,
        getAccountBalance accounts ledger account.code asOfDate = .ok (balance account)) →
      sideTotal .debit accounts balance - sideTotal .credit accounts balance =
        -net (unlisted accounts.chart (asOf asOfDate ledger))) ∧
    (∀ a p : ChartAccount → ℤ,
      (∀ account ∈ accounts.chart.active, available account.code asOfDate = .ok (a account) ∧
        pending account.code asOfDate = .ok (p account)) →
      (sideTotal .debit accounts a - sideTotal .credit accounts a) +
          (sideTotal .debit accounts p - sideTotal .credit accounts p) =
        -net (unlisted accounts.chart (asOf asOfDate ledger))) ∧
    ((∀ entry ∈ ledger, entry.entryDate ≤ asOfDate) →
      ∀ row ∈ accountBalances accounts ledger,
        getAccountBalance accounts ledger row.code asOfDate = assign row.balance) := by
  intro ledger available pending
  have balanced : net (asOf asOfDate ledger) = 0 := sub_eq_zero.2 (balanced_asOf asOfDate calls)
  have equation (balance : ChartAccount → ℤ) (readable : ∀ account ∈ accounts.chart.active,
      getAccountBalance accounts ledger account.code asOfDate = .ok (balance account)) :
      sideTotal .debit accounts balance - sideTotal .credit accounts balance =
        -net (unlisted accounts.chart (asOf asOfDate ledger)) := by
    rw [sideTotal_of_balanceOf _ accounts ledger balance readable]
    exact (congrArg (· - _) balanced).trans (zero_sub _)
  refine ⟨?_, ?_, equation, ?_, ?_⟩
  · intro account active
    refine ⟨_, _, balanceOf_active _ accounts ledger active,
      balanceOf_active _ accounts ledger active, ?_⟩
    rw [normalNet_settled]
    exact balanceOf_active _ accounts ledger active
  · intro code unknown
    exact ⟨balanceOf_unknown _ accounts ledger unknown, balanceOf_unknown _ accounts ledger unknown,
      balanceOf_unknown _ accounts ledger unknown⟩
  · intro a p readable
    have settled := sideTotal_of_balanceOf _ accounts ledger a fun account h =>
      (readable account h).1
    have unsettled := sideTotal_of_balanceOf _ accounts ledger p fun account h =>
      (readable account h).2
    have parts := settled_or_pending toDate migrated asOfDate ledger
    have whole := net_perm parts
    have left := net_perm (parts.filter fun row => row.accountId ∉ accounts.chart.active.map (·.id))
    rw [net_append] at whole
    rw [List.filter_append, net_append] at left
    rw [settled, unsettled]
    unfold unlisted
    omega
  · intro past row hrow
    obtain ⟨account, active, rfl⟩ := List.mem_map.1 hrow
    have all : ledger.filter (fun entry => entry.entryDate ≤ asOfDate) = ledger :=
      List.filter_eq_self.2 fun entry h => decide_eq_true (past entry h)
    refine (balanceOf_active _ accounts ledger active).trans ?_
    rw [all]

end MobileMoney.Ledger
