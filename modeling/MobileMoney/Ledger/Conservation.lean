import MobileMoney.Ledger.Program
import MobileMoney.Library.Runs
import Mathlib.Algebra.BigOperators.Group.List.Basic

/-!
# The ledger balances

The rows of one accepted call are cast from the same amounts that the database has
summed, so they balance exactly, whatever the client's float check let through. A run of
calls appends such groups of rows and nothing else.
-/

namespace MobileMoney.Ledger

open Binary64 Checked

def debits (rows : List LedgerRow) : ℤ := (rows.map (·.debitAmount)).sum

def credits (rows : List LedgerRow) : ℤ := (rows.map (·.creditAmount)).sum

def Balanced (rows : List LedgerRow) : Prop := debits rows = credits rows

/-- Exactly one side is positive and the other is zero. -/
def OneSided (row : LedgerRow) : Prop :=
  (0 < row.debitAmount ∧ row.creditAmount = 0) ∨ (0 < row.creditAmount ∧ row.debitAmount = 0)

theorem Balanced.append {rows rows' : List LedgerRow} (h : Balanced rows)
    (h' : Balanced rows') : Balanced (rows ++ rows') := by
  unfold Balanced debits credits at *
  simp only [List.map_append, List.sum_append]
  omega

/-! ## One call -/

/-- What a row of a successful insertion satisfies. -/
structure Inserted (args : PostArgs) (entry : LedgerEntry) (row : LedgerRow) : Prop where
  debit : columnAmount entry.debitAmount = .ok row.debitAmount
  credit : columnAmount entry.creditAmount = .ok row.creditAmount
  oneSided : OneSided row
  transactionId : row.transactionId = args.transactionId
  referenceNumber : row.referenceNumber = args.referenceNumber

theorem insertEntry_eq_ok {session : Session} {args : PostArgs} {entry : LedgerEntry}
    {row : LedgerRow} (h : insertEntry session args entry = .ok row) :
    Inserted args entry row := by
  simp only [insertEntry, bind_eq_ok, orFail_eq_ok, require_eq_ok, pure_eq_ok,
    exists_const] at h
  obtain ⟨account, -, debit, hdebit, credit, hcredit, hchecks, -, rfl⟩ := h
  refine ⟨hdebit, hcredit, ?_, rfl, rfl⟩
  simp only [rowChecks, Bool.and_eq_true, Bool.or_eq_true, decide_eq_true_eq,
    beq_iff_eq] at hchecks
  exact hchecks.2

/-- The totals the database compares are the sums of the rows it inserts. -/
theorem accumulate_rows {session : Session} {args : PostArgs} {entries : List LedgerEntry}
    {totals totals' : ℤ × ℤ} {rows : List LedgerRow}
    (ha : accumulate session totals entries = .ok totals')
    (hr : List.Forall₂ (Inserted args) entries rows) :
    totals'.1 = totals.1 + debits rows ∧ totals'.2 = totals.2 + credits rows := by
  induction hr generalizing totals with
  | nil =>
    simp only [accumulate, Except.ok.injEq] at ha
    subst ha
    simp [debits, credits]
  | cons hrow _ ih =>
    simp only [accumulate, assign, bind_eq_ok, require_eq_ok, orFail_eq_ok,
      Decimal.Format.store_eq_some, exists_const] at ha
    obtain ⟨-, debit, hdebit, _, ⟨rfl, -⟩, credit, hcredit, _, ⟨rfl, -⟩, hrest⟩ := ha
    obtain rfl : debit = _ := Except.ok.inj (hdebit.symm.trans hrow.debit)
    obtain rfl : credit = _ := Except.ok.inj (hcredit.symm.trans hrow.credit)
    obtain ⟨h₁, h₂⟩ := ih hrest
    simp only [debits, credits, List.map_cons, List.sum_cons] at h₁ h₂ ⊢
    omega

/-- The rows of one accepted call. -/
structure Posting (args : PostArgs) (rows : List LedgerRow) : Prop where
  balanced : Balanced rows
  oneSided : ∀ row ∈ rows, OneSided row
  transactionId : ∀ row ∈ rows, row.transactionId = args.transactionId
  referenceNumber : ∀ row ∈ rows, row.referenceNumber = args.referenceNumber

theorem sql_postTransaction_eq_ok {session : Session} {args : PostArgs}
    {entries : List LedgerEntry} {rows : List LedgerRow}
    (h : Sql.postTransaction session args entries = .ok rows) : Posting args rows := by
  simp only [Sql.postTransaction, bind_eq_ok, require_eq_ok, exists_const] at h
  obtain ⟨-, -, ⟨totalDebits, totalCredits⟩, ha, hequal, -, hrows⟩ := h
  have inserted : List.Forall₂ (Inserted args) entries rows :=
    (mapM_eq_ok.1 hrows).imp fun _ _ => insertEntry_eq_ok
  have every : ∀ row ∈ rows, ∃ entry, Inserted args entry row := by
    intro row hrow
    obtain ⟨entry, -, hentry⟩ := exists_of_mem_mapM hrows hrow
    exact ⟨entry, insertEntry_eq_ok hentry⟩
  obtain ⟨h₁, h₂⟩ := accumulate_rows ha inserted
  refine ⟨?_, ?_, ?_, ?_⟩
  · unfold Balanced
    simp only [zero_add] at h₁ h₂ hequal
    omega
  · intro row hrow
    obtain ⟨entry, hentry⟩ := every row hrow
    exact hentry.oneSided
  · intro row hrow
    obtain ⟨entry, hentry⟩ := every row hrow
    exact hentry.transactionId
  · intro row hrow
    obtain ⟨entry, hentry⟩ := every row hrow
    exact hentry.referenceNumber

/-- A call that does not commit adds nothing; one that does appends a posting. -/
theorem postTransaction_cases (session : Session) (args : PostArgs)
    (entries : List LedgerEntry) (ledger : LedgerEntries) :
    (postTransaction session args entries ledger).1 = ledger ∨ ∃ rows,
      (postTransaction session args entries ledger).1 = ledger ++ rows ∧
        Posting args.orNull rows := by
  unfold postTransaction
  split
  · exact .inl rfl
  · split
    · exact .inl rfl
    · next rows hrows =>
      have posting := sql_postTransaction_eq_ok hrows
      cases session.commit with
      | done | unacknowledged => exact .inr ⟨rows, rfl, posting⟩
      | failed => exact .inl rfl

/-- Neither the client's check nor an error in the database leaves rows behind. -/
theorem postTransaction_rejected {session : Session} {args : PostArgs}
    {entries : List LedgerEntry} {ledger : LedgerEntries}
    (h : (∃ e, (postTransaction session args entries ledger).2 = .error (.invalid e)) ∨
      ∃ e, (postTransaction session args entries ledger).2 = .error (.sql e)) :
    (postTransaction session args entries ledger).1 = ledger := by
  revert h
  unfold postTransaction
  split
  · exact fun _ => rfl
  · split
    · exact fun _ => rfl
    · cases session.commit with
      | failed => exact fun _ => rfl
      | done | unacknowledged => rintro (⟨e, ⟨⟩⟩ | ⟨e, ⟨⟩⟩)

/-! ## Every sequence of calls -/

/-- One call of `postTransaction` and the database it meets. -/
structure Call where
  session : Session
  args : PostArgs
  entries : List LedgerEntry

def Call.post (call : Call) (ledger : LedgerEntries) :
    LedgerEntries × Except PostFailure (List PostedEntry) :=
  postTransaction call.session call.args call.entries ledger

def step (ledger : LedgerEntries) (call : Call) : LedgerEntries := (call.post ledger).1

/-- Rows come in groups that balance, one group for each call that was posted. -/
def Grouped (ledger : LedgerEntries) : Prop :=
  ∃ postings : List (List LedgerRow), ledger = postings.flatten ∧
    ∀ rows ∈ postings, ∃ args, Posting args rows

theorem step_grouped (ledger : LedgerEntries) (call : Call) (h : Grouped ledger) :
    Grouped (step ledger call) := by
  obtain ⟨postings, rfl, hpostings⟩ := h
  rcases postTransaction_cases call.session call.args call.entries postings.flatten with
    same | ⟨rows, appended, posting⟩
  · exact ⟨postings, same, hpostings⟩
  · refine ⟨postings ++ [rows], ?_, ?_⟩
    · rw [List.flatten_append, List.flatten_singleton]
      exact appended
    · intro rows' hrows'
      rcases List.mem_append.1 hrows' with h | h
      · exact hpostings rows' h
      · rw [List.mem_singleton.1 h]
        exact ⟨_, posting⟩

/-- Selecting rows by something that is constant within each posting keeps the balance. -/
theorem Grouped.balanced_filter {ledger : LedgerEntries} (h : Grouped ledger)
    (p : LedgerRow → Bool)
    (uniform : ∀ args rows, Posting args rows →
      (∀ row ∈ rows, p row = true) ∨ ∀ row ∈ rows, p row = false) :
    Balanced (ledger.filter p) := by
  obtain ⟨postings, rfl, hpostings⟩ := h
  induction postings with
  | nil => rfl
  | cons rows postings ih =>
    obtain ⟨args, posting⟩ := hpostings rows List.mem_cons_self
    have rest := ih fun rows' h => hpostings rows' (List.mem_cons_of_mem _ h)
    rw [List.flatten_cons, List.filter_append]
    refine Balanced.append ?_ rest
    rcases uniform args rows posting with all | none
    · rw [List.filter_eq_self.2 all]
      exact posting.balanced
    · rw [List.filter_eq_nil_iff.2 (by simpa using none)]
      rfl

theorem uniform_of_constant {β : Type} [DecidableEq β] (key : LedgerRow → β) (b c : β)
    {rows : List LedgerRow} (h : ∀ row ∈ rows, key row = c) :
    (∀ row ∈ rows, decide (key row = b) = true) ∨ ∀ row ∈ rows, decide (key row = b) = false := by
  by_cases hbc : c = b
  · left
    intro row hrow
    simp [h row hrow, hbc]
  · right
    intro row hrow
    simp [h row hrow, hbc]

/-- After every sequence of calls the ledger balances as a whole, row by row and
transaction by transaction, and a rejected call adds nothing. -/
theorem ledger_safe (calls : List Call) :
    let ledger := calls.foldl step []
    debits ledger = credits ledger ∧
    (∀ row ∈ ledger, OneSided row ∧ 0 ≤ row.debitAmount ∧ 0 ≤ row.creditAmount) ∧
    (∃ postings : List (List LedgerRow), ledger = postings.flatten ∧
      ∀ rows ∈ postings, Balanced rows ∧ ∃ transactionId referenceNumber, ∀ row ∈ rows,
        row.transactionId = transactionId ∧ row.referenceNumber = referenceNumber) ∧
    (∀ transactionId,
      Balanced (ledger.filter fun row => decide (row.transactionId = transactionId))) ∧
    (∀ referenceNumber,
      Balanced (ledger.filter fun row => decide (row.referenceNumber = referenceNumber))) ∧
    (∀ call : Call, (∃ e, (call.post ledger).2 = .error (.invalid e)) ∨
      (∃ e, (call.post ledger).2 = .error (.sql e)) → step ledger call = ledger) := by
  have grouped : Grouped (calls.foldl step []) :=
    Runs.inv_foldl Grouped step_grouped ⟨[], rfl, by simp⟩ calls
  refine ⟨?_, ?_, ?_, ?_, ?_, ?_⟩
  · have whole := grouped.balanced_filter (fun _ => true) (fun _ _ _ => .inl fun _ _ => rfl)
    rwa [List.filter_eq_self.2 fun _ _ => rfl] at whole
  · intro row hrow
    obtain ⟨postings, hledger, hpostings⟩ := grouped
    rw [hledger, List.mem_flatten] at hrow
    obtain ⟨rows, hrows, hmem⟩ := hrow
    obtain ⟨args, posting⟩ := hpostings rows hrows
    have side := posting.oneSided row hmem
    refine ⟨side, ?_⟩
    unfold OneSided at side
    omega
  · obtain ⟨postings, hledger, hpostings⟩ := grouped
    refine ⟨postings, hledger, ?_⟩
    intro rows hrows
    obtain ⟨args, posting⟩ := hpostings rows hrows
    exact ⟨posting.balanced, args.transactionId, args.referenceNumber, fun row hrow =>
      ⟨posting.transactionId row hrow, posting.referenceNumber row hrow⟩⟩
  · intro transactionId
    exact grouped.balanced_filter _ fun args rows posting =>
      uniform_of_constant (·.transactionId) transactionId args.transactionId
        posting.transactionId
  · intro referenceNumber
    exact grouped.balanced_filter _ fun args rows posting =>
      uniform_of_constant (·.referenceNumber) referenceNumber args.referenceNumber
        posting.referenceNumber
  · intro call rejected
    exact postTransaction_rejected rejected

end MobileMoney.Ledger
