import Mathlib.Tactic.Common
import MobileMoney.Library.Answers
import MobileMoney.Library.Runs

/-!
# Transaction statuses

`updateStatus` writes only along `ALLOWED_STATUS_TRANSITIONS`; a refused update leaves the
row as it is and answers false, which its callers in the queue workers ignore.

`TransactionModel.updateStatus` touches the row in one conditional statement, so a run of calls on
one transaction is the list of their statements in the order in which the database executes them.
A call reports success when its statement has found the row. What it does after the statement
(caches, events) changes neither the row nor the report and is left out.
-/

namespace MobileMoney.Queue

inductive TransactionStatus where
  | pending | processing | completed | failed | cancelled | review | pendingReview
  | dispute | reversed | clawedBack | expired
  deriving DecidableEq, Repr

/-- `ALLOWED_STATUS_TRANSITIONS`. -/
def allowedStatusTransitions : TransactionStatus → List TransactionStatus
  | .pending => [.pending, .processing, .completed, .failed, .cancelled, .review,
      .pendingReview, .expired]
  | .pendingReview => [.pendingReview, .pending, .cancelled, .failed]
  | .processing => [.processing, .completed, .failed, .cancelled, .review, .pending, .expired]
  | .review => [.review, .processing, .completed, .failed, .cancelled]
  | .completed => [.completed, .dispute, .reversed, .clawedBack]
  | .failed => [.failed, .review]
  | .cancelled => [.cancelled]
  | .dispute => [.dispute, .completed, .reversed, .clawedBack, .failed]
  | .reversed => [.reversed]
  | .clawedBack => [.clawedBack]
  | .expired => [.expired, .failed]

/-- The status of a row after `updateStatus`, without a list of expected statuses. -/
def updateStatus (old new : TransactionStatus) : TransactionStatus :=
  if old = new ∨ new ∈ allowedStatusTransitions old then new else old

theorem updateStatus_cases (old new : TransactionStatus) :
    updateStatus old new = new ∧ (old = new ∨ new ∈ allowedStatusTransitions old) ∨
      updateStatus old new = old := by
  unfold updateStatus
  split_ifs with h
  · exact .inl ⟨rfl, h⟩
  · exact .inr rfl

/-- A status with no way out but itself. -/
def TransactionStatus.isFinal (status : TransactionStatus) : Bool :=
  (allowedStatusTransitions status).all (· = status)

theorem updateStatus_of_isFinal {old : TransactionStatus} (h : old.isFinal = true)
    (new : TransactionStatus) : updateStatus old new = old := by
  cases old <;> cases new <;> first | rfl | cases h

/-- Nothing but a completed transaction or a dispute is ever reversed. -/
theorem updateStatus_reversed (old : TransactionStatus) :
    updateStatus old .reversed = .reversed ↔ old = .completed ∨ old = .dispute ∨
      old = .reversed := by
  cases old <;> decide

/-! ## Concurrent status updates -/

variable {U : Type}

/-- The row, with the changes of its status and the successes that calls have reported. -/
structure StatusHistory (U : Type) where
  userId : U
  status : TransactionStatus
  changes : List (TransactionStatus × TransactionStatus)
  successes : List TransactionStatus
  deriving DecidableEq

/-- The arguments of a call. -/
structure StatusUpdate (U : Type) where
  status : TransactionStatus
  userId : Option U
  expectedPreviousStatuses : Option (List TransactionStatus)

/-- `Object.keys(ALLOWED_STATUS_TRANSITIONS)`. -/
def allStatuses : List TransactionStatus :=
  [.pending, .pendingReview, .processing, .review, .completed, .failed, .cancelled, .dispute,
    .reversed, .clawedBack, .expired]

def StatusUpdate.validPreviousStatuses (update : StatusUpdate U) : List TransactionStatus :=
  update.expectedPreviousStatuses.getD
    (allStatuses.filter fun prev => update.status ∈ allowedStatusTransitions prev)

/-- The row meets the `WHERE` clause. -/
def StatusUpdate.Accepts (update : StatusUpdate U) (row : StatusHistory U) : Prop :=
  (row.status = update.status ∨ row.status ∈ update.validPreviousStatuses) ∧
    ∀ userId ∈ update.userId, row.userId = userId

instance [DecidableEq U] (update : StatusUpdate U) (row : StatusHistory U) :
    Decidable (update.Accepts row) :=
  inferInstanceAs (Decidable (_ ∧ ∀ userId ∈ update.userId, _))

/-- The statement has found the row: its status is set, and changed if it was another. -/
def StatusHistory.set (row : StatusHistory U) (status : TransactionStatus) : StatusHistory U :=
  { row with
    status := status
    changes := if row.status = status then row.changes else row.changes ++ [(row.status, status)] }

def StatusHistory.step [DecidableEq U] (row : StatusHistory U)
    (call : StatusUpdate U × DbAnswer) : StatusHistory U :=
  if call.1.Accepts row ∧ call.2.executed then
    { row.set call.1.status with
      successes :=
        if call.2 = .answered then row.successes ++ [call.1.status] else row.successes }
  else row

/-! ### The edges -/

theorem mem_allStatuses (status : TransactionStatus) : status ∈ allStatuses := by
  cases status <;> decide

theorem self_mem_allowedStatusTransitions (status : TransactionStatus) :
    status ∈ allowedStatusTransitions status := by
  cases status <;> decide

/-- Without a list of its own a call follows the table. -/
theorem mem_allowed_of_accepts {update : StatusUpdate U} {row : StatusHistory U}
    (h : update.Accepts row) (hdefault : update.expectedPreviousStatuses = none) :
    update.status ∈ allowedStatusTransitions row.status := by
  rcases h.1 with hsame | hvalid
  · rw [hsame]
    exact self_mem_allowedStatusTransitions _
  · rw [StatusUpdate.validPreviousStatuses, hdefault] at hvalid
    exact of_decide_eq_true (List.mem_filter.1 hvalid).2

/-- The row that such a call leaves is the one of the workers' model. -/
theorem step_status_eq_updateStatus [DecidableEq U] {row : StatusHistory U}
    {status : TransactionStatus} :
    (row.step (⟨status, none, none⟩, .answered)).status = updateStatus row.status status := by
  have haccepts : (⟨status, none, none⟩ : StatusUpdate U).Accepts row ↔
      row.status = status ∨ status ∈ allowedStatusTransitions row.status := by
    simp [StatusUpdate.Accepts, StatusUpdate.validPreviousStatuses, mem_allStatuses]
  unfold StatusHistory.step updateStatus
  simp only [haccepts, DbAnswer.executed_answered, and_true]
  split_ifs <;> rfl

/-! ### The law -/

/-- The status has followed the table, and every change has been reported by one call. -/
structure StatusHistory.Conforms (row : StatusHistory U) : Prop where
  edges : ∀ change ∈ row.changes, change.2 ∈ allowedStatusTransitions change.1
  successes : row.successes = row.changes.map (·.2)

/-- A statement that finds the row changes its status and is answered, or it repeats the status and
its answer is lost; and a list of the caller's own has the status of the row only where the table
has the edge. Nothing is asked of the edges of a call without such a list. -/
def Exact (row : StatusHistory U) (call : StatusUpdate U × DbAnswer) : Prop :=
  call.1.Accepts row → call.2.executed = true →
    (row.status ≠ call.1.status ↔ call.2 = .answered) ∧
      ∀ expected ∈ call.1.expectedPreviousStatuses, row.status ∈ expected →
        call.1.status ∈ allowedStatusTransitions row.status

instance [DecidableEq U] (row : StatusHistory U) (call : StatusUpdate U × DbAnswer) :
    Decidable (Exact row call) :=
  inferInstanceAs (Decidable (_ → _ → _ ∧ ∀ expected ∈ call.1.expectedPreviousStatuses, _ → _))

section Law

variable {row : StatusHistory U}

/-- The `WHERE` clause keeps a call to the table, or to the list of its caller. -/
theorem edge_iff_of_accepts {update : StatusUpdate U} (haccepts : update.Accepts row) :
    update.status ∈ allowedStatusTransitions row.status ↔
      ∀ expected ∈ update.expectedPreviousStatuses, row.status ∈ expected →
        update.status ∈ allowedStatusTransitions row.status := by
  refine ⟨fun hedge _ _ _ => hedge, fun hlisted => ?_⟩
  cases hexpected : update.expectedPreviousStatuses with
  | none => exact mem_allowed_of_accepts haccepts hexpected
  | some expected =>
    rcases haccepts.1 with hsame | hvalid
    · rw [hsame]
      exact self_mem_allowedStatusTransitions _
    · rw [StatusUpdate.validPreviousStatuses, hexpected] at hvalid
      exact hlisted expected hexpected hvalid

/-- A statement that changes the status keeps to the law if it is answered and follows the table. -/
theorem conforms_set_iff {status : TransactionStatus} {answer : DbAnswer} (h : row.Conforms)
    (hne : row.status ≠ status) :
    ({ row.set status with
        successes := if answer = .answered then row.successes ++ [status] else row.successes } :
      StatusHistory U).Conforms ↔
      answer = .answered ∧ status ∈ allowedStatusTransitions row.status := by
  constructor
  · rintro ⟨hedges, hsuccesses⟩
    simp only [StatusHistory.set, hne, if_false] at hedges hsuccesses
    refine ⟨?_, hedges (row.status, status) (by simp)⟩
    by_contra hanswer
    simp [hanswer, h.successes] at hsuccesses
  · rintro ⟨rfl, hedge⟩
    refine ⟨?_, by simp [StatusHistory.set, hne, h.successes]⟩
    simp only [StatusHistory.set, hne, if_false]
    intro change hchange
    rcases List.mem_append.1 hchange with hchange | hchange
    · exact h.edges change hchange
    · rw [List.mem_singleton.1 hchange]
      exact hedge

variable [DecidableEq U] {call : StatusUpdate U × DbAnswer}

theorem conforms_step_iff (h : row.Conforms) : (row.step call).Conforms ↔ Exact row call := by
  obtain ⟨update, answer⟩ := call
  unfold StatusHistory.step Exact
  by_cases hfound : update.Accepts row ∧ answer.executed = true
  · rw [if_pos hfound]
    simp only [hfound.1, hfound.2, true_imp_iff]
    rw [← edge_iff_of_accepts hfound.1]
    by_cases hsame : row.status = update.status
    · -- A repeated status changes nothing, and is a success too many if it is answered.
      have hedge : update.status ∈ allowedStatusTransitions row.status := by
        rw [hsame]
        exact self_mem_allowedStatusTransitions _
      constructor
      · rintro ⟨-, hsuccesses⟩
        refine ⟨?_, hedge⟩
        simp only [StatusHistory.set, hsame, if_true, ← h.successes] at hsuccesses
        simpa [hsame] using hsuccesses
      · rintro ⟨hanswer, -⟩
        have hlost : answer ≠ .answered := fun heq => hanswer.2 heq hsame
        refine ⟨?_, ?_⟩
        · simpa [StatusHistory.set, hsame] using h.edges
        · simpa [StatusHistory.set, hsame, hlost] using h.successes
    · rw [conforms_set_iff h hsame]
      simp [hsame]
  · rw [if_neg hfound]
    exact iff_of_true h fun haccepts hexecuted => absurd ⟨haccepts, hexecuted⟩ hfound

/-- A transaction that nobody has updated yet. -/
def newTransaction (userId : U) (status : TransactionStatus) : StatusHistory U :=
  ⟨userId, status, [], []⟩

/-- Over any calls the status follows the table and every change is reported as the success of
one call, just when each statement that finds the row is exact. -/
theorem status_updates_conform_iff (userId : U) (status : TransactionStatus)
    (calls : List (StatusUpdate U × DbAnswer)) :
    (∀ pre, pre <+: calls →
        (pre.foldl StatusHistory.step (newTransaction userId status)).Conforms) ↔
      Runs.Every StatusHistory.step Exact (newTransaction userId status) calls :=
  Runs.forall_prefix_iff_every (fun _ => True) StatusHistory.Conforms (fun _ _ _ => trivial)
    (fun _ _ _ h => conforms_step_iff h) trivial ⟨by simp [newTransaction], rfl⟩ calls

end Law

/-- Two calls of a compliance officer release the held transaction, and both report success. -/
theorem released_twice :
    let release : StatusUpdate ℕ × DbAnswer :=
      (⟨.pending, none, some [.pendingReview]⟩, .answered)
    [release, release].foldl StatusHistory.step (newTransaction 0 .pendingReview) =
      ⟨0, .pending, [(.pendingReview, .pending)], [.pending, .pending]⟩ := by
  decide

end MobileMoney.Queue
