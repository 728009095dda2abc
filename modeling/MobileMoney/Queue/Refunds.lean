import MobileMoney.Library.Ownership
import MobileMoney.Queue.Worker.Payments
import MobileMoney.Queue.Worker.Program

/-!
# The refund worker

`refundWorker` for one transaction: the scans that look for failed payouts and queue a
refund, and the attempts of the queued job with the handler of their failure. Any number of
scans and attempts run beside each other; the queue hands a job out again after a failure or
when it takes a worker for dead, so once it was queued an attempt may begin at any time. A
turn is one awaited call, and a crash is a process that takes no further turn. Reasons,
error texts and times are left out.

Nothing claims the transaction before its refund is paid, so a second attempt that passes
the checks pays again. As long as none does, the refund is paid once and a completed refund
was posted once. The status stays failed in every run, because a failed transaction cannot
be reversed.
-/

namespace MobileMoney.Queue.Refunds

open Worker (JobType Outcome)

inductive RefundStatus where
  | processing | completed | failed
  deriving DecidableEq, Repr

/-- `metadata.refund`. -/
structure Refund where
  status : RefundStatus
  completedAt : Bool
  deriving DecidableEq, Repr

structure Row where
  status : TransactionStatus
  refund : Option Refund
  deriving DecidableEq, Repr

/-- The row, the hashes of the refund payments that were made, the refund hashes that the
ledger was posted with, and whether the job was queued. -/
structure Books where
  row : Replicated (Option Row)
  payments : List String
  postings : List (Option String)
  queued : Bool
  deriving DecidableEq

def hasCompletedRefund (row : Row) : Bool := row.refund.any (·.completedAt)

/-! ## The calls -/

def Row.withStatus (status : TransactionStatus) (row : Row) : Row :=
  { row with status := updateStatus row.status status }

def Row.withRefund (refund : Option Refund) (row : Row) : Row := { row with refund := refund }

/-- An `UPDATE` of the row by its id. -/
def Books.update (b : Books) (o : Outcome) (f : Row → Row) : Books :=
  if o.db = .failed then b else { b with row := b.row.write (b.row.current.map f) }

/-- Whether `findRefundableFailedPayouts` returns the row; a later row of a long result is
beyond its limit. -/
def findRefundableFailedPayouts (type : JobType) (o : Outcome) (b : Books) : Bool :=
  (b.row.read o.source).any fun row =>
    type = .withdraw && row.status = .failed && !hasCompletedRefund row &&
      row.refund.all (·.status ≠ .processing) && !o.flagged

/-! ## A scan -/

inductive Scan where
  | finding | adding | marking | done
  deriving DecidableEq, Repr

/-- `enqueueFailedPayoutRefunds`; what it writes to the metadata nobody reads. -/
def enqueueFailedPayoutRefunds (type : JobType) (o : Outcome) (b : Books) :
    Scan → Books × Scan
  | .finding =>
    (b, if o.db = .done ∧ findRefundableFailedPayouts type o b = true then .adding else .done)
  | .adding =>
    ({ b with queued := b.queued || o.db ≠ .failed }, if o.db = .done then .marking else .done)
  | .marking => (b.update o id, .done)
  | .done => (b, .done)

/-! ## An attempt of the job -/

inductive Phase where
  | waiting
  | finding
  | marking
  | paying
  | posting
  | reversing
  | completing
  | notifying
  | removing (handled : Bool)
  | failing
  | done
  deriving DecidableEq, Repr

/-- An attempt, with the hash in the answer of `sendPayment` once it has answered; the mock
mode answers without one. -/
structure Attempt where
  phase : Phase
  refundResult : Option (Option String)
  deriving DecidableEq

/-- Whether the checks of `processRefundJob` let the attempt go on. -/
def isRefundable (type : JobType) (row : Option Row) : Bool :=
  row.any fun row => type = .withdraw && row.status = .failed && !hasCompletedRefund row

/-- `patchMetadata({ refund })`: when the metadata has become too large it throws, after a
second query that removes the key. -/
def patchRefund (b : Books) (o : Outcome) (refund : Refund) (next removing thrown : Phase) :
    Books × Phase :=
  (b.update o (Row.withRefund refund),
    if o.db = .done then if o.flagged then removing else next else thrown)

/-- `processRefundJob`, and from `failing` on the handler of a failed attempt. -/
def processRefundJob (type : JobType) (o : Outcome) (b : Books) (a : Attempt) :
    Books × Attempt :=
  match a.phase with
  | .waiting => (b, { a with phase := if b.queued then .finding else .waiting })
  | .finding =>
    (b, { a with phase :=
        if o.db = .done then if isRefundable type (b.row.read o.source) then .marking else .done
        else .failing })
  | .marking =>
    let (b, phase) := patchRefund b o ⟨.processing, false⟩ .paying (.removing false) .failing
    (b, { a with phase := phase })
  | .paying =>
    match o.payment with
    | .paid hash =>
      ({ b with payments := b.payments ++ [hash] }, ⟨.posting, some (some hash)⟩)
    | .unpaid => (b, ⟨.posting, some none⟩)
    | .rejected _ => (b, { a with phase := .failing })
  | .posting =>
    (if o.db = .failed then b else { b with postings := b.postings ++ [a.refundResult.join] },
      { a with phase := if o.db = .done then .reversing else .failing })
  | .reversing =>
    (b.update o (Row.withStatus .reversed),
      { a with phase := if o.db = .done then .completing else .failing })
  | .completing =>
    let (b, phase) := patchRefund b o ⟨.completed, true⟩ .notifying (.removing false) .failing
    (b, { a with phase := phase })
  | .notifying => (b, { a with phase := if o.db = .done then .done else .failing })
  | .removing handled =>
    (b.update o (Row.withRefund none), { a with phase := if handled then .done else .failing })
  | .failing =>
    let (b, phase) := patchRefund b o ⟨.failed, false⟩ .done (.removing true) .done
    (b, { a with phase := phase })
  | .done => (b, a)

/-! ## The system -/

inductive Process where
  | scan (s : Scan)
  | attempt (a : Attempt)
  deriving DecidableEq

def step (type : JobType) (o : Outcome) (b : Books) (p : Process) : Books × Process :=
  match p with
  | .scan s =>
    let (b, s) := enqueueFailedPayoutRefunds type o b s
    (b, .scan s)
  | .attempt a =>
    let (b, a) := processRefundJob type o b a
    (b, .attempt a)

/-! ## Refunding at most once -/

open Replicated Interleaving
open Worker (answered paying)

/-! ## The laws and the condition -/

/-- The refund is marked completed. -/
def Books.completed (b : Books) : Bool := b.row.current.any hasCompletedRefund

def Books.status (b : Books) : Option TransactionStatus := b.row.current.map (·.status)

structure RefundedOnce (b : Books) : Prop where
  paid : b.payments.length ≤ 1
  posted : b.completed = true → b.postings.length = 1
  reversed : b.completed = true → b.status = some .reversed

/-- The attempt has passed its checks and did not break off before the payment. -/
def holds : Process → Bool
  | .scan _ => false
  | .attempt a => a.refundResult.isSome ||
    match a.phase with
    | .marking | .paying | .posting | .reversing | .completing | .notifying => true
    | _ => false

variable {ι : Type*}

/-- An attempt passes its checks only when no attempt did so before, but for those that broke
off before the payment. -/
def Careful (type : JobType) (w : World Books ι Process) (turn : ι × Outcome) : Prop :=
  w.locals turn.1 = .attempt ⟨.finding, none⟩ → turn.2.db = .done →
    isRefundable type (w.shared.row.read turn.2.source) = true →
      ∀ j, holds (w.locals j) = false

instance [Fintype ι] (type : JobType) (w : World Books ι Process) (turn : ι × Outcome) :
    Decidable (Careful type w turn) :=
  inferInstanceAs (Decidable (_ → _ → _ → ∀ _, _))

/-! ## The row after a call -/

@[simp] theorem update_payments (b : Books) (o : Outcome) (f : Row → Row) :
    (b.update o f).payments = b.payments := by
  unfold Books.update
  split_ifs <;> rfl

@[simp] theorem update_postings (b : Books) (o : Outcome) (f : Row → Row) :
    (b.update o f).postings = b.postings := by
  unfold Books.update
  split_ifs <;> rfl

theorem completed_update {b : Books} {o : Outcome} {f : Row → Row}
    (hf : ∀ row, hasCompletedRefund (f row) = true → hasCompletedRefund row = true)
    (h : (b.update o f).completed = true) : b.completed = true := by
  unfold Books.completed Books.update at *
  split_ifs at h
  · exact h
  · cases hrow : b.row.current with
    | none => simp [hrow] at h
    | some row => exact hf row (by simpa [hrow] using h)

theorem status_update {b : Books} (o : Outcome) {f : Row → Row}
    (hf : ∀ row, row.status = .failed → (f row).status = .failed)
    (h : b.status = some .failed) : (b.update o f).status = some .failed := by
  unfold Books.status Books.update at *
  split_ifs
  · exact h
  · cases hrow : b.row.current with
    | none => simp [hrow] at h
    | some row => simp [hf row (by simpa [hrow] using h)]

theorem completed_withRefund {b : Books} {o : Outcome} {refund : Option Refund}
    (hrefund : refund.any (·.completedAt) = false)
    (h : (b.update o (Row.withRefund refund)).completed = true) : b.completed = true := by
  apply completed_update _ h
  intro row hrow
  simp [hasCompletedRefund, Row.withRefund, hrefund] at hrow

/-- What a process that is not paying leaves of the books. -/
structure Spared (b b' : Books) : Prop where
  payments : b'.payments = b.payments
  postings : b'.postings = b.postings
  completed : b'.completed = true → b.completed = true

theorem Spared.refl (b : Books) : Spared b b := ⟨rfl, rfl, id⟩

theorem Spared.withRefund (b : Books) (o : Outcome) {refund : Option Refund}
    (hrefund : refund.any (·.completedAt) = false) :
    Spared b (b.update o (Row.withRefund refund)) :=
  ⟨update_payments b o _, update_postings b o _, completed_withRefund hrefund⟩

/-! ## No refund reverses a transaction -/

theorem status_step (type : JobType) (o : Outcome) {b : Books} (p : Process)
    (h : b.status = some .failed) : (step type o b p).1.status = some .failed := by
  have hrefund : ∀ refund, (b.update o (Row.withRefund refund)).status = some .failed :=
    fun refund => status_update o (fun _ hrow => hrow) h
  cases p with
  | scan s =>
    cases s with
    | marking => exact status_update o (fun _ hrow => hrow) h
    | _ => exact h
  | attempt a =>
    obtain ⟨phase, refundResult⟩ := a
    cases phase with
    | marking => exact hrefund _
    | paying =>
      simp only [step, processRefundJob]
      cases o.payment <;> exact h
    | posting =>
      simp only [step, processRefundJob]
      split_ifs <;> exact h
    | reversing =>
      apply status_update o _ h
      intro row hrow
      simp only [Row.withStatus, hrow]
      decide
    | completing => exact hrefund _
    | removing handled => exact hrefund _
    | failing => exact hrefund _
    | _ => exact h

/-! ## The attempt that pays -/

def Unpaid (b : Books) : Prop := b.payments = [] ∧ b.postings = [] ∧ b.completed = false

theorem Unpaid.spared {b b' : Books} (h : Unpaid b) (hspared : Spared b b') : Unpaid b' := by
  obtain ⟨hpayments, hpostings, hcompleted⟩ := h
  refine ⟨hspared.payments.trans hpayments, hspared.postings.trans hpostings, ?_⟩
  by_contra hnot
  have hbefore := hspared.completed (by simpa using hnot)
  rw [hcompleted] at hbefore
  cases hbefore

/-- An attempt is over or about to end after the payment call has answered. -/
def Closed (b : Books) (refundResult : Option (Option String)) : Prop :=
  refundResult.isSome = true ∧ b.payments.length ≤ 1 ∧
    (b.completed = true → b.postings.length = 1)

theorem Closed.spared {b b' : Books} {refundResult : Option (Option String)}
    (h : Closed b refundResult) (hspared : Spared b b') : Closed b' refundResult := by
  obtain ⟨hresult, hpayments, hposted⟩ := h
  refine ⟨hresult, hspared.payments ▸ hpayments, fun hcompleted => ?_⟩
  rw [hspared.postings]
  exact hposted (hspared.completed hcompleted)

/-- How far the books are when the attempt that has passed the checks is in a phase. -/
def Stage (b : Books) (a : Attempt) : Prop :=
  match a.phase with
  | .waiting | .finding => False
  | .marking | .paying => a.refundResult = none ∧ Unpaid b
  | .posting => a.refundResult.isSome = true ∧ b.payments.length ≤ 1 ∧ b.postings = [] ∧
      b.completed = false
  | .reversing | .completing | .notifying => a.refundResult.isSome = true ∧
      b.payments.length ≤ 1 ∧ b.postings.length = 1
  | .removing _ | .failing | .done => Closed b a.refundResult

theorem Stage.settled {b : Books} {a : Attempt} (h : Stage b a) :
    b.payments.length ≤ 1 ∧ (b.completed = true → b.postings.length = 1) := by
  obtain ⟨phase, refundResult⟩ := a
  cases phase <;> simp only [Stage, Unpaid, Closed] at h <;> grind

theorem Stage.holds {b : Books} {a : Attempt} (h : Stage b a) : holds (.attempt a) = true := by
  obtain ⟨phase, refundResult⟩ := a
  cases phase <;> simp only [Stage, Closed, Refunds.holds] at h ⊢ <;> grind

/-- The attempt goes on, or it breaks off before the payment. -/
theorem stage_step (type : JobType) (o : Outcome) {b : Books} {a : Attempt} (h : Stage b a) :
    Stage (processRefundJob type o b a).1 (processRefundJob type o b a).2 ∨
      Unpaid (processRefundJob type o b a).1 ∧
        holds (.attempt (processRefundJob type o b a).2) = false := by
  obtain ⟨phase, refundResult⟩ := a
  cases phase with
  | waiting | finding => exact absurd h id
  | marking =>
    obtain ⟨rfl, hunpaid⟩ := h
    have hmarked : Unpaid (b.update o (Row.withRefund (some ⟨.processing, false⟩))) :=
      hunpaid.spared (.withRefund b o rfl)
    simp only [processRefundJob, patchRefund]
    by_cases hdb : o.db = .done
    · by_cases hflagged : o.flagged = true
      · exact .inr ⟨hmarked, by simp [holds, hdb, hflagged]⟩
      · left
        simp only [if_pos hdb, if_neg hflagged]
        exact ⟨rfl, hmarked⟩
    · exact .inr ⟨hmarked, by simp [holds, hdb]⟩
  | paying =>
    obtain ⟨rfl, hpayments, hpostings, hcompleted⟩ := h
    simp only [processRefundJob]
    cases o.payment with
    | paid hash => exact .inl ⟨rfl, by simp [hpayments], hpostings, hcompleted⟩
    | unpaid => exact .inl ⟨rfl, by simp [hpayments], hpostings, hcompleted⟩
    | rejected isTransient => exact .inr ⟨⟨hpayments, hpostings, hcompleted⟩, rfl⟩
  | posting =>
    obtain ⟨hresult, hpayments, hpostings, hcompleted⟩ := h
    left
    simp only [processRefundJob]
    cases hdb : o.db with
    | done => exact ⟨hresult, hpayments, by simp [hpostings]⟩
    | lost => exact ⟨hresult, hpayments, by simp [hpostings]⟩
    | failed =>
      refine ⟨hresult, hpayments, fun hmarked => ?_⟩
      exact absurd (hcompleted.symm.trans hmarked) (by decide)
  | reversing =>
    obtain ⟨hresult, hpayments, hpostings⟩ := h
    left
    simp only [processRefundJob]
    split_ifs
    · exact ⟨hresult, by simpa using hpayments, by simpa using hpostings⟩
    · exact ⟨hresult, by simpa using hpayments, fun _ => by simpa using hpostings⟩
  | completing =>
    obtain ⟨hresult, hpayments, hpostings⟩ := h
    left
    simp only [processRefundJob, patchRefund]
    split_ifs
    · exact ⟨hresult, by simpa using hpayments, fun _ => by simpa using hpostings⟩
    · exact ⟨hresult, by simpa using hpayments, by simpa using hpostings⟩
    · exact ⟨hresult, by simpa using hpayments, fun _ => by simpa using hpostings⟩
  | notifying =>
    obtain ⟨hresult, hpayments, hpostings⟩ := h
    left
    simp only [processRefundJob]
    split_ifs <;> exact ⟨hresult, hpayments, fun _ => hpostings⟩
  | removing handled =>
    have hremoved : Closed (b.update o (Row.withRefund none)) refundResult :=
      Closed.spared h (.withRefund b o rfl)
    cases handled <;> exact .inl hremoved
  | failing =>
    have hfailed : Closed (b.update o (Row.withRefund (some ⟨.failed, false⟩))) refundResult :=
      Closed.spared h (.withRefund b o rfl)
    left
    simp only [processRefundJob, patchRefund]
    split_ifs <;> exact hfailed
  | done => exact .inl h

/-! ## The others -/

theorem Stage.spared {b b' : Books} {a : Attempt} (h : Stage b a) (hspared : Spared b b') :
    Stage b' a := by
  obtain ⟨phase, refundResult⟩ := a
  obtain ⟨hpayments, hpostings, hcompleted⟩ := hspared
  cases phase <;> simp only [Stage, Unpaid, Closed, hpayments, hpostings] at h ⊢ <;> grind

/-- Whoever has not passed the checks spares the books, and either does not pass them in this
turn or passes them as an attempt that finds the transaction refundable. -/
theorem quiet_step (type : JobType) (o : Outcome) (b : Books) {p : Process}
    (h : holds p = false) :
    Spared b (step type o b p).1 ∧ (holds (step type o b p).2 = false ∨
      p = .attempt ⟨.finding, none⟩ ∧ o.db = .done ∧
        isRefundable type (b.row.read o.source) = true ∧
        (step type o b p).2 = .attempt ⟨.marking, none⟩) := by
  cases p with
  | scan s =>
    refine ⟨?_, .inl rfl⟩
    cases s with
    | marking => exact ⟨update_payments b o _, update_postings b o _, completed_update fun _ => id⟩
    | _ => exact ⟨rfl, rfl, id⟩
  | attempt a =>
    obtain ⟨phase, refundResult⟩ := a
    have hnone : refundResult = none := by
      simp only [holds, Bool.or_eq_false_iff] at h
      simpa using h.1
    subst hnone
    cases phase with
    | waiting =>
      refine ⟨.refl b, .inl ?_⟩
      simp only [step, processRefundJob]
      split_ifs <;> rfl
    | finding =>
      refine ⟨.refl b, ?_⟩
      simp only [step, processRefundJob]
      by_cases hdb : o.db = .done
      · by_cases hrefundable : isRefundable type (b.row.read o.source) = true
        · right
          simp [hdb, hrefundable]
        · left
          simp [holds, hdb, hrefundable]
      · left
        simp [holds, hdb]
    | removing handled =>
      refine ⟨.withRefund b o rfl, .inl ?_⟩
      simp only [step, processRefundJob]
      split_ifs <;> rfl
    | failing =>
      refine ⟨.withRefund b o rfl, .inl ?_⟩
      simp only [step, processRefundJob, patchRefund]
      split_ifs <;> rfl
    | done => exact ⟨.refl b, .inl rfl⟩
    | _ => cases h

/-! ## Every interleaving -/

/-- Nothing is paid and no attempt has passed the checks, or exactly one is answerable for what
is paid. -/
def Answerable : World Books ι Process → Prop :=
  Exclusive (fun p => holds p = true) Unpaid fun b p => ∃ a, p = .attempt a ∧ Stage b a

variable [DecidableEq ι] {type : JobType}

theorem answerable_advance (w : World Books ι Process) (turn : ι × Outcome) (h : Answerable w)
    (hcareful : Careful type w turn) : Answerable (advance (step type) w turn) := by
  apply exclusive_advance h
  · intro hunpaid hk _
    exact hunpaid.spared (quiet_step type turn.2 w.shared (by simpa using hk)).1
  · intro hunpaid hk hnext
    obtain ⟨hspared, hquiet | ⟨-, -, -, hmarking⟩⟩ :=
      quiet_step type turn.2 w.shared (by simpa using hk)
    · rw [hquiet] at hnext
      cases hnext
    · exact ⟨_, hmarking, rfl, hunpaid.spared hspared⟩
  · rintro ⟨a, ha, hstage⟩
    rw [ha]
    rcases stage_step type turn.2 hstage with hkept | ⟨hunpaid, hends⟩
    · exact .inl ⟨_, rfl, hkept⟩
    · exact .inr ⟨hunpaid, by simpa [step] using hends⟩
  · rintro i _ ⟨a, ha, hstage⟩ hk
    obtain ⟨hspared, hquiet | ⟨hfinding, hdb, hrefundable, -⟩⟩ :=
      quiet_step type turn.2 w.shared (by simpa using hk)
    · exact ⟨⟨a, ha, hstage.spared hspared⟩, by simp [hquiet]⟩
    · have hidle := hcareful hfinding hdb hrefundable i
      rw [ha, hstage.holds] at hidle
      cases hidle

omit [DecidableEq ι] in
theorem Answerable.settled {w : World Books ι Process} (h : Answerable w) :
    w.shared.payments.length ≤ 1 ∧
      (w.shared.completed = true → w.shared.postings.length = 1) := by
  rcases h with ⟨⟨hpayments, -, hcompleted⟩, -⟩ | ⟨i, ⟨a, -, hstage⟩, -⟩
  · refine ⟨by simp [hpayments], fun hmarked => ?_⟩
    exact absurd (hcompleted.symm.trans hmarked) (by decide)
  · exact hstage.settled

inductive Role where
  | scan | attempt
  deriving DecidableEq, Repr

def Role.start : Role → Process
  | .scan => .scan .finding
  | .attempt => .attempt ⟨.waiting, none⟩

/-- A failed transaction with the statuses it had before; no refund was begun. -/
def start (history : List TransactionStatus) (role : ι → Role) : World Books ι Process :=
  ⟨⟨⟨some ⟨.failed, none⟩, history.map (some ⟨·, none⟩) ++ [none]⟩, [], [], false⟩,
    fun i => (role i).start⟩

/-- No interleaving at all gets the transaction out of the status failed. -/
theorem never_reversed (type : JobType) (history : List TransactionStatus) (role : ι → Role)
    (schedule : List (ι × Outcome)) :
    (run (step type) (start history role) schedule).shared.status = some .failed :=
  shared_run (step type) (fun b => b.status = some .failed)
    (fun o _ p h => status_step type o p h) rfl schedule

/-- In every interleaving of scans and attempts whose turns are all careful, the refund is paid
at most once and a completed refund was posted once; the transaction is as the laws ask
exactly as long as no refund is completed. -/
theorem refunded_once (type : JobType) (history : List TransactionStatus) (role : ι → Role)
    (schedule : List (ι × Outcome))
    (h : Runs.Every (advance (step type)) (Careful type) (start history role) schedule) :
    let b := (run (step type) (start history role) schedule).shared
    b.payments.length ≤ 1 ∧ (b.completed = true → b.postings.length = 1) ∧
      (RefundedOnce b ↔ b.completed = false) := by
  intro b
  have hstart : Answerable (start history role) := by
    left
    refine ⟨⟨rfl, rfl, rfl⟩, fun i => ?_⟩
    simp only [start]
    cases role i <;> decide
  have hfailed : b.status = some .failed := never_reversed type history role schedule
  obtain ⟨hpaid, hposted⟩ := (inv_run_of_every Answerable answerable_advance hstart h).settled
  refine ⟨hpaid, hposted, ?_, ?_⟩
  · intro hlaw
    by_contra hcompleted
    have hreversed := hlaw.reversed (by simpa using hcompleted)
    rw [hfailed] at hreversed
    cases hreversed
  · intro hcompleted
    refine ⟨hpaid, hposted, fun hmarked => ?_⟩
    exact absurd (hcompleted.symm.trans hmarked) (by decide)

/-! ## Runs of the refund worker -/

/-- A scan and three attempts. -/
def roles : Fin 4 → Role
  | 0 => .scan
  | _ => .attempt

/-- An attempt without any failure. -/
def refunding (hash : String) : List Outcome :=
  [answered, answered, answered, paying hash, answered, answered, answered, answered]

/-- A scan queues the refund, the payment of the first attempt is rejected, the second attempt
completes the refund and the third one finds it completed. -/
theorem refunded_once_retried :
    let schedule := List.replicate 3 (0, answered) ++
      [answered, answered, answered, { answered with payment := .rejected true },
        answered].map (1, ·) ++
      (refunding "b2").map (2, ·) ++ List.replicate 2 (3, answered)
    let b := (run (step .withdraw) (start [.processing, .pending] roles) schedule).shared
    b.payments.length ≤ 1 ∧ (b.completed = true → b.postings.length = 1) ∧
      (RefundedOnce b ↔ b.completed = false) := by
  intro schedule
  exact refunded_once .withdraw [.processing, .pending] roles schedule (by decide)

/-- An attempt whose posting fails after the payment is followed by one that pays again; one
whose last notification fails has its completion overwritten, so that the refund is paid and
posted twice; and a completed refund leaves the transaction failed, on the way to be paid out
once more. -/
theorem refunded_twice_and_not_reversed :
    let books (schedule : List (Fin 4 × Outcome)) := (run (step .withdraw)
      (start [.processing, .pending] roles) (List.replicate 3 (0, answered) ++ schedule)).shared
    let thrown : Outcome := { answered with db := .failed }
    let retried := books (((refunding "a1").take 4 ++ [thrown, answered]).map (1, ·) ++
      (refunding "b2").map (2, ·))
    let overwritten := books (((refunding "a1").take 7 ++ [thrown, answered]).map (1, ·) ++
      (refunding "b2").map (2, ·))
    let completed := books ((refunding "a1").map (1, ·))
    (retried.payments = ["a1", "b2"] ∧ ¬ RefundedOnce retried) ∧
      (overwritten.completed = true ∧ overwritten.postings = [some "a1", some "b2"] ∧
        ¬ RefundedOnce overwritten) ∧
      (completed.completed = true ∧ completed.status = some .failed ∧ ¬ RefundedOnce completed ∧
        updateStatus (updateStatus .failed .review) .processing = .processing) := by
  intro books thrown retried overwritten completed
  have hretried : retried.payments = ["a1", "b2"] := by decide
  have hoverwritten : overwritten.completed = true ∧
      overwritten.postings = [some "a1", some "b2"] := by decide
  have hcompleted : completed.completed = true ∧ completed.status = some .failed := by decide
  refine ⟨⟨hretried, ?_⟩, ⟨hoverwritten.1, hoverwritten.2, ?_⟩,
    hcompleted.1, hcompleted.2, ?_, rfl⟩
  · intro h
    have hpaid := h.paid
    rw [hretried] at hpaid
    exact absurd hpaid (by decide)
  · intro h
    have hposted := h.posted hoverwritten.1
    rw [hoverwritten.2] at hposted
    cases hposted
  · intro h
    have hreversed := h.reversed hcompleted.1
    rw [hcompleted.2] at hreversed
    cases hreversed

end MobileMoney.Queue.Refunds
