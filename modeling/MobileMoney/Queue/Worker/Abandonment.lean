import MobileMoney.Library.Runs
import MobileMoney.Queue.Worker.Program

/-!
# Claimed transactions

What becomes of a transaction that a delivery has claimed, whatever payments, screenings and
notifications answer. The claim comes before the `try` block, so an error between the two leaves
the transaction behind as it was claimed.
-/

namespace MobileMoney.Queue.Worker

/-- One turn of a delivery that is alone with the transaction. -/
def turn (job : JobType) (maxAttempts : ℕ) (s : Books × Delivery) (o : Outcome) :
    Books × Delivery :=
  step job maxAttempts o s.1 s.2

/-- The next call updates the status. -/
def Phase.updatesStatus : Phase → Bool
  | .rejecting | .claiming | .holding | .completing | .failing => true
  | _ => false

/-- The next call is covered by the `try` block or does not throw. -/
@[grind =] def Phase.covered (maxAttempts : ℕ) (o : Outcome) : Phase → Bool
  | .loading | .screening | .recordingFirst _ | .writingFirst _ _ => o.db = .done
  | .firstPayment attempt =>
    match o.payment with
    | .rejected _ => canRetry maxAttempts attempt o
    | .unpaid | .paid _ => true
  | _ => true

def StatusUpdateSucceeds (s : Books × Delivery) (o : Outcome) : Prop :=
  s.2.phase.updatesStatus = true → o.db = .done

def Covered (maxAttempts : ℕ) (s : Books × Delivery) (o : Outcome) : Prop :=
  s.2.phase.covered maxAttempts o = true

instance (s : Books × Delivery) (o : Outcome) : Decidable (StatusUpdateSucceeds s o) :=
  inferInstanceAs (Decidable (_ → _))

instance (maxAttempts : ℕ) (s : Books × Delivery) (o : Outcome) :
    Decidable (Covered maxAttempts s o) :=
  inferInstanceAs (Decidable (_ = _))

def Books.status (b : Books) : Option TransactionStatus := b.row.current.map (·.status)

def Books.Settled (b : Books) : Prop :=
  ∃ status ∈ b.status, status ∈ [.completed, .failed, .review]

instance (b : Books) : Decidable b.Settled :=
  inferInstanceAs (Decidable (∃ status ∈ b.status, _))

/-! ## What the calls do to the status -/

section Status

variable {b : Books} {o : Outcome}

@[simp] theorem status_pay (b : Books) (payments : List Payment) :
    Books.status { b with payments := payments } = b.status := rfl

@[simp] theorem status_withMetadata (b : Books) (o : Outcome) (metadata : Row → Metadata) :
    (b.update o fun row => row.withMetadata (metadata row)).status = b.status := by
  unfold Books.update Books.status
  split_ifs
  · rfl
  · simp only [Replicated.write_current, Option.map_map]
    rfl

theorem status_withStatus (h : o.db = .done) (status : TransactionStatus) :
    (b.update o (Row.withStatus status)).status = b.status.map (updateStatus · status) := by
  unfold Books.update Books.status
  rw [if_neg (by rw [h]; decide)]
  simp only [Replicated.write_current, Option.map_map]
  rfl

@[simp] theorem status_patchCollection (b : Books) (o : Outcome) :
    (patchCollection b o).status = b.status := by
  unfold patchCollection
  split_ifs
  · rw [status_withMetadata, status_withMetadata]
  · rw [status_withMetadata]

end Status

/-! ## From the claim to the end -/

/-- What the status is while a delivery goes on from its claim. -/
def Books.AsClaimed (b : Books) : Phase → Prop
  | .checkingIp | .rejecting | .claiming | .rereading => False
  | .notifying => b.status = some .completed
  | .failing => b.status = some .processing ∨ b.status = some .completed
  | .done => b.Settled
  | _ => b.status = some .processing

section Steps

variable {job : JobType} {maxAttempts : ℕ} {o : Outcome} {b : Books} {hasClientIp : Bool}

theorem asClaimed_afterCollection (h : b.status = some .processing) (metadata : Metadata) :
    b.AsClaimed (afterCollection metadata) := by
  unfold afterCollection
  split_ifs <;> exact h

theorem asClaimed_afterLoading (h : b.status = some .processing) (row : Option Row) :
    b.AsClaimed (afterLoading job row) := by
  cases job with
  | withdraw => exact h
  | deposit =>
    simp only [afterLoading]
    split_ifs
    · exact asClaimed_afterCollection h _
    · exact h

theorem asClaimed_pay {attempt : ℕ} {payment : Payment} {next : String → Phase}
    {unpaid retry thrown : Phase} (hnext : ∀ hash (b' : Books), b'.status = b.status →
      b'.AsClaimed (next hash)) (hunpaid : b.AsClaimed unpaid) (hretry : b.AsClaimed retry)
    (hthrown : (∃ isTransient, o.payment = .rejected isTransient) →
      canRetry maxAttempts attempt o = false → b.AsClaimed thrown) :
    (pay b maxAttempts attempt o payment next unpaid retry thrown).1.AsClaimed
      (pay b maxAttempts attempt o payment next unpaid retry thrown).2 := by
  unfold pay
  cases hpayment : o.payment with
  | paid hash => exact hnext hash _ rfl
  | unpaid => exact hunpaid
  | rejected isTransient =>
    dsimp only
    split_ifs with hcan
    · exact hretry
    · exact hthrown ⟨isTransient, hpayment⟩ (by simpa using hcan)

/-- A call that is covered keeps the status in step with the phase. -/
theorem asClaimed_handle {phase : Phase} (h : b.AsClaimed phase)
    (succeeds : phase.updatesStatus = true → o.db = .done)
    (covered : phase.covered maxAttempts o = true) :
    (handle job maxAttempts o b hasClientIp phase).1.AsClaimed
      (handle job maxAttempts o b hasClientIp phase).2 := by
  cases phase with
  | checkingIp | rejecting | claiming | rereading => exact h.elim
  | loading =>
    have hdone : o.db = .done := by simpa [Phase.covered] using covered
    simp only [handle, find, hdone, if_true]
    cases job <;> exact h
  | screening =>
    have hdone : o.db = .done := by simpa [Phase.covered] using covered
    simp only [handle, hdone, if_true]
    split_ifs <;> exact h
  | holding =>
    have hdone := succeeds rfl
    simp only [handle, write, hdone, if_true]
    refine ⟨.review, ?_, by decide⟩
    rw [status_withStatus hdone, show b.status = some .processing from h]
    rfl
  | firstPayment attempt =>
    refine asClaimed_pay (fun hash b' hb' => ?_) h h ?_
    · unfold afterFirstPayment
      split_ifs <;> exact hb'.trans h
    · rintro ⟨isTransient, hrejected⟩ hcan
      simp [Phase.covered, hrejected, hcan] at covered
  | recordingFirst hash =>
    have hdone : o.db = .done := by simpa [Phase.covered] using covered
    simp only [handle, find, hdone, if_true]
    exact h
  | writingFirst metadata hash =>
    have hdone : o.db = .done := by simpa [Phase.covered] using covered
    simp only [handle, write, hdone, if_true]
    exact (status_withMetadata b o _).trans h
  | loadingMetadata =>
    simp only [handle, find]
    split_ifs
    · exact asClaimed_afterLoading h _
    · exact .inl h
  | collecting metadata attempt =>
    exact asClaimed_pay (fun _ _ hb' => hb'.trans h) (.inl h) h fun _ _ => .inl h
  | patchingCollection metadata =>
    exact asClaimed_afterCollection ((status_patchCollection b o).trans h) metadata
  | secondPayment attempt =>
    exact asClaimed_pay (fun _ _ hb' => hb'.trans h) h h fun _ _ => .inl h
  | recordingSecond hash =>
    simp only [handle, find]
    split_ifs
    · exact h
    · exact .inl h
  | writingSecond metadata hash =>
    have hsame := (status_withMetadata b o
      fun _ => { metadata with transactionHash := hash }).trans h
    simp only [handle, write]
    split_ifs
    · exact hsame
    · exact .inl hsame
  | payingOut attempt =>
    exact asClaimed_pay (fun _ _ hb' => hb'.trans h) (.inl h) h fun _ _ => .inl h
  | completing =>
    have hdone := succeeds rfl
    simp only [handle, write, hdone, if_true]
    rw [Books.AsClaimed, status_withStatus hdone, show b.status = some .processing from h]
    rfl
  | notifying =>
    simp only [handle]
    split_ifs
    · exact ⟨.completed, h, by decide⟩
    · exact .inr h
  | failing =>
    have hdone := succeeds rfl
    simp only [handle, write, hdone, if_true]
    rcases h with h | h
    · refine ⟨.failed, ?_, by decide⟩
      rw [status_withStatus hdone, h]
      rfl
    · refine ⟨.completed, ?_, by decide⟩
      rw [status_withStatus hdone, h]
      rfl
  | done => exact h

/-- An error in front of the `try` block ends the delivery and leaves the claim as it is. -/
theorem handle_of_not_covered {phase : Phase} (h : b.AsClaimed phase)
    (hnot : phase.covered maxAttempts o = false) :
    (handle job maxAttempts o b hasClientIp phase).2 = .done ∧
      (handle job maxAttempts o b hasClientIp phase).1.status = some .processing := by
  cases phase with
  | loading | screening | recordingFirst =>
    have hdb : o.db ≠ .done := by simpa [Phase.covered] using hnot
    simp only [handle, find, hdb, if_false]
    exact ⟨trivial, h⟩
  | writingFirst metadata hash =>
    have hdb : o.db ≠ .done := by simpa [Phase.covered] using hnot
    simp only [handle, write, hdb, if_false]
    exact ⟨trivial, (status_withMetadata b o _).trans h⟩
  | firstPayment attempt =>
    cases hpayment : o.payment with
    | paid hash => simp [Phase.covered, hpayment] at hnot
    | unpaid => simp [Phase.covered, hpayment] at hnot
    | rejected isTransient =>
      have hcan : canRetry maxAttempts attempt o = false := by
        simpa [Phase.covered, hpayment] using hnot
      simp only [handle, pay, hpayment, hcan, Bool.false_eq_true, if_false]
      exact ⟨trivial, h⟩
  | _ => cases hnot

end Steps

/-! ## Whole deliveries -/

section Runs

variable {job : JobType} {maxAttempts : ℕ}

/-- A delivery that is done does nothing more. -/
theorem foldl_turn_of_done {s : Books × Delivery} (h : s.2.phase = .done)
    (outcomes : List Outcome) : outcomes.foldl (turn job maxAttempts) s = s := by
  induction outcomes with
  | nil => rfl
  | cons o outcomes ih =>
    have hsame : turn job maxAttempts s o = s := by
      obtain ⟨b, hasClientIp, phase⟩ := s
      obtain rfl : phase = .done := h
      rfl
    rw [List.foldl_cons, hsame, ih]

theorem settled_iff_covered {s : Books × Delivery} (h : s.1.AsClaimed s.2.phase)
    {outcomes : List Outcome}
    (succeeds : Runs.Every (turn job maxAttempts) StatusUpdateSucceeds s outcomes)
    (hdone : (outcomes.foldl (turn job maxAttempts) s).2.phase = .done) :
    (outcomes.foldl (turn job maxAttempts) s).1.Settled ↔
      Runs.Every (turn job maxAttempts) (Covered maxAttempts) s outcomes := by
  induction outcomes generalizing s with
  | nil =>
    have hphase : s.2.phase = .done := hdone
    rw [hphase] at h
    exact ⟨fun _ => trivial, fun _ => h⟩
  | cons o outcomes ih =>
    by_cases hcovered : Covered maxAttempts s o
    · have hnext : (turn job maxAttempts s o).1.AsClaimed (turn job maxAttempts s o).2.phase :=
        asClaimed_handle h succeeds.1 hcovered
      rw [List.foldl_cons, ih hnext succeeds.2 hdone]
      exact ⟨fun every => ⟨hcovered, every⟩, fun every => every.2⟩
    · have hthrown : s.2.phase.covered maxAttempts o = false := by simpa [Covered] using hcovered
      have ended : (turn job maxAttempts s o).2.phase = .done ∧
          (turn job maxAttempts s o).1.status = some .processing :=
        handle_of_not_covered h hthrown
      have hfinal : (o :: outcomes).foldl (turn job maxAttempts) s = turn job maxAttempts s o :=
        foldl_turn_of_done ended.1 outcomes
      constructor
      · rw [hfinal]
        rintro ⟨status, hmem, hsettled⟩
        rw [ended.2] at hmem
        obtain rfl := Option.some_injective _ hmem
        exact absurd hsettled (by decide)
      · intro every
        exact absurd every.1 hcovered

/-- A delivery that is about to claim the transaction. -/
def claiming (b : Books) (hasClientIp : Bool) : Books × Delivery :=
  (b, ⟨hasClientIp, .claiming⟩)

theorem asClaimed_claim {b : Books} {hasClientIp : Bool} {claim : Outcome}
    (hpending : b.status = some .pending) (hclaim : claim.db = .done) :
    (turn job maxAttempts (claiming b hasClientIp) claim).1.AsClaimed
      (turn job maxAttempts (claiming b hasClientIp) claim).2.phase := by
  obtain ⟨row, hrow, hstatus⟩ := Option.map_eq_some_iff.1 hpending
  simp [turn, step, claiming, handle, claimForProcessing, write, hclaim, hrow, hstatus,
    Books.AsClaimed, Books.status, Books.update, Row.claimed]

/-- A delivery that has claimed the transaction leaves it completed, failed or in review just
when no call between the claim and the `try` block throws. -/
theorem claimed_settled_iff (job : JobType) (maxAttempts : ℕ) (b : Books) (hasClientIp : Bool)
    (claim : Outcome) (outcomes : List Outcome) (hpending : b.status = some .pending)
    (succeeds : Runs.Every (turn job maxAttempts) StatusUpdateSucceeds (claiming b hasClientIp)
      (claim :: outcomes))
    (hdone : ((claim :: outcomes).foldl (turn job maxAttempts)
      (claiming b hasClientIp)).2.phase = .done) :
    ((claim :: outcomes).foldl (turn job maxAttempts) (claiming b hasClientIp)).1.Settled ↔
      Runs.Every (turn job maxAttempts) (Covered maxAttempts) (claiming b hasClientIp)
        (claim :: outcomes) := by
  obtain ⟨hclaim, hrest⟩ := succeeds
  rw [List.foldl_cons, settled_iff_covered (asClaimed_claim hpending (hclaim rfl)) hrest hdone]
  exact ⟨fun every => ⟨rfl, every⟩, fun every => every.2⟩

end Runs

/-! ## Particular deliveries -/

def pendingBooks : Books := ⟨⟨some ⟨.pending, ⟨"", false⟩⟩, []⟩, []⟩

/-- A call that goes well, without a finding. -/
def fine : Outcome := ⟨.done, .primary, false, .paid "hash"⟩

/-- The first payment to Stellar is made, the payout is rejected. -/
def rejectedPayout : List Outcome :=
  List.replicate 6 fine ++ [{ fine with payment := .rejected false }, fine]

theorem rejected_payout_settled :
    ((fine :: rejectedPayout).foldl (turn .withdraw 3) (claiming pendingBooks false)).1.Settled :=
  (claimed_settled_iff .withdraw 3 pendingBooks false fine rejectedPayout (by rfl)
    (by decide +kernel) (by decide +kernel)).2 (by decide +kernel)

/-- Horizon refuses the payment, and the transaction stays in processing. -/
theorem refused_payment_abandoned :
    let outcomes := [fine, fine, fine, { fine with payment := .rejected false }]
    Runs.Every (turn .withdraw 3) StatusUpdateSucceeds (claiming pendingBooks false) outcomes ∧
      (outcomes.foldl (turn .withdraw 3) (claiming pendingBooks false)).2.phase = .done ∧
      (outcomes.foldl (turn .withdraw 3) (claiming pendingBooks false)).1.status =
        some .processing := by
  decide +kernel

end MobileMoney.Queue.Worker
