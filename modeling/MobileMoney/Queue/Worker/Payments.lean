import MobileMoney.Library.Ownership
import MobileMoney.Queue.Worker.Program

/-!
# Paying at most once

A delivery that has claimed the transaction is the only one that pays, as long as the others
see that it is claimed. It pays in the right order unless the first payment of a deposit
goes through, and nothing it has paid is marked failed unless it enters its `catch` block
or a delivery from a blacklisted address overwrites the claim.
-/

namespace MobileMoney.Queue.Worker

open Replicated Interleaving

/-! ## The law and the condition -/

structure PaysOnce (job : JobType) (b : Books) : Prop where
  stellar : b.payments.count .stellar ≤ 1
  mobileMoney : b.payments.count .mobileMoney ≤ 1
  collectedFirst : job = .deposit → ∀ earlier later,
    b.payments = earlier ++ .stellar :: later → .mobileMoney ∈ earlier
  notFailed : ∀ row, b.row.current = some row → row.status = .failed → .stellar ∉ b.payments

def PaymentOutcome.isPaid : PaymentOutcome → Bool
  | .paid _ => true
  | _ => false

/-- Whether the next call throws inside the `try` block before the transaction is
completed. -/
def throws (maxAttempts : ℕ) (o : Outcome) : Phase → Bool
  | .loadingMetadata | .recordingSecond _ | .writingSecond _ _ => o.db ≠ .done
  | .secondPayment attempt =>
    !o.payment.isPaid && o.payment ≠ .unpaid && !canRetry maxAttempts attempt o
  | .collecting _ attempt | .payingOut attempt =>
    !o.payment.isPaid && !canRetry maxAttempts attempt o
  | .completing => o.db = .failed
  | _ => false

/-- A refused claim is followed by a read that shows it, the first payment of a deposit does
not go through, a blacklisted delivery does not meet a claimed transaction, and no call
throws between a Stellar payment and the completion. -/
def careful (job : JobType) (maxAttempts : ℕ) (o : Outcome) (b : Books) (phase : Phase) : Bool :=
  (match phase with
    | .rereading => o.db ≠ .done || (b.row.read o.source).any (·.status ≠ .pending)
    | .firstPayment _ => job ≠ .deposit || !o.payment.isPaid
    | .rejecting => !b.row.current.any (·.status = .processing)
    | _ => true) &&
  (Payment.stellar ∉ b.payments || !throws maxAttempts o phase)

/-! ## What the metadata records -/

/-- Only what has been paid is recorded. -/
def Recorded (payments : List Payment) (metadata : Metadata) : Prop :=
  (metadata.collected = true → .mobileMoney ∈ payments) ∧
    (metadata.transactionHash ≠ "" → .stellar ∈ payments)

def Books.Recorded (b : Books) : Prop :=
  b.row.All fun row => Worker.Recorded b.payments (metadataOf row)

theorem recorded_none (payments : List Payment) : Recorded payments (metadataOf none) := by
  constructor
  · intro h
    cases h
  · intro h
    exact absurd rfl h

theorem Recorded.append {payments : List Payment} {metadata : Metadata}
    (h : Recorded payments metadata) (payment : Payment) :
    Recorded (payments ++ [payment]) metadata :=
  ⟨fun hc => List.mem_append_left _ (h.1 hc), fun hh => List.mem_append_left _ (h.2 hh)⟩

theorem Books.Recorded.pay {b : Books} (h : b.Recorded) (payment : Payment) :
    Books.Recorded { b with payments := b.payments ++ [payment] } :=
  h.mono fun _ hrow => hrow.append payment

@[simp] theorem update_payments (b : Books) (o : Outcome) (f : Row → Row) :
    (b.update o f).payments = b.payments := by
  unfold Books.update
  split_ifs <;> rfl

theorem Books.Recorded.update {b : Books} (h : b.Recorded) (o : Outcome) {f : Row → Row}
    (hf : ∀ row, Worker.Recorded b.payments row.metadata →
      Worker.Recorded b.payments (f row).metadata) :
    (b.update o f).Recorded := by
  unfold Books.update
  split_ifs
  · exact h
  · apply All.write h
    have hcurrent := h.1
    cases hrow : b.row.current with
    | none => exact recorded_none _
    | some row =>
      rw [hrow] at hcurrent
      exact hf row hcurrent

/-! ## The delivery that holds the claim -/

/-- Payments that have been made once and in order. -/
def InOrder (job : JobType) (payments : List Payment) : Prop :=
  payments = [] ∨ payments = [.mobileMoney] ∨
    (job = .deposit ∧ payments = [.mobileMoney, .stellar]) ∨
    (job = .withdraw ∧ (payments = [.stellar] ∨ payments = [.stellar, .mobileMoney]))

/-- What has been paid and where the transaction stands when the holder of the claim is in a
phase. -/
def Stage (job : JobType) (payments : List Payment) (status : TransactionStatus) :
    Phase → Prop
  | .checkingIp | .rejecting | .claiming | .rereading => False
  | .loading | .screening | .holding | .firstPayment _ =>
    payments = [] ∧ status = .processing
  | .recordingFirst _ => job = .withdraw ∧ payments = [.stellar] ∧ status = .processing
  | .writingFirst metadata _ =>
    job = .withdraw ∧ payments = [.stellar] ∧ status = .processing ∧ Recorded payments metadata
  | .loadingMetadata =>
    (payments = [] ∨ job = .withdraw ∧ payments = [.stellar]) ∧ status = .processing
  | .collecting metadata _ =>
    job = .deposit ∧ payments = [] ∧ metadata.transactionHash = "" ∧ status = .processing
  | .patchingCollection metadata =>
    job = .deposit ∧ payments = [.mobileMoney] ∧ metadata.transactionHash = "" ∧
      status = .processing
  | .secondPayment _ => job = .deposit ∧ payments = [.mobileMoney] ∧ status = .processing
  | .recordingSecond hash =>
    InOrder job payments ∧ status = .processing ∧ (hash ≠ "" → .stellar ∈ payments)
  | .writingSecond metadata hash =>
    InOrder job payments ∧ status = .processing ∧ (hash ≠ "" → .stellar ∈ payments) ∧
      Recorded payments metadata
  | .payingOut _ =>
    job = .withdraw ∧ (payments = [] ∨ payments = [.stellar]) ∧ status = .processing
  | .completing => InOrder job payments ∧ status = .processing
  | .notifying => InOrder job payments ∧ status = .completed
  | .failing => InOrder job payments ∧ (.stellar ∈ payments → status = .completed)
  | .done =>
    InOrder job payments ∧ (.stellar ∈ payments → status = .processing ∨ status = .completed)

/-- The books while the claim is held by a delivery in the given phase. -/
structure Held (job : JobType) (b : Books) (phase : Phase) : Prop where
  recorded : b.Recorded
  stage : ∃ row, b.row.current = some row ∧ row.status ≠ .pending ∧
    Stage job b.payments row.status phase

theorem Held.write {job : JobType} {b : Books} {o : Outcome} {f : Row → Row}
    {next thrown : Phase} {row : Row} (hrecorded : b.Recorded) (hrow : b.row.current = some row)
    (hpending : row.status ≠ .pending) (hstatus : (f row).status ≠ .pending)
    (hmetadata : ∀ row, Recorded b.payments row.metadata → Recorded b.payments (f row).metadata)
    (hnext : Stage job b.payments (f row).status next)
    (hlost : o.db = .lost → Stage job b.payments (f row).status thrown)
    (hfailed : o.db = .failed → Stage job b.payments row.status thrown) :
    Held job (write b o f next thrown).1 (write b o f next thrown).2 := by
  have hrecorded' := hrecorded.update o hmetadata
  unfold Worker.write
  refine ⟨hrecorded', ?_⟩
  rw [update_payments]
  cases hdb : o.db with
  | failed =>
    refine ⟨row, ?_, hpending, ?_⟩
    · simp [Books.update, hdb, hrow]
    · simpa using hfailed hdb
  | done =>
    refine ⟨f row, ?_, hstatus, ?_⟩
    · simp [Books.update, hdb, hrow]
    · simpa using hnext
  | lost =>
    refine ⟨f row, ?_, hstatus, ?_⟩
    · simp [Books.update, hdb, hrow]
    · simpa using hlost hdb

theorem Held.find {job : JobType} {b : Books} {o : Outcome} {next : Option Row → Phase}
    {thrown : Phase} {row : Row} (hrecorded : b.Recorded) (hrow : b.row.current = some row)
    (hpending : row.status ≠ .pending)
    (hnext : ∀ found, Recorded b.payments (metadataOf found) →
      Stage job b.payments row.status (next found))
    (hthrown : o.db ≠ .done → Stage job b.payments row.status thrown) :
    Held job (find b o next thrown).1 (find b o next thrown).2 := by
  refine ⟨hrecorded, row, hrow, hpending, ?_⟩
  unfold Worker.find
  by_cases hdb : o.db = .done
  · simpa [hdb] using hnext _ (hrecorded.read o.source)
  · simpa [hdb] using hthrown hdb

theorem Held.pay {job : JobType} {b : Books} {maxAttempts attempt : ℕ} {o : Outcome}
    {payment : Payment} {next : String → Phase} {unpaid retry thrown : Phase} {row : Row}
    (hrecorded : b.Recorded) (hrow : b.row.current = some row) (hpending : row.status ≠ .pending)
    (hpaid : ∀ hash, o.payment = .paid hash →
      Stage job (b.payments ++ [payment]) row.status (next hash))
    (hunpaid : o.payment = .unpaid → Stage job b.payments row.status unpaid)
    (hretry : Stage job b.payments row.status retry)
    (hthrown : (∃ isTransient, o.payment = .rejected isTransient) →
      canRetry maxAttempts attempt o = false → Stage job b.payments row.status thrown) :
    Held job (pay b maxAttempts attempt o payment next unpaid retry thrown).1
      (pay b maxAttempts attempt o payment next unpaid retry thrown).2 := by
  unfold Worker.pay
  cases hpayment : o.payment with
  | paid hash => exact ⟨hrecorded.pay payment, row, hrow, hpending, hpaid hash hpayment⟩
  | unpaid => exact ⟨hrecorded, row, hrow, hpending, hunpaid hpayment⟩
  | rejected isTransient =>
    refine ⟨hrecorded, row, hrow, hpending, ?_⟩
    cases hcan : canRetry maxAttempts attempt o with
    | true => simpa [hcan] using hretry
    | false => simpa [hcan] using hthrown ⟨isTransient, hpayment⟩ hcan

theorem withStatus_metadata (status : TransactionStatus) (row : Row) :
    (row.withStatus status).metadata = row.metadata := rfl

theorem claimed_metadata (row : Row) : row.claimed.metadata = row.metadata := by
  unfold Row.claimed
  split_ifs <;> rfl

theorem stage_afterCollection {job : JobType} {payments : List Payment}
    {status : TransactionStatus} {metadata : Metadata} (hjob : job = .deposit)
    (hpayments : payments = [.mobileMoney]) (hhash : metadata.transactionHash = "")
    (hstatus : status = .processing) :
    Stage job payments status (afterCollection metadata) := by
  unfold afterCollection
  rw [if_pos hhash]
  exact ⟨hjob, hpayments, hstatus⟩

/-- Before anything is paid the metadata records nothing. -/
theorem Recorded.of_nil {metadata : Metadata} (h : Recorded [] metadata) :
    metadata.collected = false ∧ metadata.transactionHash = "" := by
  constructor
  · by_contra hc
    exact absurd (h.1 (by simpa using hc)) List.not_mem_nil
  · by_contra hh
    exact absurd (h.2 hh) List.not_mem_nil

theorem stage_afterLoading {job : JobType} {payments : List Payment}
    {status : TransactionStatus} (hstage : Stage job payments status .loadingMetadata)
    (found : Option Row) (hfound : Recorded payments (metadataOf found)) :
    Stage job payments status (afterLoading job found) := by
  obtain ⟨hpayments, hstatus⟩ := hstage
  cases job with
  | withdraw => exact ⟨rfl, hpayments.imp_right (·.2), hstatus⟩
  | deposit =>
    obtain rfl : payments = [] := by
      rcases hpayments with hnil | ⟨hjob, -⟩
      · exact hnil
      · cases hjob
    obtain ⟨hcollected, hhash⟩ := hfound.of_nil
    simp only [afterLoading, hcollected]
    exact ⟨rfl, rfl, hhash, hstatus⟩

theorem Held.patchCollection {job : JobType} {b : Books} {o : Outcome} {metadata : Metadata}
    (h : Held job b (.patchingCollection metadata)) :
    Held job (patchCollection b o) (afterCollection metadata) := by
  obtain ⟨hrecorded, row, hrow, hpending, hjob, hpayments, hhash, hstatus⟩ := h
  have hpaid : Payment.mobileMoney ∈ b.payments := by
    rw [hpayments]
    exact List.mem_cons_self
  have keeps : ∀ (b' : Books) (collected : Bool), b'.payments = b.payments → b'.Recorded →
      (∃ row, b'.row.current = some row ∧ row.status = .processing) →
      (b'.update o fun row =>
        row.withMetadata { row.metadata with collected := collected }).Recorded ∧
      ∃ row, (b'.update o fun row =>
        row.withMetadata { row.metadata with collected := collected }).row.current = some row ∧
          row.status = .processing := by
    intro b' collected hsame hrecorded' ⟨row', hrow', hstatus'⟩
    refine ⟨hrecorded'.update o ?_, ?_⟩
    · intro row h
      rw [hsame] at h ⊢
      exact ⟨fun _ => hpaid, h.2⟩
    · by_cases hdb : o.db = .failed
      · exact ⟨row', by simp [Books.update, hdb, hrow'], hstatus'⟩
      · exact ⟨row'.withMetadata { row'.metadata with collected := collected },
          by simp [Books.update, hdb, hrow'], hstatus'⟩
  obtain ⟨hpatched, hprocessing⟩ := keeps b true rfl hrecorded ⟨row, hrow, hstatus⟩
  obtain ⟨hremoved, hprocessing'⟩ := keeps _ false (update_payments _ _ _) hpatched hprocessing
  unfold Worker.patchCollection
  dsimp only
  split_ifs
  · obtain ⟨row', hrow', hstatus'⟩ := hprocessing'
    refine ⟨hremoved, row', hrow', by rw [hstatus']; decide, ?_⟩
    exact stage_afterCollection hjob (by simpa using hpayments) hhash hstatus'
  · obtain ⟨row', hrow', hstatus'⟩ := hprocessing
    refine ⟨hpatched, row', hrow', by rw [hstatus']; decide, ?_⟩
    exact stage_afterCollection hjob (by simpa using hpayments) hhash hstatus'

theorem Stage.inOrder {job : JobType} {payments : List Payment} {status : TransactionStatus}
    {phase : Phase} (h : Stage job payments status phase) : InOrder job payments := by
  cases phase <;> simp only [Stage, InOrder] at h ⊢ <;> grind

/-- Before the Stellar payment, the processing may fail with any status on record. -/
theorem Stage.failing {job : JobType} {payments : List Payment} {status : TransactionStatus}
    {phase : Phase} (h : Stage job payments status phase) (hnot : Payment.stellar ∉ payments) :
    Stage job payments status .failing :=
  ⟨h.inOrder, fun hpaid => absurd hpaid hnot⟩

/-- While the transaction is processing, the delivery may end. -/
theorem Stage.done {job : JobType} {payments : List Payment} {status : TransactionStatus}
    {phase : Phase} (h : Stage job payments status phase) (hstatus : status = .processing) :
    Stage job payments status .done :=
  ⟨h.inOrder, fun _ => .inl hstatus⟩

/-- A careful step of the holder keeps what is paid and recorded in step with its phase. -/
theorem held_step {job : JobType} {maxAttempts : ℕ} {o : Outcome} {b : Books} {phase : Phase}
    (hasClientIp : Bool) (h : Held job b phase)
    (hcareful : careful job maxAttempts o b phase = true) :
    Held job (handle job maxAttempts o b hasClientIp phase).1
      (handle job maxAttempts o b hasClientIp phase).2 := by
  obtain ⟨hrecorded, row, hrow, hpending, hstage⟩ := h
  simp only [careful, Bool.and_eq_true, Bool.or_eq_true, decide_eq_true_eq,
    Bool.not_eq_true'] at hcareful
  obtain ⟨hbranch, hunbroken⟩ := hcareful
  -- A careful step does not throw once the Stellar payment is made.
  have failing : throws maxAttempts o phase = true → Stage job b.payments row.status .failing :=
    fun hthrows => hstage.failing (by simpa [hthrows] using hunbroken)
  cases phase with
  | checkingIp | rejecting | claiming | rereading => exact absurd hstage id
  | loading =>
    apply Held.find hrecorded hrow hpending
    · intro found _
      cases job <;> exact hstage
    · exact fun _ => hstage.done hstage.2
  | screening =>
    refine ⟨hrecorded, row, hrow, hpending, ?_⟩
    by_cases hdb : o.db = .done
    · by_cases hflagged : o.flagged = true
      · simp only [handle, if_pos hdb, if_pos hflagged]
        exact hstage
      · simp only [handle, if_pos hdb, if_neg hflagged]
        exact hstage
    · simp only [handle, if_neg hdb]
      exact hstage.done hstage.2
  | holding =>
    obtain ⟨hpayments, hstatus⟩ := hstage
    have hdone : ∀ status, Stage job b.payments status .done := by
      intro status
      refine ⟨.inl hpayments, ?_⟩
      rw [hpayments]
      exact fun h => absurd h List.not_mem_nil
    refine Held.write (f := Row.withStatus .review) hrecorded hrow hpending ?_ (fun _ h => h)
      (hdone _) (fun _ => hdone _) fun _ => hdone _
    simp only [Row.withStatus, hstatus]
    decide
  | firstPayment attempt =>
    have hdone := hstage.done hstage.2
    obtain ⟨hpayments, hstatus⟩ := hstage
    apply Held.pay hrecorded hrow hpending
    · intro hash hpaid
      have hjob : job = .withdraw := by
        cases job with
        | withdraw => rfl
        | deposit => simp [hpaid, PaymentOutcome.isPaid] at hbranch
      unfold afterFirstPayment
      rw [hpayments]
      split_ifs
      · exact ⟨.inr ⟨hjob, rfl⟩, hstatus⟩
      · exact ⟨hjob, rfl, hstatus⟩
    · exact fun _ => ⟨.inl hpayments, hstatus⟩
    · exact ⟨hpayments, hstatus⟩
    · exact fun _ _ => hdone
  | recordingFirst hash =>
    have hdone := hstage.done hstage.2.2
    obtain ⟨hjob, hpayments, hstatus⟩ := hstage
    apply Held.find hrecorded hrow hpending
    · intro found hfound
      exact ⟨hjob, hpayments, hstatus, hfound⟩
    · exact fun _ => hdone
  | writingFirst metadata hash =>
    have hdone := hstage.done hstage.2.2.1
    obtain ⟨hjob, hpayments, hstatus, hmetadata⟩ := hstage
    have hpaid : Payment.stellar ∈ b.payments := by
      rw [hpayments]
      exact List.mem_cons_self
    exact Held.write hrecorded hrow hpending hpending (fun _ _ => ⟨hmetadata.1, fun _ => hpaid⟩)
      ⟨.inr ⟨hjob, hpayments⟩, hstatus⟩ (fun _ => hdone) fun _ => hdone
  | loadingMetadata =>
    apply Held.find hrecorded hrow hpending
    · exact fun found hfound => stage_afterLoading hstage found hfound
    · exact fun hdb => failing (by simp [throws, hdb])
  | collecting metadata attempt =>
    have hfailing : Stage job b.payments row.status .failing := by
      apply hstage.failing
      rw [hstage.2.1]
      exact List.not_mem_nil
    obtain ⟨hjob, hpayments, hhash, hstatus⟩ := hstage
    apply Held.pay hrecorded hrow hpending
    · intro hash _
      rw [hpayments]
      exact ⟨hjob, rfl, hhash, hstatus⟩
    · exact fun _ => hfailing
    · exact ⟨hjob, hpayments, hhash, hstatus⟩
    · exact fun _ _ => hfailing
  | patchingCollection metadata =>
    exact Held.patchCollection ⟨hrecorded, row, hrow, hpending, hstage⟩
  | secondPayment attempt =>
    have hfailing : Stage job b.payments row.status .failing := by
      apply hstage.failing
      rw [hstage.2.1]
      decide
    have hordered := hstage.inOrder
    obtain ⟨hjob, hpayments, hstatus⟩ := hstage
    apply Held.pay hrecorded hrow hpending
    · intro hash _
      rw [hpayments]
      exact ⟨.inr (.inr (.inl ⟨hjob, rfl⟩)), hstatus, fun _ => by simp⟩
    · exact fun _ => ⟨hordered, hstatus, fun h => absurd rfl h⟩
    · exact ⟨hjob, hpayments, hstatus⟩
    · exact fun _ _ => hfailing
  | recordingSecond hash =>
    obtain ⟨hordered, hstatus, hhash⟩ := hstage
    apply Held.find hrecorded hrow hpending
    · intro found hfound
      exact ⟨hordered, hstatus, hhash, hfound⟩
    · exact fun hdb => failing (by simp [throws, hdb])
  | writingSecond metadata hash =>
    obtain ⟨hordered, hstatus, hhash, hmetadata⟩ := hstage
    have hfailing : o.db ≠ .done → Stage job b.payments row.status .failing :=
      fun hdb => failing (by simp [throws, hdb])
    exact Held.write hrecorded hrow hpending hpending (fun _ _ => ⟨hmetadata.1, hhash⟩)
      ⟨hordered, hstatus⟩ (fun hdb => hfailing (by simp [hdb])) fun hdb => hfailing (by simp [hdb])
  | payingOut attempt =>
    obtain ⟨hjob, hpayments, hstatus⟩ := hstage
    apply Held.pay hrecorded hrow hpending
    · intro hash _
      refine ⟨?_, hstatus⟩
      rcases hpayments with hnil | hpaid
      · rw [hnil]
        exact .inr (.inl rfl)
      · rw [hpaid]
        exact .inr (.inr (.inr ⟨hjob, .inr rfl⟩))
    · intro hunpaid
      exact failing (by simp [throws, hunpaid, PaymentOutcome.isPaid, canRetry])
    · exact ⟨hjob, hpayments, hstatus⟩
    · intro hrejected hcan
      obtain ⟨isTransient, hpayment⟩ := hrejected
      exact failing (by simp [throws, hpayment, PaymentOutcome.isPaid, hcan])
  | completing =>
    obtain ⟨hordered, hstatus⟩ := hstage
    have hcompleted : (row.withStatus .completed).status = .completed := by
      simp only [Row.withStatus, hstatus]
      decide
    refine Held.write (f := Row.withStatus .completed) hrecorded hrow hpending ?_ (fun _ h => h)
      ⟨hordered, hcompleted⟩ (fun _ => ⟨hordered, fun _ => hcompleted⟩) ?_
    · rw [hcompleted]
      decide
    · exact fun hdb => failing (by simp [throws, hdb])
  | notifying =>
    obtain ⟨hordered, hstatus⟩ := hstage
    refine ⟨hrecorded, row, hrow, hpending, ?_⟩
    by_cases hdb : o.db = .done
    · simp only [handle, if_pos hdb]
      exact ⟨hordered, fun _ => .inr hstatus⟩
    · simp only [handle, if_neg hdb]
      exact ⟨hordered, fun _ => hstatus⟩
  | failing =>
    obtain ⟨hordered, hcompleted⟩ := hstage
    have hkept : row.status = .completed → (row.withStatus .failed).status = .completed := by
      intro hstatus
      simp only [Row.withStatus, hstatus]
      decide
    have hdone : Stage job b.payments (row.withStatus .failed).status .done :=
      ⟨hordered, fun hpaid => .inr (hkept (hcompleted hpaid))⟩
    refine Held.write (f := Row.withStatus .failed) hrecorded hrow hpending ?_ (fun _ h => h)
      hdone (fun _ => hdone) fun _ => ⟨hordered, fun hpaid => .inr (hcompleted hpaid)⟩
    rcases updateStatus_cases row.status .failed with ⟨hnew, -⟩ | hold
    · simp [Row.withStatus, hnew]
    · simpa [Row.withStatus, hold] using hpending
  | done => exact ⟨hrecorded, row, hrow, hpending, hstage⟩

/-! ## The other deliveries -/

/-- Phases of a delivery that does not hold the claim. -/
def waiting : Phase → Bool
  | .checkingIp | .rejecting | .claiming | .rereading | .done => true
  | _ => false

/-- What a delivery that does not hold the claim leaves of a claimed transaction. -/
structure Spared (b b' : Books) : Prop where
  recorded : b.Recorded → b'.Recorded
  payments : b'.payments = b.payments
  row : ∀ row, b.row.current = some row → row.status ≠ .pending →
    ∃ row', b'.row.current = some row' ∧ row'.status ≠ .pending ∧
      (row.status = .processing → row'.status = .processing) ∧
      (row.status = .completed → row'.status = .completed)

theorem Spared.refl (b : Books) : Spared b b :=
  ⟨id, rfl, fun row hrow hpending => ⟨row, hrow, hpending, id, id⟩⟩

theorem Spared.update {b : Books} (o : Outcome) {f : Row → Row}
    (hmetadata : ∀ row, (f row).metadata = row.metadata)
    (hpending : ∀ row, row.status ≠ .pending → (f row).status ≠ .pending)
    (hprocessing : ∀ row, b.row.current = some row → row.status = .processing →
      (f row).status = .processing)
    (hcompleted : ∀ row, row.status = .completed → (f row).status = .completed) :
    Spared b (b.update o f) := by
  refine ⟨fun h => h.update o fun row hrow => by rwa [hmetadata], update_payments b o f, ?_⟩
  intro row hrow hstatus
  by_cases hdb : o.db = .failed
  · exact ⟨row, by simp [Books.update, hdb, hrow], hstatus, id, id⟩
  · exact ⟨f row, by simp [Books.update, hdb, hrow], hpending row hstatus, hprocessing row hrow,
      hcompleted row⟩

theorem spared_claim (b : Books) (o : Outcome) : Spared b (b.update o Row.claimed) := by
  have same : ∀ row : Row, row.status ≠ .pending → row.claimed = row := by
    intro row hrow
    unfold Row.claimed
    rw [if_neg hrow]
  apply Spared.update o claimed_metadata
  · intro row hrow
    rwa [same row hrow]
  · intro row _ hrow
    rwa [same row (by simp [hrow])]
  · intro row hrow
    rwa [same row (by simp [hrow])]

theorem spared_reject {b : Books} (o : Outcome)
    (h : b.row.current.any (·.status = .processing) = false) :
    Spared b (b.update o (Row.withStatus .failed)) := by
  apply Spared.update o (withStatus_metadata .failed)
  · intro row hrow
    rcases updateStatus_cases row.status .failed with ⟨hnew, -⟩ | hold
    · simp [Row.withStatus, hnew]
    · simpa [Row.withStatus, hold] using hrow
  · intro row hrow hprocessing
    simp [hrow, hprocessing] at h
  · intro row hrow
    simp only [Row.withStatus, hrow]
    decide

/-- A careful step of such a delivery spares the transaction, or it is the claim. -/
theorem waiting_step {job : JobType} {maxAttempts : ℕ} {o : Outcome} {b : Books} {phase : Phase}
    (hasClientIp : Bool) (hwaiting : waiting phase = true)
    (hcareful : careful job maxAttempts o b phase = true) :
    Spared b (handle job maxAttempts o b hasClientIp phase).1 ∧
      (waiting (handle job maxAttempts o b hasClientIp phase).2 = true ∨
        (handle job maxAttempts o b hasClientIp phase).2 = .loading ∧
          ∃ row, b.row.current = some row ∧ row.status = .pending ∧
            (handle job maxAttempts o b hasClientIp phase).1.row.current = some row.claimed) := by
  simp only [careful, Bool.and_eq_true] at hcareful
  obtain ⟨hbranch, -⟩ := hcareful
  cases phase with
  | checkingIp =>
    cases hasClientIp with
    | false => exact ⟨.refl b, .inl rfl⟩
    | true =>
      refine ⟨.refl b, .inl ?_⟩
      simp only [handle, if_true]
      split_ifs <;> rfl
  | rejecting =>
    refine ⟨spared_reject o (by simpa using hbranch), .inl ?_⟩
    simp only [handle, write]
    split_ifs <;> rfl
  | claiming =>
    refine ⟨spared_claim b o, ?_⟩
    simp only [handle, claimForProcessing, write]
    by_cases hdb : o.db = .done
    · by_cases hclaims : b.row.current.any (·.status = .pending) = true
      · right
        rw [if_pos hdb, if_pos hclaims]
        cases hrow : b.row.current with
        | none => simp [hrow] at hclaims
        | some row =>
          refine ⟨rfl, row, rfl, by simpa [hrow] using hclaims, ?_⟩
          simp [Books.update, hdb, hrow]
      · left
        rw [if_pos hdb, if_neg hclaims]
        rfl
    · left
      rw [if_neg hdb]
      rfl
  | rereading =>
    refine ⟨.refl b, .inl ?_⟩
    simp only [handle, find]
    by_cases hdb : o.db = .done
    · rw [if_pos hdb, if_pos (by simpa [hdb] using hbranch)]
      rfl
    · rw [if_neg hdb]
      rfl
  | done => exact ⟨.refl b, .inl rfl⟩
  | _ => cases hwaiting

/-! ## Every interleaving -/

theorem Stage.of_status {job : JobType} {payments : List Payment}
    {status status' : TransactionStatus} {phase : Phase} (h : Stage job payments status phase)
    (hprocessing : status = .processing → status' = .processing)
    (hcompleted : status = .completed → status' = .completed) :
    Stage job payments status' phase := by
  cases phase <;> simp only [Stage] at h ⊢ <;> grind

theorem Held.spared {job : JobType} {b b' : Books} {phase : Phase} (h : Held job b phase)
    (hspared : Spared b b') : Held job b' phase := by
  obtain ⟨hrecorded, row, hrow, hpending, hstage⟩ := h
  obtain ⟨row', hrow', hpending', hprocessing, hcompleted⟩ := hspared.row row hrow hpending
  refine ⟨hspared.recorded hrecorded, row', hrow', hpending', ?_⟩
  rw [hspared.payments]
  exact hstage.of_status hprocessing hcompleted

variable {ι : Type*}

/-- Either nothing is paid and nobody holds the claim, or exactly one delivery does. -/
def Claimed (job : JobType) : World Books ι Delivery → Prop :=
  Exclusive (fun d => waiting d.phase = false) (fun b => b.Recorded ∧ b.payments = [])
    fun b d => Held job b d.phase

variable [DecidableEq ι]

/-- The condition on a turn. -/
def Careful (job : JobType) (maxAttempts : ℕ) (w : World Books ι Delivery)
    (turn : ι × Outcome) : Prop :=
  careful job maxAttempts turn.2 w.shared (w.locals turn.1).phase = true

instance (job : JobType) (maxAttempts : ℕ) (w : World Books ι Delivery) (turn : ι × Outcome) :
    Decidable (Careful job maxAttempts w turn) := inferInstanceAs (Decidable (_ = true))

theorem claimed_advance {job : JobType} {maxAttempts : ℕ} (w : World Books ι Delivery)
    (turn : ι × Outcome) (h : Claimed job w) (hcareful : Careful job maxAttempts w turn) :
    Claimed job (advance (step job maxAttempts) w turn) := by
  have waits : ∀ d : Delivery, ¬ waiting d.phase = false → waiting d.phase = true := by
    intro d hd
    simpa using hd
  apply exclusive_advance h
  · rintro ⟨hrecorded, hpayments⟩ hk -
    obtain ⟨hspared, -⟩ := waiting_step (w.locals turn.1).hasClientIp (waits _ hk) hcareful
    exact ⟨hspared.recorded hrecorded, hspared.payments.trans hpayments⟩
  · rintro ⟨hrecorded, hpayments⟩ hk hnext
    obtain ⟨hspared, hclaim⟩ := waiting_step (w.locals turn.1).hasClientIp (waits _ hk) hcareful
    rcases hclaim with hwaiting | ⟨hloading, row, hrow, hpending, hclaimed⟩
    · exact absurd (hwaiting.symm.trans hnext) (by decide)
    · refine ⟨hspared.recorded hrecorded, row.claimed, hclaimed, ?_, ?_⟩
      · simp [Row.claimed, hpending]
      · simp only [step, hloading]
        exact ⟨hspared.payments.trans hpayments, by simp [Row.claimed, hpending]⟩
  · intro hheld
    exact .inl (held_step _ hheld hcareful)
  · intro i _ hheld hk
    obtain ⟨hspared, hclaim⟩ := waiting_step (w.locals turn.1).hasClientIp (waits _ hk) hcareful
    refine ⟨hheld.spared hspared, ?_⟩
    rcases hclaim with hwaiting | ⟨-, row, hrow, hpending, -⟩
    · simpa [step] using hwaiting
    · obtain ⟨-, row', hrow', hnot, -⟩ := hheld
      rw [hrow, Option.some.injEq] at hrow'
      exact absurd (hrow' ▸ hpending) hnot

theorem Stage.not_failed {job : JobType} {payments : List Payment} {status : TransactionStatus}
    {phase : Phase} (h : Stage job payments status phase) (hpaid : .stellar ∈ payments) :
    status ≠ .failed := by
  cases phase <;> simp only [Stage] at h <;> grind

theorem paysOnce_of_inOrder {job : JobType} {b : Books} (h : InOrder job b.payments)
    (notFailed : ∀ row, b.row.current = some row → row.status = .failed →
      .stellar ∉ b.payments) : PaysOnce job b := by
  refine ⟨?_, ?_, ?_, notFailed⟩
  · rcases h with h | h | ⟨-, h⟩ | ⟨-, h | h⟩ <;> rw [h] <;> decide
  · rcases h with h | h | ⟨-, h⟩ | ⟨-, h | h⟩ <;> rw [h] <;> decide
  · intro hjob earlier later hsplit
    rcases h with h | h | ⟨-, h⟩ | ⟨hwithdraw, -⟩
    · rw [h] at hsplit
      simp at hsplit
    · rw [h] at hsplit
      cases earlier with
      | nil => cases hsplit
      | cons first earlier => simp at hsplit
    · rw [h] at hsplit
      cases earlier with
      | nil => cases hsplit
      | cons first earlier =>
        obtain ⟨rfl, -⟩ := List.cons.inj hsplit
        exact List.mem_cons_self
    · rw [hjob] at hwithdraw
      cases hwithdraw

omit [DecidableEq ι] in
theorem Claimed.paysOnce {job : JobType} {w : World Books ι Delivery} (h : Claimed job w) :
    PaysOnce job w.shared := by
  rcases h with ⟨⟨-, hpayments⟩, -⟩ | ⟨i, ⟨-, row, hrow, -, hstage⟩, -⟩
  · refine paysOnce_of_inOrder (.inl hpayments) ?_
    rw [hpayments]
    exact fun _ _ _ => List.not_mem_nil
  · refine paysOnce_of_inOrder hstage.inOrder ?_
    intro row' hrow' hfailed hpaid
    rw [hrow, Option.some.injEq] at hrow'
    exact hstage.not_failed hpaid (hrow' ▸ hfailed)

/-- The transaction as created, if it was, unknown yet to some replica; nothing is paid and
no delivery has begun. -/
def start (status : Option TransactionStatus) (hasClientIp : ι → Bool) :
    World Books ι Delivery :=
  ⟨⟨⟨status.map fun status => ⟨status, ⟨"", false⟩⟩, [none]⟩, []⟩,
    fun i => ⟨hasClientIp i, .checkingIp⟩⟩

/-- In every interleaving of deliveries whose turns are all careful, the transaction is paid
at most once on either side, a deposit is collected first, and nothing that was paid on
Stellar is marked failed. -/
theorem pays_once (job : JobType) (maxAttempts : ℕ) (status : Option TransactionStatus)
    (hasClientIp : ι → Bool) (schedule : List (ι × Outcome))
    (h : Runs.Every (advance (step job maxAttempts)) (Careful job maxAttempts)
      (start status hasClientIp) schedule) :
    PaysOnce job (run (step job maxAttempts) (start status hasClientIp) schedule).shared := by
  have hstart : Claimed job (start status hasClientIp) := by
    left
    refine ⟨⟨⟨?_, ?_⟩, rfl⟩, fun _ => by simp [start, waiting]⟩
    · cases status with
      | none => exact recorded_none []
      | some status => exact recorded_none []
    · intro row hrow
      rw [List.mem_singleton.1 hrow]
      exact recorded_none []
  exact (inv_run_of_every (Claimed job) claimed_advance hstart h).paysOnce

/-! ## Runs of the worker -/

def answered : Outcome := ⟨.done, .primary, false, .unpaid⟩

def paying (hash : String) : Outcome := { answered with payment := .paid hash }

/-- A withdrawal that is paid out without any failure. -/
def paidOut : List Outcome :=
  [answered, answered, answered, answered, paying "a1", answered, answered, answered, paying "",
    answered, answered]

/-- A delivery and a redelivery of a withdrawal, the second one finding it completed. -/
theorem pays_once_redelivered :
    PaysOnce .withdraw (run (step .withdraw 3) (start (some .pending) fun _ : ℕ => false)
      (paidOut.map (0, ·) ++ [(1, answered), (1, answered), (1, answered)])).shared :=
  pays_once .withdraw 3 (some .pending) (fun _ => false) _ (by decide)

/-- A deposit whose collection is refused was paid on Stellar before and is marked failed; a
redelivery whose read is answered by a lagging replica pays everything a second time. -/
theorem paid_before_collection_and_twice :
    let deposit := (run (step .deposit 3) (start (some .pending) fun _ : ℕ => false)
      ([answered, answered, answered, paying "a1", answered, answered, answered,
        { answered with payment := .rejected false }, answered].map (0, ·))).shared
    let withdrawal := (run (step .withdraw 3) (start (some .pending) fun _ : ℕ => false)
      (paidOut.map (0, ·) ++ [(1, answered), (1, answered),
        (1, { answered with source := .lagging 3 })] ++ (paidOut.drop 2).map (1, ·))).shared
    (deposit.payments = [.stellar] ∧
      deposit.row.current = some ⟨.failed, ⟨"a1", false⟩⟩ ∧ ¬ PaysOnce .deposit deposit) ∧
    (withdrawal.payments = [.stellar, .mobileMoney, .stellar, .mobileMoney] ∧
      ¬ PaysOnce .withdraw withdrawal) := by
  intro deposit withdrawal
  have hdeposit : deposit.payments = [.stellar] := by decide
  have hrow : deposit.row.current = some ⟨.failed, ⟨"a1", false⟩⟩ := by decide
  have hwithdrawal : withdrawal.payments = [.stellar, .mobileMoney, .stellar, .mobileMoney] := by
    decide
  refine ⟨⟨hdeposit, hrow, ?_⟩, hwithdrawal, ?_⟩
  · intro h
    have hnot := h.notFailed _ hrow rfl
    rw [hdeposit] at hnot
    exact hnot List.mem_cons_self
  · intro h
    have hcount := h.stellar
    rw [hwithdrawal] at hcount
    revert hcount
    decide

end MobileMoney.Queue.Worker
