import MobileMoney.Queue.Payouts.Program
import MobileMoney.Queue.Worker.Payments

/-!
# Paying a batch at most once

Nothing claims the rows of a batch, so a withdrawal belongs to a batch only from its
submission until its result is recorded. Within that time nobody else may submit, claim or
reject it; then it is paid out once and carries the outcome that was reported.
-/

namespace MobileMoney.Queue.Payouts

open Replicated Interleaving Worker

variable {T ι : Type*}

/-! ## What has been submitted and recorded -/

/-- How often a withdrawal was paid out. -/
def transfers (b : Books) : ℕ := b.payments.count .mobileMoney

def status (b : Books) : Option TransactionStatus := b.row.current.map (·.status)

section Batches

variable {T : Type}

/-- The payouts that the provider was sent and that are not recorded for certain. -/
def Batch.unrecorded (b : Batch T) : List T :=
  match b.phase with
  | .recording rest _ | .announcing rest _ | .aborted rest _ => rest
  | _ => []

def Batch.isRecording (b : Batch T) : Bool :=
  match b.phase with
  | .recording _ _ | .announcing _ _ => true
  | _ => false

def Batch.isOver (b : Batch T) : Bool :=
  match b.phase with
  | .finished _ | .skipped | .aborted _ _ => true
  | _ => false

/-- The answer of the provider, once there is one. -/
def Batch.reported (b : Batch T) : Option (Results T) :=
  match b.phase with
  | .recording _ results | .announcing _ results | .finished results => some results
  | .aborted _ results => results
  | _ => none

/-- The batch has recorded a payout with the status that its result asks for. -/
def Batch.Recorded (b : Batch T) (id : T) (outcome : TransactionStatus) : Prop :=
  ∃ results, b.reported = some results ∧ id ∈ b.payouts ∧ id ∉ b.unrecorded ∧
    outcome = outcomeStatus (results id)

def Process.unrecorded : Process T → List T
  | .delivery _ _ => []
  | .batch b => b.unrecorded

def Process.isRecording : Process T → Bool
  | .delivery _ _ => false
  | .batch b => b.isRecording

def Process.Recorded (id : T) (outcome : TransactionStatus) : Process T → Prop
  | .delivery _ _ => False
  | .batch b => b.Recorded id outcome

/-! ## The laws and the condition -/

structure PaidOnce (w : World (Ledger T) ι (Process T)) : Prop where
  once : ∀ id, transfers (w.shared id) ≤ 1
  recorded : ∀ i id outcome, (w.locals i).Recorded id outcome →
    status (w.shared id) = some outcome

/-- After a batch every payout of it carries the outcome that was reported. -/
def Settled (w : World (Ledger T) ι (Process T)) : Prop :=
  ∀ i b results, w.locals i = .batch b → b.isOver = true → b.reported = some results →
    ∀ id ∈ b.payouts, status (w.shared id) = some (outcomeStatus (results id))

/-- No batch has sent the withdrawal and not recorded it, other than one that broke off
after the provider had refused to pay. -/
def Unsent (w : World (Ledger T) ι (Process T)) (id : T) : Prop :=
  ∀ j, id ∈ (w.locals j).unrecorded →
    (w.locals j).isRecording = false ∧ transfers (w.shared id) = 0

/-- What is submitted is pending and unsent, and so is what is claimed; a rejection does not
meet a withdrawal that is being recorded; a refused claim is followed by a read that shows
it; and a hold leaves the status as it is. -/
def careful (w : World (Ledger T) ι (Process T)) (o : Outcome T) : Process T → Prop
  | .delivery id d =>
    match d.phase with
    | .claiming => status (w.shared id) = some .pending → Unsent w id
    | .rejecting => ∀ j, id ∈ (w.locals j).unrecorded → (w.locals j).isRecording = false
    | .rereading => o.call.db = .done →
        ((w.shared id).row.read o.call.source).any (·.status ≠ .pending) = true
    | _ => True
  | .batch b =>
    match b.phase with
    | .holding (id :: _) =>
      (status (w.shared id)).map (updateStatus · .pending) = status (w.shared id)
    | .submitting => ∀ id ∈ b.payouts, status (w.shared id) = some .pending ∧ Unsent w id
    | _ => True

def Careful (w : World (Ledger T) ι (Process T)) (turn : ι × Outcome T) : Prop :=
  careful w turn.2 (w.locals turn.1)

/-- Nothing throws as long as there is something left to record. -/
def Unbroken (w : World (Ledger T) ι (Process T)) (turn : ι × Outcome T) : Prop :=
  (w.locals turn.1).isRecording = true → (w.locals turn.1).unrecorded ≠ [] →
    turn.2.call.db = .done

/-! ## Rows and payments after a call -/

@[simp] theorem transfers_update (b : Books) (o : Worker.Outcome) (f : Row → Row) :
    transfers (b.update o f) = transfers b := by
  simp [transfers]

theorem status_update (b : Books) (o : Worker.Outcome) {f : Row → Row}
    {g : TransactionStatus → TransactionStatus} (h : ∀ row, (f row).status = g row.status) :
    status (b.update o f) = if o.db = .failed then status b else (status b).map g := by
  unfold status Books.update
  split_ifs
  · rfl
  · cases b.row.current with
    | none => rfl
    | some row => simp [h]

theorem status_withStatus (b : Books) (o : Worker.Outcome) (new : TransactionStatus) :
    status (b.update o (Row.withStatus new)) =
      if o.db = .failed then status b else (status b).map (updateStatus · new) :=
  status_update b o fun _ => rfl

theorem status_withMetadata (b : Books) (o : Worker.Outcome) (metadata : Metadata) :
    status (b.update o (Row.withMetadata metadata)) = status b := by
  have h := status_update b o (f := Row.withMetadata metadata) (g := id) fun _ => rfl
  simpa using h

theorem status_claimed (b : Books) (o : Worker.Outcome) :
    status (b.update o Row.claimed) = if o.db = .failed then status b else
      (status b).map fun old => if old = .pending then .processing else old := by
  apply status_update
  intro row
  unfold Row.claimed
  split_ifs <;> rfl

theorem outcomeStatus_cases (result : Option Bool) :
    outcomeStatus result = .completed ∨ outcomeStatus result = .failed := by
  unfold outcomeStatus
  split_ifs
  · exact .inl rfl
  · exact .inr rfl

theorem outcomeStatus_ne_pending (result : Option Bool) : outcomeStatus result ≠ .pending := by
  rcases outcomeStatus_cases result with h | h <;> rw [h] <;> decide

/-- A pending row takes any outcome. -/
theorem status_recorded {b : Books} {o : Worker.Outcome} {result : Option Bool}
    (hpending : status b = some .pending) (hdb : o.db = .done) :
    status (b.update o (Row.withStatus (outcomeStatus result))) = some (outcomeStatus result) := by
  rw [status_withStatus, hdb, hpending]
  rcases outcomeStatus_cases result with h | h <;> rw [h] <;> decide

/-! ## The owner of a withdrawal -/

/-- What holds of a withdrawal while the delivery that claimed it is in a phase. -/
def Disburses (b : Books) : Worker.Phase → Prop
  | .loading | .screening | .holding | .firstPayment _ | .recordingFirst _ | .writingFirst _ _
  | .loadingMetadata | .payingOut _ => status b ≠ some .pending ∧ transfers b = 0
  | .completing | .notifying | .failing | .done => status b ≠ some .pending ∧ transfers b ≤ 1
  | _ => False

theorem Disburses.ended {b : Books} {phase : Worker.Phase} (h : Disburses b phase) :
    Disburses b .done := by
  cases phase <;> simp only [Disburses] at h ⊢ <;> grind

theorem withStatus_ne_pending {b : Books} (o : Worker.Outcome) {new : TransactionStatus}
    (hnew : new ≠ .pending) (h : status b ≠ some .pending) :
    status (b.update o (Row.withStatus new)) ≠ some .pending := by
  rw [status_withStatus]
  split_ifs
  · exact h
  · cases hold : status b with
    | none => simp
    | some old =>
      rcases updateStatus_cases old new with ⟨heq, -⟩ | heq
      · simpa [heq] using hnew
      · simpa [heq, hold] using h

theorem disburses_write {b : Books} {o : Worker.Outcome} {f : Row → Row}
    {next thrown : Worker.Phase} (hnext : Disburses (b.update o f) next)
    (hthrown : Disburses (b.update o f) thrown) :
    Disburses (Worker.write b o f next thrown).1 (Worker.write b o f next thrown).2 := by
  unfold Worker.write
  by_cases hdb : o.db = .done
  · simpa only [if_pos hdb] using hnext
  · simpa only [if_neg hdb] using hthrown

theorem disburses_find {b : Books} {o : Worker.Outcome} {next : Option Row → Worker.Phase}
    {thrown : Worker.Phase} (hnext : ∀ row, Disburses b (next row))
    (hthrown : Disburses b thrown) :
    Disburses (find b o next thrown).1 (find b o next thrown).2 := by
  unfold find
  by_cases hdb : o.db = .done
  · simpa only [if_pos hdb] using hnext _
  · simpa only [if_neg hdb] using hthrown

theorem disburses_pay {b : Books} {maxAttempts attempt : ℕ} {o : Worker.Outcome}
    {payment : Payment} {next : String → Worker.Phase} {unpaid retry thrown : Worker.Phase}
    (hnext : ∀ hash, Disburses { b with payments := b.payments ++ [payment] } (next hash))
    (hunpaid : Disburses b unpaid) (hretry : Disburses b retry) (hthrown : Disburses b thrown) :
    Disburses (pay b maxAttempts attempt o payment next unpaid retry thrown).1
      (pay b maxAttempts attempt o payment next unpaid retry thrown).2 := by
  unfold pay
  cases o.payment with
  | paid hash => exact hnext hash
  | unpaid => exact hunpaid
  | rejected isTransient =>
    by_cases hcan : canRetry maxAttempts attempt o = true
    · simpa only [if_pos hcan] using hretry
    · simpa only [if_neg hcan] using hthrown

/-- The delivery that claimed the withdrawal pays it out once at most and never makes it
pending again. -/
theorem disburses_step {maxAttempts : ℕ} {o : Worker.Outcome} {b : Books} {phase : Worker.Phase}
    (hasClientIp : Bool) (h : Disburses b phase) :
    Disburses (Worker.handle .withdraw maxAttempts o b hasClientIp phase).1
      (Worker.handle .withdraw maxAttempts o b hasClientIp phase).2 := by
  cases phase with
  | loading => exact disburses_find (fun _ => h) h.ended
  | screening =>
    by_cases hdb : o.db = .done
    · by_cases hflagged : o.flagged = true
      · simp only [Worker.handle, if_pos hdb, if_pos hflagged]
        exact h
      · simp only [Worker.handle, if_pos hdb, if_neg hflagged]
        exact h
    · simp only [Worker.handle, if_neg hdb]
      exact h.ended
  | holding =>
    have hreview : Disburses (b.update o (Row.withStatus .review)) .done :=
      ⟨withStatus_ne_pending o (by decide) h.1, by simp [h.2]⟩
    exact disburses_write hreview hreview
  | firstPayment attempt =>
    apply disburses_pay
    · intro hash
      have hpaid : Disburses { b with payments := b.payments ++ [.stellar] }
          (.recordingFirst hash) :=
        ⟨h.1, by simpa [transfers] using h.2⟩
      unfold afterFirstPayment
      split_ifs <;> exact hpaid
    · exact h
    · exact h
    · exact h.ended
  | recordingFirst hash => exact disburses_find (fun _ => h) h.ended
  | writingFirst metadata hash =>
    have hwritten : Disburses
        (b.update o (Row.withMetadata { metadata with transactionHash := hash }))
        .loadingMetadata :=
      ⟨by simpa [status_withMetadata] using h.1, by simp [h.2]⟩
    exact disburses_write hwritten hwritten.ended
  | loadingMetadata => exact disburses_find (fun _ => h) h.ended
  | payingOut attempt =>
    apply disburses_pay
    · intro hash
      refine ⟨h.1, ?_⟩
      have hnone : transfers b = 0 := h.2
      simp only [transfers] at hnone
      simp [transfers, hnone]
    · exact h.ended
    · exact h
    · exact h.ended
  | completing =>
    have hcompleted : Disburses (b.update o (Row.withStatus .completed)) .notifying :=
      ⟨withStatus_ne_pending o (by decide) h.1, by simpa using h.2⟩
    exact disburses_write hcompleted hcompleted
  | notifying =>
    by_cases hdb : o.db = .done
    · simp only [Worker.handle, if_pos hdb]
      exact h
    · simp only [Worker.handle, if_neg hdb]
      exact h
  | failing =>
    have hfailed : Disburses (b.update o (Row.withStatus .failed)) .done :=
      ⟨withStatus_ne_pending o (by decide) h.1, by simpa using h.2⟩
    exact disburses_write hfailed hfailed
  | done => exact h
  | _ => exact absurd h id

/-- The process is going to pay out the withdrawal or to record it. -/
def touches (id : T) : Process T → Prop
  | .delivery id' d => id' = id ∧ waiting d.phase = false
  | .batch b => b.isRecording = true ∧ id ∈ b.unrecorded

def Owned (id : T) (books : Books) : Process T → Prop
  | .delivery id' d => id' = id ∧ Disburses books d.phase
  | .batch b => touches id (.batch b) ∧ status books = some .pending ∧ transfers books ≤ 1

/-- A batch has each payout once, also among those it has yet to record. -/
def Process.Nodup : Process T → Prop
  | .delivery _ _ => True
  | .batch b => b.payouts.Nodup ∧ b.unrecorded.Nodup

theorem Owned.transfers_le {id : T} {books : Books} {p : Process T} (h : Owned id books p) :
    transfers books ≤ 1 := by
  cases p with
  | delivery id' d => exact h.2.ended.2
  | batch b => exact h.2.2

theorem Owned.unrecorded {id : T} {books : Books} {p : Process T} (h : Owned id books p)
    (hpending : status books = some .pending) : id ∈ p.unrecorded ∧ p.isRecording = true := by
  cases p with
  | delivery id' d => exact absurd hpending h.2.ended.1
  | batch b => exact ⟨h.1.2, h.1.1⟩

variable [DecidableEq T]

theorem nodup_step {queue : Withdrawals T} {maxAttempts : ℕ} {o : Outcome T} {ledger : Ledger T}
    {p : Process T} (h : p.Nodup) : (step queue maxAttempts o ledger p).2.Nodup := by
  cases p with
  | delivery id d => trivial
  | batch b =>
    obtain ⟨worker, provider, supported, payouts, phase⟩ := b
    obtain ⟨hpayouts, hrest⟩ := h
    cases phase with
    | fetching =>
      have hfetched : (findByStatusAndProvider queue provider batchSize o.sources ledger).Nodup :=
        (queue.nodup.filter _).sublist (List.take_sublist _ _)
      simp only [step, handle]
      split_ifs
      · exact ⟨hpayouts, List.nodup_nil⟩
      · exact ⟨hpayouts, List.nodup_nil⟩
      · exact ⟨hfetched, List.nodup_nil⟩
      · exact ⟨hfetched, List.nodup_nil⟩
    | checkingFloat =>
      simp only [step, handle]
      split_ifs <;> exact ⟨hpayouts, List.nodup_nil⟩
    | holding rest =>
      cases rest with
      | nil => exact ⟨hpayouts, List.nodup_nil⟩
      | cons id rest =>
        simp only [step, handle]
        split_ifs <;> exact ⟨hpayouts, List.nodup_nil⟩
    | submitting =>
      simp only [step, handle]
      split_ifs <;> exact ⟨hpayouts, hpayouts⟩
    | recording rest results =>
      cases rest with
      | nil => exact ⟨hpayouts, List.nodup_nil⟩
      | cons id rest =>
        simp only [step, handle]
        split_ifs
        · exact ⟨hpayouts, (List.nodup_cons.1 hrest).2⟩
        · exact ⟨hpayouts, hrest⟩
    | announcing rest results =>
      simp only [step, handle]
      split_ifs <;> exact ⟨hpayouts, hrest⟩
    | finished results => exact ⟨hpayouts, hrest⟩
    | skipped => exact ⟨hpayouts, hrest⟩
    | aborted rest results => exact ⟨hpayouts, hrest⟩

@[simp] theorem updateRow_self (ledger : Ledger T) (o : Worker.Outcome) (id : T)
    (new : TransactionStatus) :
    updateRow ledger o id new id = (ledger id).update o (Row.withStatus new) :=
  Function.update_self _ _ _

theorem updateRow_of_ne (ledger : Ledger T) (o : Worker.Outcome) {id id' : T}
    (new : TransactionStatus) (h : id' ≠ id) : updateRow ledger o id new id' = ledger id' :=
  Function.update_of_ne h _ _

theorem step_delivery_self (queue : Withdrawals T) (maxAttempts : ℕ) (o : Outcome T)
    (ledger : Ledger T) (id : T) (d : Delivery) :
    (step queue maxAttempts o ledger (.delivery id d)).1 id =
      (Worker.handle .withdraw maxAttempts o.call (ledger id) d.hasClientIp d.phase).1 :=
  Function.update_self _ _ _

theorem step_delivery_of_ne (queue : Withdrawals T) (maxAttempts : ℕ) (o : Outcome T)
    (ledger : Ledger T) {id id' : T} (d : Delivery) (h : id' ≠ id) :
    (step queue maxAttempts o ledger (.delivery id d)).1 id' = ledger id' :=
  Function.update_of_ne h _ _

/-- The owner goes on, or it lets a withdrawal go that is recorded, or its batch breaks off. -/
theorem owned_step {queue : Withdrawals T} {maxAttempts : ℕ} {o : Outcome T}
    {ledger : Ledger T} {p : Process T} {id : T} (hnodup : p.Nodup)
    (h : Owned id (ledger id) p) :
    Owned id ((step queue maxAttempts o ledger p).1 id) (step queue maxAttempts o ledger p).2 ∨
      transfers ((step queue maxAttempts o ledger p).1 id) ≤ 1 ∧
        ¬ touches id (step queue maxAttempts o ledger p).2 ∧
        (status ((step queue maxAttempts o ledger p).1 id) = some .pending →
          id ∈ (step queue maxAttempts o ledger p).2.unrecorded) := by
  cases p with
  | delivery id' d =>
    obtain ⟨rfl, hdisburses⟩ := h
    left
    refine ⟨rfl, ?_⟩
    rw [step_delivery_self]
    exact disburses_step d.hasClientIp hdisburses
  | batch b =>
    obtain ⟨worker, provider, supported, payouts, phase⟩ := b
    obtain ⟨⟨hrecording, hmem⟩, hpending, hcount⟩ := h
    cases phase with
    | recording rest results =>
      cases rest with
      | nil => exact absurd hmem List.not_mem_nil
      | cons id' rest =>
        by_cases hdb : o.call.db = .done
        · simp only [step, handle, if_pos hdb]
          by_cases hid : id = id'
          · subst hid
            right
            refine ⟨by simpa using hcount, ?_, ?_⟩
            · exact fun htouches => (List.nodup_cons.1 hnodup.2).1 htouches.2
            · intro hstill
              rw [updateRow_self, status_recorded hpending hdb, Option.some.injEq] at hstill
              exact absurd hstill (outcomeStatus_ne_pending _)
          · left
            rw [updateRow_of_ne _ _ _ hid]
            exact ⟨⟨rfl, List.mem_of_ne_of_mem hid hmem⟩, hpending, hcount⟩
        · right
          simp only [step, handle, if_neg hdb]
          refine ⟨?_, fun htouches => Bool.false_ne_true htouches.1, fun _ => hmem⟩
          by_cases hid : id = id'
          · subst hid
            simpa using hcount
          · rwa [updateRow_of_ne _ _ _ hid]
    | announcing rest results =>
      by_cases hdb : o.call.db = .done
      · left
        simp only [step, handle, if_pos hdb]
        exact ⟨⟨rfl, hmem⟩, hpending, hcount⟩
      · right
        simp only [step, handle, if_neg hdb]
        exact ⟨hcount, fun htouches => Bool.false_ne_true htouches.1, fun _ => hmem⟩
    | _ => exact absurd hrecording Bool.false_ne_true

/-- A payout is recorded in a turn of the batch that owns it. -/
theorem recorded_step {queue : Withdrawals T} {maxAttempts : ℕ} {o : Outcome T}
    {ledger : Ledger T} {p : Process T} {id : T} {outcome : TransactionStatus}
    (hnodup : p.Nodup) (h : (step queue maxAttempts o ledger p).2.Recorded id outcome) :
    p.Recorded id outcome ∨ touches id p ∧ (Owned id (ledger id) p →
      status ((step queue maxAttempts o ledger p).1 id) = some outcome ∧
        ¬ touches id (step queue maxAttempts o ledger p).2) := by
  cases p with
  | delivery id' d => exact .inl h
  | batch b =>
    obtain ⟨worker, provider, supported, payouts, phase⟩ := b
    obtain ⟨answer, hanswer, hmem, hnot, rfl⟩ := h
    cases phase with
    | fetching =>
      dsimp only at hanswer
      split_ifs at hanswer <;> cases hanswer
    | checkingFloat =>
      dsimp only at hanswer
      split_ifs at hanswer <;> cases hanswer
    | holding rest =>
      cases rest with
      | nil => cases hanswer
      | cons id' rest =>
        dsimp only at hanswer
        split_ifs at hanswer <;> cases hanswer
    | submitting =>
      by_cases hdb : o.call.db = .done
      · simp only [if_pos hdb] at hmem hnot
        exact absurd hmem hnot
      · simp only [if_neg hdb] at hanswer
        cases hanswer
    | recording rest results =>
      cases rest with
      | nil => exact .inl ⟨answer, hanswer, hmem, hnot, rfl⟩
      | cons id' rest =>
        by_cases hdb : o.call.db = .done
        · simp only [step, handle, if_pos hdb] at hanswer hmem hnot ⊢
          obtain rfl := Option.some.inj hanswer
          by_cases hid : id = id'
          · subst hid
            refine .inr ⟨⟨rfl, List.mem_cons_self⟩, fun howned => ?_⟩
            rw [updateRow_self]
            exact ⟨status_recorded howned.2.1 hdb, fun htouches => hnot htouches.2⟩
          · refine .inl ⟨results, rfl, hmem, ?_, rfl⟩
            exact fun hrest => hnot (List.mem_of_ne_of_mem hid hrest)
        · simp only [if_neg hdb] at hanswer hmem hnot
          exact .inl ⟨answer, hanswer, hmem, hnot, rfl⟩
    | announcing rest results =>
      by_cases hdb : o.call.db = .done
      · simp only [if_pos hdb] at hanswer hmem hnot
        exact .inl ⟨answer, hanswer, hmem, hnot, rfl⟩
      · simp only [if_neg hdb] at hanswer hmem hnot
        exact .inl ⟨answer, hanswer, hmem, hnot, rfl⟩
    | finished results => exact .inl ⟨answer, hanswer, hmem, hnot, rfl⟩
    | skipped => cases hanswer
    | aborted rest results => exact .inl ⟨answer, hanswer, hmem, hnot, rfl⟩

/-! ## The others -/

/-- What a turn of a process makes of a withdrawal that it does not own. -/
inductive Spares (w : World (Ledger T) ι (Process T)) (id : T) (books : Books)
    (p p' : Process T) : Prop
  | quiet (transfers : transfers books = transfers (w.shared id))
      (status : status books = status (w.shared id) ∨
        status books = (status (w.shared id)).map (updateStatus · .failed) ∧
          ∀ j, id ∈ (w.locals j).unrecorded → (w.locals j).isRecording = false)
      (untouched : ¬ touches id p') (unrecorded : id ∈ p.unrecorded → id ∈ p'.unrecorded)
  | taken (pending : status (w.shared id) = some .pending) (unsent : Unsent w id)
      (owned : transfers (w.shared id) = 0 →
        transfers books ≤ 1 ∧ (touches id p' → Owned id books p'))
      (unrecorded : status books = some .pending → id ∈ p'.unrecorded)

omit [DecidableEq T] in
theorem not_touches_of_waiting {id id' : T} {d : Delivery} (h : waiting d.phase = true) :
    ¬ touches id (.delivery id' d) := by
  rintro ⟨-, hphase⟩
  rw [h] at hphase
  cases hphase

omit [DecidableEq T] in
theorem not_touches_of_idle {id : T} {b : Batch T} (h : b.isRecording = false) :
    ¬ touches id (.batch b) := by
  rintro ⟨hrecording, -⟩
  rw [h] at hrecording
  cases hrecording

omit [DecidableEq T] in
theorem claimForProcessing_cases (b : Books) (o : Worker.Outcome) :
    (claimForProcessing b o).2 = .loading ∧ o.db = .done ∧ status b = some .pending ∨
      waiting (claimForProcessing b o).2 = true := by
  unfold claimForProcessing Worker.write
  by_cases hdb : o.db = .done
  · by_cases hclaims : b.row.current.any (·.status = .pending) = true
    · left
      refine ⟨by simp [hdb, hclaims], hdb, ?_⟩
      simpa [status, Option.any_eq_true] using hclaims
    · right
      simp [hdb, hclaims, waiting]
  · right
    simp [hdb, waiting]

theorem spares_delivery {queue : Withdrawals T} {maxAttempts : ℕ} {o : Outcome T}
    {w : World (Ledger T) ι (Process T)} {k : ι} {id id' : T} {d : Delivery}
    (hk : w.locals k = .delivery id' d) (hcareful : Careful w (k, o))
    (hnot : ¬ touches id (.delivery id' d)) :
    Spares w id ((step queue maxAttempts o w.shared (.delivery id' d)).1 id) (.delivery id' d)
      (step queue maxAttempts o w.shared (.delivery id' d)).2 := by
  by_cases hid : id = id'
  swap
  · rw [step_delivery_of_ne _ _ _ _ _ hid]
    exact .quiet rfl (.inl rfl) (fun htouches => hid htouches.1.symm) fun hmem => hmem
  subst hid
  obtain ⟨hasClientIp, phase⟩ := d
  simp only [Careful, hk, careful] at hcareful
  rw [step_delivery_self]
  cases phase with
  | checkingIp =>
    cases hasClientIp with
    | false => exact .quiet rfl (.inl rfl) (not_touches_of_waiting rfl) fun hmem => hmem
    | true =>
      refine .quiet rfl (.inl rfl) (not_touches_of_waiting ?_) fun hmem => hmem
      dsimp only
      split_ifs <;> rfl
  | rejecting =>
    refine .quiet (transfers_update _ _ _) ?_ (not_touches_of_waiting ?_) fun hmem => hmem
    · simp only [Worker.handle, Worker.write, status_withStatus]
      by_cases hdb : o.call.db = .failed
      · exact .inl (if_pos hdb)
      · exact .inr ⟨if_neg hdb, hcareful⟩
    · simp only [ite_self]
      rfl
  | claiming =>
    have hphase := claimForProcessing_cases (w.shared id) o.call
    by_cases hclaim : o.call.db ≠ .failed ∧ status (w.shared id) = some .pending
    · obtain ⟨hdb, hpending⟩ := hclaim
      have hclaimed : status ((w.shared id).update o.call Row.claimed) = some .processing := by
        simp [status_claimed, hdb, hpending]
      refine .taken hpending (hcareful hpending) ?_ ?_
      · intro hnone
        have hcount : transfers ((w.shared id).update o.call Row.claimed) = 0 := by
          simpa using hnone
        refine ⟨hcount.trans_le (by decide), fun htouches => ⟨rfl, ?_⟩⟩
        rcases hphase with ⟨hloading, -⟩ | hwaiting
        · change Disburses ((w.shared id).update o.call Row.claimed)
            (claimForProcessing (w.shared id) o.call).2
          rw [hloading]
          exact ⟨by rw [hclaimed]; decide, hcount⟩
        · exact absurd htouches (not_touches_of_waiting hwaiting)
      · intro hstill
        exact absurd (hclaimed.symm.trans hstill) (by decide)
    · refine .quiet (transfers_update _ _ _) (.inl ?_) (not_touches_of_waiting ?_) fun hmem => hmem
      · simp only [Worker.handle, claimForProcessing, Worker.write, status_claimed]
        cases hstatus : status (w.shared id) with
        | none => simp
        | some old =>
          split_ifs with hdb
          · rfl
          · have hold : old ≠ .pending := by
              rintro rfl
              exact hclaim ⟨hdb, hstatus⟩
            simp [hold]
      · rcases hphase with ⟨-, hdb, hpending⟩ | hwaiting
        · exact absurd ⟨by simp [hdb], hpending⟩ hclaim
        · exact hwaiting
  | rereading =>
    refine .quiet rfl (.inl rfl) (not_touches_of_waiting ?_) fun hmem => hmem
    by_cases hdb : o.call.db = .done
    · rw [if_pos hdb]
      dsimp only
      rw [if_pos (hcareful hdb)]
      rfl
    · rw [if_neg hdb]
      rfl
  | done => exact .quiet rfl (.inl rfl) hnot fun hmem => hmem
  | _ => exact absurd ⟨rfl, rfl⟩ hnot

theorem status_submit (ledger : Ledger T) (payouts : List T) (accepted : T → Bool) (id : T) :
    status (submit ledger payouts accepted id) = status (ledger id) := by
  unfold submit
  split_ifs <;> rfl

theorem submit_of_not_mem (ledger : Ledger T) {payouts : List T} (accepted : T → Bool) {id : T}
    (h : id ∉ payouts) : submit ledger payouts accepted id = ledger id :=
  if_neg fun hmem => h hmem.1

theorem transfers_submit_le {ledger : Ledger T} {id : T} (h : transfers (ledger id) = 0)
    (payouts : List T) (accepted : T → Bool) :
    transfers (submit ledger payouts accepted id) ≤ 1 := by
  unfold submit
  split_ifs
  · simp only [transfers] at h
    simp [transfers, h]
  · omega

theorem spares_batch {queue : Withdrawals T} {maxAttempts : ℕ} {o : Outcome T}
    {w : World (Ledger T) ι (Process T)} {k : ι} {id : T} {b : Batch T}
    (hk : w.locals k = .batch b) (hcareful : Careful w (k, o))
    (hnot : ¬ touches id (.batch b)) :
    Spares w id ((step queue maxAttempts o w.shared (.batch b)).1 id) (.batch b)
      (step queue maxAttempts o w.shared (.batch b)).2 := by
  obtain ⟨worker, provider, supported, payouts, phase⟩ := b
  simp only [Careful, hk, careful] at hcareful
  cases phase with
  | fetching =>
    refine .quiet rfl (.inl rfl) (not_touches_of_idle ?_) fun hmem => absurd hmem List.not_mem_nil
    dsimp only
    split_ifs <;> rfl
  | checkingFloat =>
    refine .quiet rfl (.inl rfl) (not_touches_of_idle ?_) fun hmem => absurd hmem List.not_mem_nil
    dsimp only
    split_ifs <;> rfl
  | holding rest =>
    cases rest with
    | nil =>
      exact .quiet rfl (.inl rfl) (not_touches_of_idle rfl) fun hmem => absurd hmem List.not_mem_nil
    | cons id' rest =>
      refine .quiet ?_ (.inl ?_) (not_touches_of_idle ?_) fun hmem => absurd hmem List.not_mem_nil
      · by_cases hid : id = id'
        · subst hid
          simp [step, handle]
        · simp only [step, handle, updateRow_of_ne _ _ _ hid]
      · by_cases hid : id = id'
        · subst hid
          simp only [step, handle, updateRow_self, status_withStatus, hcareful, ite_self]
        · simp only [step, handle, updateRow_of_ne _ _ _ hid]
      · dsimp only
        split_ifs <;> rfl
  | submitting =>
    by_cases hmem : id ∈ payouts
    · obtain ⟨hpending, hunsent⟩ := hcareful id hmem
      refine .taken hpending hunsent ?_ ?_
      · intro hnone
        have hcount := transfers_submit_le hnone payouts o.accepted
        exact ⟨hcount, fun htouches => ⟨htouches, (status_submit _ _ _ _).trans hpending, hcount⟩⟩
      · intro _
        simp only [step, handle]
        split_ifs <;> exact hmem
    · simp only [step, handle, submit_of_not_mem w.shared o.accepted hmem]
      refine .quiet rfl (.inl rfl) ?_ fun hin => absurd hin List.not_mem_nil
      rintro ⟨-, hin⟩
      split_ifs at hin <;> exact hmem hin
  | recording rest results =>
    cases rest with
    | nil =>
      exact .quiet rfl (.inl rfl) (not_touches_of_idle rfl) fun hmem => absurd hmem List.not_mem_nil
    | cons id' rest =>
      have hmem : id ∉ id' :: rest := fun hmem => hnot ⟨rfl, hmem⟩
      have hid : id ≠ id' := List.ne_of_not_mem_cons hmem
      simp only [step, handle, updateRow_of_ne _ _ _ hid]
      refine .quiet rfl (.inl rfl) ?_ fun hin => absurd hin hmem
      rintro ⟨-, hin⟩
      split_ifs at hin
      · exact hmem (List.mem_cons_of_mem _ hin)
      · exact hmem hin
  | announcing rest results =>
    have hmem : id ∉ rest := fun hmem => hnot ⟨rfl, hmem⟩
    refine .quiet rfl (.inl rfl) ?_ fun hin => absurd hin hmem
    simp only [step, handle]
    rintro ⟨-, hin⟩
    split_ifs at hin <;> exact hmem hin
  | finished results => exact .quiet rfl (.inl rfl) hnot fun hmem => hmem
  | skipped => exact .quiet rfl (.inl rfl) hnot fun hmem => hmem
  | aborted rest results => exact .quiet rfl (.inl rfl) hnot fun hmem => hmem

theorem spares_step (queue : Withdrawals T) (maxAttempts : ℕ) {o : Outcome T}
    {w : World (Ledger T) ι (Process T)} {k : ι} {id : T} (hcareful : Careful w (k, o))
    (hnot : ¬ touches id (w.locals k)) :
    Spares w id ((step queue maxAttempts o w.shared (w.locals k)).1 id) (w.locals k)
      (step queue maxAttempts o w.shared (w.locals k)).2 := by
  cases hk : w.locals k with
  | delivery id' d => exact spares_delivery hk hcareful (hk ▸ hnot)
  | batch b => exact spares_batch hk hcareful (hk ▸ hnot)

omit [DecidableEq T] in
theorem Disburses.congr {books books' : Books} {phase : Worker.Phase}
    (h : Disburses books phase) (hstatus : status books' ≠ some .pending)
    (htransfers : transfers books' = transfers books) : Disburses books' phase := by
  cases phase <;> simp only [Disburses, htransfers] at h ⊢ <;> grind

omit [DecidableEq T] in
theorem failed_pending {old : Option TransactionStatus}
    (h : old.map (updateStatus · .failed) = some .pending) : False := by
  cases old with
  | none => cases h
  | some old => revert h; cases old <;> decide

omit [DecidableEq T] in
theorem Owned.spared {id : T} {books books' : Books} {p : Process T} (h : Owned id books p)
    (htransfers : transfers books' = transfers books)
    (hstatus : status books' = status books ∨
      status books' = (status books).map (updateStatus · .failed) ∧
        (id ∈ p.unrecorded → p.isRecording = false)) : Owned id books' p := by
  cases p with
  | delivery id' d =>
    refine ⟨h.1, h.2.congr ?_ htransfers⟩
    rcases hstatus with hsame | ⟨hfailed, -⟩
    · rw [hsame]
      exact h.2.ended.1
    · rw [hfailed]
      exact failed_pending
  | batch b =>
    obtain ⟨htouches, hpending, hcount⟩ := h
    refine ⟨htouches, ?_, htransfers.trans_le hcount⟩
    rcases hstatus with hsame | ⟨-, hidle⟩
    · exact hsame.trans hpending
    · exact absurd htouches (not_touches_of_idle (hidle htouches.2))

/-! ## Every interleaving -/

/-- Each withdrawal has one owner at most; one that is paid out while it is pending is among
the unrecorded of some batch; and what is recorded stays. -/
structure Accounted (w : World (Ledger T) ι (Process T)) : Prop where
  nodup : ∀ i, (w.locals i).Nodup
  owners : ∀ id, Exclusive (touches id) (fun ledger : Ledger T => transfers (ledger id) ≤ 1)
    (fun ledger p => Owned id (ledger id) p) w
  sent : ∀ id, status (w.shared id) = some .pending → transfers (w.shared id) ≠ 0 →
    ∃ j, id ∈ (w.locals j).unrecorded
  recorded : ∀ i id outcome, (w.locals i).Recorded id outcome →
    status (w.shared id) = some outcome ∧ ∀ j, ¬ touches id (w.locals j)

omit [DecidableEq T] in
theorem Accounted.unpaid {w : World (Ledger T) ι (Process T)} (h : Accounted w) {id : T}
    (hpending : status (w.shared id) = some .pending) (hunsent : Unsent w id) :
    transfers (w.shared id) = 0 := by
  by_contra hpaid
  obtain ⟨j, hj⟩ := h.sent id hpending hpaid
  exact hpaid (hunsent j hj).2

variable [DecidableEq ι] {queue : Withdrawals T} {maxAttempts : ℕ}

theorem owners_advance {w : World (Ledger T) ι (Process T)} {k : ι} {o : Outcome T}
    (h : Accounted w) (hcareful : Careful w (k, o)) (id : T) :
    Exclusive (touches id) (fun ledger : Ledger T => transfers (ledger id) ≤ 1)
      (fun ledger p => Owned id (ledger id) p) (advance (step queue maxAttempts) w (k, o)) := by
  apply exclusive_advance (h.owners id)
  · intro hfree hk _
    cases spares_step queue maxAttempts hcareful hk with
    | quiet htransfers => exact htransfers.trans_le hfree
    | taken hpending hunsent howned => exact (howned (h.unpaid hpending hunsent)).1
  · intro _ hk hnext
    cases spares_step queue maxAttempts hcareful hk with
    | quiet _ _ huntouched => exact absurd hnext huntouched
    | taken hpending hunsent howned => exact (howned (h.unpaid hpending hunsent)).2 hnext
  · intro howned
    rcases owned_step (h.nodup k) howned with hkept | ⟨hcount, hnot, -⟩
    · exact .inl hkept
    · exact .inr ⟨hcount, hnot⟩
  · intro i _ howned hk
    cases spares_step queue maxAttempts hcareful hk with
    | quiet htransfers hstatus huntouched =>
      refine ⟨howned.spared htransfers ?_, huntouched⟩
      exact hstatus.imp_right fun hfailed => ⟨hfailed.1, hfailed.2 i⟩
    | taken hpending hunsent =>
      obtain ⟨hmem, hrecording⟩ := howned.unrecorded hpending
      exact absurd (hrecording.symm.trans (hunsent i hmem).1) (by decide)

theorem sent_advance {w : World (Ledger T) ι (Process T)} {k : ι} {o : Outcome T}
    (h : Accounted w) (hcareful : Careful w (k, o)) (id : T)
    (hpending : status ((advance (step queue maxAttempts) w (k, o)).shared id) = some .pending)
    (hpaid : transfers ((advance (step queue maxAttempts) w (k, o)).shared id) ≠ 0) :
    ∃ j, id ∈ ((advance (step queue maxAttempts) w (k, o)).locals j).unrecorded := by
  have hself := advance_self (step queue maxAttempts) w k o
  rw [advance_shared] at hpending hpaid
  by_cases hk : touches id (w.locals k)
  · refine ⟨k, ?_⟩
    rw [hself]
    rcases owned_step (h.nodup k) ((h.owners id).owner hk).1 with hkept | ⟨-, -, hleft⟩
    · exact (hkept.unrecorded hpending).1
    · exact hleft hpending
  · cases spares_step queue maxAttempts hcareful hk with
    | quiet htransfers hstatus _ hunrecorded =>
      have hbefore : status (w.shared id) = some .pending := by
        rcases hstatus with hsame | ⟨hfailed, -⟩
        · exact hsame.symm.trans hpending
        · exact (failed_pending (hfailed.symm.trans hpending)).elim
      obtain ⟨j, hj⟩ := h.sent id hbefore fun hnone => hpaid (htransfers.trans hnone)
      refine ⟨j, ?_⟩
      by_cases hjk : j = k
      · subst hjk
        rw [hself]
        exact hunrecorded hj
      · rwa [advance_other (step queue maxAttempts) w o hjk]
    | taken _ _ _ hunrecorded =>
      refine ⟨k, ?_⟩
      rw [hself]
      exact hunrecorded hpending

/-- What is recorded and let go by everyone is left alone. -/
theorem recorded_stays {w : World (Ledger T) ι (Process T)} {k : ι} {o : Outcome T} {id : T}
    {outcome : TransactionStatus} (hcareful : Careful w (k, o))
    (hstatus : status (w.shared id) = some outcome)
    (houtcome : outcome = .completed ∨ outcome = .failed)
    (hnone : ∀ j, ¬ touches id (w.locals j)) :
    status ((advance (step queue maxAttempts) w (k, o)).shared id) = some outcome ∧
      ∀ j, ¬ touches id ((advance (step queue maxAttempts) w (k, o)).locals j) := by
  rw [advance_shared]
  cases spares_step queue maxAttempts hcareful (hnone k) with
  | quiet _ hkept huntouched =>
    constructor
    · rcases hkept with hsame | ⟨hfailed, -⟩
      · exact hsame.trans hstatus
      · rw [hfailed, hstatus]
        rcases houtcome with rfl | rfl <;> decide
    · exact locals_advance _ (fun p => ¬ touches id p) huntouched fun j _ => hnone j
  | taken hpending =>
    rw [hstatus, Option.some.injEq] at hpending
    rcases houtcome with rfl | rfl <;> cases hpending

omit [DecidableEq T] [DecidableEq ι] in
theorem Process.Recorded.outcome {id : T} {outcome : TransactionStatus} {p : Process T}
    (h : p.Recorded id outcome) : outcome = .completed ∨ outcome = .failed := by
  cases p with
  | delivery id' d => exact h.elim
  | batch b =>
    obtain ⟨results, -, -, -, rfl⟩ := h
    exact outcomeStatus_cases _

theorem recorded_advance {w : World (Ledger T) ι (Process T)} {k : ι} {o : Outcome T}
    (h : Accounted w) (hcareful : Careful w (k, o)) (i : ι) (id : T)
    (outcome : TransactionStatus)
    (hrecorded : ((advance (step queue maxAttempts) w (k, o)).locals i).Recorded id outcome) :
    status ((advance (step queue maxAttempts) w (k, o)).shared id) = some outcome ∧
      ∀ j, ¬ touches id ((advance (step queue maxAttempts) w (k, o)).locals j) := by
  have hself := advance_self (step queue maxAttempts) w k o
  have stays : (w.locals i).Recorded id outcome →
      status ((advance (step queue maxAttempts) w (k, o)).shared id) = some outcome ∧
        ∀ j, ¬ touches id ((advance (step queue maxAttempts) w (k, o)).locals j) := by
    intro hbefore
    obtain ⟨hstatus, hnone⟩ := h.recorded i id outcome hbefore
    exact recorded_stays hcareful hstatus hbefore.outcome hnone
  by_cases hik : i = k
  · subst hik
    rw [hself] at hrecorded
    rcases recorded_step (h.nodup i) hrecorded with hbefore | ⟨htouches, hrecords⟩
    · exact stays hbefore
    · obtain ⟨howned, hrest⟩ := (h.owners id).owner htouches
      obtain ⟨hstatus, hnot⟩ := hrecords howned
      exact ⟨hstatus, locals_advance _ (fun p => ¬ touches id p) hnot hrest⟩
  · rw [advance_other (step queue maxAttempts) w o hik] at hrecorded
    exact stays hrecorded

theorem accounted_advance (w : World (Ledger T) ι (Process T)) (turn : ι × Outcome T)
    (h : Accounted w) (hcareful : Careful w turn) :
    Accounted (advance (step queue maxAttempts) w turn) where
  nodup := locals_advance _ Process.Nodup (nodup_step (h.nodup turn.1)) fun j _ => h.nodup j
  owners := owners_advance h hcareful
  sent := sent_advance h hcareful
  recorded := recorded_advance h hcareful

omit [DecidableEq T] [DecidableEq ι] in
theorem Accounted.paidOnce {w : World (Ledger T) ι (Process T)} (h : Accounted w) :
    PaidOnce w := by
  refine ⟨?_, fun i id outcome hrecorded => (h.recorded i id outcome hrecorded).1⟩
  intro id
  rcases h.owners id with ⟨hcount, -⟩ | ⟨i, howned, -⟩
  · exact hcount
  · exact howned.transfers_le

/-- A batch that is over and was answered has nothing left to record. -/
def Process.Complete : Process T → Prop
  | .delivery _ _ => True
  | .batch b => b.isOver = true → b.reported ≠ none → b.unrecorded = []

theorem complete_advance (w : World (Ledger T) ι (Process T)) (turn : ι × Outcome T)
    (h : ∀ i, (w.locals i).Complete) (hunbroken : Unbroken w turn) :
    ∀ i, ((advance (step queue maxAttempts) w turn).locals i).Complete := by
  refine locals_advance _ Process.Complete ?_ fun j _ => h j
  have hk := h turn.1
  unfold Unbroken at hunbroken
  cases hp : w.locals turn.1 with
  | delivery id d => trivial
  | batch b =>
    rw [hp] at hk hunbroken
    obtain ⟨worker, provider, supported, payouts, phase⟩ := b
    cases phase with
    | fetching =>
      intro _ hreported
      refine absurd ?_ hreported
      dsimp only
      split_ifs <;> rfl
    | checkingFloat =>
      intro _ hreported
      refine absurd ?_ hreported
      dsimp only
      split_ifs <;> rfl
    | holding rest =>
      cases rest with
      | nil => exact fun _ _ => rfl
      | cons id rest =>
        intro _ hreported
        refine absurd ?_ hreported
        dsimp only
        split_ifs <;> rfl
    | submitting =>
      by_cases hdb : turn.2.call.db = .done
      · simp only [step, handle, if_pos hdb]
        intro hover
        cases hover
      · simp only [step, handle, if_neg hdb]
        exact fun _ hreported => absurd rfl hreported
    | recording rest results =>
      cases rest with
      | nil => exact fun _ _ => rfl
      | cons id rest =>
        have hdb := hunbroken rfl (List.cons_ne_nil _ _)
        simp only [step, handle, if_pos hdb]
        intro hover
        cases hover
    | announcing rest results =>
      by_cases hrest : rest = []
      · intro _ _
        subst hrest
        dsimp only
        split_ifs <;> rfl
      · have hdb := hunbroken rfl hrest
        simp only [step, handle, if_pos hdb]
        intro hover
        cases hover
    | finished results => exact fun _ _ => rfl
    | skipped => exact hk
    | aborted rest results => exact hk

inductive Job (T : Type) where
  | delivery (id : T) (hasClientIp : Bool)
  | batch (worker : BatchWorker) (provider : String)
      (supported : provider ∈ worker.supportedProviders)

def Job.start : Job T → Process T
  | .delivery id hasClientIp => .delivery id ⟨hasClientIp, .checkingIp⟩
  | .batch worker provider supported => .batch ⟨worker, provider, supported, [], .fetching⟩

/-- The transactions as created, unknown yet to some replica; nothing is paid and no job has
begun. -/
def start (status : T → Option TransactionStatus) (job : ι → Job T) :
    World (Ledger T) ι (Process T) :=
  ⟨fun id => ⟨⟨(status id).map fun status => ⟨status, ⟨"", false⟩⟩, [none]⟩, []⟩,
    fun i => (job i).start⟩

omit [DecidableEq T] [DecidableEq ι] in
theorem accounted_start (status : T → Option TransactionStatus) (job : ι → Job T) :
    Accounted (start status job) := by
  have hjob : ∀ i, ((start status job).locals i).Nodup ∧
      (∀ id, ¬ touches id ((start status job).locals i)) ∧
      ∀ id outcome, ¬ ((start status job).locals i).Recorded id outcome := by
    intro i
    simp only [start]
    cases job i with
    | delivery id hasClientIp =>
      exact ⟨trivial, fun _ => not_touches_of_waiting rfl, fun _ _ h => h⟩
    | batch worker provider supported =>
      refine ⟨⟨List.nodup_nil, List.nodup_nil⟩, fun _ => not_touches_of_idle rfl, ?_⟩
      rintro id outcome ⟨results, hreported, -⟩
      cases hreported
  refine ⟨fun i => (hjob i).1, ?_, ?_, ?_⟩
  · exact fun id => .inl ⟨by simp [start, transfers], fun i => (hjob i).2.1 id⟩
  · exact fun id _ hpaid => absurd rfl hpaid
  · exact fun i id outcome hrecorded => absurd hrecorded ((hjob i).2.2 id outcome)

/-- In every interleaving whose turns are all careful each withdrawal is paid out at most
once and what is recorded stays as reported; and if no recording breaks off, every payout
of a batch that is over carries its outcome. -/
theorem payouts_paid_once (queue : Withdrawals T) (maxAttempts : ℕ)
    (status : T → Option TransactionStatus) (job : ι → Job T)
    (schedule : List (ι × Outcome T))
    (h : Runs.Every (advance (step queue maxAttempts)) Careful (start status job) schedule) :
    PaidOnce (run (step queue maxAttempts) (start status job) schedule) ∧
      (Runs.Every (advance (step queue maxAttempts)) Unbroken (start status job) schedule →
        Settled (run (step queue maxAttempts) (start status job) schedule)) := by
  have hpaid :=
    (inv_run_of_every Accounted accounted_advance (accounted_start status job) h).paidOnce
  refine ⟨hpaid, ?_⟩
  intro hunbroken i b results hb hover hreported id hmem
  have hstart : ∀ i, ((start status job).locals i).Complete := by
    intro i
    simp only [start]
    cases job i with
    | delivery id hasClientIp => trivial
    | batch worker provider supported => exact fun hover => by cases hover
  have hcomplete := inv_run_of_every (fun w => ∀ i, (w.locals i).Complete) complete_advance hstart
    hunbroken i
  rw [hb] at hcomplete
  have hnil : b.unrecorded = [] := hcomplete hover (by simp [hreported])
  apply hpaid.recorded i
  rw [hb]
  exact ⟨results, hreported, hmem, by simp [hnil], rfl⟩

/-! ## Runs of the batches -/

instance [Fintype ι] (w : World (Ledger T) ι (Process T)) (id : T) : Decidable (Unsent w id) :=
  inferInstanceAs (Decidable (∀ _, _))

instance careful.decidable [Fintype ι] (w : World (Ledger T) ι (Process T)) (o : Outcome T) :
    (p : Process T) → Decidable (careful w o p)
  | .delivery id d => by
    unfold careful
    dsimp only
    split <;> infer_instance
  | .batch b => by
    unfold careful
    dsimp only
    split <;> infer_instance

instance [Fintype ι] (w : World (Ledger T) ι (Process T)) (turn : ι × Outcome T) :
    Decidable (Careful w turn) :=
  careful.decidable w turn.2 (w.locals turn.1)

instance (w : World (Ledger T) ι (Process T)) (turn : ι × Outcome T) :
    Decidable (Unbroken w turn) :=
  inferInstanceAs (Decidable (_ → _ → _))

end Batches

/-- Two withdrawals of one provider. -/
def two : Withdrawals Bool := ⟨[false, true], by decide, fun _ => "mtn"⟩

/-- Everything goes through; the provider reports as given. -/
def reporting (results : Results Bool) : Outcome Bool :=
  ⟨answered, fun _ => .primary, fun id => results id = some true, results⟩

/-- A batch of both workers and a delivery for the first withdrawal. -/
def jobs : Fin 3 → Job Bool
  | 0 => .batch .payoutBatchWorker "mtn" (by decide)
  | 1 => .batch .batchPayoutWorker "mtn" (by decide)
  | 2 => .delivery false true

def oneRefused : Results Bool := fun id => some id

/-- One batch pays one withdrawal and is refused the other, the second batch and the delivery
find nothing to do. -/
theorem payouts_paid_once_refused :
    let schedule : List (Fin 3 × Outcome Bool) :=
      (List.replicate 8 (0, reporting oneRefused)) ++ [(1, reporting oneRefused)] ++
        List.replicate 4 (2, reporting oneRefused)
    PaidOnce (run (step two 3) (start (fun _ => some .pending) jobs) schedule) ∧
      Settled (run (step two 3) (start (fun _ => some .pending) jobs) schedule) := by
  intro schedule
  obtain ⟨hpaid, hsettled⟩ := payouts_paid_once two 3 (fun _ => some .pending) jobs schedule
    (by decide +kernel)
  exact ⟨hpaid, hsettled (by decide +kernel)⟩

/-- Everything is accepted and reported so. -/
def accepting : Outcome Bool := reporting fun _ => some true

def failing : Outcome Bool := { accepting with call := { answered with db := .failed } }

def blacklisted : Outcome Bool := { accepting with call := { answered with flagged := true } }

/-- Whether a batch is over, what it pays and what was reported of the first withdrawal. -/
def Process.answer : Process Bool → Option (Bool × List Bool × Option (Option Bool))
  | .delivery _ _ => none
  | .batch b => some (b.isOver, b.payouts, b.reported.map (· false))

/-- Two batches overlap and pay everything twice; so they do when the first one breaks off in
its recording; and a delivery from a blacklisted address marks a payout failed between its
submission and its recording, so that the reported success is not recorded. -/
theorem paid_twice_and_lost :
    let world (schedule : List (Fin 3 × Outcome Bool)) :=
      run (step two 3) (start (fun _ => some .pending) jobs) schedule
    let overlapping := world [(0, accepting), (1, accepting), (0, accepting), (0, accepting),
      (1, accepting)]
    let broken := world [(0, accepting), (0, accepting), (0, accepting), (0, failing),
      (1, accepting), (1, accepting)]
    let rejected := world (List.replicate 3 (0, accepting) ++ List.replicate 2 (2, blacklisted) ++
      List.replicate 5 (0, accepting))
    (transfers (overlapping.shared false) = 2 ∧ ¬ PaidOnce overlapping) ∧
      (transfers (broken.shared false) = 2 ∧ ¬ PaidOnce broken) ∧
      status (rejected.shared false) = some .failed ∧ ¬ Settled rejected := by
  intro world overlapping broken rejected
  have hoverlapping : transfers (overlapping.shared false) = 2 := by decide +kernel
  have hbroken : transfers (broken.shared false) = 2 := by decide +kernel
  have hrejected : status (rejected.shared false) = some .failed := by decide +kernel
  refine ⟨⟨hoverlapping, ?_⟩, ⟨hbroken, ?_⟩, hrejected, ?_⟩
  · intro h
    have hcount := h.once false
    omega
  · intro h
    have hcount := h.once false
    omega
  · intro h
    have hbatch : (rejected.locals 0).answer =
        some (true, [false, true], some (some true)) := by decide +kernel
    cases hp : rejected.locals 0 with
    | delivery id d => simp [hp, Process.answer] at hbatch
    | batch b =>
      simp only [hp, Process.answer, Option.some.injEq, Prod.mk.injEq] at hbatch
      obtain ⟨hover, hpayouts, hreported⟩ := hbatch
      obtain ⟨results, hresults, hpaid⟩ := Option.map_eq_some_iff.1 hreported
      have hcompleted := h 0 b results hp hover hresults false (by simp [hpayouts])
      rw [hrejected, hpaid] at hcompleted
      cases hcompleted

end MobileMoney.Queue.Payouts
