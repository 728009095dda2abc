import MobileMoney.Subscriptions.Retries

/-!
# When a subscription is paused

The failures of a subscription in a row are those its row has counted and those whose report
is still on its way to the count. So the subscription is paused when they have used up its
retries, and not before, as soon as the reports that are under way have come to their end.

All this is about tables that take a charge. Those that the repository creates refuse it.
-/

namespace MobileMoney.Subscriptions

open Queue.Worker (DbOutcome)

variable {ι : Type} {cfg : Config}

/-! ## The law -/

/-- What must hold after a turn: no due date has had two charges enqueued and no charge two
retries scheduled; a subscription whose retries are used up by failures in a row is paused,
unless a report of one is still under way; and nothing else takes it out of service. -/
structure Lawful [DecidableEq ι] (cfg : Config) (w : SchedulerWorld ι) (turn : ι × Outcome) :
    Prop where
  charged : (advance cfg w turn).shared.charged.Nodup
  retried : (advance cfg w turn).shared.retried.Nodup
  paused : ∀ s ∈ (advance cfg w turn).shared.subscriptions.current.rows, s.status = .active →
    0 < (advance cfg w turn).shared.failures s.id →
    s.maxRetries ≤ (advance cfg w turn).shared.failures s.id →
    ∃ i f step, (advance cfg w turn).locals i = .reporting f step ∧ f.subscriptionId = s.id
  deserved : ∀ s ∈ w.shared.subscriptions.current.rows, s.status = .active →
    ∀ s' ∈ (advance cfg w turn).shared.subscriptions.current.rows, s'.id = s.id →
      s'.status ≠ .active → s.maxRetries ≤ (advance cfg w turn).shared.failures s.id

/-- The condition on a turn. -/
structure Careful (w : SchedulerWorld ι) (turn : ι × Outcome) : Prop where
  timely : Timely w turn
  reported : Reported w turn

instance [Fintype ι] [DecidableEq ι] (w : SchedulerWorld ι) (turn : ι × Outcome) :
    Decidable (Careful w turn) :=
  decidable_of_iff (_ ∧ _) ⟨fun ⟨timely, reported⟩ => ⟨timely, reported⟩,
    fun h => ⟨h.timely, h.reported⟩⟩

/-! ## Reports under way -/

/-- The failure has reached the count of its subscription. -/
def ReportStep.isCounted : ReportStep → Bool
  | .failing | .reloading | .loading | .incrementing => false
  | .recording _ | .pausing _ | .scheduling _ => true

/-- What a process has yet to add to the count of a subscription. -/
@[grind =] def Phase.uncounted (id : ℕ) : Phase → ℕ
  | .reporting f step => if f.subscriptionId = id ∧ step.isCounted = false then 1 else 0
  | _ => 0

/-- A failure that may still lead to a pause, with what its count returned. -/
def Phase.attempt : Phase → Option (Failure × SubscriptionAttemptRow)
  | .reporting f (.recording (some a)) | .reporting f (.pausing a) => some (f, a)
  | _ => none

/-! ## Every failure is counted -/

/-- The count of a row stays, or goes up by one and is in the hands of a report. -/
def Advances (row row' : SubscriptionRow) (phase' : Phase) : Prop :=
  row.retryCount = row'.retryCount ∨ row.retryCount + 1 = row'.retryCount ∧
    ∃ f a, phase'.attempt = some (f, a) ∧ f.subscriptionId = row'.id ∧
      a.maxRetries = row'.maxRetries ∧ a.retryCount = row'.retryCount

theorem Advances.le {row row' : SubscriptionRow} {phase' : Phase} (h : Advances row row' phase') :
    row.retryCount ≤ row'.retryCount := by
  rcases h with h | ⟨h, -⟩ <;> omega

/-- A row that is active after a turn was active before, and what the turn adds to the
failures and takes off the reports under way, it adds to the count of the row. -/
def Balanced (store : Store) (phase : Phase) (store' : Store) (phase' : Phase) : Prop :=
  ∀ row' ∈ store'.subscriptions.current.rows, row'.status = .active →
    ∃ row ∈ store.subscriptions.current.rows, row.id = row'.id ∧ row.status = .active ∧
      row.maxRetries = row'.maxRetries ∧ Advances row row' phase' ∧
      store'.failures row'.id + phase.uncounted row'.id + row.retryCount =
        store.failures row'.id + phase'.uncounted row'.id + row'.retryCount

theorem balanced_of_eq {store store' : Store} {phase phase' : Phase}
    (rows : store'.subscriptions = store.subscriptions)
    (count : ∀ id, Active store id →
      store'.failures id + phase.uncounted id = store.failures id + phase'.uncounted id) :
    Balanced store phase store' phase' := by
  intro row hrow hactive
  rw [rows] at hrow
  refine ⟨row, hrow, rfl, hactive, rfl, .inl rfl, ?_⟩
  rw [count row.id ⟨row, hrow, rfl, hactive⟩]

/-- The rows change at most in their schedule. -/
theorem balanced_of_rows {store store' : Store} {phase phase' : Phase}
    (rows : ∀ row' ∈ store'.subscriptions.current.rows,
      ∃ row ∈ store.subscriptions.current.rows, row.id = row'.id ∧ row.status = row'.status ∧
        row.maxRetries = row'.maxRetries ∧ row.retryCount = row'.retryCount)
    (failures : store'.failures = store.failures)
    (count : ∀ id, phase.uncounted id = phase'.uncounted id) :
    Balanced store phase store' phase' := by
  intro row' hrow' hactive
  obtain ⟨row, hrow, hid, hstatus, hmax, hcount⟩ := rows row' hrow'
  refine ⟨row, hrow, hid, hstatus.trans hactive, hmax, .inl hcount, ?_⟩
  rw [failures, count, hcount]

theorem attemptRow_of_mem {store : Store} {row : SubscriptionRow}
    (h : row ∈ store.subscriptions.current.rows) :
    attemptRow store row.id = some ⟨row.retryCount, row.maxRetries, row.retryBackoffSeconds⟩ := by
  rw [attemptRow, Keyed.find?_of_mem h, Option.map_some]

theorem uncounted_nextRow (id : ℕ) (rows : List SubscriptionRow) :
    (nextRow rows).uncounted id = 0 := by
  cases rows <;> rfl

theorem uncounted_afterAttempt (id : ℕ) (f : Failure) (a : Option SubscriptionAttemptRow) :
    (afterAttempt f a).uncounted id = 0 := by
  cases a with
  | none => rfl
  | some a =>
    unfold afterAttempt
    dsimp only
    split_ifs <;> simp [Phase.uncounted, ReportStep.isCounted]

theorem uncounted_of_works {id : ℕ} {phase : Phase} (h : phase.works = none) :
    phase.uncounted id = 0 := by
  cases phase with
  | reporting f step => cases h
  | idle | job | claiming | rereading | processing => rfl

theorem uncounted_of_ne {id : ℕ} {f : Failure} (h : f.subscriptionId ≠ id) (step : ReportStep) :
    (Phase.reporting f step).uncounted id = 0 := by
  simp [Phase.uncounted, h]

theorem uncounted_of_isCounted {id : ℕ} {f : Failure} {step : ReportStep}
    (h : step.isCounted = true) : (Phase.reporting f step).uncounted id = 0 := by
  simp [Phase.uncounted, h]

theorem uncounted_self {f : Failure} {step : ReportStep} (h : step.isCounted = false) :
    (Phase.reporting f step).uncounted f.subscriptionId = 1 := by
  simp [Phase.uncounted, h]

theorem balanced_chargeStep (o : Outcome) (store : Store) (s : SubscriptionRow)
    (rest : List SubscriptionRow) (step : JobStep) :
    Balanced store (.job s rest step) (chargeStep cfg o store s rest step).1
      (chargeStep cfg o store s rest step).2 := by
  have hwrite : ∀ (store' : Store) (step' : JobStep),
      store'.subscriptions = store.subscriptions → store'.failures = store.failures →
      Balanced store (.job s rest step) (write o store store' (.job s rest step') (nextRow rest)).1
        (write o store store' (.job s rest step') (nextRow rest)).2 := by
    intro store' step' rows failures
    rcases write_cases o store store' (.job s rest step') (nextRow rest) with
      ⟨-, h⟩ | ⟨-, h⟩ | ⟨-, h⟩ <;> rw [h]
    · exact balanced_of_eq rows fun id _ => by rw [failures]; rfl
    · exact balanced_of_eq rfl fun id _ => by rw [uncounted_nextRow]; rfl
    · exact balanced_of_eq rows fun id _ => by rw [failures, uncounted_nextRow]; rfl
  cases step with
  | creating =>
    simp only [chargeStep]
    split
    · exact balanced_of_eq rfl fun id _ => by rw [uncounted_nextRow]; rfl
    · split_ifs
      · exact hwrite _ _ rfl rfl
      · exact balanced_of_eq rfl fun id _ => by rw [uncounted_nextRow]; rfl
  | recording t => exact hwrite _ _ rfl rfl
  | enqueuing t => exact hwrite _ _ rfl rfl
  | advancing =>
    simp only [chargeStep, write, ite_self]
    split_ifs
    · exact balanced_of_eq rfl fun id _ => by rw [uncounted_nextRow]; rfl
    · refine balanced_of_rows ?_ rfl fun id => by rw [uncounted_nextRow]; rfl
      intro row' hrow'
      unfold Store.advanceNextRun at hrow'
      obtain ⟨row, hrow, rfl⟩ := (mem_updateRow _).1 hrow'
      refine ⟨row, hrow, ?_⟩
      split_ifs <;> exact ⟨rfl, rfl, rfl, rfl⟩

/-- A step of a report that ends before the count does so for an inactive subscription. -/
theorem uncounted_write {o : Outcome} {store : Store} {f : Failure} {step step' : ReportStep}
    (done : Active store f.subscriptionId → o.db = .done) {id : ℕ} (h : Active store id)
    (uncounted : step.isCounted = false) (uncounted' : step'.isCounted = false) :
    (Phase.reporting f step).uncounted id =
      (if o.db = .done then .reporting f step' else Phase.idle).uncounted id := by
  by_cases hid : f.subscriptionId = id
  · subst hid
    rw [if_pos (done h), uncounted_self uncounted, uncounted_self uncounted']
  · rw [uncounted_of_ne hid]
    split_ifs
    · exact (uncounted_of_ne hid step').symm
    · rfl

theorem balanced_incrementing (o : Outcome) (store : Store) (f : Failure)
    (done : Active store f.subscriptionId → o.db = .done) :
    Balanced store (.reporting f .incrementing) (reportStep o store f .incrementing).1
      (reportStep o store f .incrementing).2 := by
  have skip : ∀ row ∈ store.subscriptions.current.rows, row.status = .active → o.db ≠ .done →
      row.id ≠ f.subscriptionId := by
    intro row hrow hactive hdb hid
    exact hdb (done ⟨row, hrow, hid, hactive⟩)
  simp only [reportStep]
  rcases write_cases o store (store.incrementRetry f.subscriptionId)
    (.reporting f
      (.recording (attemptRow (store.incrementRetry f.subscriptionId) f.subscriptionId)))
    .idle with ⟨-, h⟩ | ⟨hdb, h⟩ | ⟨hdb, h⟩ <;> rw [h]
  · intro row' hrow' hactive
    obtain ⟨row, hrow, rfl⟩ := (mem_updateRow _).1 hrow'
    refine ⟨row, hrow, ?_⟩
    split_ifs at hactive ⊢ with hid
    · refine ⟨rfl, hactive, rfl, .inr ⟨rfl, f, ⟨row.retryCount + 1, row.maxRetries,
        row.retryBackoffSeconds⟩, ?_, hid.symm, rfl, rfl⟩, ?_⟩
      · rw [if_pos hid] at hrow'
        have hattempt := attemptRow_of_mem hrow'
        rw [show _ = f.subscriptionId from hid] at hattempt
        simp only [Phase.attempt, hattempt]
      have before : (Phase.reporting f .incrementing).uncounted row.id = 1 := by
        rw [hid]
        exact uncounted_self rfl
      have after : ∀ a, (Phase.reporting f (.recording a)).uncounted row.id = 0 :=
        fun a => uncounted_of_isCounted rfl
      change store.failures row.id + (Phase.reporting f .incrementing).uncounted row.id +
        row.retryCount = store.failures row.id + Phase.uncounted row.id _ + (row.retryCount + 1)
      rw [before, after]
      omega
    · refine ⟨rfl, hactive, rfl, .inl rfl, ?_⟩
      rw [uncounted_of_ne (Ne.symm hid), uncounted_of_ne (Ne.symm hid)]
      rfl
  · intro row hrow hactive
    have hid := skip row hrow hactive (by rw [hdb]; decide)
    refine ⟨row, hrow, rfl, hactive, rfl, .inl rfl, ?_⟩
    rw [uncounted_of_ne (Ne.symm hid)]
    rfl
  · intro row' hrow' hactive
    obtain ⟨row, hrow, rfl⟩ := (mem_updateRow _).1 hrow'
    split_ifs at hactive ⊢ with hid
    · exact absurd hid (skip row hrow hactive (by rw [hdb]; decide))
    · refine ⟨row, hrow, rfl, hactive, rfl, .inl rfl, ?_⟩
      rw [uncounted_of_ne (Ne.symm hid)]
      rfl

theorem balanced_reportStep {o : Outcome} {store : Store} {f : Failure} {step : ReportStep}
    (belongs : subscriptionOf store f.transactionId = some f.subscriptionId)
    (succeeds : Active store f.subscriptionId → step.Succeeds store o f) :
    Balanced store (.reporting f step) (reportStep o store f step).1
      (reportStep o store f step).2 := by
  cases step with
  | failing =>
    simp only [reportStep, write]
    apply balanced_of_eq
    · split_ifs <;> rfl
    · intro id hid
      have failures : (if o.db = .failed then store else store.setStatus f.transactionId
          fun status => Queue.updateStatus status .failed).failures = store.failures := by
        split_ifs <;> rfl
      rw [failures]
      exact congrArg _ (uncounted_write succeeds hid rfl rfl)
  | loading =>
    simp only [reportStep]
    apply balanced_of_eq rfl
    intro id hid
    exact congrArg _ (uncounted_write succeeds hid rfl rfl)
  | reloading =>
    simp only [reportStep]
    split
    · next t hread =>
      have hsame : t.subscriptionId = f.subscriptionId :=
        Option.some.inj ((subscriptionOf_findById hread).symm.trans belongs)
      rw [hsame]
      apply balanced_of_eq rfl
      intro id hid
      exact congrArg _ (uncounted_write (fun hactive => (succeeds hactive).1) hid rfl rfl)
    · next hread =>
      apply balanced_of_eq rfl
      intro id hid
      by_cases hsame : f.subscriptionId = id
      · subst hsame
        have hfound := (succeeds hid).2
        rw [hread] at hfound
        cases hfound
      · rw [uncounted_of_ne hsame]
        rfl
  | incrementing => exact balanced_incrementing o store f succeeds
  | recording a =>
    simp only [reportStep, write, ite_self]
    apply balanced_of_eq rfl
    intro id _
    rw [uncounted_of_isCounted rfl]
    split_ifs
    · rw [uncounted_afterAttempt]
    · rfl
  | pausing a =>
    simp only [reportStep, write, ite_self]
    split_ifs
    · exact balanced_of_eq rfl fun id _ => by rw [uncounted_of_isCounted rfl]; rfl
    · intro row' hrow' hactive
      obtain ⟨row, hrow, rfl⟩ := (mem_updateRow _).1 hrow'
      split_ifs at hactive ⊢
      refine ⟨row, hrow, rfl, hactive, rfl, .inl rfl, ?_⟩
      rw [uncounted_of_isCounted rfl]
      rfl
  | scheduling a =>
    simp only [reportStep, write, ite_self]
    split_ifs
    · exact balanced_of_eq rfl fun id _ => by rw [uncounted_of_isCounted rfl]; rfl
    · refine balanced_of_rows ?_ rfl fun id => by rw [uncounted_of_isCounted rfl]; rfl
      intro row' hrow'
      obtain ⟨row, hrow, rfl⟩ := (mem_updateRow _).1 hrow'
      refine ⟨row, hrow, ?_⟩
      split_ifs <;> exact ⟨rfl, rfl, rfl, rfl⟩

theorem balanced_finish {o : Outcome} {store : Store} {id : ℕ}
    (processed : ∀ subscription ∈ subscriptionOf store id, Active store subscription →
      o.result ≠ .thrown ∧ (o.result = .completed → store.failures subscription = 0)) :
    Balanced store (.processing id) (finish o store id).1 (finish o store id).2 := by
  cases hsubscription : subscriptionOf store id with
  | none =>
    apply balanced_of_eq
    · unfold finish
      split
      · rfl
      · rfl
      · split <;> rfl
    · intro id' _
      unfold finish
      split
      · simp [Store.complete, hsubscription, Phase.uncounted]
      · simp [Store.fail, hsubscription, Phase.uncounted]
      · simp [hsubscription, Phase.uncounted]
  | some subscription =>
    unfold finish
    split
    · next hresult =>
      apply balanced_of_eq
      · rfl
      intro id' hactive
      simp only [Store.complete, hsubscription, Function.update_apply]
      split_ifs with hid
      · subst hid
        rw [(processed id' hsubscription hactive).2 hresult]
        rfl
      · rfl
    · next hresult =>
      apply balanced_of_eq
      · rfl
      intro id' hactive
      simp only [Store.fail, hsubscription, Function.update_apply]
      split_ifs with hid
      · exact absurd hresult (processed subscription hsubscription (hid ▸ hactive)).1
      · rfl
    · rw [hsubscription]
      apply balanced_of_eq
      · rfl
      intro id' hactive
      simp only [Store.fail, hsubscription, Function.update_apply, Phase.uncounted,
        ReportStep.isCounted]
      grind

theorem balanced_step {o : Outcome} {store : Store} {phase : Phase}
    (processed : ∀ id, phase = .processing id → ∀ subscription ∈ subscriptionOf store id,
      Active store subscription → o.result ≠ .thrown ∧
        (o.result = .completed → store.failures subscription = 0))
    (handled : ∀ f step, phase = .reporting f step → Active store f.subscriptionId →
      step.Succeeds store o f)
    (belongs : ∀ f step, phase = .reporting f step →
      subscriptionOf store f.transactionId = some f.subscriptionId) :
    Balanced store phase (step cfg o store phase).1 (step cfg o store phase).2 := by
  cases phase with
  | idle =>
    apply balanced_of_eq rfl
    intro id _
    rw [show (step cfg o store .idle).2 = take o (store.tick o.elapsed) from rfl,
      uncounted_of_works (works_take _ _)]
    rfl
  | job s rest step => exact balanced_chargeStep o (store.tick o.elapsed) s rest step
  | claiming id =>
    simp only [step, handle, write]
    apply balanced_of_eq
    · split_ifs <;> rfl
    · intro id' _
      split_ifs <;> rfl
  | rereading id =>
    simp only [step, handle]
    apply balanced_of_eq rfl
    intro id' _
    split_ifs <;> rfl
  | processing id =>
    have ticked : Balanced (store.tick o.elapsed) (.processing id)
        (finish o (store.tick o.elapsed) id).1 (finish o (store.tick o.elapsed) id).2 :=
      balanced_finish (processed id rfl)
    exact ticked
  | reporting f step =>
    have ticked : Balanced (store.tick o.elapsed) (.reporting f step)
        (reportStep o (store.tick o.elapsed) f step).1
        (reportStep o (store.tick o.elapsed) f step).2 :=
      balanced_reportStep (belongs f step rfl) (handled f step rfl)
    exact ticked

/-! ## From the count to the pause -/

theorem attempt_afterAttempt {f f' : Failure} {a : Option SubscriptionAttemptRow}
    {a' : SubscriptionAttemptRow} (h : (afterAttempt f a).attempt = some (f', a')) :
    a = some a' ∧ f' = f ∧ a'.maxRetries ≤ a'.retryCount := by
  cases a with
  | none => cases h
  | some a =>
    unfold afterAttempt at h
    dsimp only at h
    split_ifs at h with hused
    · cases h
      exact ⟨rfl, rfl, hused⟩
    · cases h

/-- What a report holds in its hands it has just counted, or held before. -/
theorem attempt_reportStep {o : Outcome} {store : Store} {f f' : Failure} {step : ReportStep}
    {a : SubscriptionAttemptRow}
    (after : (reportStep o store f step).2.attempt = some (f', a)) :
    (Phase.reporting f step).attempt = some (f', a) ∧ a.maxRetries ≤ a.retryCount ∨
      step = .incrementing ∧
        attemptRow (reportStep o store f step).1 f'.subscriptionId = some a ∧
        (reportStep o store f step).2 = .reporting f' (.recording (some a)) := by
  cases step with
  | failing | pausing | scheduling =>
    simp only [reportStep, write] at after
    split_ifs at after <;> cases after
  | loading =>
    simp only [reportStep] at after
    split_ifs at after <;> cases after
  | reloading =>
    simp only [reportStep] at after
    split at after
    · split_ifs at after <;> cases after
    · cases after
  | recording a₀ =>
    simp only [reportStep, write] at after
    split_ifs at after
    · obtain ⟨rfl, rfl, hused⟩ := attempt_afterAttempt after
      exact .inl ⟨rfl, hused⟩
    · cases after
  | incrementing =>
    simp only [reportStep] at after ⊢
    rcases write_cases o store (store.incrementRetry f.subscriptionId)
      (.reporting f (.recording (attemptRow (store.incrementRetry f.subscriptionId)
        f.subscriptionId))) .idle with ⟨-, h⟩ | ⟨-, h⟩ | ⟨-, h⟩ <;> rw [h] at after ⊢
    · cases hrow : attemptRow (store.incrementRetry f.subscriptionId) f.subscriptionId with
      | none =>
        simp only [hrow] at after
        cases after
      | some a₀ =>
        simp only [hrow] at after
        cases after
        exact .inr ⟨trivial, hrow, rfl⟩
    · cases after
    · cases after

theorem attempt_eq_some {phase : Phase} {f : Failure} {a : SubscriptionAttemptRow}
    (h : phase.attempt = some (f, a)) :
    phase = .reporting f (.recording (some a)) ∨ phase = .reporting f (.pausing a) := by
  unfold Phase.attempt at h
  split at h
  · cases h
    exact .inl rfl
  · cases h
    exact .inr rfl
  · cases h

/-- A report that has a pause to make goes on with it until it is made. -/
theorem attempt_handled {o : Outcome} {store : Store} {phase : Phase} {f : Failure}
    {a : SubscriptionAttemptRow} (before : phase.attempt = some (f, a))
    (used : a.maxRetries ≤ a.retryCount)
    (handled : ∀ step, phase = .reporting f step → step.Succeeds store o f)
    {row' : SubscriptionRow} (hrow' : row' ∈ (step cfg o store phase).1.subscriptions.current.rows)
    (hid : row'.id = f.subscriptionId) (hactive : row'.status = .active) :
    (step cfg o store phase).2.attempt = some (f, a) := by
  rcases attempt_eq_some before with rfl | rfl
  · have hdone : o.db = .done := handled _ rfl (decide_eq_true used)
    simp only [step, handle, reportStep, write, if_pos hdone, afterAttempt, if_pos used]
    rfl
  · have hdb : o.db ≠ .failed := handled _ rfl
    simp only [step, handle, reportStep, write, if_neg hdb] at hrow'
    obtain ⟨row, -, rfl⟩ := (mem_updateRow _).1 hrow'
    split_ifs at hid hactive with hsame
    exact absurd hid hsame

/-! ## Who takes a subscription out of service -/

/-- The rows keep their status. -/
def SameStatus (store store' : Store) : Prop :=
  ∀ row' ∈ store'.subscriptions.current.rows, ∃ row ∈ store.subscriptions.current.rows,
    row.id = row'.id ∧ row.status = row'.status

theorem sameStatus_of_eq {store store' : Store}
    (rows : store'.subscriptions = store.subscriptions) : SameStatus store store' := by
  intro row hrow
  rw [rows] at hrow
  exact ⟨row, hrow, rfl, rfl⟩

theorem sameStatus_updateRow {store : Store} {id : ℕ} {f : SubscriptionRow → SubscriptionRow}
    (same : ∀ s, (f s).id = s.id) (keeps : ∀ s, (f s).status = s.status) :
    SameStatus store (store.updateRow id f same) := by
  intro row' hrow'
  obtain ⟨row, hrow, rfl⟩ := (mem_updateRow same).1 hrow'
  refine ⟨row, hrow, ?_⟩
  split_ifs
  · exact ⟨(same row).symm, (keeps row).symm⟩
  · exact ⟨rfl, rfl⟩

theorem sameStatus_step (o : Outcome) (store : Store) {phase : Phase}
    (h : ∀ f a, phase ≠ .reporting f (.pausing a)) :
    SameStatus store (step cfg o store phase).1 := by
  suffices ticked : SameStatus (store.tick o.elapsed) (step cfg o store phase).1 from ticked
  have effect := effect_step cfg o store phase
  generalize (step cfg o store phase).1 = store' at effect ⊢
  cases effect with
  | none | create | enqueue | status | complete | fail => exact sameStatus_of_eq rfl
  | advance | increment =>
    apply sameStatus_updateRow
    exact fun _ => rfl
  | pause f a before => exact absurd before (h f a)
  | schedule f a =>
    have kept : SameStatus (store.tick o.elapsed) ((store.tick o.elapsed).updateRow
        f.subscriptionId (fun row => { row with
          nextRunAt := some ((store.tick o.elapsed).now + retryDelay a * 10 ^ 6) })
        fun _ => rfl) := sameStatus_updateRow _ fun _ => rfl
    exact kept

/-- A pause takes only its own subscription out of service. -/
theorem pausing_step {o : Outcome} {store : Store} {f : Failure} {a : SubscriptionAttemptRow}
    {row' : SubscriptionRow}
    (h : row' ∈ (step cfg o store (.reporting f (.pausing a))).1.subscriptions.current.rows) :
    ∃ row ∈ store.subscriptions.current.rows, row.id = row'.id ∧
      (row.status = row'.status ∨ f.subscriptionId = row'.id) := by
  simp only [step, handle, reportStep, write] at h
  split_ifs at h
  · exact ⟨row', h, rfl, .inl rfl⟩
  · obtain ⟨row, hrow, rfl⟩ := (mem_updateRow _).1 h
    refine ⟨row, hrow, ?_⟩
    split_ifs with hid
    · exact ⟨rfl, .inr hid.symm⟩
    · exact ⟨rfl, .inl rfl⟩

variable [DecidableEq ι]

/-- The failures in a row of an active subscription are counted in its row or on their way
there; and a row whose retries are used up is about to be paused. -/
structure Counting [Fintype ι] (w : SchedulerWorld ι) : Prop where
  counted : ∀ s ∈ w.shared.subscriptions.current.rows, s.status = .active →
    w.shared.failures s.id = s.retryCount + ∑ i, (w.locals i).uncounted s.id
  used : ∀ s ∈ w.shared.subscriptions.current.rows, s.status = .active → 0 < s.retryCount →
    s.maxRetries ≤ s.retryCount → ∃ i f a, (w.locals i).attempt = some (f, a) ∧
      f.subscriptionId = s.id ∧ a.maxRetries ≤ a.retryCount
  attempts : ∀ i f a, (w.locals i).attempt = some (f, a) →
    ∀ s ∈ w.shared.subscriptions.current.rows, s.id = f.subscriptionId → s.status = .active →
      a.maxRetries = s.maxRetries ∧ a.retryCount ≤ s.retryCount
  ready : ∀ i f a, w.locals i = .reporting f (.pausing a) → a.maxRetries ≤ a.retryCount

theorem attempt_advance {w : SchedulerWorld ι} {i : ι} {o : Outcome} (reported : Reported w (i, o))
    {f : Failure} {a : SubscriptionAttemptRow}
    (h : ((advance cfg w (i, o)).locals i).attempt = some (f, a)) :
    (w.locals i).attempt = some (f, a) ∧ a.maxRetries ≤ a.retryCount ∨
      attemptRow (advance cfg w (i, o)).shared f.subscriptionId = some a ∧
        (advance cfg w (i, o)).locals i = .reporting f (.recording (some a)) := by
  have shared : (advance cfg w (i, o)).shared = (step cfg o w.shared (w.locals i)).1 := rfl
  rw [shared]
  rw [advance_self] at h ⊢
  have reports : ∃ f₀ step₀, w.locals i = .reporting f₀ step₀ := by
    rcases attempt_eq_some h with hafter | hafter
    · rcases reporting_step reported.seen hafter with ⟨hstep, -⟩ | hbefore
      · cases hstep
      · exact hbefore
    · rcases reporting_step reported.seen hafter with ⟨hstep, -⟩ | hbefore
      · cases hstep
      · exact hbefore
  obtain ⟨f₀, step₀, hbefore⟩ := reports
  rw [hbefore] at h ⊢
  rcases attempt_reportStep h with hold | ⟨-, hnew⟩
  · exact .inl hold
  · exact .inr hnew

theorem counting_advance [Fintype ι] {w : SchedulerWorld ι} {turn : ι × Outcome} (h : Counting w)
    (working : Working w) (reported : Reported w turn) : Counting (advance cfg w turn) := by
  obtain ⟨i, o⟩ := turn
  have self := advance_self cfg w i o
  have other : ∀ j, j ≠ i → (advance cfg w (i, o)).locals j = w.locals j :=
    fun j hj => advance_other w o hj
  have balanced : Balanced w.shared (w.locals i) (advance cfg w (i, o)).shared
      ((advance cfg w (i, o)).locals i) := by
    rw [self]
    exact balanced_step reported.processed reported.handled (working.belongs i)
  constructor
  case counted =>
    intro s' hs' hactive
    obtain ⟨s, hs, hid, hactive₀, -, -, hbalance⟩ := balanced s' hs' hactive
    have hcount := h.counted s hs hactive₀
    have hsum : ∑ j, ((advance cfg w (i, o)).locals j).uncounted s'.id +
        (w.locals i).uncounted s'.id = ∑ j, (w.locals j).uncounted s'.id +
          ((advance cfg w (i, o)).locals i).uncounted s'.id := by
      rw [self]
      exact Interleaving.sum_advance (step cfg) (Phase.uncounted s'.id) w i o
    rw [hid] at hcount
    omega
  case used =>
    intro s' hs' hactive hpos hused
    obtain ⟨s, hs, hid, hactive₀, hmax, hadvances, -⟩ := balanced s' hs' hactive
    rcases hadvances with hsame | ⟨-, f, a, hattempt, hf, hamax, hacount⟩
    · obtain ⟨j, f, a, hattempt, hf, haused⟩ :=
        h.used s hs hactive₀ (hsame ▸ hpos) (hmax ▸ hsame ▸ hused)
      by_cases hj : j = i
      · subst hj
        refine ⟨j, f, a, ?_, hf.trans hid, haused⟩
        rw [self]
        have active : Active w.shared f.subscriptionId := ⟨s, hs, hf.symm, hactive₀⟩
        exact attempt_handled hattempt haused
          (fun step hstep => reported.handled f step hstep active)
          hs' (hid.symm.trans hf.symm) hactive
      · exact ⟨j, f, a, by rw [other j hj]; exact hattempt, hf.trans hid, haused⟩
    · exact ⟨i, f, a, hattempt, hf, by omega⟩
  case attempts =>
    intro j f a hj s' hs' hid' hactive
    obtain ⟨s, hs, hid, hactive₀, hmax, hadvances, -⟩ := balanced s' hs' hactive
    have old : (w.locals j).attempt = some (f, a) →
        a.maxRetries = s'.maxRetries ∧ a.retryCount ≤ s'.retryCount := by
      intro hold
      obtain ⟨hamax, hacount⟩ := h.attempts j f a hold s hs (hid.trans hid') hactive₀
      exact ⟨hamax.trans hmax, hacount.trans hadvances.le⟩
    by_cases hji : j = i
    · subst hji
      rcases attempt_advance reported hj with ⟨hold, -⟩ | ⟨hrow, -⟩
      · exact old hold
      · rw [← hid', attemptRow_of_mem hs'] at hrow
        cases hrow
        exact ⟨rfl, Nat.le_refl _⟩
    · exact old (by rw [← other j hji]; exact hj)
  case ready =>
    intro j f a hj
    by_cases hji : j = i
    · subst hji
      have hattempt : ((advance cfg w (j, o)).locals j).attempt = some (f, a) := by
        rw [hj]
        rfl
      rcases attempt_advance reported hattempt with ⟨-, hused⟩ | ⟨-, hrecording⟩
      · exact hused
      · cases hj.symm.trans hrecording
    · exact h.ready j f a ((other j hji).symm.trans hj)

/-! ## The run -/

structure Inv [Fintype ι] (w : SchedulerWorld ι) : Prop where
  charging : Charging w
  working : Working w
  counting : Counting w

theorem inv_advance [Fintype ι] {w : SchedulerWorld ι} {turn : ι × Outcome} (h : Inv w)
    (careful : Careful w turn) : Inv (advance cfg w turn) where
  charging := charging_advance h.charging careful.timely
  working := working_advance h.working careful.reported
  counting := counting_advance h.counting h.working careful.reported

omit [DecidableEq ι] in
theorem paused_of_counting [Fintype ι] {w : SchedulerWorld ι} (h : Counting w)
    {s : SubscriptionRow} (hs : s ∈ w.shared.subscriptions.current.rows)
    (active : s.status = .active) (failed : 0 < w.shared.failures s.id)
    (used : s.maxRetries ≤ w.shared.failures s.id) :
    ∃ i f step, w.locals i = .reporting f step ∧ f.subscriptionId = s.id := by
  have hcount := h.counted s hs active
  by_cases hsum : ∑ i, (w.locals i).uncounted s.id = 0
  · rw [hsum, Nat.add_zero] at hcount
    obtain ⟨i, f, a, hattempt, hf, -⟩ := h.used s hs active (hcount ▸ failed) (hcount ▸ used)
    rcases attempt_eq_some hattempt with hi | hi
    · exact ⟨i, f, _, hi, hf⟩
    · exact ⟨i, f, _, hi, hf⟩
  · obtain ⟨i, -, hi⟩ := Finset.exists_ne_zero_of_sum_ne_zero hsum
    cases hphase : w.locals i with
    | reporting f step =>
      refine ⟨i, f, step, hphase, ?_⟩
      by_contra hne
      rw [hphase, uncounted_of_ne hne] at hi
      exact hi rfl
    | idle | job | claiming | rereading | processing =>
      rw [hphase] at hi
      exact absurd rfl hi

theorem deserved_of_inv [Fintype ι] {w : SchedulerWorld ι} {turn : ι × Outcome} (h : Inv w)
    {s s' : SubscriptionRow} (hs : s ∈ w.shared.subscriptions.current.rows)
    (active : s.status = .active)
    (hs' : s' ∈ (advance cfg w turn).shared.subscriptions.current.rows) (hid : s'.id = s.id)
    (inactive : s'.status ≠ .active) :
    s.maxRetries ≤ (advance cfg w turn).shared.failures s.id := by
  by_cases hpausing : ∃ f a, w.locals turn.1 = .reporting f (.pausing a)
  · obtain ⟨f, a, hphase⟩ := hpausing
    have hstep : (advance cfg w turn).shared = (step cfg turn.2 w.shared (w.locals turn.1)).1 := rfl
    rw [hstep, hphase] at hs' ⊢
    obtain ⟨row, hrow, hrowid, hstatus | hf⟩ := pausing_step hs'
    · obtain rfl := w.shared.subscriptions.current.eq_of_mem hs hrow (hid.symm.trans hrowid.symm)
      exact absurd (hstatus.symm.trans active) inactive
    · have hattempt : (w.locals turn.1).attempt = some (f, a) := by
        rw [hphase]
        rfl
      have hready := h.counting.ready turn.1 f a hphase
      obtain ⟨hmax, hcount⟩ := h.counting.attempts turn.1 f a hattempt s hs
        (hid.symm.trans hf.symm) active
      have hcounted := h.counting.counted s hs active
      have hsame : (step cfg turn.2 w.shared (.reporting f (.pausing a))).1.failures =
          w.shared.failures := by
        simp only [step, handle, reportStep, write]
        split_ifs <;> rfl
      rw [hsame]
      omega
  · have hother : ∀ f a, w.locals turn.1 ≠ .reporting f (.pausing a) :=
      fun f a hphase => hpausing ⟨f, a, hphase⟩
    obtain ⟨row, hrow, hrowid, hstatus⟩ := sameStatus_step turn.2 w.shared hother s' hs'
    obtain rfl := w.shared.subscriptions.current.eq_of_mem hs hrow (hid.symm.trans hrowid.symm)
    exact absurd (hstatus.symm.trans active) inactive

theorem lawful_of_careful [Fintype ι] {w : SchedulerWorld ι} {turn : ι × Outcome} (h : Inv w)
    (careful : Careful w turn) : Lawful cfg w turn where
  charged := (inv_advance h careful).charging.once
  retried := (inv_advance h careful).working.once
  paused _ hs active failed used :=
    paused_of_counting (inv_advance h careful).counting hs active failed used
  deserved _ hs active _ hs' hid inactive := deserved_of_inv h hs active hs' hid inactive

omit [DecidableEq ι] in
theorem charging_start (subscriptions : List NewSubscription) (now : ℕ) :
    Charging (start subscriptions now : SchedulerWorld ι) where
  each := by simp [start]
  apart := by simp [start]
  past := by simp [start]
  fresh := by simp [start]
  once := List.nodup_nil
  behind := by simp [start]

omit [DecidableEq ι] in
theorem working_start (subscriptions : List NewSubscription) (now : ℕ) :
    Working (start subscriptions now : SchedulerWorld ι) where
  drawn _ _ := rfl
  claimed := by simp [start, Phase.works]
  alone := by simp [start, Phase.works]
  unsettled := by simp [start]
  settled := by simp [start]
  once := List.nodup_nil
  belongs := by simp [start]

omit [DecidableEq ι] in
theorem counting_start [Fintype ι] (subscriptions : List NewSubscription) (now : ℕ) :
    Counting (start subscriptions now : SchedulerWorld ι) where
  counted := by
    intro s hs _
    obtain ⟨p, -, rfl⟩ := List.mem_map.1 hs
    simp [start, NewSubscription.row, Phase.uncounted]
  used := by
    intro s hs _ hpos
    obtain ⟨p, -, rfl⟩ := List.mem_map.1 hs
    exact absurd hpos (Nat.lt_irrefl 0)
  attempts := by simp [start, Phase.attempt]
  ready := by simp [start]

/-- Where the table takes charges, a subscription is charged once for a due date, a failed charge is
retried once, and the subscription is paused when its retries are used up by failures in a row, as
long as every turn is taken with care. -/
theorem charged_once_of_careful [Fintype ι] (cfg : Config) (subscriptions : List NewSubscription)
    (now : ℕ) (turns : List (ι × Outcome))
    (careful : Runs.Every (advance cfg) Careful (start subscriptions now) turns) :
    Runs.Every (advance cfg) (Lawful cfg) (start subscriptions now) turns :=
  Runs.Every.imp_of_inv Inv (fun _ _ h careful => inv_advance h careful)
    (fun _ _ h careful => lawful_of_careful h careful) ⟨charging_start subscriptions now,
      working_start subscriptions now, counting_start subscriptions now⟩ turns careful

/-- A subscription of 5 USD a day without retries, due now. -/
def sampleSubscription : NewSubscription :=
  ⟨none, none, "5.00", "USD", .daily, some 0, 1, 600, some "mtn"⟩

def sampleConfig (schema : Schema) : Config :=
  ⟨schema, some, fun t => t + 30 * day, fun t => by simp [day]⟩

def sampleTurn (i : Bool) (task : Task) : Bool × Outcome := (i, ⟨1, .done, .primary, .failed, task⟩)

def sampleJob : Task := .runSubscriptionJob (created [sampleSubscription]).rows

/-- Two replicas select the same row before either advances it. -/
def overlappingTurns : List (Bool × Outcome) :=
  [sampleTurn false sampleJob] ++ List.replicate 4 (sampleTurn true sampleJob) ++
    List.replicate 2 (sampleTurn false sampleJob)

/-- Care is needed there: one due date is charged twice. -/
theorem due_date_charged_twice :
    ¬ Runs.Every (advance (sampleConfig ⟨true, false, false, false⟩))
      (Lawful (sampleConfig ⟨true, false, false, false⟩)) (start [sampleSubscription] 0)
      (overlappingTurns ++ [sampleTurn false sampleJob]) := by
  intro every
  have last : Lawful _ _ (sampleTurn false sampleJob) := every.of_append
  have once := last.charged
  exact absurd once (by decide +kernel)

/-! ## The tables that there are -/

/-- A charge has no Stellar address, and no id before the table gives it one. -/
theorem not_accepts_of_shipped {schema : Schema} (h : schema ∈ Schema.shipped) (id : ℕ)
    (s : SubscriptionRow) (phoneNumber : Option String) :
    schema.accepts (newTransaction id s phoneNumber) = false := by
  simp only [Schema.shipped, List.mem_cons, List.not_mem_nil, or_false] at h
  rcases h with rfl | rfl | rfl | rfl <;> simp [Schema.accepts, newTransaction]

def Phase.isSelecting : Phase → Bool
  | .idle | .job _ _ .creating => true
  | _ => false

@[simp] theorem isSelecting_nextRow (rest : List SubscriptionRow) :
    (nextRow rest).isSelecting = true := by
  cases rest <;> rfl

/-- A run of the job is refused every charge, so nobody else has anything to do. -/
theorem step_of_shipped (shipped : cfg.schema ∈ Schema.shipped) (o : Outcome) {store : Store}
    (queue : store.queue = []) {phase : Phase} (h : phase.isSelecting = true) :
    (step cfg o store phase).1 = store.tick o.elapsed ∧
      (step cfg o store phase).2.isSelecting = true := by
  cases phase with
  | idle =>
    refine ⟨rfl, ?_⟩
    simp only [step, handle, take, Store.tick, queue]
    cases o.task with
    | runSubscriptionJob scan =>
      dsimp only
      split_ifs
      · exact isSelecting_nextRow _
      · rfl
    | processTransaction id => rfl
  | job s rest step =>
    cases step with
    | creating =>
      simp only [Subscriptions.step, handle, chargeStep]
      split
      · exact ⟨rfl, isSelecting_nextRow rest⟩
      · rw [not_accepts_of_shipped shipped, if_neg Bool.false_ne_true]
        exact ⟨rfl, isSelecting_nextRow rest⟩
    | recording | enqueuing | advancing => cases h
  | claiming | rereading | processing | reporting => cases h

/-- There are no charges. -/
structure Chargeless (w : SchedulerWorld ι) : Prop where
  queue : w.shared.queue = []
  charged : w.shared.charged = []
  retried : w.shared.retried = []
  failures : ∀ id, w.shared.failures id = 0
  selecting : ∀ i, (w.locals i).isSelecting = true

theorem advance_of_chargeless (shipped : cfg.schema ∈ Schema.shipped)
    {w : SchedulerWorld ι} (h : Chargeless w) (turn : ι × Outcome) :
    (advance cfg w turn).shared = w.shared.tick turn.2.elapsed :=
  (step_of_shipped shipped turn.2 h.queue (h.selecting turn.1)).1

theorem chargeless_advance (shipped : cfg.schema ∈ Schema.shipped)
    (w : SchedulerWorld ι) (turn : ι × Outcome) (h : Chargeless w) :
    Chargeless (advance cfg w turn) := by
  have after := advance_of_chargeless shipped h turn
  constructor
  case queue => rw [after]; exact h.queue
  case charged => rw [after]; exact h.charged
  case retried => rw [after]; exact h.retried
  case failures => rw [after]; exact h.failures
  case selecting =>
    exact Interleaving.locals_advance (step cfg) (fun phase => phase.isSelecting = true)
      (step_of_shipped shipped turn.2 h.queue (h.selecting turn.1)).2 fun j _ => h.selecting j

theorem lawful_of_chargeless (shipped : cfg.schema ∈ Schema.shipped)
    (w : SchedulerWorld ι) (turn : ι × Outcome) (h : Chargeless w) : Lawful cfg w turn := by
  have next := chargeless_advance shipped w turn h
  constructor
  case charged =>
    rw [next.charged]
    exact List.nodup_nil
  case retried =>
    rw [next.retried]
    exact List.nodup_nil
  case paused =>
    intro s _ _ hpos
    rw [next.failures] at hpos
    exact absurd hpos (Nat.lt_irrefl 0)
  case deserved =>
    intro s hs active s' hs' hid hinactive
    rw [advance_of_chargeless shipped h turn] at hs'
    obtain rfl := w.shared.subscriptions.current.eq_of_mem hs' hs hid
    exact absurd active hinactive

end MobileMoney.Subscriptions
