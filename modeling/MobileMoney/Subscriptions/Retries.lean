import MobileMoney.Subscriptions.Charges

/-!
# Retries and pauses

A worker claims a transaction before it processes it, so a failed charge is reported once,
unless a redelivery reads the status of a claimed transaction from a lagging replica. The
handler counts the failures that reach it and never starts over, so it pauses after so many
failures in a row as long as every failure reaches it and none is followed by a success.
-/

namespace MobileMoney.Subscriptions

open Queue (TransactionStatus)
open Queue.Worker (DbOutcome)

variable {ι : Type} {cfg : Config}

/-! ## The condition on the workers -/

/-- The subscription is active. -/
def Active (store : Store) (id : ℕ) : Prop :=
  ∃ s ∈ store.subscriptions.current.rows, s.id = id ∧ s.status = .active

/-- The call of a step of a report does what it has to. -/
def ReportStep.Succeeds (store : Store) (o : Outcome) (f : Failure) : ReportStep → Prop
  | .failing | .loading | .incrementing => o.db = .done
  | .reloading => o.db = .done ∧ (findById store f.transactionId o.source).isSome = true
  | .recording a => (a.any fun a => a.maxRetries ≤ a.retryCount) = true → o.db = .done
  | .pausing _ => o.db ≠ .failed
  | .scheduling _ => True

/-- A claimed transaction is not read as pending; and for an active subscription a failed
charge is reported in full, and no charge is completed after another one has failed. -/
def Phase.Reports (store : Store) (o : Outcome) : Phase → Prop
  | .rereading id => (findById store id o.source).any (·.status ≠ .pending) = true
  | .processing id => ∀ subscription ∈ subscriptionOf store id, Active store subscription →
      o.result ≠ .thrown ∧ (o.result = .completed → store.failures subscription = 0)
  | .reporting f step => Active store f.subscriptionId → step.Succeeds store o f
  | _ => True

def Reported (w : SchedulerWorld ι) (turn : ι × Outcome) : Prop :=
  (w.locals turn.1).Reports w.shared turn.2

instance (store : Store) (id : ℕ) : Decidable (Active store id) :=
  inferInstanceAs (Decidable (∃ s ∈ store.subscriptions.current.rows, s.id = id ∧ _))

instance (store : Store) (o : Outcome) (f : Failure) :
    (step : ReportStep) → Decidable (step.Succeeds store o f)
  | .failing | .loading | .incrementing => inferInstanceAs (Decidable (o.db = .done))
  | .reloading => inferInstanceAs (Decidable (_ ∧ _ = true))
  | .recording _ => inferInstanceAs (Decidable (_ = true → o.db = .done))
  | .pausing _ => inferInstanceAs (Decidable (o.db ≠ .failed))
  | .scheduling _ => isTrue trivial

instance (store : Store) (o : Outcome) : (phase : Phase) → Decidable (phase.Reports store o)
  | .rereading _ => inferInstanceAs (Decidable (_ = true))
  | .processing id =>
    inferInstanceAs (Decidable (∀ subscription ∈ subscriptionOf store id, _ → _ ∧ _))
  | .reporting f step =>
    inferInstanceAs (Decidable (Active store f.subscriptionId → step.Succeeds store o f))
  | .idle | .job _ _ _ | .claiming _ => isTrue trivial

instance (w : SchedulerWorld ι) (turn : ι × Outcome) : Decidable (Reported w turn) :=
  inferInstanceAs (Decidable ((w.locals turn.1).Reports w.shared turn.2))

theorem Reported.seen {w : SchedulerWorld ι} {turn : ι × Outcome} (h : Reported w turn) (id : ℕ)
    (before : w.locals turn.1 = .rereading id) :
    (findById w.shared id turn.2.source).any (·.status ≠ .pending) = true := by
  rw [Reported, before] at h
  exact h

theorem Reported.processed {w : SchedulerWorld ι} {turn : ι × Outcome} (h : Reported w turn)
    (id : ℕ) (before : w.locals turn.1 = .processing id) :
    ∀ subscription ∈ subscriptionOf w.shared id, Active w.shared subscription →
      turn.2.result ≠ .thrown ∧
        (turn.2.result = .completed → w.shared.failures subscription = 0) := by
  rw [Reported, before] at h
  exact h

theorem Reported.handled {w : SchedulerWorld ι} {turn : ι × Outcome} (h : Reported w turn)
    (f : Failure) (step : ReportStep) (before : w.locals turn.1 = .reporting f step)
    (active : Active w.shared f.subscriptionId) : step.Succeeds w.shared turn.2 f := by
  rw [Reported, before] at h
  exact h active

/-! ## One report for a charge -/

/-- The transaction that a process has claimed. -/
def Phase.works : Phase → Option ℕ
  | .processing id => some id
  | .reporting f _ => some f.transactionId
  | _ => none

/-- The transaction is there and no longer pending. -/
def Begun (store : Store) (id : ℕ) : Prop :=
  ∃ t, store.transactions id = some t ∧ t.status ≠ .pending

/-- A claimed transaction has begun and belongs to one process, until its failure has had a
retry scheduled. -/
structure Working (w : SchedulerWorld ι) : Prop where
  drawn : ∀ id, w.shared.nextId ≤ id → w.shared.transactions id = none
  claimed : ∀ i id, (w.locals i).works = some id → Begun w.shared id
  alone : ∀ i j id, (w.locals i).works = some id → (w.locals j).works = some id → i = j
  unsettled : ∀ i id, (w.locals i).works = some id → id ∉ w.shared.retried
  settled : ∀ id ∈ w.shared.retried, Begun w.shared id
  once : w.shared.retried.Nodup
  belongs : ∀ i f step, w.locals i = .reporting f step →
    subscriptionOf w.shared f.transactionId = some f.subscriptionId

/-- Transactions stay with their subscription and do not become pending again. -/
structure Kept (store store' : Store) : Prop where
  drawn : (∀ id, store.nextId ≤ id → store.transactions id = none) →
    ∀ id, store'.nextId ≤ id → store'.transactions id = none
  begun : (∀ id, store.nextId ≤ id → store.transactions id = none) →
    ∀ id, Begun store id → Begun store' id
  belongs : (∀ id, store.nextId ≤ id → store.transactions id = none) →
    ∀ id subscription, subscriptionOf store id = some subscription →
      subscriptionOf store' id = some subscription

theorem kept_of_eq {store store' : Store} (nextId : store'.nextId = store.nextId)
    (transactions : store'.transactions = store.transactions) : Kept store store' := by
  constructor
  case drawn => rw [nextId, transactions]; exact fun h => h
  case begun =>
    intro _ id h
    rw [Begun, transactions]
    exact h
  case belongs =>
    intro _ id subscription h
    rw [subscriptionOf, transactions]
    exact h

theorem kept_create {store : Store} {t : Transaction} (h : t.id = store.nextId) :
    Kept store (store.create t) := by
  have hother : (∀ id, store.nextId ≤ id → store.transactions id = none) → ∀ id t',
      store.transactions id = some t' → (store.create t).transactions id = some t' := by
    intro drawn id t' ht'
    have hne : id ≠ t.id := by
      rintro rfl
      rw [drawn t.id (by omega)] at ht'
      cases ht'
    exact (Function.update_of_ne hne _ _).trans ht'
  constructor
  case drawn =>
    intro drawn id hid
    have hnext : store.nextId + 1 ≤ id := hid
    exact (Function.update_of_ne (by omega) _ _).trans (drawn id (by omega))
  case begun =>
    rintro drawn id ⟨t', ht', hstatus⟩
    exact ⟨t', hother drawn id t' ht', hstatus⟩
  case belongs =>
    intro drawn id subscription hid
    obtain ⟨t', ht', rfl⟩ := Option.map_eq_some_iff.1 hid
    rw [subscriptionOf, hother drawn id t' ht', Option.map_some]

theorem kept_setStatus (store : Store) (id : ℕ) {status : TransactionStatus → TransactionStatus}
    (keeps : ∀ old, old ≠ .pending → status old ≠ .pending) :
    Kept store (store.setStatus id status) := by
  have htransactions : ∀ id', (store.setStatus id status).transactions id' =
      if id' = id then (store.transactions id).map fun t => t.withStatus (status t.status)
      else store.transactions id' := fun id' => Function.update_apply _ _ _ _
  constructor
  case drawn =>
    intro drawn id' hid'
    rw [htransactions]
    split_ifs with heq
    · rw [← heq, drawn id' hid']
      rfl
    · exact drawn id' hid'
  case begun =>
    rintro - id' ⟨t, ht, hstatus⟩
    unfold Begun
    rw [htransactions]
    split_ifs with heq
    · rw [← heq, ht]
      exact ⟨_, rfl, keeps _ hstatus⟩
    · exact ⟨t, ht, hstatus⟩
  case belongs =>
    intro _ id' subscription hid'
    unfold subscriptionOf at hid' ⊢
    rw [htransactions]
    split_ifs with heq
    · rw [← hid', heq, Option.map_map]
      rfl
    · exact hid'

theorem kept_step (o : Outcome) (store : Store) (phase : Phase) :
    Kept store (step cfg o store phase).1 := by
  suffices ticked : Kept (store.tick o.elapsed) (step cfg o store phase).1 from
    ⟨ticked.drawn, ticked.begun, ticked.belongs⟩
  have effect := effect_step cfg o store phase
  generalize (step cfg o store phase).1 = store' at effect ⊢
  cases effect with
  | create t drawn => exact kept_create drawn
  | status id keeps => exact kept_setStatus _ id keeps
  | complete id =>
    have keeps : ∀ old, old ≠ .pending → Queue.updateStatus old .completed ≠ .pending :=
      fun old hold => updateStatus_ne_pending hold nofun
    have written := kept_setStatus (store.tick o.elapsed) id keeps
    exact ⟨written.drawn, written.begun, written.belongs⟩
  | none | enqueue | advance | fail | increment | pause | schedule => exact kept_of_eq rfl rfl

theorem subscriptionOf_findById {store : Store} {id : ℕ} {source : Replicated.Source}
    {t : Transaction} (h : findById store id source = some t) :
    subscriptionOf store id = some t.subscriptionId := by
  obtain ⟨current, hcurrent, hread⟩ := Option.bind_eq_some_iff.1 h
  rw [subscriptionOf, hcurrent, Option.map_some]
  cases source with
  | primary =>
    cases hread
    rfl
  | lagging age =>
    obtain ⟨status, -, rfl⟩ := Option.map_eq_some_iff.1 hread
    rfl

/-- What a turn can mean for the claims and the retries. -/
inductive WorkMove (store : Store) (phase : Phase) (store' : Store) (phase' : Phase) : Prop where
  | claim (id : ℕ) (before : phase = .claiming id) (pending : store.isPending id = true)
      (after : phase' = .processing id) (begun : Begun store' id)
      (same : store'.retried = store.retried)
  | retry (f : Failure) (a : SubscriptionAttemptRow) (before : phase = .reporting f (.scheduling a))
      (after : phase' = .idle) (retried : store'.retried = store.retried ++ [f.transactionId])
  | quiet (same : store'.retried = store.retried)
      (works : phase'.works = none ∨ phase'.works = phase.works)

@[simp] theorem works_nextRow (rows : List SubscriptionRow) : (nextRow rows).works = none := by
  cases rows <;> rfl

theorem works_afterAttempt (f : Failure) (a : Option SubscriptionAttemptRow) :
    (afterAttempt f a).works = none ∨ (afterAttempt f a).works = some f.transactionId := by
  cases a with
  | none => exact .inl rfl
  | some a =>
    right
    unfold afterAttempt
    dsimp only
    split_ifs <;> rfl

theorem works_take (o : Outcome) (store : Store) : (take o store).works = none := by
  unfold take
  cases o.task with
  | runSubscriptionJob scan =>
    dsimp only
    split_ifs
    · exact works_nextRow _
    · rfl
  | processTransaction id =>
    dsimp only
    split_ifs <;> rfl

theorem begun_claim {store : Store} {id : ℕ} (h : store.isPending id = true) :
    Begun (store.claimForProcessing id) id := by
  obtain ⟨t, ht, hpending⟩ := (Option.any_eq_true _ _).1 h
  have hclaimed : (store.claimForProcessing id).transactions id =
      some (t.withStatus (if t.status = .pending then .processing else t.status)) := by
    refine (Function.update_self _ _ _).trans ?_
    rw [ht]
    rfl
  refine ⟨_, hclaimed, ?_⟩
  rw [if_pos (of_decide_eq_true hpending)]
  exact nofun

theorem work_chargeStep (o : Outcome) (store : Store) (s : SubscriptionRow)
    (rest : List SubscriptionRow) (step : JobStep) :
    WorkMove store (.job s rest step) (chargeStep cfg o store s rest step).1
      (chargeStep cfg o store s rest step).2 := by
  have hwrite : ∀ (store' : Store) (step' : JobStep), store'.retried = store.retried →
      WorkMove store (.job s rest step) (write o store store' (.job s rest step') (nextRow rest)).1
        (write o store store' (.job s rest step') (nextRow rest)).2 := by
    intro store' step' same
    rcases write_cases o store store' (.job s rest step') (nextRow rest) with
      ⟨-, h⟩ | ⟨-, h⟩ | ⟨-, h⟩
    · rw [h]
      exact .quiet same (.inl rfl)
    · rw [h]
      exact .quiet rfl (.inl (works_nextRow rest))
    · rw [h]
      exact .quiet same (.inl (works_nextRow rest))
  cases step with
  | creating =>
    simp only [chargeStep]
    split
    · exact .quiet rfl (.inl (works_nextRow rest))
    · split_ifs
      · exact hwrite _ _ rfl
      · exact .quiet rfl (.inl (works_nextRow rest))
  | recording t => exact hwrite _ _ rfl
  | enqueuing t => exact hwrite _ _ rfl
  | advancing =>
    apply WorkMove.quiet
    · simp only [chargeStep, write]
      split_ifs <;> rfl
    · left
      simp only [chargeStep, write, ite_self]
      exact works_nextRow rest

theorem work_reportStep (o : Outcome) (store : Store) (f : Failure) (step : ReportStep) :
    WorkMove store (.reporting f step) (reportStep o store f step).1
      (reportStep o store f step).2 := by
  have hwrite : ∀ (store' : Store) (next : Phase), store'.retried = store.retried →
      (next.works = none ∨ next.works = some f.transactionId) →
      WorkMove store (.reporting f step) (write o store store' next .idle).1
        (write o store store' next .idle).2 := by
    intro store' next same works
    rcases write_cases o store store' next .idle with ⟨-, h⟩ | ⟨-, h⟩ | ⟨-, h⟩
    · rw [h]
      exact .quiet same works
    · rw [h]
      exact .quiet rfl (.inl rfl)
    · rw [h]
      exact .quiet same (.inl rfl)
  cases step with
  | failing => exact hwrite _ _ rfl (.inr rfl)
  | reloading =>
    simp only [reportStep]
    split
    · apply WorkMove.quiet rfl
      dsimp only
      split_ifs
      · exact .inr rfl
      · exact .inl rfl
    · exact .quiet rfl (.inl rfl)
  | loading =>
    apply WorkMove.quiet rfl
    simp only [reportStep]
    split_ifs
    · exact .inr rfl
    · exact .inl rfl
  | incrementing => exact hwrite _ _ rfl (.inr rfl)
  | recording a => exact hwrite _ _ rfl (works_afterAttempt f a)
  | pausing a => exact hwrite _ _ rfl (.inl rfl)
  | scheduling a =>
    simp only [reportStep]
    rcases write_cases o store (store.scheduleRetry f a) .idle .idle with ⟨-, h⟩ | ⟨-, h⟩ | ⟨-, h⟩
    · rw [h]
      exact .retry f a rfl rfl rfl
    · rw [h]
      exact .quiet rfl (.inl rfl)
    · rw [h]
      exact .retry f a rfl rfl rfl

theorem work_step (cfg : Config) (o : Outcome) (store : Store) (phase : Phase)
    (seen : ∀ id, phase = .rereading id →
      (findById store id o.source).any (·.status ≠ .pending) = true) :
    WorkMove (store.tick o.elapsed) phase (step cfg o store phase).1
      (step cfg o store phase).2 := by
  cases phase with
  | idle => exact .quiet rfl (.inl (works_take _ _))
  | job s rest step => exact work_chargeStep _ _ _ _ _
  | claiming id =>
    simp only [step, handle]
    rcases write_cases o (store.tick o.elapsed) ((store.tick o.elapsed).claimForProcessing id)
      (if (store.tick o.elapsed).isPending id then .processing id else .rereading id) .idle with
      ⟨-, h⟩ | ⟨-, h⟩ | ⟨-, h⟩
    · rw [h]
      dsimp only
      split_ifs with hpending
      · exact .claim id rfl hpending rfl (begun_claim hpending) rfl
      · exact .quiet rfl (.inl rfl)
    · rw [h]
      exact .quiet rfl (.inl rfl)
    · rw [h]
      exact .quiet rfl (.inl rfl)
  | rereading id =>
    have hseen : (findById (store.tick o.elapsed) id o.source).any (·.status ≠ .pending) = true :=
      seen id rfl
    apply WorkMove.quiet rfl
    left
    simp only [step, handle, hseen, not_true, and_false]
    rfl
  | processing id =>
    simp only [step, handle, finish]
    split
    · exact .quiet rfl (.inl rfl)
    · exact .quiet rfl (.inl rfl)
    · split
      · exact .quiet rfl (.inr rfl)
      · exact .quiet rfl (.inl rfl)
  | reporting f step => exact work_reportStep _ _ _ _

theorem belongs_afterAttempt {f f' : Failure} {a : Option SubscriptionAttemptRow}
    {step' : ReportStep} (h : afterAttempt f a = .reporting f' step') : f' = f := by
  cases a with
  | none => cases h
  | some a =>
    unfold afterAttempt at h
    dsimp only at h
    split_ifs at h <;> cases h <;> rfl

theorem belongs_reportStep {o : Outcome} {store : Store} {f f' : Failure} {step step' : ReportStep}
    (before : subscriptionOf store f.transactionId = some f.subscriptionId)
    (after : (reportStep o store f step).2 = .reporting f' step') :
    subscriptionOf store f'.transactionId = some f'.subscriptionId := by
  have same : f' = f → subscriptionOf store f'.transactionId = some f'.subscriptionId := by
    rintro rfl
    exact before
  cases step with
  | failing | incrementing | pausing | scheduling =>
    simp only [reportStep, write] at after
    split_ifs at after
    all_goals cases after
    all_goals exact same rfl
  | recording a =>
    simp only [reportStep, write] at after
    split_ifs at after
    exact same (belongs_afterAttempt after)
  | loading =>
    simp only [reportStep] at after
    split_ifs at after
    cases after
    exact same rfl
  | reloading =>
    simp only [reportStep] at after
    split at after
    · next t hread =>
      split_ifs at after
      cases after
      exact subscriptionOf_findById hread
    · cases after

/-- A process that reports after a turn processed the transaction or reported before it. -/
theorem reporting_step {o : Outcome} {store : Store} {phase : Phase}
    (seen : ∀ id, phase = .rereading id →
      (findById store id o.source).any (·.status ≠ .pending) = true)
    {f : Failure} {step' : ReportStep} (after : (step cfg o store phase).2 = .reporting f step') :
    (step' = .failing ∧ subscriptionOf store f.transactionId = some f.subscriptionId) ∨
      ∃ f₀ step₀, phase = .reporting f₀ step₀ := by
  have works : (step cfg o store phase).2.works = some f.transactionId := by
    rw [after]
    rfl
  cases work_step cfg o store phase seen with
  | claim id _ _ hafter => cases after.symm.trans hafter
  | retry _ _ _ hafter => cases after.symm.trans hafter
  | quiet _ hworks =>
    rcases hworks with hnone | hsame
    · cases works.symm.trans hnone
    · rw [hsame] at works
      cases phase with
      | idle | job | claiming | rereading => cases works
      | processing id =>
        simp only [step, handle, finish] at after
        split at after
        · cases after
        · cases after
        · split at after
          · next subscription hsubscription =>
            cases after
            exact .inl ⟨rfl, hsubscription⟩
          · cases after
      | reporting f₀ step₀ => exact .inr ⟨f₀, step₀, rfl⟩

/-- A report is about the subscription of its transaction. -/
theorem belongs_step {o : Outcome} {store : Store} {phase : Phase}
    (seen : ∀ id, phase = .rereading id →
      (findById store id o.source).any (·.status ≠ .pending) = true)
    (before : ∀ f step, phase = .reporting f step →
      subscriptionOf store f.transactionId = some f.subscriptionId)
    {f : Failure} {step' : ReportStep} (after : (step cfg o store phase).2 = .reporting f step') :
    subscriptionOf store f.transactionId = some f.subscriptionId := by
  rcases reporting_step seen after with ⟨-, hsubscription⟩ | ⟨f₀, step₀, rfl⟩
  · exact hsubscription
  · have ticked : subscriptionOf (store.tick o.elapsed) f.transactionId =
        some f.subscriptionId := belongs_reportStep (before f₀ step₀ rfl) after
    exact ticked

/-- A pending transaction has not begun. -/
theorem not_begun_of_isPending {store : Store} {id : ℕ} (h : store.isPending id = true) :
    ¬ Begun store id := by
  rintro ⟨t, ht, hstatus⟩
  rw [Store.isPending, ht, Option.any_some] at h
  exact hstatus (of_decide_eq_true h)

variable [DecidableEq ι]

/-- A process works on what it worked on before, or on a transaction it has just claimed. -/
theorem works_advance {w : SchedulerWorld ι} {i : ι} {o : Outcome} (reported : Reported w (i, o))
    {j : ι} {id : ℕ} (h : ((advance cfg w (i, o)).locals j).works = some id) :
    (w.locals j).works = some id ∨ j = i ∧ w.shared.isPending id = true ∧
      Begun (advance cfg w (i, o)).shared id ∧
      (advance cfg w (i, o)).shared.retried = w.shared.retried := by
  by_cases hj : j = i
  · subst hj
    rw [advance_self] at h
    cases work_step cfg o w.shared (w.locals j) reported.seen with
    | claim id' _ pending after begun same =>
      rw [after] at h
      cases h
      exact .inr ⟨rfl, pending, begun, same⟩
    | retry f a _ after =>
      rw [after] at h
      cases h
    | quiet _ works =>
      rcases works with hnone | hsame
      · cases h.symm.trans hnone
      · exact .inl (hsame.symm.trans h)
  · rw [advance_other w o hj] at h
    exact .inl h

/-- A retry ends the work on its transaction. -/
theorem retried_advance (cfg : Config) {w : SchedulerWorld ι} {i : ι} {o : Outcome}
    (reported : Reported w (i, o)) :
    (advance cfg w (i, o)).shared.retried = w.shared.retried ∨
      ∃ id, (w.locals i).works = some id ∧ ((advance cfg w (i, o)).locals i).works = none ∧
        (advance cfg w (i, o)).shared.retried = w.shared.retried ++ [id] := by
  rw [advance_self]
  cases work_step cfg o w.shared (w.locals i) reported.seen with
  | claim id _ _ _ _ same => exact .inl same
  | retry f a before after retried =>
    refine .inr ⟨f.transactionId, ?_, ?_, retried⟩
    · rw [before]
      rfl
    · rw [after]
      rfl
  | quiet same => exact .inl same

theorem working_advance {w : SchedulerWorld ι} {turn : ι × Outcome} (h : Working w)
    (reported : Reported w turn) : Working (advance cfg w turn) := by
  obtain ⟨i, o⟩ := turn
  have kept : Kept w.shared (advance cfg w (i, o)).shared := kept_step o w.shared _
  have works : ∀ j id, ((advance cfg w (i, o)).locals j).works = some id → _ :=
    fun j id => works_advance reported
  have retried := retried_advance cfg reported
  constructor
  case drawn => exact kept.drawn h.drawn
  case claimed =>
    intro j id hj
    rcases works j id hj with hold | ⟨-, -, begun, -⟩
    · exact kept.begun h.drawn id (h.claimed j id hold)
    · exact begun
  case alone =>
    intro j k id hj hk
    rcases works j id hj with hj | ⟨rfl, hpending, -⟩
    · rcases works k id hk with hk | ⟨-, hpending, -⟩
      · exact h.alone j k id hj hk
      · exact absurd (h.claimed j id hj) (not_begun_of_isPending hpending)
    · rcases works k id hk with hk | ⟨rfl, -⟩
      · exact absurd (h.claimed k id hk) (not_begun_of_isPending hpending)
      · rfl
  case unsettled =>
    intro j id hj
    rcases works j id hj with hold | ⟨-, hpending, -, hsame⟩
    · rcases retried with hsame | ⟨id', hbefore, hafter, hmore⟩
      · rw [hsame]
        exact h.unsettled j id hold
      · rw [hmore, List.mem_append, List.mem_singleton, not_or]
        refine ⟨h.unsettled j id hold, ?_⟩
        rintro rfl
        obtain rfl := h.alone j i id hold hbefore
        cases hj.symm.trans hafter
    · rw [hsame]
      intro hid
      exact not_begun_of_isPending hpending (h.settled id hid)
  case settled =>
    intro id hid
    rcases retried with hsame | ⟨id', hbefore, -, hmore⟩
    · exact kept.begun h.drawn id (h.settled id (hsame ▸ hid))
    · rw [hmore] at hid
      rcases List.mem_append.1 hid with hold | hnew
      · exact kept.begun h.drawn id (h.settled id hold)
      · obtain rfl := List.mem_singleton.1 hnew
        exact kept.begun h.drawn id (h.claimed i id hbefore)
  case once =>
    rcases retried with hsame | ⟨id', hbefore, -, hmore⟩
    · rw [hsame]
      exact h.once
    · rw [hmore]
      apply h.once.append (List.nodup_singleton _)
      exact List.disjoint_singleton.2 (h.unsettled i id' hbefore)
  case belongs =>
    intro j f step' hf
    apply kept.belongs h.drawn
    by_cases hj : j = i
    · subst hj
      rw [advance_self] at hf
      exact belongs_step reported.seen (h.belongs j) hf
    · rw [advance_other w o hj] at hf
      exact h.belongs j f step' hf

end MobileMoney.Subscriptions
