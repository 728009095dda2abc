import MobileMoney.Library.Ownership
import MobileMoney.Outbox.Effects

/-!
# Events that nobody holds

An event that is not being processed can be claimed, now or at its next attempt. One that is
being processed depends on the worker that holds it: when that worker lets it go without an
update, nothing brings the event back.
-/

namespace MobileMoney.Outbox

variable {K : Type}

/-! ## What the row of an event may be -/

/-- An event that is to be delivered has a time at which it can be claimed, unless its attempts
are used up. -/
def OutboxEvent.Claimable (event : OutboxEvent) : Prop :=
  (event.status = .pending ∨ event.status = .failed →
    event.nextAttemptAt ≠ none ∨ event.maxAttempts ≤ event.attempts) ∧
  (event.status = .dead → Outbox.maxAttempts ≤ event.attempts)

/-- The event waits to be claimed. -/
def OutboxEvent.Waiting (event : OutboxEvent) : Prop :=
  (event.status = .pending ∨ event.status = .failed) ∧ event.Claimable

/-- What the row of an event can be at a stage. A dispatcher's claim that was lost may have
marked an event that another worker has only read. -/
def Stage.Fits (event : OutboxEvent) : Stage → Prop
  | .delivering _ | .markingDelivered | .schedulingRetry _ | .markingPublished =>
    event.Processing
  | .fetched | .markingFailed => event.Processing ∨ event.Waiting
  | .rescheduling attempts maxAttempts =>
    (event.Processing ∨ event.Waiting) ∧ event.attempts = attempts ∧
      event.maxAttempts = maxAttempts

theorem OutboxEvent.Processing.claimable {event : OutboxEvent} (h : event.Processing) :
    event.Claimable := by
  have hstatus : event.status = .processing := h
  simp [OutboxEvent.Claimable, hstatus]

theorem Stage.Fits.cases {stage : Stage} {event : OutboxEvent} (h : stage.Fits event) :
    event.Processing ∨ event.Waiting := by
  cases stage with
  | delivering | markingDelivered | schedulingRetry | markingPublished => exact .inl h
  | fetched | markingFailed => exact h
  | rescheduling => exact h.1

theorem Stage.Fits.claimable {stage : Stage} {event : OutboxEvent} (h : stage.Fits event) :
    event.Claimable := by
  rcases h.cases with hprocessing | hwaiting
  · exact hprocessing.claimable
  · exact hwaiting.2

/-- The pruned events are not with a worker. -/
theorem Stage.Fits.not_published {stage : Stage} {event : OutboxEvent} (h : stage.Fits event) :
    event.status ≠ .published := by
  intro hpublished
  rcases h.cases with hprocessing | hwaiting
  · rw [OutboxEvent.Processing, hpublished] at hprocessing
    cases hprocessing
  · rw [OutboxEvent.Waiting, hpublished] at hwaiting
    simp at hwaiting

theorem OutboxEvent.Ready.waiting {event : OutboxEvent} {now : ℕ} (h : event.Ready now) :
    event.Waiting := by
  obtain ⟨hstatus, t, ht, -⟩ := h
  refine ⟨hstatus, fun _ => .inl ?_, fun hdead => ?_⟩
  · rw [Option.mem_def.1 ht]
    simp
  · rcases hstatus with hpending | hfailed
    · simp [hpending] at hdead
    · simp [hfailed] at hdead

theorem OutboxEvent.Waiting.not_processing {event : OutboxEvent} (h : event.Waiting) :
    ¬ event.Processing := by
  intro hprocessing
  rw [OutboxEvent.Processing] at hprocessing
  rcases h.1 with hpending | hfailed
  · simp [hpending] at hprocessing
  · simp [hfailed] at hprocessing

/-- What a query makes of an event at a stage that fits. -/
theorem Stage.Fits.update {stage : Stage} {event : OutboxEvent} {answer : DbAnswer}
    (h : stage.Fits event) (options : OutboxWorkerOptions) (now : ℕ)
    (hnext : stage.next (some event) answer = .settled ∨ stage.next (some event) answer = .throws)
    (hstage : stage ≠ .markingFailed) :
    ¬ (stage.update options now event).Processing ∧ (stage.update options now event).Claimable := by
  cases stage with
  | delivering attempts => simp [Stage.next] at hnext
  | markingDelivered =>
    simp [Stage.update, markDelivered, OutboxEvent.Processing, OutboxEvent.Claimable]
  | schedulingRetry attempts =>
    simp only [Stage.update, scheduleRetry, OutboxEvent.Processing, OutboxEvent.Claimable]
    split <;> simp_all
  | fetched =>
    simp only [Stage.next] at hnext
    split at hnext <;> simp at hnext
  | markingPublished =>
    simp [Stage.update, markAsPublished, OutboxEvent.Processing, OutboxEvent.Claimable]
  | markingFailed => exact absurd rfl hstage
  | rescheduling attempts maxAttempts =>
    obtain ⟨-, rfl, rfl⟩ := h
    simp only [Stage.update, markAsFailed, OutboxEvent.Processing, OutboxEvent.Claimable]
    split <;> simp_all

/-- How the next stage fits what the query has made of the event. -/
theorem Stage.Fits.next {stage stage' : Stage} {event : OutboxEvent} {answer : DbAnswer}
    (h : stage.Fits event) (options : OutboxWorkerOptions) (now : ℕ)
    (hnext : stage.next (some event) answer = .stage stage') :
    stage'.Fits (if answer.executed then stage.update options now event else event) := by
  cases stage with
  | delivering attempts =>
    simp only [Stage.next, Next.stage.injEq] at hnext
    subst hnext
    split <;> exact h
  | markingDelivered | schedulingRetry => cases hnext
  | markingPublished | rescheduling =>
    simp only [Stage.next] at hnext
    split at hnext <;> cases hnext
  | fetched =>
    cases answer with
    | answered =>
      simp only [Stage.next, if_true, Next.stage.injEq] at hnext
      subst hnext
      rfl
    | failed executed =>
      simp only [Stage.next, reduceCtorEq, if_false, Next.stage.injEq] at hnext
      subst hnext
      cases executed with
      | true => exact .inl rfl
      | false => exact h
  | markingFailed =>
    cases answer with
    | answered =>
      simp only [Stage.next, if_true, Next.stage.injEq] at hnext
      subst hnext
      exact ⟨h, rfl, rfl⟩
    | failed executed => simp [Stage.next] at hnext

/-! ## Free and owned events -/

/-- The event is not marked, and claimable. -/
def Free (row : Option OutboxEvent) : Prop := ∀ event ∈ row, ¬ event.Processing ∧ event.Claimable

/-- The event exists, and is as the stage of its worker says. -/
def Owned (row : Option OutboxEvent) (held : Option Stage) : Prop :=
  ∃ stage event, held = some stage ∧ row = some event ∧ stage.Fits event

section Effects

variable {options : OutboxWorkerOptions} {now : ℕ} {held harm : Prop}
  {row row' : Option OutboxEvent} {stage stage' other : Option Stage}

theorem Effect.spare (h : Effect options now held row none row' none harm) (hharm : ¬ harm)
    (hheld : ¬ held) (hfree : Free row) : Free row' := by
  cases h with
  | unchanged | dropped => exact hfree
  | inserted maxAttempts =>
    rintro _ ⟨⟩
    simp [OutboxEvent.Processing, OutboxEvent.Claimable]
  | pruned => exact nofun
  | claimLost => exact absurd hheld hharm

theorem Effect.take (h : Effect options now held row none row' stage' harm)
    (hstage : stage' ≠ none) : Owned row' stage' := by
  cases h with
  | unchanged | inserted | pruned | claimLost | dropped => exact absurd rfl hstage
  | claimed event _ ready => exact ⟨_, _, rfl, rfl, rfl⟩
  | fetched event _ ready => exact ⟨_, _, rfl, rfl, .inr ready.waiting⟩

theorem Stage.Fits.claimLost {stage : Stage} {event : OutboxEvent} (h : stage.Fits event)
    (ready : event.Ready now) : stage.Fits event.process := by
  have hnot := ready.waiting.not_processing
  cases stage with
  | delivering | markingDelivered | schedulingRetry | markingPublished => exact absurd h hnot
  | fetched | markingFailed => exact .inl rfl
  | rescheduling => exact ⟨.inl rfl, h.2⟩

theorem Stage.Fits.free {stage : Stage} {event : OutboxEvent} (h : stage.Fits event)
    (hmarked : ¬ ∃ e ∈ some event, e.Processing) : Free (some event) := by
  rintro _ ⟨⟩
  exact ⟨fun hprocessing => hmarked ⟨event, rfl, hprocessing⟩, h.claimable⟩

/-- A worker that is through with an event has updated it, or leaves it as it was. -/
theorem Stage.Fits.freed {stage : Stage} {event : OutboxEvent} {answer : DbAnswer}
    (h : stage.Fits event) (options : OutboxWorkerOptions) (now : ℕ)
    (hnext : stage.next (some event) answer = .settled ∨ stage.next (some event) answer = .throws)
    (hstage : stage ≠ .markingFailed)
    (hmarked : answer.executed = false → ¬ ∃ e ∈ some event, e.Processing) :
    Free (if answer.executed then (some event).map (stage.update options now) else some event) := by
  cases hexecuted : answer.executed with
  | true =>
    rintro _ ⟨⟩
    exact h.update options now hnext hstage
  | false => exact h.free (hmarked hexecuted)

theorem Effect.keep (h : Effect options now held row stage row' stage' harm) (hharm : ¬ harm)
    (hheld : held) (howned : Owned row stage) :
    Owned row' stage' ∨ Free row' ∧ stage' = none := by
  obtain ⟨at_, event, rfl, rfl, hfits⟩ := howned
  cases h with
  | unchanged => exact .inl ⟨at_, event, rfl, rfl, hfits⟩
  | pruned _ _ published => exact absurd published hfits.not_published
  | claimed | fetched => exact absurd hheld hharm
  | claimLost _ _ ready => exact .inl ⟨at_, _, rfl, rfl, hfits.claimLost ready⟩
  | responded _ attempts success =>
    left
    cases success with
    | true => exact ⟨_, event, rfl, rfl, hfits⟩
    | false => exact ⟨_, event, rfl, rfl, hfits⟩
  | advanced _ _ stage' answer hnext =>
    have hfits' := hfits.next options now hnext
    left
    cases hexecuted : answer.executed with
    | true =>
      simp only [hexecuted, if_true] at hfits'
      exact ⟨stage', _, rfl, by simp, hfits'⟩
    | false =>
      simp only [hexecuted, Bool.false_eq_true, if_false] at hfits'
      exact ⟨stage', event, rfl, by simp, hfits'⟩
  | settled _ _ answer hnext =>
    have hstage : at_ ≠ .markingFailed := by
      rintro rfl
      simp only [Stage.next] at hnext
      split at hnext <;> cases hnext
    exact .inr ⟨hfits.freed options now (.inl hnext) hstage fun hexecuted hmarked =>
      hharm ⟨hexecuted, hmarked⟩, rfl⟩
  | threw _ _ answer hnext =>
    right
    by_cases hstage : at_ = .markingFailed
    · have hfree := hfits.free fun hmarked => hharm ⟨.inr hstage, hmarked⟩
      subst hstage
      refine ⟨?_, rfl⟩
      simpa only [Stage.update, Option.map_some, id_eq, ite_self] using hfree
    · exact ⟨hfits.freed options now (.inr hnext) hstage fun hexecuted hmarked =>
        hharm ⟨.inl hexecuted, hmarked⟩, rfl⟩
  | dropped => exact .inr ⟨hfits.free fun hmarked => hharm ⟨by simp, hmarked⟩, rfl⟩

theorem Effect.others (h : Effect options now held row none row' stage' harm) (hharm : ¬ harm)
    (hheld : held) (howned : Owned row other) : Owned row' other ∧ stage' = none := by
  obtain ⟨at_, event, rfl, rfl, hfits⟩ := howned
  have hsame : Owned (some event) (some at_) := ⟨at_, event, rfl, rfl, hfits⟩
  cases h with
  | unchanged | dropped => exact ⟨hsame, rfl⟩
  | pruned _ _ published => exact absurd published hfits.not_published
  | claimed | fetched => exact absurd hheld hharm
  | claimLost _ _ ready => exact ⟨⟨at_, _, rfl, rfl, hfits.claimLost ready⟩, rfl⟩

end Effects

/-! ## Runs -/

variable [DecidableEq K] {ι : Type} [DecidableEq ι] {options : OutboxWorkerOptions}

/-- A worker works only on events of its batch. -/
def Worker.Tidy (worker : Worker K) : Prop := ∀ k, worker.stages k ≠ none → k ∈ worker.batch

/-- Every event is free, or one worker holds it. -/
def Kept (w : World K ι) : Prop :=
  (∀ k, Interleaving.Exclusive (fun worker : Worker K => worker.stages k ≠ none)
    (fun db : Database K => Free (db.events k))
    (fun db worker => Owned (db.events k) (worker.stages k)) w) ∧
  ∀ i, (w.locals i).Tidy

omit [DecidableEq K] in
theorem Kept.holder {w : World K ι} (h : Kept w) {k : K} {i j : ι}
    (hi : (w.locals i).stages k ≠ none) (hj : (w.locals j).stages k ≠ none) : i = j := by
  by_contra hne
  exact ((h.1 k).owner hi).2 j (Ne.symm hne) hj

omit [DecidableEq K] in
theorem Worker.Tidy.none_of_atRest {worker : Worker K} (h : worker.Tidy) (hrest : worker.AtRest)
    (k : K) : worker.stages k = none := by
  by_contra hk
  exact hk (hrest k (h k hk))

theorem Worker.Tidy.take {worker : Worker K} (h : worker.Tidy) (hrest : worker.AtRest)
    (batch : List K) (stage : K → Stage) : (worker.take batch stage).Tidy := by
  intro k hk
  by_contra hnot
  have hbatch : k ∉ batch := hnot
  refine hk ?_
  simpa [Worker.take, hbatch] using h.none_of_atRest hrest k

theorem Worker.Tidy.move {worker : Worker K} (h : worker.Tidy) {k : K}
    (hk : worker.stages k ≠ none) (stage : Option Stage) : (worker.move k stage).Tidy := by
  intro j hj
  by_cases hjk : j = k
  · exact hjk ▸ h k hk
  · simp only [Worker.move, Function.update_of_ne hjk] at hj
    exact h j hj

theorem step_tidy {db : Database K} {worker : Worker K} (h : worker.Tidy) (input : Input K) :
    (step options input db worker).2.Tidy := by
  cases input with
  | passes elapsed => exact h
  | insert k maxAttempts =>
    simp only [step]
    split <;> exact h
  | claim batch answer =>
    simp only [step]
    split
    · next htakes =>
      by_cases hanswer : answer = .answered
      · simp only [hanswer, if_true]
        exact h.take htakes.2.1 batch _
      · simp only [hanswer, if_false]
        exact h
    · exact h
  | fetch batch answer =>
    simp only [step]
    split
    · next htakes => exact h.take htakes.1.2.1 batch _
    · exact h
  | respond k success =>
    simp only [step]
    split
    · next hstage => exact h.move (by simp [hstage]) _
    · exact h
  | query k answer =>
    simp only [step]
    split
    · next stage hstage =>
      have hheld : worker.stages k ≠ none := by simp [hstage]
      split
      · cases stage.next (db.events k) answer with
        | stage stage => exact h.move hheld _
        | settled => exact h.move hheld _
        | throws => exact fun _ hk => absurd rfl hk
      · exact h
    · exact h
  | prune =>
    simp only [step]
    split <;> exact h
  | crash => exact fun _ hk => absurd rfl hk

theorem kept_advance {w : World K ι} (h : Kept w) {turn : ι × Input K}
    (hno : ¬ Mishap options w turn) : Kept (Interleaving.advance (step options) w turn) := by
  obtain ⟨i, input⟩ := turn
  refine ⟨fun k => ?_, ?_⟩
  · obtain ⟨harm, heffect, hmishap⟩ := step_effect options w i input k
    have hharm : ¬ harm := fun hharm => hno (hmishap hharm)
    refine Interleaving.exclusive_advance_of_untouched (h.1 k) ?_ ?_ ?_ ?_
    · intro hfree hnone hnot
      have hheld : ¬ Held w k := fun ⟨j, hj⟩ => hnone j hj
      rw [not_not.1 (hnone i), not_not.1 hnot] at heffect
      exact heffect.spare hharm hheld hfree
    · intro hfree hnone hstage
      rw [not_not.1 (hnone i)] at heffect
      exact heffect.take hstage
    · intro howned
      have hheld : Held w k := by
        obtain ⟨stage, -, hstage, -⟩ := howned
        exact ⟨i, by simp [hstage]⟩
      rcases heffect.keep hharm hheld howned with hkept | ⟨hfree, hnone⟩
      · exact .inl hkept
      · exact .inr ⟨hfree, not_not.2 hnone⟩
    · intro j _ howned hnot
      have hheld : Held w k := by
        obtain ⟨stage, -, hstage, -⟩ := howned
        exact ⟨j, by simp [hstage]⟩
      rw [not_not.1 hnot] at heffect
      obtain ⟨hkept, hnone⟩ := heffect.others hharm hheld howned
      exact ⟨hkept, not_not.2 hnone⟩
  · exact Interleaving.locals_advance _ _ (step_tidy (h.2 i) input) fun j _ => h.2 j

/-- No event is left behind: a marked event is held, any other is claimable as long as it has
attempts left, and no two workers hold one. -/
structure NoEventStuck (w : World K ι) : Prop where
  held : ∀ k, Marked w k → Held w k
  claimable : ∀ k, ∀ event ∈ w.shared.events k, event.Claimable
  exclusive : ∀ k i j, (w.locals i).stages k ≠ none → (w.locals j).stages k ≠ none → i = j

omit [DecidableEq K] in
theorem Kept.noEventStuck {w : World K ι} (h : Kept w) : NoEventStuck w where
  held := by
    rintro k ⟨event, hevent, hprocessing⟩
    rcases h.1 k with ⟨hfree, -⟩ | ⟨i, ⟨stage, -, hstage, -⟩, -⟩
    · exact absurd hprocessing (hfree event hevent).1
    · exact ⟨i, by simp [hstage]⟩
  claimable := by
    intro k event hevent
    rcases h.1 k with ⟨hfree, -⟩ | ⟨i, ⟨stage, _, -, hrow, hfits⟩, -⟩
    · exact (hfree event hevent).2
    · obtain rfl : _ = event := Option.some.inj (hrow.symm.trans hevent)
      exact hfits.claimable
  exclusive := fun k i j => h.holder

/-! ## Mishaps -/

omit [DecidableEq ι] in
/-- A worker takes an event that is held already. -/
theorem Kept.taken_twice {w w' : World K ι} (h : Kept w) {i j : ι} {k : K} {batch : List K}
    {stage : K → Stage} (hk : k ∈ batch) (hrest : (w.locals i).AtRest)
    (hj : (w.locals j).stages k ≠ none)
    (hself : w'.locals i = (w.locals i).take batch stage)
    (hothers : ∀ j, j ≠ i → w'.locals j = w.locals j) : ¬ NoEventStuck w' := by
  intro hstuck
  have hne : j ≠ i := by
    rintro rfl
    exact hj ((h.2 j).none_of_atRest hrest k)
  refine hne (hstuck.exclusive k j i ?_ ?_)
  · rwa [hothers j hne]
  · simp [hself, Worker.take, hk]

omit [DecidableEq K] [DecidableEq ι] in
/-- A marked event that no other worker holds is let go. -/
theorem NoEventStuck.let_go {w' : World K ι} {i : ι} {k : K} (hstuck : NoEventStuck w')
    (hmarked : Marked w' k) (hself : (w'.locals i).stages k = none)
    (hothers : ∀ j, j ≠ i → (w'.locals j).stages k = none) : False := by
  obtain ⟨j, hj⟩ := hstuck.held k hmarked
  by_cases hji : j = i
  · exact hj (hji ▸ hself)
  · exact hj (hothers j hji)

theorem mishap_sticks {w : World K ι} (h : Kept w) {turn : ι × Input K}
    (hmishap : Mishap options w turn) :
    ¬ NoEventStuck (Interleaving.advance (step options) w turn) := by
  obtain ⟨i, input⟩ := turn
  have hothers : ∀ j, j ≠ i → (Interleaving.advance (step options) w (i, input)).locals j =
      w.locals j := fun j hj => Interleaving.advance_other _ w input hj
  have hself := Interleaving.advance_self (step options) w i input
  have hshared := Interleaving.advance_shared (step options) w (i, input)
  cases input with
  | claim batch answer =>
    obtain ⟨htakes, ⟨rfl, k, hk, j, hj⟩ | ⟨rfl, k, hk, hheld⟩⟩ := hmishap
    · simp only [step, htakes, if_true] at hself
      exact h.taken_twice hk htakes.2.1 hj hself hothers
    · simp only [step, htakes, if_true, reduceCtorEq, if_false] at hself
      simp only [step, htakes, if_true, DbAnswer.executed] at hshared
      obtain ⟨event, hevent, -⟩ := htakes.2.2.2 k hk
      have hnone : ∀ j, (w.locals j).stages k = none := by
        intro j
        by_contra hj
        exact hheld ⟨j, hj⟩
      intro hstuck
      refine hstuck.let_go (i := i) ⟨event.process, ?_, rfl⟩ (by rw [hself, hnone i]) ?_
      · rw [hshared]
        simp [Database.process, hk, Option.mem_def.1 hevent]
      · intro j hj
        rw [hothers j hj, hnone j]
  | fetch batch answer =>
    obtain ⟨htakes, rfl, k, hk, j, hj⟩ := hmishap
    simp only [step, htakes, true_and, if_true] at hself
    exact h.taken_twice hk htakes.2.1 hj hself hothers
  | query k answer =>
    obtain ⟨hturn, stage, hstage, ⟨hnext, hexecuted, hmarked⟩ | ⟨hnext, j, hj, hmarked, hsame⟩⟩ :=
      hmishap
    · simp only [step, hstage, hturn, if_true, hnext] at hself
      simp only [step, hstage, hturn, if_true, hexecuted, Bool.false_eq_true, if_false] at hshared
      intro hstuck
      refine hstuck.let_go (i := i) (k := k) ?_ (by simp [hself, Worker.move]) ?_
      · rw [Marked, hshared]
        exact hmarked
      · intro j hj
        rw [hothers j hj]
        by_contra hjk
        exact hj (h.holder hjk (by simp [hstage]))
    · simp only [step, hstage, hturn, if_true, hnext] at hself
      simp only [step, hstage, hturn, if_true] at hshared
      intro hstuck
      refine hstuck.let_go (i := i) (k := j) ?_ (by rw [hself]; rfl) ?_
      · have hrow : (if answer.executed then
            w.shared.modify k (stage.update options w.shared.now) else w.shared).events j =
            w.shared.events j := by
          by_cases hjk : j = k
          · rcases hsame hjk with hexecuted | rfl
            · simp [hexecuted]
            · split <;> simp [hjk, Database.modify, Stage.update]
          · split <;> simp [Database.modify, hjk]
        rw [Marked, hshared, hrow]
        exact hmarked
      · intro i' hi'
        rw [hothers i' hi']
        by_contra hheld
        exact hi' (h.holder hheld hj)
  | crash =>
    obtain ⟨k, hk, hmarked⟩ := hmishap
    intro hstuck
    refine hstuck.let_go (i := i) (k := k) ?_ (by rw [hself]; rfl) ?_
    · rw [Marked, hshared]
      exact hmarked
    · intro j hj
      rw [hothers j hj]
      by_contra hjk
      exact hj (h.holder hjk hk)
  | passes | insert | respond | prune => exact hmishap.elim

omit [DecidableEq K] [DecidableEq ι] in
theorem kept_start (kinds : ι → Kind) : Kept (start kinds : World K ι) :=
  ⟨fun _ => .inl ⟨nofun, fun _ => not_not.2 rfl⟩, fun _ _ hk => absurd rfl hk⟩

/-- A run of any number of workers stays without a stuck event exactly as long as there is no
mishap. -/
theorem no_event_stuck_iff (options : OutboxWorkerOptions) (kinds : ι → Kind)
    (schedule : List (ι × Input K)) :
    (∀ pre, pre <+: schedule → NoEventStuck (run options kinds pre)) ↔
      Runs.Every (Interleaving.advance (step options)) (fun w turn => ¬ Mishap options w turn)
        (start kinds) schedule :=
  Runs.forall_prefix_iff_every_of_inv NoEventStuck Kept (fun _ h => h.noEventStuck)
    (fun _ _ h hno => kept_advance h hno)
    (fun _ _ h hstuck hmishap => mishap_sticks h hmishap hstuck) (kept_start kinds) schedule

/-! ## Events left behind -/

/-- The event is marked, and no worker holds it. -/
def Stuck (w : World K ι) (k : K) : Prop := Marked w k ∧ ¬ Held w k

theorem stuck_advance {w : World K ι} {k : K} (h : Stuck w k) (turn : ι × Input K) :
    Stuck (Interleaving.advance (step options) w turn) k := by
  obtain ⟨i, input⟩ := turn
  obtain ⟨⟨event, hevent, hprocessing⟩, hheld⟩ := h
  have hnone : ∀ j, (w.locals j).stages k = none := by
    intro j
    by_contra hj
    exact hheld ⟨j, hj⟩
  obtain ⟨harm, heffect, -⟩ := step_effect options w i input k
  rw [hnone i, Option.mem_def.1 hevent] at heffect
  have hsame : (step options input w.shared (w.locals i)).1.events k = some event ∧
      (step options input w.shared (w.locals i)).2.stages k = none := by
    generalize (step options input w.shared (w.locals i)).1.events k = row' at heffect
    generalize (step options input w.shared (w.locals i)).2.stages k = stage' at heffect
    cases heffect with
    | unchanged | dropped => exact ⟨rfl, rfl⟩
    | pruned _ _ published =>
      rw [OutboxEvent.Processing, published] at hprocessing
      cases hprocessing
    | claimed _ _ ready | claimLost _ _ ready | fetched _ _ ready =>
      exact absurd hprocessing ready.waiting.not_processing
  refine ⟨⟨event, ?_, hprocessing⟩, ?_⟩
  · rw [Interleaving.advance_shared]
    exact hsame.1
  · rintro ⟨j, hj⟩
    refine hj (Interleaving.locals_advance (step options) (fun worker => worker.stages k = none)
      hsame.2 (fun j _ => hnone j) j)

/-- Nothing brings an event back that has been left behind. -/
theorem stuck_run {w : World K ι} {k : K} (h : Stuck w k) (schedule : List (ι × Input K)) :
    Stuck (Interleaving.run (step options) w schedule) k :=
  Runs.inv_foldl (fun w => Stuck w k) (fun _ turn h => stuck_advance h turn) h schedule

instance (w : World K ι) (k : K) : Decidable (Marked w k) :=
  inferInstanceAs (Decidable (∃ e ∈ w.shared.events k, e.status = .processing))

/-- The process of a worker ends while it has the event: a dispatcher's while it waits for the
webhook, and an `OutboxWorker`'s while it publishes. -/
def crashesWithEvent : Kind → List (Unit × Input Unit)
  | .dispatcher => [((), .insert () 5), ((), .claim [()] .answered), ((), .crash)]
  | .outboxWorker =>
    [((), .insert () 5), ((), .fetch [()] .answered), ((), .query () .answered), ((), .crash)]

theorem stuck_crashesWithEvent (kind : Kind) (later : List (Unit × Input Unit)) :
    Stuck (run ⟨20, 60000, 86400000⟩ (fun _ => kind) (crashesWithEvent kind ++ later)) () := by
  rw [run, Interleaving.run_append]
  cases kind with
  | dispatcher =>
    refine stuck_run ⟨by decide +kernel, ?_⟩ later
    rintro ⟨_, hheld⟩
    exact hheld rfl
  | outboxWorker =>
    refine stuck_run ⟨by decide +kernel, ?_⟩ later
    rintro ⟨_, hheld⟩
    exact hheld rfl

/-- One worker of either kind is enough, each on the table of its own migration. -/
theorem event_stuck_forever :
    (∃ schedule : List (Unit × Input Unit), ∀ later,
      Stuck (run ⟨20, 60000, 86400000⟩ (fun _ => .dispatcher) (schedule ++ later)) ()) ∧
    ∃ schedule : List (Unit × Input Unit), ∀ later,
      Stuck (run ⟨20, 60000, 86400000⟩ (fun _ => .outboxWorker) (schedule ++ later)) () :=
  ⟨⟨_, stuck_crashesWithEvent .dispatcher⟩, _, stuck_crashesWithEvent .outboxWorker⟩

end MobileMoney.Outbox
