import MobileMoney.Outbox.Program

/-!
# What a turn does to one event

A turn changes the row of an event and how far its worker has come with it. For one event there
are few ways in which the two change together.
-/

namespace MobileMoney.Outbox

variable {K : Type}

def OutboxEvent.Processing (event : OutboxEvent) : Prop := event.status = .processing

/-- What a turn can do to an event and to the stage at which the worker in turn holds it, and
when that does harm. `held` says that some worker holds the event. -/
inductive Effect (options : OutboxWorkerOptions) (now : ℕ) (held : Prop) :
    Option OutboxEvent → Option Stage → Option OutboxEvent → Option Stage → Prop → Prop where
  | unchanged (event : Option OutboxEvent) (stage : Option Stage) :
      Effect options now held event stage event stage False
  | inserted (maxAttempts : ℕ) (stage : Option Stage) :
      Effect options now held none stage (some ⟨.pending, 0, maxAttempts, some now, none⟩) stage
        False
  | pruned (event : OutboxEvent) (stage : Option Stage) (published : event.status = .published) :
      Effect options now held (some event) stage none stage False
  | claimed (event : OutboxEvent) (stage : Option Stage) (ready : event.Ready now) :
      Effect options now held (some event) stage (some event.process)
        (some (.delivering event.attempts)) held
  | claimLost (event : OutboxEvent) (stage : Option Stage) (ready : event.Ready now) :
      Effect options now held (some event) stage (some event.process) stage (¬ held)
  | fetched (event : OutboxEvent) (stage : Option Stage) (ready : event.Ready now) :
      Effect options now held (some event) stage (some event) (some .fetched) held
  | responded (event : Option OutboxEvent) (attempts : ℕ) (success : Bool) :
      Effect options now held event (some (.delivering attempts)) event
        (some (if success then .markingDelivered else .schedulingRetry attempts)) False
  | advanced (event : Option OutboxEvent) (stage stage' : Stage) (answer : DbAnswer)
      (next : stage.next event answer = .stage stage') :
      Effect options now held event (some stage)
        (if answer.executed then event.map (stage.update options now) else event) (some stage')
        False
  | settled (event : Option OutboxEvent) (stage : Stage) (answer : DbAnswer)
      (next : stage.next event answer = .settled) :
      Effect options now held event (some stage)
        (if answer.executed then event.map (stage.update options now) else event) none
        (answer.executed = false ∧ ∃ e ∈ event, e.Processing)
  | threw (event : Option OutboxEvent) (stage : Stage) (answer : DbAnswer)
      (next : stage.next event answer = .throws) :
      Effect options now held event (some stage)
        (if answer.executed then event.map (stage.update options now) else event) none
        ((answer.executed = false ∨ stage = .markingFailed) ∧ ∃ e ∈ event, e.Processing)
  | dropped (event : Option OutboxEvent) (stage : Option Stage) :
      Effect options now held event stage event none (stage ≠ none ∧ ∃ e ∈ event, e.Processing)

variable [DecidableEq K] {ι : Type} {options : OutboxWorkerOptions}

/-- Some worker holds the event. -/
def Held (w : World K ι) (k : K) : Prop := ∃ i, (w.locals i).stages k ≠ none

/-- The event is marked as being processed. -/
def Marked (w : World K ι) (k : K) : Prop := ∃ e ∈ w.shared.events k, e.Processing

/-- The turns that leave an event behind, or give it to two workers: a claim is executed and its
answer lost; a worker takes events that another has read; a statement after the mark fails, or
the process ends, while the event is marked. -/
def Mishap (options : OutboxWorkerOptions) (w : World K ι) (turn : ι × Input K) : Prop :=
  match turn.2 with
  | .claim batch answer =>
    Takes options .dispatcher w.shared (w.locals turn.1) batch ∧
      (answer = .answered ∧ (∃ k ∈ batch, Held w k) ∨
        answer = .failed true ∧ ∃ k ∈ batch, ¬ Held w k)
  | .fetch batch answer =>
    Takes options .outboxWorker w.shared (w.locals turn.1) batch ∧ answer = .answered ∧
      ∃ k ∈ batch, Held w k
  | .query k answer =>
    (w.locals turn.1).AtTurn k ∧ ∃ stage, (w.locals turn.1).stages k = some stage ∧
      (stage.next (w.shared.events k) answer = .settled ∧ answer.executed = false ∧ Marked w k ∨
        stage.next (w.shared.events k) answer = .throws ∧
          ∃ j, (w.locals turn.1).stages j ≠ none ∧ Marked w j ∧
            (j = k → answer.executed = false ∨ stage = .markingFailed))
  | .crash => ∃ k, (w.locals turn.1).stages k ≠ none ∧ Marked w k
  | _ => False

/-- The turn has an effect on the event, and does harm to it only as a mishap. -/
def HasEffect (options : OutboxWorkerOptions) (w : World K ι) (i : ι) (input : Input K) (k : K) :
    Prop :=
  ∃ harm, Effect options w.shared.now (Held w k) (w.shared.events k) ((w.locals i).stages k)
      ((step options input w.shared (w.locals i)).1.events k)
      ((step options input w.shared (w.locals i)).2.stages k) harm ∧
    (harm → Mishap options w (i, input))

theorem claim_effect (w : World K ι) (i : ι) (batch : List K) (answer : DbAnswer) (k : K) :
    HasEffect options w i (.claim batch answer) k := by
  simp only [HasEffect, step]
  split
  · next htakes =>
    by_cases hk : k ∈ batch
    · obtain ⟨event, hevent, hready⟩ := htakes.2.2.2 k hk
      simp only [Option.mem_def] at hevent
      cases answer with
      | answered =>
        simp only [DbAnswer.executed, if_true, Database.process, hk, hevent, Option.map_some,
          Worker.take, Database.attempts, Option.getD_some]
        exact ⟨_, .claimed event _ hready, fun h => ⟨htakes, .inl ⟨rfl, k, hk, h⟩⟩⟩
      | failed executed =>
        cases executed with
        | true =>
          simp only [DbAnswer.executed, if_true, Database.process, hk, hevent, Option.map_some,
            reduceCtorEq, if_false]
          exact ⟨_, .claimLost event _ hready, fun h => ⟨htakes, .inr ⟨rfl, k, hk, h⟩⟩⟩
        | false =>
          simp only [DbAnswer.executed, Bool.false_eq_true, reduceCtorEq, if_false]
          exact ⟨_, .unchanged _ _, nofun⟩
    · have hevents : (if answer.executed then w.shared.process batch else w.shared).events k =
          w.shared.events k := by
        split
        · simp [Database.process, hk]
        · rfl
      have hstages : (if answer = .answered then (w.locals i).take batch
          fun k => .delivering (w.shared.attempts k) else w.locals i).stages k =
          (w.locals i).stages k := by
        split
        · simp [Worker.take, hk]
        · rfl
      rw [hevents, hstages]
      exact ⟨_, .unchanged _ _, nofun⟩
  · exact ⟨_, .unchanged _ _, nofun⟩

theorem query_effect (w : World K ι) (i : ι) (j : K) (answer : DbAnswer) (k : K) :
    HasEffect options w i (.query j answer) k := by
  simp only [HasEffect, step]
  split
  · next stage hstage =>
    split
    · next hturn =>
      have hevents : (if answer.executed then w.shared.modify j (stage.update options w.shared.now)
          else w.shared).events k =
          if k = j ∧ answer.executed then
            (w.shared.events j).map (stage.update options w.shared.now)
          else w.shared.events k := by
        by_cases hk : k = j
        · subst hk
          cases answer.executed <;> simp [Database.modify]
        · cases answer.executed <;> simp [Database.modify, hk]
      rw [hevents]
      cases hnext : stage.next (w.shared.events j) answer with
      | stage stage' =>
        by_cases hk : k = j
        · subst hk
          simp only [true_and, Worker.move, Function.update_self, hstage]
          exact ⟨_, .advanced _ stage stage' answer hnext, nofun⟩
        · simp only [hk, false_and, if_false, Worker.move, Function.update_of_ne hk]
          exact ⟨_, .unchanged _ _, nofun⟩
      | settled =>
        by_cases hk : k = j
        · subst hk
          simp only [true_and, Worker.move, Function.update_self, hstage]
          exact ⟨_, .settled _ stage answer hnext,
            fun h => ⟨hturn, stage, hstage, .inl ⟨hnext, h⟩⟩⟩
        · simp only [hk, false_and, if_false, Worker.move, Function.update_of_ne hk]
          exact ⟨_, .unchanged _ _, nofun⟩
      | throws =>
        by_cases hk : k = j
        · subst hk
          simp only [true_and, Worker.drop, hstage]
          refine ⟨_, .threw _ stage answer hnext, fun h => ⟨hturn, stage, hstage, .inr ?_⟩⟩
          exact ⟨hnext, k, by simp [hstage], h.2, fun _ => h.1⟩
        · simp only [hk, false_and, if_false, Worker.drop]
          refine ⟨_, .dropped _ _, fun h => ⟨hturn, stage, hstage, .inr ?_⟩⟩
          exact ⟨hnext, k, h.1, h.2, fun hkj => absurd hkj hk⟩
    · exact ⟨_, .unchanged _ _, nofun⟩
  · exact ⟨_, .unchanged _ _, nofun⟩

theorem step_effect (options : OutboxWorkerOptions) (w : World K ι) (i : ι) (input : Input K)
    (k : K) : HasEffect options w i input k := by
  cases input with
  | passes elapsed => exact ⟨_, .unchanged _ _, nofun⟩
  | insert j maxAttempts =>
    simp only [HasEffect, step]
    split
    · exact ⟨_, .unchanged _ _, nofun⟩
    · next hnone =>
      by_cases hk : k = j
      · subst hk
        simp only [hnone, Function.update_self]
        exact ⟨_, .inserted maxAttempts _, nofun⟩
      · simp only [Function.update_of_ne hk]
        exact ⟨_, .unchanged _ _, nofun⟩
  | claim batch answer => exact claim_effect w i batch answer k
  | fetch batch answer =>
    simp only [HasEffect, step]
    split
    · next htakes =>
      by_cases hk : k ∈ batch
      · obtain ⟨event, hevent, hready⟩ := htakes.1.2.2.2 k hk
        simp only [Option.mem_def] at hevent
        simp only [Worker.take, hk, if_true, hevent]
        exact ⟨_, .fetched event _ hready, fun h => ⟨htakes.1, htakes.2, k, hk, h⟩⟩
      · simp only [Worker.take, hk, if_false]
        exact ⟨_, .unchanged _ _, nofun⟩
    · exact ⟨_, .unchanged _ _, nofun⟩
  | respond j success =>
    simp only [HasEffect, step]
    split
    · next attempts hstage =>
      by_cases hk : k = j
      · subst hk
        simp only [Worker.move, Function.update_self, hstage]
        exact ⟨_, .responded _ attempts success, nofun⟩
      · simp only [Worker.move, Function.update_of_ne hk]
        exact ⟨_, .unchanged _ _, nofun⟩
    · exact ⟨_, .unchanged _ _, nofun⟩
  | query j answer => exact query_effect w i j answer k
  | prune =>
    simp only [HasEffect, step]
    split
    · cases hevent : w.shared.events k with
      | none =>
        simp only [hevent, Option.filter_none]
        exact ⟨_, .unchanged _ _, nofun⟩
      | some event =>
        simp only [hevent, Option.filter_some, decide_not]
        split
        · exact ⟨_, .unchanged _ _, nofun⟩
        · next hpruned =>
          refine ⟨_, .pruned event _ ?_, nofun⟩
          simp only [Bool.not_eq_true', decide_eq_false_iff_not, not_not] at hpruned
          exact hpruned.1
    · exact ⟨_, .unchanged _ _, nofun⟩
  | crash => exact ⟨_, .dropped _ _, fun h => ⟨k, h⟩⟩

end MobileMoney.Outbox
