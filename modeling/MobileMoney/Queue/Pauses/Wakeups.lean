import MobileMoney.Queue.Pauses.Program

/-!
# Held jobs that nobody looks for

A call that finds the release lock taken returns at once. What makes up for it is that whoever
has the lock looks at the hold queue again after unlocking, and that the lock never outlives the
drain for which it has been taken.
-/

namespace MobileMoney.Queue.Pauses

open Interleaving

variable {T ι : Type}

/-- The token of a drain. -/
def Phase.token : Phase T → Option ℕ
  | .draining _ token | .fetching _ token | .finding _ token _ _ | .examining _ token _ _
  | .clearing _ token _ _ | .moving _ token _ _ _ | .removing _ token _ _ | .unlocking _ token =>
    some token
  | _ => none

/-- The call is going to look at the hold queue, unless the provider is paused or somebody else
has the lock. -/
def Phase.Watches (phase : Phase T) : Bool :=
  match phase with
  | .held _ | .releasing _ | .locking _ | .recheckingPaused _ | .recheckingCount _ => true
  | phase => phase.token.isSome

/-- No command to a queue is left to the process. -/
def Phase.Resting : Phase T → Prop
  | .idle | .processing _ => True
  | _ => False

theorem not_watches_of_resting {phase : Phase T} (h : phase.Resting) :
    phase.Watches = false := by
  cases phase with
  | idle => rfl
  | processing id => rfl
  | _ => exact absurd h not_false

theorem watches_of_token {phase : Phase T} {token : ℕ} (h : phase.token = some token) :
    phase.Watches = true := by
  cases phase <;> simp_all [Phase.token, Phase.Watches]

theorem nextJob_token (caller : Caller T) (token : ℕ) (rest : List (JobId T)) :
    (Phase.nextJob caller token rest).token = some token := by
  cases rest <;> rfl

theorem start_frame (phase next : Phase T) (htoken : next.token = none)
    (hwatches : next.Watches = false) :
    (phase.start next).token = phase.token ∧ (phase.start next).Watches = phase.Watches := by
  cases phase with
  | idle => exact ⟨htoken, hwatches⟩
  | _ => simp only [Phase.start, and_self]

/-! ## What a turn leaves of the lock and of the queue -/

section Turns

variable [DecidableEq T]

theorem turn_lock (answer : DbAnswer) (s : State T) (phase : Phase T) :
    ∀ lock ∈ (turn answer s phase).1.lock,
      (turn answer s phase).2.token = some lock.1 ∨
        lock ∈ s.lock ∧ phase.token ≠ some lock.1 := by
  intro lock hlock
  cases phase <;> simp only [turn] at hlock ⊢
  all_goals grind [Phase.token, nextJob_token, State.addMain, State.addHold, State.setState,
    State.accept, State.hand, State.removeHold]

/-- A call that stops looking leaves a paused provider, an empty queue, or a lock that somebody
else has. -/
theorem turn_watches (answer : DbAnswer) (s : State T) (phase : Phase T)
    (hpaused : (turn answer s phase).1.paused = false)
    (hheld : (turn answer s phase).1.hold ≠ []) :
    (turn answer s phase).2.Watches = true ∨
      phase.Watches = false ∧ s.paused = false ∧ s.hold ≠ [] ∨
      phase.token = none ∧ ∃ lock, lock ∈ s.lock := by
  cases phase <;> simp only [turn] at hpaused hheld ⊢
  all_goals grind [Phase.token, Phase.Watches, watches_of_token, nextJob_token, State.addMain,
    State.addHold, State.setState, State.accept, State.hand, State.removeHold, State.LockFree]

/-- A page, the end of a job and the start of another leave the lock and the hold queue. -/
theorem step_frame (input : Input T) (s : State T) (phase : Phase T)
    (h : ∀ answer, input ≠ .turn answer) :
    (step input s phase).1.lock = s.lock ∧ (step input s phase).1.paused = s.paused ∧
      (step input s phase).1.hold = s.hold ∧ (step input s phase).2.token = phase.token ∧
      (step input s phase).2.Watches = phase.Watches := by
  cases input with
  | turn answer => exact absurd rfl (h answer)
  | passes elapsed => exact ⟨rfl, rfl, rfl, rfl, rfl⟩
  | enqueue t => exact ⟨rfl, rfl, rfl, start_frame phase (.dispatching t) rfl rfl⟩
  | pause => exact ⟨rfl, rfl, rfl, start_frame phase .pausing rfl rfl⟩
  | resume => exact ⟨rfl, rfl, rfl, start_frame phase .resuming rfl rfl⟩
  | finish retried =>
    cases phase with
    | processing id => exact ⟨rfl, rfl, rfl, rfl, rfl⟩
    | returning id => exact ⟨rfl, rfl, rfl, rfl, rfl⟩
    | _ => simp only [step, finish, and_self]
  | page jobs =>
    refine ⟨rfl, rfl, rfl, ?_⟩
    cases phase with
    | fetching caller token =>
      simp only [step, page]
      by_cases hpage : s.Page jobs
      · simp only [if_pos hpage]
        cases jobs <;> exact ⟨rfl, rfl⟩
      · simp only [if_neg hpage]
        exact ⟨trivial, trivial⟩
    | _ => simp only [step, page, and_self]
  | take id =>
    cases phase with
    | idle =>
      simp only [step, take]
      split_ifs <;> exact ⟨rfl, rfl, rfl, rfl, rfl⟩
    | _ => simp only [step, take, and_self]
  | expire id =>
    refine ⟨?_, ?_, ?_, rfl, rfl⟩
    all_goals
      simp only [step, State.expire]
      split_ifs <;> rfl

theorem step_lock (input : Input T) (s : State T) (phase : Phase T) :
    ∀ lock ∈ (step input s phase).1.lock,
      (step input s phase).2.token = some lock.1 ∨
        lock ∈ s.lock ∧ phase.token ≠ some lock.1 := by
  by_cases hturn : ∃ answer, input = .turn answer
  · obtain ⟨answer, rfl⟩ := hturn
    exact turn_lock answer s phase
  · obtain ⟨hlock, -, -, htoken, -⟩ :=
      step_frame input s phase fun answer h => hturn ⟨answer, h⟩
    intro lock hmem
    rw [hlock] at hmem
    rw [htoken]
    by_cases hown : phase.token = some lock.1
    · exact Or.inl hown
    · exact Or.inr ⟨hmem, hown⟩

theorem step_watches (input : Input T) (s : State T) (phase : Phase T)
    (hpaused : (step input s phase).1.paused = false)
    (hheld : (step input s phase).1.hold ≠ []) :
    (step input s phase).2.Watches = true ∨
      phase.Watches = false ∧ s.paused = false ∧ s.hold ≠ [] ∨
      phase.token = none ∧ ∃ lock, lock ∈ s.lock := by
  by_cases hturn : ∃ answer, input = .turn answer
  · obtain ⟨answer, rfl⟩ := hturn
    exact turn_watches answer s phase hpaused hheld
  · obtain ⟨-, hpaused', hhold', -, hwatches⟩ :=
      step_frame input s phase fun answer h => hturn ⟨answer, h⟩
    rw [hpaused'] at hpaused
    rw [hhold'] at hheld
    rw [hwatches]
    cases hown : phase.Watches with
    | true => exact Or.inl rfl
    | false => exact Or.inr (Or.inl ⟨rfl, hpaused, hheld⟩)

end Turns

/-! ## Somebody looks -/

/-- The lock belongs to a drain, and what an unpaused provider holds is looked for. -/
structure Attended (w : World T ι) : Prop where
  locked : ∀ lock ∈ w.shared.lock, ∃ i, (w.locals i).token = some lock.1
  watched : w.shared.paused = false → w.shared.hold ≠ [] → ∃ i, (w.locals i).Watches = true

theorem attended_init [DecidableEq T] : Attended (World.init : World T ι) := by
  constructor <;> simp [World.init]

theorem attended_advance [DecidableEq T] [DecidableEq ι] {w : World T ι} (h : Attended w)
    (turn : ι × Input T) : Attended (advance step w turn) := by
  obtain ⟨k, input⟩ := turn
  have hself := advance_self step w k input
  constructor
  · intro lock hlock
    rcases step_lock input w.shared (w.locals k) lock hlock with hown | ⟨hold, hnot⟩
    · exact ⟨k, by rw [hself, hown]⟩
    · obtain ⟨i, hi⟩ := h.locked lock hold
      have hne : i ≠ k := by
        rintro rfl
        exact hnot hi
      exact ⟨i, by rw [advance_other step w input hne, hi]⟩
  · intro hpaused hheld
    rcases step_watches input w.shared (w.locals k) hpaused hheld with
      hown | ⟨hnot, hbefore, hholds⟩ | ⟨hnone, lock, hlock⟩
    · exact ⟨k, by rw [hself, hown]⟩
    · obtain ⟨i, hi⟩ := h.watched hbefore hholds
      have hne : i ≠ k := by
        rintro rfl
        rw [hnot] at hi
        cases hi
      exact ⟨i, by rw [advance_other step w input hne, hi]⟩
    · obtain ⟨i, hi⟩ := h.locked lock hlock
      have hne : i ≠ k := by
        rintro rfl
        rw [hnone] at hi
        cases hi
      exact ⟨i, by rw [advance_other step w input hne, watches_of_token hi]⟩

theorem attended_run [DecidableEq T] [DecidableEq ι] (schedule : List (ι × Input T)) :
    Attended (run step (World.init : World T ι) schedule) :=
  Runs.inv_foldl Attended (fun _ turn h => attended_advance h turn) attended_init schedule

/-- When all calls have returned, nothing is held but by a paused provider. -/
theorem Attended.released {w : World T ι} (h : Attended w) (hresting : ∀ i, (w.locals i).Resting)
    (hpaused : w.shared.paused = false) : w.shared.hold = [] := by
  by_contra hheld
  obtain ⟨i, hwatches⟩ := h.watched hpaused hheld
  rw [not_watches_of_resting (hresting i)] at hwatches
  cases hwatches

end MobileMoney.Queue.Pauses
