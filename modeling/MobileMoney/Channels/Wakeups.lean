import MobileMoney.Channels.Leases

/-!
# Idle channels beside waiting calls

A call queues up when no channel is idle, and `release` hands the channel to the queue first.
A claim that a lease store refuses puts the channel on the idle list without looking at the queue:
this is the only way to an idle channel while a call is waiting.
-/

namespace MobileMoney.Channels

variable {K P C : Type}

/-- No channel is idle while a call is queued. -/
def Pool.Calm (pool : Pool K P C) : Prop := pool.waiters ≠ [] → pool.idle = []

instance Pool.decidableCalm [DecidableEq K] [DecidableEq C] (pool : Pool K P C) :
    Decidable pool.Calm :=
  inferInstanceAs (Decidable (_ → _))

section Turns

variable {pool : Pool K P C} {call : Call K P C} {input : Input}

theorem giveBack_calm (channel : K) (h : pool.Calm) : (pool.giveBack channel).Calm := by
  unfold Pool.giveBack
  cases hwaiters : pool.waiters with
  | nil =>
    intro hne
    simp only [ne_eq, not_true] at hne
  | cons waiter waiters => exact fun _ => h (by simp [hwaiters])

theorem released_calm (channel : K) (outcome : Outcome) (h : pool.Calm) :
    (released pool call channel outcome).1.Calm := by
  cases outcome <;> exact giveBack_calm channel h

variable [DecidableEq K]

theorem release_calm [DecidableEq P] (channel : K) (outcome : Outcome) (h : pool.Calm) :
    (release input pool call channel outcome).1.Calm := by
  unfold release
  split
  · split <;> exact h
  · exact released_calm channel outcome h

variable {options : ChannelPoolOptions K} {now : ℕ}

theorem claimShared_calm (channel : K) (rest : Option ℕ) (h : pool.Calm) :
    (claimShared options now input pool call channel rest).1.Calm := by
  unfold claimShared
  dsimp only
  split
  · exact h
  split <;> exact h

theorem tryNext_calm (rest : ℕ) (h : pool.Calm) :
    (tryNext options now input pool call rest).1.Calm := by
  cases rest with
  | zero => exact h
  | succ rest =>
    cases hidle : pool.idle with
    | nil =>
      simp only [tryNext, hidle]
      exact h
    | cons channel idle =>
      simp only [tryNext, hidle]
      refine claimShared_calm channel (some rest) fun hwaiters => ?_
      rw [h hwaiters] at hidle
      cases hidle

theorem claimed_calm_iff (channel : K) (rest : Option ℕ) (granted : Option (Lease P))
    (h : pool.Calm) : (claimed pool call channel rest granted).1.Calm ↔
      ¬ (granted = none ∧ pool.waiters ≠ []) := by
  cases granted with
  | some lease => exact iff_of_true h (by simp)
  | none =>
    have hidle : (if channel ∈ pool.idle then pool.idle else pool.idle ++ [channel]) ≠ [] := by
      split
      · next hmem => exact List.ne_nil_of_mem hmem
      · simp
    simp [claimed, Pool.Calm, hidle]

/-- A lease store has refused the claim of the call, and calls are queued. -/
def RefusedBefore (input : Input) (pool : Pool K P C) (call : Call K P C) : Prop :=
  call.phase.answer input 0 = some none ∧ pool.waiters ≠ []

omit [DecidableEq K] in
/-- When a lease is to end does not matter for whether it is refused. -/
theorem answer_eq_refused {phase : Phase K P} (expiry : ℕ) :
    phase.answer input expiry = some none ↔ phase.answer input 0 = some none := by
  cases phase with
  | claiming channel token rest answer =>
    simp only [Phase.answer]
    split <;> simp
  | _ => rfl

theorem resume_of_answer [DecidableEq P] [DecidableEq C] (options : ChannelPoolOptions K)
    (now : ℕ) (pool : Pool K P C) {granted : Option (Lease P)}
    (h : call.phase.answer input (now + options.leaseTtlMs) = some granted) :
    ∃ channel rest,
      resume options now input pool call = claimed pool call channel rest granted := by
  obtain ⟨process, id, attempt, phase⟩ := call
  cases phase with
  | claiming channel token rest answer =>
    refine ⟨channel, rest, ?_⟩
    simp only [resume, h]
  | answered channel token rest answer =>
    refine ⟨channel, rest, ?_⟩
    simp only [resume, h]
  | _ => cases h

theorem resume_calm_iff [DecidableEq P] [DecidableEq C] (h : pool.Calm) :
    (resume options now input pool call).1.Calm ↔ ¬ RefusedBefore input pool call := by
  rw [RefusedBefore, ← answer_eq_refused (now + options.leaseTtlMs)]
  cases hanswer : call.phase.answer input (now + options.leaseTtlMs) with
  | some granted =>
    obtain ⟨channel, rest, hresume⟩ := resume_of_answer options now pool hanswer
    rw [hresume, claimed_calm_iff channel rest granted h, Option.some.injEq]
  | none =>
    refine iff_of_true ?_ (by simp)
    have hturn : Turn options now input pool call (resume options now input pool call) :=
      resume_turn
    generalize resume options now input pool call = result at hturn
    cases hturn with
    | stays | goes => exact h
    | tries attempt rest => exact tryNext_calm rest h
    | claimed channel rest granted _ hsome => cases hanswer.symm.trans hsome
    | queues _ hidle => exact fun _ => hidle
    | wakes _ handed => exact claimShared_calm handed.2 none h
    | leaves =>
      intro hwaiters
      refine h fun hnil => hwaiters ?_
      simp [hnil]
    | releases channel outcome => exact release_calm channel outcome h
    | released channel outcome => exact released_calm channel outcome h

end Turns

/-! ## Runs -/

variable [DecidableEq K] [DecidableEq P] [DecidableEq C]

/-- In every process, no channel is idle while a call is queued. -/
def NoLostWakeup (w : World K P C) : Prop := ∀ p, (w.shared.pools p).Calm

/-- The turn in which a call goes on after its claim has been refused, while other calls of its
process are queued. -/
def RefusesBeforeQueue (w : World K P C) (turn : (P × C) × Input) : Prop :=
  turn.2.executes = false ∧
    RefusedBefore turn.2 (w.shared.pools turn.1.1) (w.locals turn.1)

theorem noLostWakeup_advance {options : P → ChannelPoolOptions K} {w : World K P C}
    (hsigned : Signed w) (h : NoLostWakeup w) (turn : (P × C) × Input) :
    NoLostWakeup (Interleaving.advance (step options) w turn) ↔ ¬ RefusesBeforeQueue w turn := by
  obtain ⟨i, input⟩ := turn
  have hprocess := (hsigned.2 i).process
  rcases advance_cases options w i input with
    ⟨hexecutes, hexecuted⟩ | ⟨hexecutes, result, hresume, hshared, -⟩
  · refine iff_of_true ?_ (by simp [RefusesBeforeQueue, hexecutes])
    intro p
    rw [hexecuted.pools]
    exact h p
  · have hcalm : result.1.Calm ↔ ¬ RefusedBefore input (w.shared.pools (w.locals i).process)
        (w.locals i) := by
      rw [hresume]
      exact resume_calm_iff (h (w.locals i).process)
    rw [hprocess] at hcalm
    simp only [RefusesBeforeQueue, hexecutes, true_and]
    rw [← hcalm, NoLostWakeup, hshared, hprocess]
    constructor
    · intro hall
      simpa using hall i.1
    · intro hself p
      by_cases hp : p = i.1
      · rw [hp]
        simpa using hself
      · simpa [hp] using h p

/-- A run stays without a lost wake-up exactly as long as no claim is refused while calls are
queued behind it. -/
theorem channel_wakeups (options : P → ChannelPoolOptions K)
    (schedule : List ((P × C) × Input)) :
    (∀ pre, pre <+: schedule → NoLostWakeup (run options pre)) ↔
      Runs.Every (Interleaving.advance (step options))
        (fun w turn => ¬ RefusesBeforeQueue w turn) (start options) schedule :=
  Runs.forall_prefix_iff_every Signed NoLostWakeup (fun _ turn h => signed_advance options h turn)
    (fun _ turn hsigned h => noLostWakeup_advance hsigned h turn)
    (signed_start options) (fun _ h => absurd rfl h) schedule

/-- The call has not begun, sleeps, is queued, has its channel in use, or is done. -/
def resting (w : World K P C) (i : P × C) : Bool :=
  match (w.locals i).phase with
  | .notCalled | .sleeping | .submitting _ | .finished _ => true
  | .waiting => i.2 ∈ (w.shared.pools i.1).waiters
  | _ => false

/-- While the other process has the channel, one call claims it and one queues up. The claim is
refused and its call gives up; the other process finishes, and nothing wakes the second call. -/
def refusedBehind : List ((Bool × Bool) × Input) :=
  [((true, false), goesOn), ((true, false), executes), ((true, false), goesOn),
    ((false, false), goesOn), ((false, true), goesOn), ((false, true), goesOn),
    ((false, false), executes), ((false, false), goesOn), ((false, false), goesOn),
    ((false, false), { goesOn with expired := true }),
    ((true, false), goesOn), ((true, false), goesOn), ((true, false), goesOn),
    ((true, false), executes), ((true, false), goesOn)]

theorem channel_idle_beside_queue :
    ¬ ∀ (options : Bool → ChannelPoolOptions Unit) (schedule : List ((Bool × Bool) × Input)),
      (∀ i, resting (run options schedule) i = true) → NoLostWakeup (run options schedule) := by
  intro h
  have hlost := h (fun _ => oneChannel) refusedBehind (by decide +kernel) false
  revert hlost
  decide +kernel

end MobileMoney.Channels
