import MobileMoney.Channels.Program

/-!
# What a turn of a call can do

The turns of a call by their effect: the lemmas about the pool look at these and not at the
phases one by one.
-/

namespace MobileMoney.Channels

variable {K P C : Type}

/-- The channel a call works with, from its claim to the end of its release. -/
def Phase.channel : Phase K P → Option K
  | .claiming channel _ _ _ | .answered channel _ _ _ => some channel
  | .loading channel | .submitting channel | .recording channel => some channel
  | .forgetting channel _ | .releasing channel _ _ _ => some channel
  | .notCalled | .acquiring | .trying _ | .looked | .waiting | .sleeping | .finished _ => none

/-- The token a call passes to the lease store. -/
def Phase.token : Phase K P → Option (Token P)
  | .claiming _ token _ _ | .answered _ token _ _ | .releasing _ token _ _ => some token
  | _ => none

/-- The call is in `waitForLocalRelease`. -/
def Phase.waits : Phase K P → Bool
  | .waiting => true
  | _ => false

/-- The channel a call works with under its lease. -/
def Phase.uses : Phase K P → Option K
  | .loading channel | .submitting channel | .recording channel => some channel
  | .forgetting channel _ => some channel
  | _ => none

theorem channel_of_uses {phase : Phase K P} {channel : K} (h : phase.uses = some channel) :
    phase.channel = some channel := by
  cases phase with
  | loading | submitting | recording | forgetting => exact h
  | _ => cases h

theorem uses_of_channel_none {phase : Phase K P} (h : phase.channel = none) :
    phase.uses = none := by
  cases huses : phase.uses with
  | none => rfl
  | some channel => cases h.symm.trans (channel_of_uses huses)

/-- The lease that a call is granted has the token of its claim. -/
theorem token_of_answer {phase : Phase K P} {input : Input} {expiry : ℕ} {lease : Lease P}
    (h : phase.answer input expiry = some (some lease)) :
    phase.token = some lease.token ∧ phase.uses = none := by
  cases phase with
  | claiming channel token rest answer =>
    refine ⟨?_, rfl⟩
    simp only [Phase.answer] at h
    split at h
    · cases h
      rfl
    · obtain ⟨_ | _, -, hlease⟩ := Option.map_eq_some_iff.1 h <;> cases hlease
      rfl
  | answered channel token rest ok =>
    cases ok <;> cases h
    exact ⟨rfl, rfl⟩
  | _ => cases h

@[simp] theorem refused_channel (rest : Option ℕ) :
    (Phase.refused rest : Phase K P).channel = none := by
  cases rest <;> rfl

@[simp] theorem refused_uses (rest : Option ℕ) : (Phase.refused rest : Phase K P).uses = none := by
  cases rest <;> rfl

@[simp] theorem refused_token (rest : Option ℕ) :
    (Phase.refused rest : Phase K P).token = none := by
  cases rest <;> rfl

theorem waits_of_channel {phase : Phase K P} {channel : K} (h : phase.channel = some channel) :
    phase.waits = false := by
  cases phase with
  | waiting => cases h
  | _ => rfl

variable [DecidableEq K] [DecidableEq P] [DecidableEq C]

inductive Turn (options : ChannelPoolOptions K) (now : ℕ) (input : Input) (pool : Pool K P C)
    (call : Call K P C) : Pool K P C × Call K P C → Prop where
  | stays : Turn options now input pool call (pool, call)
  | tries (attempt rest : ℕ) (channel : call.phase.channel = none)
      (waits : call.phase.waits = false) :
      Turn options now input pool call
        (tryNext options now input pool { call with attempt := attempt } rest)
  | claimed (channel : K) (rest : Option ℕ) (granted : Option (Lease P))
      (holds : call.phase.channel = some channel)
      (answer : call.phase.answer input (now + options.leaseTtlMs) = some granted) :
      Turn options now input pool call (claimed pool call channel rest granted)
  | goes (phase : Phase K P) (channel : phase.channel = call.phase.channel)
      (uses : phase.uses = call.phase.uses) (waits : call.phase.waits = false)
      (waits' : phase.waits = false) (token : phase.token = none) :
      Turn options now input pool call (pool, { call with phase := phase })
  | queues (looked : call.phase = .looked) (idle : pool.idle = []) :
      Turn options now input pool call
        ({ pool with waiters := pool.waiters ++ [call.id] }, { call with phase := .waiting })
  | wakes (waiting : call.phase = .waiting) (handed : C × K)
      (found : pool.handed.find? (·.1 = call.id) = some handed) :
      Turn options now input pool call
        (claimShared options now input { pool with handed := pool.handed.erase handed } call
          handed.2 none)
  | leaves (waiting : call.phase = .waiting)
      (missing : pool.handed.find? (·.1 = call.id) = none) :
      Turn options now input pool call
        ({ pool with waiters := pool.waiters.erase call.id }, { call with phase := .acquiring })
  | releases (channel : K) (outcome : Outcome) (holds : call.phase.uses = some channel) :
      Turn options now input pool call (release input pool call channel outcome)
  | released (channel : K) (outcome : Outcome) (holds : call.phase.channel = some channel)
      (uses : call.phase.uses = none) :
      Turn options now input pool call (released pool call channel outcome)

variable {options : ChannelPoolOptions K} {now : ℕ} {input : Input} {pool : Pool K P C}
  {call : Call K P C}

theorem resume_turn : Turn options now input pool call (resume options now input pool call) := by
  obtain ⟨process, id, attempt, phase⟩ := call
  cases phase with
  | notCalled => exact .tries 1 _ rfl rfl
  | acquiring | sleeping => exact .tries attempt _ rfl rfl
  | trying rest => exact .tries attempt rest rfl rfl
  | claiming channel token rest answer =>
    simp only [resume]
    split
    · next granted hanswer => exact .claimed channel rest granted rfl hanswer
    · exact .stays
  | answered channel token rest ok => exact .claimed channel rest _ rfl rfl
  | looked =>
    simp only [resume]
    split
    · exact .goes (.finished false) rfl rfl rfl rfl rfl
    split
    · next hidle => exact .queues rfl hidle
    · exact .goes .sleeping rfl rfl rfl rfl rfl
  | waiting =>
    simp only [resume]
    split
    · next handed hfound => exact .wakes rfl handed hfound
    · next hmissing =>
      split
      · exact .leaves rfl hmissing
      · exact .stays
  | loading channel =>
    simp only [resume]
    split
    · exact .releases channel .failed rfl
    · exact .goes (.submitting channel) rfl rfl rfl rfl rfl
  | submitting channel =>
    simp only [resume]
    split
    · exact .goes (.recording channel) rfl rfl rfl rfl rfl
    split
    · exact .goes (.forgetting channel _) rfl rfl rfl rfl rfl
    · exact .releases channel _ rfl
  | recording channel => exact .releases channel .returned rfl
  | forgetting channel outcome => exact .releases channel outcome rfl
  | releasing channel token executed outcome =>
    simp only [resume]
    split
    · exact .released channel outcome rfl rfl
    · exact .stays
  | finished ok => exact .stays

/-- A command that reaches Redis changes the leases and its answer and nothing else. -/
structure Executed (cluster : Cluster K P C) (call : Call K P C)
    (result : Cluster K P C × Call K P C) : Prop where
  pools : result.1.pools = cluster.pools
  now : result.1.now = cluster.now
  process : result.2.process = call.process
  id : result.2.id = call.id
  channel : result.2.phase.channel = call.phase.channel
  token : result.2.phase.token = call.phase.token
  uses : result.2.phase.uses = call.phase.uses
  waits : result.2.phase.waits = call.phase.waits

omit [DecidableEq C] in
theorem execute_executed (cluster : Cluster K P C) (call : Call K P C) :
    Executed cluster call (execute options cluster call) := by
  obtain ⟨process, id, attempt, phase⟩ := call
  cases phase with
  | claiming channel token rest answer =>
    cases answer with
    | none =>
      simp only [execute]
      split <;> constructor <;> rfl
    | some ok => constructor <;> rfl
  | releasing channel token executed outcome =>
    cases executed <;> constructor <;> rfl
  | _ => constructor <;> rfl

section Steps

variable {options : P → ChannelPoolOptions K}

/-- The cluster after the time that has passed before a turn. -/
def Cluster.after (cluster : Cluster K P C) (elapsed : ℕ) : Cluster K P C :=
  { cluster with now := cluster.now + elapsed }

/-- A turn of the processes: a command reaches Redis, or a call goes on in its process. -/
theorem advance_cases (options : P → ChannelPoolOptions K) (w : World K P C) (i : P × C)
    (input : Input) :
    (input.executes = true ∧
      Executed (w.shared.after input.elapsed) (w.locals i)
        ((Interleaving.advance (step options) w (i, input)).shared,
          (Interleaving.advance (step options) w (i, input)).locals i)) ∨
    (input.executes = false ∧
      ∃ result, result = resume (options (w.locals i).process) (w.shared.now + input.elapsed)
          input (w.shared.pools (w.locals i).process) (w.locals i) ∧
        (Interleaving.advance (step options) w (i, input)).shared =
          { w.shared with
            now := w.shared.now + input.elapsed
            pools := Function.update w.shared.pools (w.locals i).process result.1 } ∧
        (Interleaving.advance (step options) w (i, input)).locals i = result.2) := by
  cases hexecutes : input.executes with
  | true =>
    refine .inl ⟨rfl, ?_⟩
    rw [Interleaving.advance_shared, Interleaving.advance_self]
    simp only [step, hexecutes, if_true]
    exact execute_executed (w.shared.after input.elapsed) (w.locals i)
  | false =>
    refine .inr ⟨rfl, _, rfl, ?_, ?_⟩
    · rw [Interleaving.advance_shared]
      simp only [step, hexecutes, Bool.false_eq_true, if_false]
    · rw [Interleaving.advance_self]
      simp only [step, hexecutes, Bool.false_eq_true, if_false]

end Steps

end MobileMoney.Channels
