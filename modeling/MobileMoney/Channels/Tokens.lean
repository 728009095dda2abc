import MobileMoney.Channels.Turns

/-!
# Tokens and their processes

Every token names its process, and a process only ever gives back its own.
-/

namespace MobileMoney.Channels

variable {K P C : Type}

section Signed

variable [DecidableEq K] {options : ChannelPoolOptions K} {now : ℕ} {input : Input}
  {pool : Pool K P C} {call : Call K P C}

def Pool.Signed (process : P) (pool : Pool K P C) : Prop :=
  ∀ channel lease, pool.holders channel = some lease → lease.token.1 = process

def Call.Signed (call : Call K P C) : Prop :=
  ∀ token, call.phase.token = some token → token.1 = call.process

/-- A turn of a call keeps the call's name, and the tokens remain signed. -/
structure Signs (call : Call K P C) (result : Pool K P C × Call K P C) : Prop where
  process : result.2.process = call.process
  id : result.2.id = call.id
  pool : result.1.Signed call.process
  token : result.2.Signed

theorem claimShared_signs (h : pool.Signed call.process) (channel : K) (rest : Option ℕ) :
    Signs call (claimShared options now input pool call channel rest) := by
  unfold claimShared
  dsimp only
  split
  · exact ⟨rfl, rfl, h, by rintro _ ⟨⟩; rfl⟩
  split
  · exact ⟨rfl, rfl, h, by rintro _ ⟨⟩; rfl⟩
  · exact ⟨rfl, rfl, h, by rintro _ ⟨⟩; rfl⟩

theorem tryNext_signs (h : pool.Signed call.process) (rest : ℕ) :
    Signs call (tryNext options now input pool call rest) := by
  cases rest with
  | zero => exact ⟨rfl, rfl, h, nofun⟩
  | succ rest =>
    cases hidle : pool.idle with
    | nil =>
      simp only [tryNext, hidle]
      exact ⟨rfl, rfl, h, nofun⟩
    | cons channel idle =>
      simp only [tryNext, hidle]
      exact claimShared_signs (by exact h) channel (some rest)

theorem claimed_signs (h : pool.Signed call.process) (channel : K) (rest : Option ℕ)
    {granted : Option (Lease P)} (signed : ∀ lease ∈ granted, lease.token.1 = call.process) :
    Signs call (claimed pool call channel rest granted) := by
  cases granted with
  | some lease =>
    refine ⟨rfl, rfl, ?_, nofun⟩
    intro other held hheld
    by_cases hother : other = channel
    · rw [hother] at hheld
      simp only [claimed, Function.update_self, Option.some.injEq] at hheld
      rw [← hheld]
      exact signed lease rfl
    · simp only [claimed, Function.update_of_ne hother] at hheld
      exact h other held hheld
  | none =>
    refine ⟨rfl, rfl, h, ?_⟩
    intro other hother
    exact absurd ((refused_token rest).symm.trans hother) nofun

omit [DecidableEq K] in
theorem released_signs (h : pool.Signed call.process) (channel : K) (outcome : Outcome) :
    Signs call (released pool call channel outcome) := by
  have hpool : (pool.giveBack channel).Signed call.process := by
    unfold Pool.giveBack
    split <;> exact h
  cases outcome <;> exact ⟨rfl, rfl, hpool, nofun⟩

theorem release_signs [DecidableEq P] (h : pool.Signed call.process) (channel : K)
    (outcome : Outcome) :
    Signs call (release input pool call channel outcome) := by
  unfold release
  split
  · next lease hlease =>
    have hpool : Pool.Signed call.process
        { pool with holders := Function.update pool.holders channel none } := by
      intro other held hheld
      by_cases hother : other = channel
      · simp [hother] at hheld
      · simp only [Function.update_of_ne hother] at hheld
        exact h other held hheld
    have hcall := h channel lease hlease
    split
    · exact ⟨rfl, rfl, hpool, by rintro _ ⟨⟩; exact hcall⟩
    · exact ⟨rfl, rfl, hpool, by rintro _ ⟨⟩; exact hcall⟩
  · exact released_signs h channel outcome

theorem Turn.signs [DecidableEq P] [DecidableEq C] {result : Pool K P C × Call K P C}
    (hturn : Turn options now input pool call result) (h : pool.Signed call.process)
    (hcall : call.Signed) : Signs call result := by
  cases hturn with
  | stays => exact ⟨rfl, rfl, h, hcall⟩
  | tries attempt rest =>
    have hpool : pool.Signed ({ call with attempt := attempt } : Call K P C).process := h
    have htries : Signs _ (tryNext options now input pool { call with attempt := attempt } rest) :=
      tryNext_signs hpool rest
    exact ⟨htries.process, htries.id, htries.pool, htries.token⟩
  | claimed channel rest granted _ hanswer =>
    refine claimed_signs h channel rest ?_
    rintro lease rfl
    exact hcall _ (token_of_answer hanswer).1
  | goes phase _ _ _ _ htoken => exact ⟨rfl, rfl, h, by simp [Call.Signed, htoken]⟩
  | queues => exact ⟨rfl, rfl, h, nofun⟩
  | wakes _ handed => exact claimShared_signs (by exact h) handed.2 none
  | leaves => exact ⟨rfl, rfl, h, nofun⟩
  | releases channel outcome => exact release_signs h channel outcome
  | released channel outcome => exact released_signs h channel outcome

end Signed

/-! ## Every process has only tokens of its own -/

variable [DecidableEq K] [DecidableEq P] [DecidableEq C] {options : P → ChannelPoolOptions K}

/-- What never changes about the call at an index. -/
structure Call.Of (i : P × C) (call : Call K P C) : Prop where
  process : call.process = i.1
  id : call.id = i.2
  signed : call.Signed

/-- Every process has only tokens of its own. -/
def Signed (w : World K P C) : Prop :=
  (∀ p, (w.shared.pools p).Signed p) ∧ ∀ i, (w.locals i).Of i

omit [DecidableEq K] [DecidableEq P] [DecidableEq C] in
theorem signed_start (options : P → ChannelPoolOptions K) :
    Signed (start options : World K P C) :=
  ⟨fun _ => nofun, fun _ => ⟨rfl, rfl, nofun⟩⟩

theorem signed_advance (options : P → ChannelPoolOptions K) {w : World K P C} (h : Signed w)
    (turn : (P × C) × Input) : Signed (Interleaving.advance (step options) w turn) := by
  obtain ⟨i, input⟩ := turn
  obtain ⟨hpools, hcalls⟩ := h
  obtain ⟨hprocess, hid, hsigned⟩ := hcalls i
  -- It is enough to look at the mover.
  suffices hmover :
      (∀ p, ((Interleaving.advance (step options) w (i, input)).shared.pools p).Signed p) ∧
        ((Interleaving.advance (step options) w (i, input)).locals i).Of i by
    refine ⟨hmover.1, fun j => ?_⟩
    by_cases hj : j = i
    · rw [hj]
      exact hmover.2
    · rw [Interleaving.advance_other _ w input hj]
      exact hcalls j
  rcases advance_cases options w i input with
    ⟨-, hexecuted⟩ | ⟨-, result, hresume, hshared, hlocal⟩
  · refine ⟨fun p => ?_, hexecuted.process.trans hprocess, hexecuted.id.trans hid, ?_⟩
    · rw [hexecuted.pools]
      exact hpools p
    · intro token htoken
      rw [hexecuted.process]
      exact hsigned token (hexecuted.token ▸ htoken)
  · have hsigns : Signs (w.locals i) result :=
      hresume ▸ resume_turn.signs (hprocess ▸ hpools i.1) hsigned
    rw [hlocal, hshared]
    refine ⟨fun p => ?_, hsigns.process.trans hprocess, hsigns.id.trans hid, hsigns.token⟩
    by_cases hp : p = (w.locals i).process
    · simp only [hp, Function.update_self]
      exact hsigns.pool
    · simp only [Function.update_of_ne hp]
      exact hpools p

theorem signed_run (options : P → ChannelPoolOptions K)
    (schedule : List ((P × C) × Input)) : Signed (run options schedule) := by
  exact Runs.inv_foldl Signed (fun _ turn h => signed_advance options h turn) (signed_start options)
    schedule

end MobileMoney.Channels
