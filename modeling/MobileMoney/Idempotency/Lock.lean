import MobileMoney.Idempotency.Once

/-!
# What the in-flight lock is good for

Where the client has what redlock calls, the lock expires after a minute and the hooks give it
back as soon as the connection closes. A run is timely when every request caches its response
before either happens; then whoever is unsettled holds the lock, so that nobody else takes it and
the run is a careful one.
-/

namespace MobileMoney.Idempotency

variable {ι : Type} [DecidableEq ι] {cacheKey : String}

/-- The hooks have not fired. -/
def Phase.isWatching : Phase → Bool
  | .handling _ .watching => true
  | _ => false

/-- The hooks have not given the lock back before the response was cached. -/
def Hook.isGuarded : Hook → Bool
  | .releasing none | .settled none => false
  | _ => true

def Phase.isGuarded : Phase → Bool
  | .handling _ hook => hook.isGuarded
  | _ => true

/-- The condition on a step: the connection stays open and the response does not end before
`json` or `send` has seen it; no lock expires before the response of its holder is cached; and,
as in a careful run, handlers reply with JSON values and nobody gives up waiting for a request
that has been answered. -/
structure Timely (w : RequestWorld ι cacheKey) (turn : ι × Event) : Prop where
  connected : turn.2.input = .close → (w.locals turn.1).phase.isWatching = false
  captured : turn.2.input = .finish → (w.locals turn.1).phase.isWatching = false
  inTime : ∀ j expiry, (w.locals j).phase.isUnsettled = true →
    w.shared.lock = some ⟨j, expiry⟩ → w.shared.now + turn.2.elapsed < expiry
  awaited : (w.locals turn.1).phase = .acquiring 0 → turn.2.input = .command →
    ∀ j, Expiring.get w.shared.lock (w.shared.now + turn.2.elapsed) = some j →
      Underway (w.shared.tick turn.2.elapsed) (w.locals j).phase
  serialised : turn.2.input.isSerialised = true

/-- What a step does to the lock: nothing, unless it is taken, or given back by a request
that is settled. -/
inductive LockMove (slot : Slot ι) (token : ι) (phase : Phase) : Slot ι → Phase → Prop where
  | kept {slot' phase'} (lock : slot'.lock = slot.lock)
      (unsettled : phase'.isUnsettled = true → phase.isUnsettled = true) :
      LockMove slot token phase slot' phase'
  | taken {slot' phase'} (free : Expiring.get slot.lock slot.now = none)
      (lock : slot'.lock = Expiring.put token lockTtl slot.now) :
      LockMove slot token phase slot' phase'
  | given {slot' phase'} (lock : slot'.lock = Expiring.release slot.lock token slot.now)
      (settled : phase'.isUnsettled = false) : LockMove slot token phase slot' phase'

theorem command_lockMove {client : Client} (capable : client.evalsha = true) (slot : Slot ι)
    {p : Process ι cacheKey} (h : p.phase.isGuarded = true) :
    LockMove slot p.token p.phase (command client slot p).1 (command client slot p).2 ∧
      (command client slot p).2.isGuarded = true := by
  cases hphase : p.phase with
  | lookup =>
    simp only [command, hphase]
    split <;> exact ⟨.kept rfl fun hu => absurd hu Bool.false_ne_true, rfl⟩
  | acquiring retries =>
    simp only [command, hphase, Client.attempt, capable, if_true]
    cases hlock : Expiring.acquire slot.lock p.token lockTtl slot.now with
    | some lock =>
      obtain ⟨free, rfl⟩ := Expiring.acquire_eq_some.1 hlock
      exact ⟨.taken free rfl, rfl⟩
    | none =>
      cases retries <;> exact ⟨.kept rfl fun hu => absurd hu Bool.false_ne_true, rfl⟩
  | rechecking =>
    simp only [command, hphase]
    split <;> exact ⟨.kept rfl fun _ => rfl, rfl⟩
  | unlocking answer =>
    simp only [command, hphase]
    exact ⟨.given rfl rfl, rfl⟩
  | answered answer =>
    simp only [command, hphase]
    exact ⟨.kept rfl fun hu => hu, rfl⟩
  | handling handler hook =>
    rw [hphase] at h
    cases hook with
    | watching =>
      simp only [command, hphase]
      exact ⟨.kept rfl fun hu => hu, rfl⟩
    | persisting reply =>
      simp only [command, hphase]
      exact ⟨.kept rfl fun _ => rfl, rfl⟩
    | releasing cachedUntil =>
      cases cachedUntil with
      | none => cases h
      | some t =>
        simp only [command, hphase]
        exact ⟨.given rfl rfl, rfl⟩
    | settled cachedUntil =>
      simp only [command, hphase]
      exact ⟨.kept rfl fun hu => hu, h⟩

theorem release_of_fired {hook : Hook} (h : hook ≠ .watching) : hook.release = hook := by
  cases hook with
  | watching => exact absurd rfl h
  | _ => rfl

/-- The events of a response change nothing once the hooks have fired. -/
theorem reply_guarded {phase : Phase} (h : phase.isGuarded = true) (reply : Reply) :
    (phase.reply reply).isUnsettled = phase.isUnsettled ∧
      (phase.reply reply).isGuarded = true := by
  unfold Phase.reply
  split
  · next hook =>
    cases hook with
    | watching | persisting _ => exact ⟨rfl, rfl⟩
    | releasing _ | settled _ => exact ⟨rfl, h⟩
  · exact ⟨rfl, h⟩

theorem finish_guarded {phase : Phase} (h : phase.isGuarded = true)
    (fired : phase.isWatching = false) :
    phase.finish.isUnsettled = phase.isUnsettled ∧ phase.finish.isGuarded = true := by
  unfold Phase.finish
  split
  · next hook =>
    cases hook with
    | watching => cases fired
    | persisting _ => exact ⟨rfl, rfl⟩
    | releasing _ | settled _ => exact ⟨rfl, h⟩
  · exact ⟨rfl, h⟩

theorem close_guarded {phase : Phase} (h : phase.isGuarded = true)
    (fired : phase.isWatching = false) :
    phase.close.isUnsettled = phase.isUnsettled ∧ phase.close.isGuarded = true := by
  unfold Phase.close
  split
  · next handler hook =>
    have hfired : hook ≠ .watching := by
      rintro rfl
      cases fired
    rw [release_of_fired hfired]
    exact ⟨rfl, h⟩
  · exact ⟨rfl, h⟩

theorem act_lockMove {client : Client} (capable : client.evalsha = true) {input : Input}
    (slot : Slot ι) {p : Process ι cacheKey} (h : p.phase.isGuarded = true)
    (connected : input = .close → p.phase.isWatching = false)
    (captured : input = .finish → p.phase.isWatching = false) :
    LockMove slot p.token p.phase (act client input slot p).1 (act client input slot p).2 ∧
      (act client input slot p).2.isGuarded = true := by
  cases input with
  | command => exact command_lockMove capable slot h
  | reply reply =>
    have same := reply_guarded h reply
    exact ⟨.kept rfl fun hu => same.1 ▸ hu, same.2⟩
  | finish =>
    have same := finish_guarded h (captured rfl)
    exact ⟨.kept rfl fun hu => same.1 ▸ hu, same.2⟩
  | close =>
    have same := close_guarded h (connected rfl)
    exact ⟨.kept rfl fun hu => same.1 ▸ hu, same.2⟩

/-! ## Runs -/

/-- Whoever is unsettled holds the lock. -/
structure Locked (w : RequestWorld ι cacheKey) : Prop where
  token : ∀ j, (w.locals j).token = j
  guarded : ∀ j, (w.locals j).phase.isGuarded = true
  holder : ∀ j, (w.locals j).phase.isUnsettled = true → ∃ expiry, w.shared.lock = some ⟨j, expiry⟩

omit [DecidableEq ι] in
/-- As long as locks last, a free lock means that nobody is unsettled. -/
theorem settled_of_free {w : RequestWorld ι cacheKey} {turn : ι × Event} (h : Locked w)
    (timely : Timely w turn)
    (free : Expiring.get w.shared.lock (w.shared.now + turn.2.elapsed) = none) (j : ι) :
    (w.locals j).phase.isUnsettled = false := by
  cases unsettled : (w.locals j).phase.isUnsettled with
  | false => rfl
  | true =>
    obtain ⟨expiry, lock⟩ := h.holder j unsettled
    have live := Expiring.get_of_live lock (timely.inTime j expiry unsettled lock)
    cases free.symm.trans live

theorem acquiring_of_retries {phase : Phase} {retries : ℕ} (h : retries ∈ phase.retries?) :
    phase = .acquiring retries := by
  cases phase <;> cases h
  rfl

omit [DecidableEq ι] in
theorem careful_of_timely {client : Client} (capable : client.evalsha = true)
    {w : RequestWorld ι cacheKey} {turn : ι × Event} (h : Locked w) (timely : Timely w turn) :
    Careful client w turn where
  fair retries hretries sent := by
    unfold Client.attempt
    rw [if_pos capable]
    cases hlock : Expiring.acquire (w.shared.tick turn.2.elapsed).lock (w.locals turn.1).token
        lockTtl (w.shared.tick turn.2.elapsed).now with
    | some lock =>
      exact fun j _ => settled_of_free h timely (Expiring.acquire_eq_some.1 hlock).1 j
    | none =>
      rintro rfl j hj
      exact timely.awaited (acquiring_of_retries hretries) sent j hj
  serialised := timely.serialised

theorem locked_advance {client : Client} (capable : client.evalsha = true)
    {w : RequestWorld ι cacheKey} {turn : ι × Event} (h : Locked w) (timely : Timely w turn) :
    Locked (advance client w turn) := by
  obtain ⟨i, e⟩ := turn
  obtain ⟨move, guarded⟩ := act_lockMove capable (w.shared.tick e.elapsed) (h.guarded i)
    timely.connected timely.captured
  rw [h.token i] at move
  constructor
  case token =>
    intro j
    rw [advance_static Process.token (fun _ _ => rfl) w (i, e) j]
    exact h.token j
  case guarded =>
    exact Interleaving.locals_advance (step client) (fun p => p.phase.isGuarded = true) guarded
      fun j _ => h.guarded j
  case holder =>
    intro j unsettled
    have shared : (advance client w (i, e)).shared =
        (act client e.input (w.shared.tick e.elapsed) (w.locals i)).1 := rfl
    rw [shared]
    by_cases hj : j = i
    · subst hj
      rw [advance, Interleaving.advance_self] at unsettled
      change (act client e.input (w.shared.tick e.elapsed) (w.locals j)).2.isUnsettled = true
        at unsettled
      cases move with
      | kept lock imp =>
        rw [lock]
        exact h.holder j (imp unsettled)
      | taken free lock => exact ⟨_, lock⟩
      | given lock settled =>
        rw [settled] at unsettled
        cases unsettled
    · rw [advance, Interleaving.advance_other (step client) w e hj] at unsettled
      obtain ⟨expiry, held⟩ := h.holder j unsettled
      refine ⟨expiry, ?_⟩
      cases move with
      | kept lock imp => exact lock.trans held
      | taken free lock =>
        rw [settled_of_free h timely free j] at unsettled
        cases unsettled
      | given lock settled => exact lock.trans (Expiring.release_of_ne held hj)

/-- A timely run is a careful one, where redlock can take the lock. -/
theorem every_careful_of_timely {client : Client} (capable : client.evalsha = true)
    (sha256 : String → Digest) (requests : ι → Admitted cacheKey) (turns : List (ι × Event))
    (timely : Runs.Every (advance client) Timely (start sha256 requests) turns) :
    Runs.Every (advance client) (Careful client) (start sha256 requests) turns := by
  have initial : Locked (start sha256 requests) :=
    ⟨fun _ => rfl, fun _ => rfl, fun _ hu => absurd hu Bool.false_ne_true⟩
  exact Runs.Every.imp_of_inv Locked (fun _ _ h timely => locked_advance capable h timely)
    (fun _ _ h timely => careful_of_timely capable h timely) initial turns timely

end MobileMoney.Idempotency
