import MobileMoney.Idempotency.Program

/-!
# One run of the handler for a key

A request is unsettled from the moment it takes the lock, or is let through without it, until
its response is cached. As long as no request takes the lock while another is unsettled, and
none is let through while another is unsettled or a response is cached, at most one handler
runs before the cached response expires, and the cache only ever shows what that handler has
replied.
-/

namespace MobileMoney.Idempotency

variable {ι : Type} [DecidableEq ι] {cacheKey : String}

/-! ## Where a request stands -/

def Hook.cachedUntil : Hook → Option ℕ
  | .watching | .persisting _ => none
  | .releasing cachedUntil | .settled cachedUntil => cachedUntil

def Phase.isHandling : Phase → Bool
  | .handling _ _ => true
  | _ => false

/-- The handler has been started and its response is not cached. -/
def Phase.isPending : Phase → Bool
  | .handling _ hook => hook.cachedUntil.isNone
  | _ => false

def Phase.isUnsettled : Phase → Bool
  | .rechecking => true
  | phase => phase.isPending

def Phase.answer? : Phase → Option Answer
  | .unlocking answer | .answered answer => some answer
  | _ => none

/-- The handler has replied, and the reply is cached until `t`. -/
def Cached (phase : Phase) (reply : Reply) (t : ℕ) : Prop :=
  ∃ hook, phase = .handling (.replied reply) hook ∧ hook.cachedUntil = some t

/-- The handler has been started, and no cached response of it has expired. -/
def Engaged (now : ℕ) : Phase → Prop
  | .handling _ hook => ∀ t, hook.cachedUntil = some t → now < t
  | _ => False

/-- The first request has not been answered: its handler runs or is about to. -/
def Underway (slot : Slot ι) : Phase → Prop
  | .rechecking => Expiring.get slot.cache slot.now = none
  | .handling .running _ => True
  | _ => False

/-! ## The law -/

/-- The first request and its reply, while it is cached. -/
def First (w : RequestWorld ι cacheKey) (now : ℕ) (j : ι) (reply : Reply) : Prop :=
  ∃ t, Cached (w.locals j).phase reply t ∧ now < t

def Process.payload (sha256 : String → Digest) (p : Process ι cacheKey) : Json :=
  Idempotency.payload sha256 p.request.request p.request.key

/-- When an answer is right for request `i`. -/
def Justified (sha256 : String → Digest) (w : RequestWorld ι cacheKey) (slot : Slot ι) (i : ι) :
    Answer → Prop
  | .replayed response => ∃ j ≠ i, ∃ reply, First w slot.now j reply ∧
      response = reply.response ∧ (w.locals i).fingerprint = (w.locals j).fingerprint
  | .keyReuse => ∃ j ≠ i, ∃ reply, First w slot.now j reply ∧
      (w.locals i).payload sha256 ≠ (w.locals j).payload sha256
  | .inProgress => ∃ j ≠ i, Underway slot (w.locals j).phase

/-- What a step must meet: it starts a handler only when no other one has been started whose
cached response has not expired, and it answers a request only as the law allows. -/
structure Lawful (client : Client) (sha256 : String → Digest) (w : RequestWorld ι cacheKey)
    (turn : ι × Event) : Prop where
  once : (w.locals turn.1).phase.isHandling = false →
    ((advance client w turn).locals turn.1).phase.isHandling = true →
    ∀ j, j ≠ turn.1 → ¬ Engaged (w.shared.now + turn.2.elapsed) (w.locals j).phase
  answered : ∀ answer, (w.locals turn.1).phase.answer? = none →
    ((advance client w turn).locals turn.1).phase.answer? = some answer →
    Justified sha256 w (w.shared.tick turn.2.elapsed) turn.1 answer

def Phase.retries? : Phase → Option ℕ
  | .acquiring retries => some retries
  | _ => none

/-- A reply is a JSON value. -/
def Input.isSerialised : Input → Bool
  | .reply answer => answer.body.isJson
  | _ => true

/-- What an attempt to take the lock, the last one if `retries` is 0, must find. Nobody takes it
while another request is unsettled; nobody is let through without it while another request is
unsettled or a response is cached; and nobody gives up waiting for a lock whose holder has been
answered already. -/
def Vote.Fair (w : RequestWorld ι cacheKey) (slot : Slot ι) (i : ι) (retries : ℕ) : Vote ι → Prop
  | .acquired _ => ∀ j, j ≠ i → (w.locals j).phase.isUnsettled = false
  | .error => retries = 0 → Expiring.get slot.cache slot.now = none ∧
    ∀ j, j ≠ i → (w.locals j).phase.isUnsettled = false
  | .resourceLocked => retries = 0 → ∀ j, Expiring.get slot.lock slot.now = some j →
    Underway slot (w.locals j).phase

/-- The condition on a step: an attempt to take the lock is fair, and handlers do not reply with
plain strings. -/
structure Careful (client : Client) (w : RequestWorld ι cacheKey) (turn : ι × Event) : Prop where
  fair : ∀ retries ∈ (w.locals turn.1).phase.retries?, turn.2.input = .command →
    (client.attempt (w.shared.tick turn.2.elapsed) (w.locals turn.1).token).Fair w
      (w.shared.tick turn.2.elapsed) turn.1 retries
  serialised : turn.2.input.isSerialised = true

instance (slot : Slot ι) : ∀ phase, Decidable (Underway slot phase)
  | .rechecking => inferInstanceAs (Decidable (Expiring.get slot.cache slot.now = none))
  | .handling .running _ => isTrue trivial
  | .handling (.replied _) _ | .handling .ended _ => isFalse fun h => h
  | .lookup | .acquiring _ | .unlocking _ | .answered _ => isFalse fun h => h

instance [Fintype ι] (w : RequestWorld ι cacheKey) (slot : Slot ι) (i : ι) (retries : ℕ) :
    ∀ vote : Vote ι, Decidable (vote.Fair w slot i retries)
  | .acquired _ | .error | .resourceLocked => by
    unfold Vote.Fair
    infer_instance

instance [Fintype ι] (client : Client) (w : RequestWorld ι cacheKey) (turn : ι × Event) :
    Decidable (Careful client w turn) :=
  decidable_of_iff (_ ∧ _) ⟨fun ⟨a, b⟩ => ⟨a, b⟩, fun h => ⟨h.fair, h.serialised⟩⟩

/-! ## What a step can do -/

/-- The hooks only know of a reply that has been given. -/
def Consistent : Phase → Prop
  | .handling handler hook =>
    (∀ t, hook.cachedUntil = some t → ∃ reply, handler = .replied reply ∧ reply.body.isJson) ∧
      ∀ reply, hook = .persisting reply → handler = .replied reply ∧ reply.body.isJson
  | _ => True

/-- Nothing that others depend on changes. -/
structure Quiet (phase phase' : Phase) : Prop where
  handling : phase'.isHandling = phase.isHandling
  pending : phase'.isPending = phase.isPending
  unsettled : phase'.isUnsettled = phase.isUnsettled
  cached : ∀ reply t, Cached phase' reply t ↔ Cached phase reply t
  answer : phase'.answer? = phase.answer?

theorem Quiet.rfl {phase : Phase} : Quiet phase phase :=
  ⟨Eq.refl _, Eq.refl _, Eq.refl _, fun _ _ => Iff.rfl, Eq.refl _⟩

theorem not_cached {phase : Phase} (h : phase.isHandling = false) (reply : Reply) (t : ℕ) :
    ¬ Cached phase reply t := by
  rintro ⟨hook, rfl, -⟩
  cases h

theorem isPending_of_idle {phase : Phase} (h : phase.isHandling = false) :
    phase.isPending = false := by
  cases phase with
  | handling => simp [Phase.isHandling] at h
  | _ => rfl

theorem quiet_of_idle {phase phase' : Phase} (h : phase.isHandling = false)
    (h' : phase'.isHandling = false) (unsettled : phase'.isUnsettled = phase.isUnsettled)
    (answer : phase'.answer? = phase.answer?) : Quiet phase phase' := by
  refine ⟨h'.trans h.symm, ?_, unsettled, fun reply t => ?_, answer⟩
  · rw [isPending_of_idle h, isPending_of_idle h']
  · exact iff_of_false (not_cached h' reply t) (not_cached h reply t)

/-- The hook of a response may be exchanged for one that remembers the same. -/
theorem quiet_of_hook {handler handler' : Handler} {hook hook' : Hook}
    (same : hook'.cachedUntil = hook.cachedUntil)
    (reply : handler' = handler ∨ hook.cachedUntil = none) :
    Quiet (.handling handler hook) (.handling handler' hook') := by
  refine ⟨rfl, ?_, ?_, fun r t => ?_, rfl⟩
  · simp only [Phase.isPending, same]
  · simp only [Phase.isUnsettled, Phase.isPending, same]
  · unfold Cached
    rcases reply with rfl | hnone
    · constructor
      · rintro ⟨_, ⟨rfl, rfl⟩, ht⟩
        exact ⟨hook, rfl, same ▸ ht⟩
      · rintro ⟨_, ⟨rfl, rfl⟩, ht⟩
        exact ⟨hook', rfl, same.trans ht⟩
    · constructor
      · rintro ⟨_, ⟨rfl, rfl⟩, ht⟩
        rw [same, hnone] at ht
        cases ht
      · rintro ⟨_, ⟨rfl, rfl⟩, ht⟩
        rw [hnone] at ht
        cases ht

@[simp] theorem capture_cachedUntil (reply : Reply) (hook : Hook) :
    (hook.capture reply).cachedUntil = hook.cachedUntil := by
  cases hook <;> rfl

@[simp] theorem release_cachedUntil (hook : Hook) :
    hook.release.cachedUntil = hook.cachedUntil := by
  cases hook <;> rfl

theorem Consistent.cachedUntil_running {hook : Hook} (h : Consistent (.handling .running hook)) :
    hook.cachedUntil = none := by
  cases hcached : hook.cachedUntil with
  | none => rfl
  | some t =>
    obtain ⟨reply, hreply, -⟩ := h.1 t hcached
    cases hreply

theorem quiet_reply {phase : Phase} (h : Consistent phase) (reply : Reply) :
    Quiet phase (phase.reply reply) := by
  unfold Phase.reply
  split
  · exact quiet_of_hook (capture_cachedUntil _ _) (.inr h.cachedUntil_running)
  · exact .rfl

theorem quiet_finish {phase : Phase} (h : Consistent phase) : Quiet phase phase.finish := by
  unfold Phase.finish
  split
  · exact quiet_of_hook (release_cachedUntil _) (.inr h.cachedUntil_running)
  · exact .rfl

theorem quiet_close (phase : Phase) : Quiet phase phase.close := by
  unfold Phase.close
  split
  · exact quiet_of_hook (release_cachedUntil _) (.inl rfl)
  · exact .rfl

/-- What an input can do to the slot and to the request it moves. -/
inductive Move (client : Client) (input : Input) (slot : Slot ι) (p : Process ι cacheKey) :
    Slot ι → Phase → Prop where
  | quiet {slot' phase'} (cache : slot'.cache = slot.cache) (now : slot'.now = slot.now)
      (quiet : Quiet p.phase phase') : Move client input slot p slot' phase'
  | took {retries lock} (phase : p.phase = .acquiring retries) (sent : input = .command)
      (vote : client.attempt slot p.token = .acquired lock) :
      Move client input slot p { slot with lock := lock } .rechecking
  | refused (phase : p.phase = .acquiring 0) (sent : input = .command)
      (vote : client.attempt slot p.token = .resourceLocked) :
      Move client input slot p slot (.answered .inProgress)
  | unguarded (phase : p.phase = .acquiring 0) (sent : input = .command)
      (vote : client.attempt slot p.token = .error) : Move client input slot p slot .unguarded
  | replayed {cached answer phase'} (idle : p.phase.isHandling = false)
      (live : Expiring.get slot.cache slot.now = some cached)
      (answer_eq : replayIfCached p.fingerprint (some cached) = some answer)
      (idle' : phase'.isHandling = false) (settled : phase'.isUnsettled = false)
      (answer' : phase'.answer? = some answer) : Move client input slot p slot phase'
  | started (phase : p.phase = .rechecking)
      (empty : Expiring.get slot.cache slot.now = none) :
      Move client input slot p slot (.handling .running .watching)
  | persisted {handler reply} (phase : p.phase = .handling handler (.persisting reply)) :
      Move client input slot p (slot.persist (reply.record p.fingerprint))
        (.handling handler (.releasing (some (slot.now + idempotencyTtl))))

theorem replayIfCached_none {fingerprint : String} {cached : Option CachedIdempotentResponse}
    (h : replayIfCached fingerprint cached = none) : cached = none := by
  cases cached with
  | none => rfl
  | some record =>
    simp only [replayIfCached] at h
    split_ifs at h

theorem command_move (client : Client) (slot : Slot ι) (p : Process ι cacheKey) :
    Move client .command slot p (command client slot p).1 (command client slot p).2 := by
  cases hphase : p.phase with
  | lookup =>
    simp only [command, hphase]
    cases hcache : Expiring.get slot.cache slot.now with
    | none => exact .quiet rfl rfl (hphase ▸ quiet_of_idle rfl rfl rfl rfl)
    | some cached =>
      cases hanswer : replayIfCached p.fingerprint (some cached) with
      | none => cases replayIfCached_none hanswer
      | some answer =>
        exact .replayed (by rw [hphase]; rfl) hcache hanswer rfl rfl rfl
  | acquiring retries =>
    simp only [command, hphase]
    cases hvote : client.attempt slot p.token with
    | acquired lock => exact .took hphase rfl hvote
    | resourceLocked =>
      cases retries with
      | zero => exact .refused hphase rfl hvote
      | succ n => exact .quiet rfl rfl (hphase ▸ quiet_of_idle rfl rfl rfl rfl)
    | error =>
      cases retries with
      | zero => exact .unguarded hphase rfl hvote
      | succ n => exact .quiet rfl rfl (hphase ▸ quiet_of_idle rfl rfl rfl rfl)
  | rechecking =>
    simp only [command, hphase]
    cases hcache : Expiring.get slot.cache slot.now with
    | none => exact .started hphase hcache
    | some cached =>
      cases hanswer : replayIfCached p.fingerprint (some cached) with
      | none => cases replayIfCached_none hanswer
      | some answer =>
        exact .replayed (by rw [hphase]; rfl) hcache hanswer rfl rfl rfl
  | unlocking answer =>
    simp only [command, hphase]
    exact .quiet rfl rfl (hphase ▸ quiet_of_idle rfl rfl rfl rfl)
  | answered answer =>
    simp only [command, hphase]
    exact .quiet rfl rfl (hphase ▸ .rfl)
  | handling handler hook =>
    cases hook with
    | watching =>
      simp only [command, hphase]
      exact .quiet rfl rfl (hphase ▸ .rfl)
    | persisting reply =>
      simp only [command, hphase]
      exact .persisted hphase
    | releasing cachedUntil =>
      simp only [command, hphase]
      exact .quiet rfl rfl (hphase ▸ quiet_of_hook rfl (.inl rfl))
    | settled cachedUntil =>
      simp only [command, hphase]
      exact .quiet rfl rfl (hphase ▸ .rfl)

theorem act_move (client : Client) (input : Input) (slot : Slot ι) {p : Process ι cacheKey}
    (h : Consistent p.phase) :
    Move client input slot p (act client input slot p).1 (act client input slot p).2 := by
  cases input with
  | command => exact command_move client slot p
  | reply reply => exact .quiet rfl rfl (quiet_reply h reply)
  | finish => exact .quiet rfl rfl (quiet_finish h)
  | close => exact .quiet rfl rfl (quiet_close p.phase)

theorem consistent_of_none (handler : Handler) {hook : Hook} (h : hook.cachedUntil = none)
    (watching : ∀ reply, hook ≠ .persisting reply) : Consistent (.handling handler hook) := by
  refine ⟨fun t ht => ?_, fun reply hreply => absurd hreply (watching reply)⟩
  rw [h] at ht
  cases ht

theorem consistent_running : Consistent (.handling .running .watching) :=
  consistent_of_none _ rfl fun _ hreply => nomatch hreply

theorem Consistent.capture {hook : Hook} {reply : Reply}
    (h : Consistent (.handling .running hook)) (json : reply.body.isJson = true) :
    Consistent (.handling (.replied reply) (hook.capture reply)) := by
  refine ⟨fun t ht => ⟨reply, rfl, json⟩, fun reply' hreply => ?_⟩
  cases hook with
  | watching =>
    cases hreply
    exact ⟨rfl, json⟩
  | persisting other => cases (h.2 other rfl).1
  | releasing cachedUntil => cases hreply
  | settled cachedUntil => cases hreply

theorem Consistent.release {handler : Handler} {hook : Hook}
    (h : Consistent (.handling handler hook)) : Consistent (.handling handler hook.release) := by
  cases hook with
  | watching => exact consistent_of_none handler rfl fun reply hreply => nomatch hreply
  | persisting _ | releasing _ | settled _ => exact h

theorem Consistent.finish {hook : Hook} (h : Consistent (.handling .running hook)) :
    Consistent (.handling .ended hook.release) := by
  refine ⟨fun t ht => ?_, fun reply hreply => ?_⟩
  · rw [release_cachedUntil, h.cachedUntil_running] at ht
    cases ht
  · cases (h.release.2 reply hreply).1

theorem consistent_unguarded : Consistent .unguarded :=
  consistent_of_none _ rfl fun _ hreply => nomatch hreply

theorem consistent_command (client : Client) (slot : Slot ι) {p : Process ι cacheKey}
    (h : Consistent p.phase) : Consistent (command client slot p).2 := by
  cases hphase : p.phase with
  | handling handler hook =>
    rw [hphase] at h
    cases hook with
    | persisting reply =>
      simp only [command, hphase]
      exact ⟨fun t ht => ⟨reply, h.2 reply rfl⟩, fun _ hreply => nomatch hreply⟩
    | releasing cachedUntil =>
      simp only [command, hphase]
      exact ⟨h.1, fun _ hreply => nomatch hreply⟩
    | watching | settled _ =>
      simp only [command, hphase]
      exact h
  | lookup =>
    simp only [command, hphase]
    split <;> trivial
  | acquiring retries =>
    simp only [command, hphase]
    split
    case h_3 => exact consistent_unguarded
    all_goals trivial
  | rechecking =>
    simp only [command, hphase]
    split
    · trivial
    · exact consistent_running
  | unlocking _ | answered _ =>
    simp only [command, hphase]
    trivial

theorem consistent_act (client : Client) {input : Input} (slot : Slot ι) {p : Process ι cacheKey}
    (h : Consistent p.phase) (serialised : input.isSerialised = true) :
    Consistent (act client input slot p).2 := by
  cases input with
  | command => exact consistent_command client slot h
  | reply reply =>
    simp only [act, Phase.reply]
    split
    · next hphase =>
      rw [hphase] at h
      exact h.capture serialised
    · exact h
  | finish =>
    simp only [act, Phase.finish]
    split
    · next hphase =>
      rw [hphase] at h
      exact h.finish
    · exact h
  | close =>
    simp only [act, Phase.close]
    split
    · next hphase =>
      rw [hphase] at h
      exact h.release
    · exact h

/-! ## The invariant -/

/-- What holds of the slot and the phases in every state of a run: at most one request is
unsettled, and while its handler has been started no older response is cached; what has
been cached is there until it expires, and nothing else is. -/
structure Inv (fingerprint : ι → String) (slot : Slot ι) (phases : ι → Phase) : Prop where
  consistent : ∀ i, Consistent (phases i)
  alone : ∀ i j, (phases i).isUnsettled = true → (phases j).isUnsettled = true → i = j
  stale : ∀ i j reply t, (phases i).isPending = true → Cached (phases j) reply t → t ≤ slot.now
  stored : ∀ j reply t, Cached (phases j) reply t → slot.now < t →
    slot.cache = some ⟨reply.record (fingerprint j), t⟩
  owned : ∀ record t, slot.cache = some ⟨record, t⟩ → slot.now < t →
    ∃ j reply, Cached (phases j) reply t ∧ record = reply.record (fingerprint j)

variable {fingerprint : ι → String} {slot : Slot ι} {phases : ι → Phase}

theorem isUnsettled_of_pending {phase : Phase} (h : phase.isPending = true) :
    phase.isUnsettled = true := by
  cases phase with
  | handling => exact h
  | _ => cases h

omit [DecidableEq ι] in
/-- Time passes. -/
theorem inv_tick (h : Inv fingerprint slot phases) (elapsed : ℕ) :
    Inv fingerprint (slot.tick elapsed) phases := by
  have later : slot.now ≤ slot.now + elapsed := Nat.le_add_right _ _
  exact {
    consistent := h.consistent
    alone := h.alone
    stale := fun i j reply t hi hj => (h.stale i j reply t hi hj).trans later
    stored := fun j reply t hj ht => h.stored j reply t hj (later.trans_lt ht)
    owned := fun record t hcache ht => h.owned record t hcache (later.trans_lt ht) }

theorem update_imp (P : Phase → Prop) {i : ι} {phase : Phase} (h : P phase → P (phases i)) {j : ι}
    (hj : P (Function.update phases i phase j)) : P (phases j) := by
  by_cases hi : j = i
  · subst hi
    rw [Function.update_self] at hj
    exact h hj
  · rwa [Function.update_of_ne hi] at hj

theorem consistent_update {i : ι} {phase : Phase} (h : ∀ j, Consistent (phases j))
    (consistent : Consistent phase) (j : ι) : Consistent (Function.update phases i phase j) := by
  by_cases hj : j = i
  · rwa [hj, Function.update_self]
  · rw [Function.update_of_ne hj]
    exact h j

/-- A move that does not touch the cache and caches nothing. -/
theorem inv_of_cached {slot' : Slot ι} {i : ι} {phase : Phase} (h : Inv fingerprint slot phases)
    (cache : slot'.cache = slot.cache) (now : slot'.now = slot.now) (consistent : Consistent phase)
    (cached : ∀ reply t, Cached phase reply t ↔ Cached (phases i) reply t)
    (alone : ∀ j k, (Function.update phases i phase j).isUnsettled = true →
      (Function.update phases i phase k).isUnsettled = true → j = k)
    (stale : ∀ j k reply t, (Function.update phases i phase j).isPending = true →
      Cached (phases k) reply t → t ≤ slot.now) :
    Inv fingerprint slot' (Function.update phases i phase) where
  consistent := consistent_update h.consistent consistent
  alone := alone
  stale j k reply t hj hk := by
    rw [now]
    exact stale j k reply t hj (update_imp (fun p => Cached p reply t) (cached reply t).1 hk)
  stored j reply t hj ht := by
    rw [now] at ht
    rw [cache]
    exact h.stored j reply t (update_imp (fun p => Cached p reply t) (cached reply t).1 hj) ht
  owned record t hcache ht := by
    rw [now] at ht
    rw [cache] at hcache
    obtain ⟨j, reply, hj, hrecord⟩ := h.owned record t hcache ht
    refine ⟨j, reply, ?_, hrecord⟩
    by_cases hi : j = i
    · subst hi
      rw [Function.update_self]
      exact (cached reply t).2 hj
    · rwa [Function.update_of_ne hi]

/-- A turn that leaves no more requests unsettled than there were. -/
theorem alone_update {i : ι} {phase : Phase} (h : Inv fingerprint slot phases)
    (unsettled : phase.isUnsettled = true → (phases i).isUnsettled = true) (j k : ι)
    (hj : (Function.update phases i phase j).isUnsettled = true)
    (hk : (Function.update phases i phase k).isUnsettled = true) : j = k :=
  h.alone j k (update_imp (fun p => p.isUnsettled = true) unsettled hj)
    (update_imp (fun p => p.isUnsettled = true) unsettled hk)

/-- A request that moves on without becoming unsettled. -/
theorem inv_of_imp {slot' : Slot ι} {i : ι} {phase : Phase} (h : Inv fingerprint slot phases)
    (cache : slot'.cache = slot.cache) (now : slot'.now = slot.now) (consistent : Consistent phase)
    (cached : ∀ reply t, Cached phase reply t ↔ Cached (phases i) reply t)
    (unsettled : phase.isUnsettled = true → (phases i).isUnsettled = true)
    (pending : phase.isPending = true → (phases i).isPending = true) :
    Inv fingerprint slot' (Function.update phases i phase) := by
  apply inv_of_cached h cache now consistent cached
  case alone => exact alone_update h unsettled
  case stale =>
    intro j k reply t hj hk
    exact h.stale j k reply t (update_imp (fun p => p.isPending = true) pending hj) hk

theorem cached_idle_iff {phase phase' : Phase} (h : phase.isHandling = false)
    (h' : phase'.isHandling = false) (reply : Reply) (t : ℕ) :
    Cached phase' reply t ↔ Cached phase reply t :=
  iff_of_false (not_cached h' reply t) (not_cached h reply t)

/-- A request takes the lock while no other one is unsettled. -/
theorem inv_took {i : ι} {lock : Option (Expiring.Entry ι)} (h : Inv fingerprint slot phases)
    (idle : (phases i).isHandling = false)
    (alone : ∀ j, j ≠ i → (phases j).isUnsettled = false) :
    Inv fingerprint { slot with lock := lock } (Function.update phases i .rechecking) := by
  have pending : Phase.rechecking.isPending = true → (phases i).isPending = true :=
    fun hp => absurd hp Bool.false_ne_true
  have only : ∀ j, (Function.update phases i .rechecking j).isUnsettled = true → j = i := by
    intro j hj
    by_contra hne
    rw [Function.update_of_ne hne, alone j hne] at hj
    cases hj
  apply inv_of_cached h
  case cache => rfl
  case now => rfl
  case consistent => trivial
  case cached => exact cached_idle_iff idle rfl
  case alone =>
    intro j k hj hk
    rw [only j hj, only k hk]
  case stale =>
    intro j k reply t hj hk
    exact h.stale j k reply t (update_imp (fun p => p.isPending = true) pending hj) hk

omit [DecidableEq ι] in
theorem Inv.expired (h : Inv fingerprint slot phases)
    (empty : Expiring.get slot.cache slot.now = none) (j : ι) (reply : Reply) (t : ℕ)
    (hj : Cached (phases j) reply t) : t ≤ slot.now := by
  by_contra live
  rw [Expiring.get_of_live (h.stored j reply t hj (by omega)) (by omega)] at empty
  cases empty

/-- A request is let through without the lock, with nothing cached and no other one unsettled. -/
theorem inv_unguarded {i : ι} (h : Inv fingerprint slot phases)
    (idle : (phases i).isHandling = false)
    (empty : Expiring.get slot.cache slot.now = none)
    (alone : ∀ j, j ≠ i → (phases j).isUnsettled = false) :
    Inv fingerprint slot (Function.update phases i .unguarded) := by
  have only : ∀ j, (Function.update phases i .unguarded j).isUnsettled = true → j = i := by
    intro j hj
    by_contra hne
    rw [Function.update_of_ne hne, alone j hne] at hj
    cases hj
  have uncached : ∀ reply t, Cached .unguarded reply t ↔ Cached (phases i) reply t := by
    intro reply t
    refine iff_of_false ?_ (not_cached idle reply t)
    rintro ⟨hook, ⟨⟩, -⟩
  apply inv_of_cached h rfl rfl consistent_unguarded uncached
  case alone =>
    intro j k hj hk
    rw [only j hj, only k hk]
  case stale => exact fun _ k reply t _ hk => h.expired empty k reply t hk

/-- The handler is started by the one unsettled request, which has found nothing cached. -/
theorem inv_started {i : ι} (h : Inv fingerprint slot phases) (phase : phases i = .rechecking)
    (empty : Expiring.get slot.cache slot.now = none) :
    Inv fingerprint slot (Function.update phases i (.handling .running .watching)) := by
  have uncached : ∀ reply t,
      Cached (.handling .running .watching) reply t ↔ Cached (phases i) reply t := by
    intro reply t
    rw [phase]
    refine iff_of_false ?_ (not_cached rfl reply t)
    rintro ⟨hook, ⟨⟩, -⟩
  apply inv_of_cached h rfl rfl consistent_running uncached
  case alone =>
    have unsettled : (Phase.handling .running .watching).isUnsettled = true →
        (phases i).isUnsettled = true := by
      intro _
      rw [phase]
      rfl
    exact alone_update h unsettled
  case stale =>
    exact fun _ k reply t _ hk => h.expired empty k reply t hk

theorem cached_persisted_iff {reply reply' : Reply} {expiry t : ℕ} :
    Cached (.handling (.replied reply) (.releasing (some expiry))) reply' t ↔
      reply' = reply ∧ t = expiry := by
  constructor
  · rintro ⟨hook, ⟨⟩, ht⟩
    exact ⟨rfl, (Option.some.inj ht).symm⟩
  · rintro ⟨rfl, rfl⟩
    exact ⟨_, rfl, rfl⟩

/-- The one unsettled request has its response cached. -/
theorem inv_persisted {i : ι} {handler : Handler} {reply : Reply}
    (h : Inv fingerprint slot phases) (phase : phases i = .handling handler (.persisting reply)) :
    Inv fingerprint (slot.persist (reply.record (fingerprint i)))
      (Function.update phases i
        (.handling handler (.releasing (some (slot.now + idempotencyTtl))))) := by
  have consistent := h.consistent i
  rw [phase] at consistent
  obtain ⟨rfl, json⟩ := consistent.2 reply rfl
  have pending : (phases i).isPending = true := by rw [phase]; rfl
  have others : ∀ j, (Function.update phases i (.handling (.replied reply)
      (.releasing (some (slot.now + idempotencyTtl)))) j).isUnsettled = false := by
    intro j
    by_cases hi : j = i
    · rw [hi, Function.update_self]
      rfl
    · rw [Function.update_of_ne hi, ← Bool.not_eq_true]
      intro hj
      exact hi (h.alone j i hj (isUnsettled_of_pending pending))
  constructor
  case consistent =>
    refine consistent_update h.consistent ?_
    exact ⟨fun t ht => ⟨reply, rfl, json⟩, fun _ hreply => nomatch hreply⟩
  case alone =>
    intro j k hj
    rw [others j] at hj
    cases hj
  case stale =>
    intro j k reply' t hj
    have hj := isUnsettled_of_pending hj
    rw [others j] at hj
    cases hj
  case stored =>
    intro j reply' t hj ht
    by_cases hi : j = i
    · subst hi
      rw [Function.update_self, cached_persisted_iff] at hj
      obtain ⟨rfl, rfl⟩ := hj
      rfl
    · rw [Function.update_of_ne hi] at hj
      have expired := h.stale i j reply' t pending hj
      exact absurd ht (Nat.not_lt.2 expired)
  case owned =>
    intro record t hcache ht
    simp only [Slot.persist, Expiring.put, Option.some.injEq, Expiring.Entry.mk.injEq] at hcache
    obtain ⟨rfl, rfl⟩ := hcache
    refine ⟨i, reply, ?_, rfl⟩
    rw [Function.update_self, cached_persisted_iff]
    exact ⟨rfl, rfl⟩

omit [DecidableEq ι] in
theorem held_of_resourceLocked {client : Client} {token : ι}
    (vote : client.attempt slot token = .resourceLocked) :
    ∃ holder, Expiring.get slot.lock slot.now = some holder := by
  unfold Client.attempt at vote
  split_ifs at vote
  cases hlock : Expiring.acquire slot.lock token lockTtl slot.now with
  | some lock =>
    rw [hlock] at vote
    cases vote
  | none => exact Expiring.acquire_eq_none.1 hlock

/-- What a move needs of the other requests. -/
theorem inv_move {client : Client} {w : RequestWorld ι cacheKey} {input : Input} {i : ι}
    {slot' : Slot ι} {phase : Phase}
    (h : Inv (fun i => (w.locals i).fingerprint) slot fun i => (w.locals i).phase)
    (consistent : Consistent phase)
    (fair : ∀ retries ∈ (w.locals i).phase.retries?, input = .command →
      (client.attempt slot (w.locals i).token).Fair w slot i retries)
    (move : Move client input slot (w.locals i) slot' phase) :
    Inv (fun i => (w.locals i).fingerprint) slot'
      (Function.update (fun i => (w.locals i).phase) i phase) := by
  cases move with
  | quiet cache now quiet =>
    apply inv_of_imp h cache now consistent quiet.cached
    · exact fun hu => quiet.unsettled ▸ hu
    · exact fun hp => quiet.pending ▸ hp
  | took hphase sent vote =>
    have alone := fair _ (by rw [hphase]; rfl) sent
    rw [vote] at alone
    exact inv_took h (by rw [hphase]; rfl) alone
  | unguarded hphase sent vote =>
    have alone := fair _ (by rw [hphase]; rfl) sent
    rw [vote] at alone
    exact inv_unguarded h (by rw [hphase]; rfl) (alone rfl).1 (alone rfl).2
  | refused hphase sent vote =>
    apply inv_of_imp h rfl rfl consistent
    · exact cached_idle_iff (by rw [hphase]; rfl) rfl
    · exact fun hu => absurd hu Bool.false_ne_true
    · exact fun hp => absurd hp Bool.false_ne_true
  | replayed idle live answer_eq idle' settled answer' =>
    apply inv_of_imp h rfl rfl consistent (cached_idle_iff idle idle')
    · intro hu
      rw [settled] at hu
      cases hu
    · intro hp
      rw [isPending_of_idle idle'] at hp
      cases hp
  | started hphase empty => exact inv_started h hphase empty
  | persisted hphase => exact inv_persisted h hphase

/-! ## Runs -/

/-- The invariant of a world, with the fingerprints the requests came with. -/
structure Sound (sha256 : String → Digest) (w : RequestWorld ι cacheKey) : Prop where
  fingerprint : ∀ i, (w.locals i).fingerprint =
    fingerprintRequest sha256 (w.locals i).request.request (w.locals i).request.key
  inv : Inv (fun i => (w.locals i).fingerprint) w.shared fun i => (w.locals i).phase

theorem advance_static {client : Client} {α : Type} (f : Process ι cacheKey → α)
    (hf : ∀ p phase, f { p with phase := phase } = f p) (w : RequestWorld ι cacheKey)
    (turn : ι × Event) (j : ι) :
    f ((advance client w turn).locals j) = f (w.locals j) := by
  by_cases hj : j = turn.1
  · subst hj
    rw [advance, Interleaving.advance_self (step client) w turn.1 turn.2]
    exact hf _ _
  · rw [advance, Interleaving.advance_other (step client) w turn.2 hj]

theorem advance_phases (client : Client) (w : RequestWorld ι cacheKey) (i : ι) (e : Event) :
    (fun j => ((advance client w (i, e)).locals j).phase) =
      Function.update (fun j => (w.locals j).phase) i
        (act client e.input (w.shared.tick e.elapsed) (w.locals i)).2 := by
  funext j
  by_cases hj : j = i
  · subst hj
    rw [advance, Interleaving.advance_self, Function.update_self]
    rfl
  · rw [advance, Interleaving.advance_other (step client) w e hj, Function.update_of_ne hj]

theorem sound_advance {client : Client} {sha256 : String → Digest} {w : RequestWorld ι cacheKey}
    {turn : ι × Event} (h : Sound sha256 w) (careful : Careful client w turn) :
    Sound sha256 (advance client w turn) := by
  obtain ⟨i, e⟩ := turn
  have same : (fun j => ((advance client w (i, e)).locals j).fingerprint) =
      fun j => (w.locals j).fingerprint :=
    funext (advance_static Process.fingerprint (fun _ _ => rfl) w (i, e))
  constructor
  case fingerprint =>
    intro j
    rw [advance_static Process.fingerprint (fun _ _ => rfl) w (i, e) j,
      advance_static Process.request (fun _ _ => rfl) w (i, e) j]
    exact h.fingerprint j
  case inv =>
    rw [same, advance_phases]
    apply inv_move (inv_tick h.inv e.elapsed)
    · exact consistent_act client _ (h.inv.consistent i) careful.serialised
    · exact careful.fair
    · exact act_move client _ _ (h.inv.consistent i)

theorem Reply.response_record {reply : Reply} (json : reply.body.isJson = true)
    (fingerprint : String) :
    reply.response = ⟨(reply.record fingerprint).status, (reply.record fingerprint).body.text⟩ := by
  obtain ⟨status, body⟩ := reply
  cases body with
  | json value => rfl
  | text s => cases json

@[simp] theorem Reply.record_fingerprint (reply : Reply) (fingerprint : String) :
    (reply.record fingerprint).fingerprint = fingerprint := by
  unfold Reply.record
  split <;> rfl

theorem fingerprintRequest_ne_empty (sha256 : String → Digest) (req : Request) (key : String) :
    fingerprintRequest sha256 req key ≠ "" := by
  intro h
  have length := (sha256 (payload sha256 req key).text).length_eq
  unfold fingerprintRequest at h
  rw [h] at length
  cases length

omit [DecidableEq ι] in
theorem replayed_justified {sha256 : String → Digest} {w : RequestWorld ι cacheKey}
    {slot : Slot ι} {i : ι} {cached : CachedIdempotentResponse} {answer : Answer}
    (h : Sound sha256 w) (inv : Inv (fun i => (w.locals i).fingerprint) slot
      fun i => (w.locals i).phase)
    (idle : (w.locals i).phase.isHandling = false)
    (live : Expiring.get slot.cache slot.now = some cached)
    (answer_eq : replayIfCached (w.locals i).fingerprint (some cached) = some answer) :
    Justified sha256 w slot i answer := by
  obtain ⟨t, hcache, hlt⟩ := Expiring.get_eq_some.1 live
  obtain ⟨j, reply, hcached, rfl⟩ := inv.owned cached t hcache hlt
  have hne : j ≠ i := by
    rintro rfl
    exact not_cached idle reply t hcached
  have first : First w slot.now j reply := ⟨t, hcached, hlt⟩
  have nonempty : (w.locals j).fingerprint ≠ "" := by
    rw [h.fingerprint j]
    exact fingerprintRequest_ne_empty sha256 _ _
  simp only [replayIfCached, Reply.record_fingerprint] at answer_eq
  split_ifs at answer_eq with hreuse
  · cases answer_eq
    refine ⟨j, hne, reply, first, fun hpayload => hreuse.2 ?_⟩
    rw [h.fingerprint i, h.fingerprint j]
    unfold fingerprintRequest
    exact congrArg (fun json => (sha256 json.text).text) hpayload.symm
  · cases answer_eq
    obtain ⟨hook, hphase, ht⟩ := hcached
    have consistent := inv.consistent j
    rw [hphase] at consistent
    obtain ⟨_, ⟨⟩, json⟩ := consistent.1 t ht
    refine ⟨j, hne, reply, first, (Reply.response_record json _).symm, ?_⟩
    by_contra hdiffer
    exact hreuse ⟨nonempty, Ne.symm hdiffer⟩

/-- A handler that counts has no cached response, or one that has not expired. -/
theorem Engaged.cases {now : ℕ} {phase : Phase} (h : Engaged now phase)
    (consistent : Consistent phase) :
    phase.isPending = true ∨ ∃ reply t, Cached phase reply t ∧ now < t := by
  cases phase with
  | handling handler hook =>
    cases hcached : hook.cachedUntil with
    | none => exact .inl (by simp [Phase.isPending, hcached])
    | some t =>
      obtain ⟨reply, rfl, -⟩ := consistent.1 t hcached
      exact .inr ⟨reply, t, ⟨hook, rfl, hcached⟩, h t hcached⟩
  | _ => exact h.elim

theorem lawful_of_careful {client : Client} {sha256 : String → Digest}
    {w : RequestWorld ι cacheKey} {turn : ι × Event} (h : Sound sha256 w)
    (careful : Careful client w turn) : Lawful client sha256 w turn := by
  obtain ⟨i, e⟩ := turn
  have inv := inv_tick h.inv e.elapsed
  have move := act_move client e.input (w.shared.tick e.elapsed) (inv.consistent i)
  have after : ((advance client w (i, e)).locals i).phase =
      (act client e.input (w.shared.tick e.elapsed) (w.locals i)).2 := by
    rw [advance, Interleaving.advance_self]
    rfl
  constructor
  case once =>
    intro before handling j hj engaged
    dsimp only at before handling hj engaged
    rw [after] at handling
    generalize (act client e.input (w.shared.tick e.elapsed) (w.locals i)).1 = slot' at move
    generalize (act client e.input (w.shared.tick e.elapsed) (w.locals i)).2 = phase'
      at move handling
    cases move with
    | quiet cache now quiet =>
      rw [quiet.handling, before] at handling
      cases handling
    | took | refused => cases handling
    | replayed idle live answer_eq idle' settled answer' =>
      rw [idle'] at handling
      cases handling
    | persisted hphase =>
      rw [hphase] at before
      cases before
    | started hphase empty =>
      rcases engaged.cases (inv.consistent j) with hpending | ⟨reply, t, hcached, hlive⟩
      · exact hj (inv.alone j i (isUnsettled_of_pending hpending) (by rw [hphase]; rfl))
      · exact absurd hlive (Nat.not_lt.2 (inv.expired empty j reply t hcached))
    | unguarded hphase sent vote =>
      have alone := careful.fair _ (by rw [hphase]; rfl) sent
      rw [vote] at alone
      obtain ⟨empty, settled⟩ := alone rfl
      rcases engaged.cases (inv.consistent j) with hpending | ⟨reply, t, hcached, hlive⟩
      · have unsettled := isUnsettled_of_pending hpending
        rw [settled j hj] at unsettled
        cases unsettled
      · exact absurd hlive (Nat.not_lt.2 (inv.expired empty j reply t hcached))
  case answered =>
    intro answer before answered
    dsimp only at before answered
    rw [after] at answered
    generalize (act client e.input (w.shared.tick e.elapsed) (w.locals i)).1 = slot' at move
    generalize (act client e.input (w.shared.tick e.elapsed) (w.locals i)).2 = phase'
      at move answered
    cases move with
    | quiet cache now quiet =>
      rw [quiet.answer, before] at answered
      cases answered
    | took | started | unguarded | persisted => cases answered
    | refused hphase sent vote =>
      cases answered
      have awaited := careful.fair _ (by rw [hphase]; rfl) sent
      rw [vote] at awaited
      obtain ⟨holder, held⟩ := held_of_resourceLocked vote
      have underway := awaited rfl holder held
      refine ⟨_, ?_, underway⟩
      rintro rfl
      rw [hphase] at underway
      exact underway
    | replayed idle live answer_eq idle' settled answer' =>
      rw [answer'] at answered
      cases answered
      exact replayed_justified h inv idle live answer_eq

omit [DecidableEq ι] in
theorem sound_start (sha256 : String → Digest) (requests : ι → Admitted cacheKey) :
    Sound sha256 (start sha256 requests) := by
  constructor
  case fingerprint => exact fun i => rfl
  case inv =>
    constructor
    case consistent => exact fun i => trivial
    case alone => exact fun i j hi => absurd hi Bool.false_ne_true
    case stale => exact fun i j reply t hi => absurd hi Bool.false_ne_true
    case stored => exact fun j reply t hj => absurd hj (not_cached rfl reply t)
    case owned => exact fun record t hcache => nomatch hcache

/-- Nothing is ever cached there, and whoever has no more attempts is let through. -/
def Phase.isBare : Phase → Bool
  | .lookup | .acquiring _ | .handling _ (.settled none) => true
  | _ => false

structure Bare (w : RequestWorld ι cacheKey) : Prop where
  cache : w.shared.cache = none
  bare : ∀ i, (w.locals i).phase.isBare = true

theorem bare_act {client : Client} (incapable : client.evalsha = false) (input : Input)
    (slot : Slot ι) (cache : slot.cache = none) {p : Process ι cacheKey}
    (h : p.phase.isBare = true) :
    (act client input slot p).1.cache = none ∧ (act client input slot p).2.isBare = true ∧
      (p.phase.isHandling = false → (act client input slot p).2.isHandling = true →
        p.phase = .acquiring 0 ∧ input = .command) := by
  cases hphase : p.phase with
  | lookup =>
    cases input <;> simp [act, command, hphase, cache, replayIfCached, Phase.reply, Phase.finish,
      Phase.close, Phase.isBare, Phase.isHandling]
  | acquiring retries =>
    cases retries <;> cases input <;> simp [act, command, hphase, cache, Client.attempt, incapable,
      Phase.unguarded, Phase.reply, Phase.finish, Phase.close, Phase.isBare, Phase.isHandling]
  | handling handler hook =>
    rw [hphase] at h
    obtain rfl : hook = .settled none := by
      unfold Phase.isBare at h
      split at h <;> simp_all
    cases handler <;> cases input <;> simp [act, command, hphase, cache, Phase.reply,
      Phase.finish, Phase.close, Hook.capture, Hook.release, Phase.isBare, Phase.isHandling]
  | rechecking | unlocking | answered =>
    rw [hphase] at h
    cases h

theorem bare_advance {client : Client} (incapable : client.evalsha = false)
    (w : RequestWorld ι cacheKey) (turn : ι × Event) (h : Bare w) :
    Bare (advance client w turn) := by
  have own := bare_act incapable turn.2.input (w.shared.tick turn.2.elapsed) h.cache (h.bare turn.1)
  exact ⟨own.1, Interleaving.locals_advance (step client) (fun p => p.phase.isBare = true)
    own.2.1 fun j _ => h.bare j⟩

/-- A request that is let through is the first one. -/
def Unaccompanied (w : RequestWorld ι cacheKey) (turn : ι × Event) : Prop :=
  (w.locals turn.1).phase = .acquiring 0 → turn.2.input = .command →
    ∀ j, j ≠ turn.1 → (w.locals j).phase.isHandling = false

theorem lawful_iff_unaccompanied {client : Client} (incapable : client.evalsha = false)
    {sha256 : String → Digest} {w : RequestWorld ι cacheKey} {turn : ι × Event} (h : Bare w) :
    Lawful client sha256 w turn ↔ Unaccompanied w turn := by
  have own := bare_act incapable turn.2.input (w.shared.tick turn.2.elapsed) h.cache (h.bare turn.1)
  have after : ((advance client w turn).locals turn.1).phase =
      (act client turn.2.input (w.shared.tick turn.2.elapsed) (w.locals turn.1)).2 := by
    rw [advance, Interleaving.advance_self]
    rfl
  constructor
  · intro lawful hphase hsent j hj
    by_contra handling
    refine lawful.once ?_ ?_ j hj ?_
    · rw [hphase]
      rfl
    · rw [after, hsent]
      simp [act, command, hphase, Client.attempt, incapable, Phase.unguarded, Phase.isHandling]
    · have bare := h.bare j
      cases hlocal : (w.locals j).phase with
      | handling handler hook =>
        rw [hlocal] at bare
        unfold Phase.isBare at bare
        intro t ht
        split at bare <;> simp_all [Hook.cachedUntil]
      | _ => simp [hlocal, Phase.isHandling] at handling
  · intro alone
    constructor
    case once =>
      intro before handling j hj engaged
      rw [after] at handling
      obtain ⟨hphase, hsent⟩ := own.2.2 before handling
      have idle := alone hphase hsent j hj
      unfold Engaged at engaged
      split at engaged
      · next hlocal => simp [hlocal, Phase.isHandling] at idle
      · exact engaged
    case answered =>
      intro answer before answered
      rw [after] at answered
      have bare := own.2.1
      cases hresult : (act client turn.2.input (w.shared.tick turn.2.elapsed)
          (w.locals turn.1)).2 <;> rw [hresult] at answered bare <;>
        simp [Phase.answer?, Phase.isBare] at answered bare

omit [DecidableEq ι] in
theorem bare_start (sha256 : String → Digest) (requests : ι → Admitted cacheKey) :
    Bare (start sha256 requests) :=
  ⟨rfl, fun _ => rfl⟩

/-- There the law holds as long as only one request is let through. -/
theorem lawful_iff_one_let_through {client : Client} (incapable : client.evalsha = false)
    (sha256 : String → Digest) (requests : ι → Admitted cacheKey) (turns : List (ι × Event)) :
    Runs.Every (advance client) (Lawful client sha256) (start sha256 requests) turns ↔
      Runs.Every (advance client) Unaccompanied (start sha256 requests) turns := by
  have initial := bare_start sha256 requests
  constructor
  · exact Runs.Every.imp_of_inv Bare (fun w turn h _ => bare_advance incapable w turn h)
      (fun _ _ h => (lawful_iff_unaccompanied incapable h).1) initial turns
  · exact Runs.Every.imp_of_inv Bare (fun w turn h _ => bare_advance incapable w turn h)
      (fun _ _ h => (lawful_iff_unaccompanied incapable h).2) initial turns

/-! ## Two requests -/

/-- A deposit with an idempotency key. -/
def depositRequest : Request where
  idempotencyKey := some "key-1"
  jwtUserId := some "user-1"
  userId := none
  method := "POST"
  baseUrl := ""
  routePath := some "/deposit"
  path := "/deposit"
  originalUrl := "/api/transactions/deposit"
  body := some ⟨"100"⟩
  query := none
  file := none

def deposit : Admitted "idempotency:user-1:POST:/deposit:key-1" :=
  ⟨depositRequest, "key-1", by decide +kernel, by decide +kernel⟩

/-- A command that is sent at once. -/
def now : Event := ⟨0, .command⟩

/-- A request looks the response up and tries to take the lock four times. -/
def attempts (i : Bool) : List (Bool × Event) := List.replicate 5 (i, now)

/-- The handler of the first request runs and replies. -/
def answeredRun : List (Bool × Event) :=
  attempts false ++ [(false, ⟨500, .reply ⟨201, .json ⟨"1"⟩⟩⟩)]

/-- With a client that redlock can use, the first request takes the lock, is answered, cached and
done; then the second one looks it up. -/
def replayedRun : List (Bool × Event) :=
  List.replicate 3 (false, now) ++
    [(false, ⟨500, .reply ⟨201, .json ⟨"1"⟩⟩⟩), (false, now), (false, now), (true, now)]

/-- The digest of that deposit's payload. -/
def depositDigest : Digest :=
  ⟨"d75f021e3326e7057869c5f14f98ff6a68a20c3a70b3517a7b82da658cf8edba", by decide +kernel⟩

example : (payload (fun _ => depositDigest) depositRequest "key-1").text =
    "\x7b\"key\":\"key-1\",\"method\":\"POST\",\"path\":\"/api/transactions/deposit\"," ++
      "\"body\":100,\"query\":\x7b\x7d\x7d" := by
  decide +kernel

/-- The client of the first request disconnects while its handler runs, and tries again. -/
def disconnectedRun : List (Bool × Event) :=
  List.replicate 3 (false, now) ++ [(false, ⟨500, .close⟩), (false, now)] ++
    List.replicate 2 (true, now) ++ [(true, now)]

end MobileMoney.Idempotency
