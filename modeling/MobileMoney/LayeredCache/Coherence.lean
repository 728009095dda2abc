import Mathlib.Order.Lattice.Nat
import MobileMoney.LayeredCache.Program

/-!
# What a get returns

Where a read puts into memory neither what an invalidation that has gone by was about nor what has
less than the standard TTL left, and Redis deletes what it is told to, the memory of every instance
is coherent, and so is every get.
-/

namespace MobileMoney.LayeredCache

variable {I K V ι : Type} {config : CacheConfig}

/-! ## The law -/

/-- No write on the key that was settled when the get began is later than that of the value, and the
TTL of the value has not passed. -/
structure Return.Lawful (r : Return V) : Prop where
  fresh : r.floor ≤ r.found.stamp
  lives : r.time ≤ r.found.deadline

def Call.Lawful (call : Call I K V) : Prop :=
  ∀ r, call.phase = .returned (some r) → r.Lawful

/-- Every get that has returned a value has done so lawfully. -/
def Law (w : Interleaving.World (Store I K V) ι (Call I K V)) : Prop :=
  ∀ c, (w.locals c).Lawful

/-- No invalidation of the key by a later write has been delivered to the instance. -/
def Store.Unseen (s : Store I K V) (i : I) (key : K) (stamp : ℕ) : Prop :=
  ∀ message ∈ s.published, message.1 = key → message ∉ s.inbox i → message.2 ≤ stamp

/-- What a get is about to put in memory. -/
def Call.parsed (call : Call I K V) : Option (Found V) :=
  match call.phase with
  | .parsing _ raw => raw
  | _ => none

/-- The TTL with which a value is about to be set. -/
def Call.ttlToSet (call : Call I K V) : Option ℕ :=
  match call.phase, call.operation with
  | .idle, .set _ ttlSec => some ttlSec
  | _, _ => none

/-- What has been read is put in memory only if no invalidation of the key by a later write has been
delivered to the instance and the standard TTL is left to the value; and a value is set with a
TTL. -/
def Call.Careful (config : CacheConfig) (s : Store I K V) (call : Call I K V) : Prop :=
  (∀ found ∈ call.parsed, (s.memory call.instanceId).rows.length < config.maxKeys →
    s.Unseen call.instanceId call.key found.stamp ∧
      s.clock + config.stdTTL * 1000 ≤ found.deadline) ∧
  ∀ ttlSec ∈ call.ttlToSet, 0 < ttlSec

/-- A `DEL` that fails finds nothing to delete. -/
def Call.Deletes [DecidableEq K] (s : Store I K V) (call : Call I K V) (answer : DbAnswer) :
    Prop :=
  call.phase = .writing → call.operation = .del → answer.executed = false →
    s.redis.get call.key s.clock = none

def Careful [DecidableEq K] (config : CacheConfig)
    (w : Interleaving.World (Store I K V) ι (Call I K V)) (turn : ι × Input I) : Prop :=
  match turn.2 with
  | .proceed _ answer => (w.locals turn.1).Careful config w.shared ∧
      (w.locals turn.1).Deletes w.shared answer
  | _ => True

section Decidability

variable [DecidableEq K]

instance (s : Store I K V) (i : I) (key : K) (stamp : ℕ) : Decidable (s.Unseen i key stamp) :=
  inferInstanceAs (Decidable (∀ message ∈ s.published, _ → _ → _))

instance (s : Store I K V) (call : Call I K V) : Decidable (call.Careful config s) :=
  inferInstanceAs (Decidable (_ ∧ _))

instance [DecidableEq V] (s : Store I K V) (call : Call I K V) (answer : DbAnswer) :
    Decidable (call.Deletes s answer) :=
  inferInstanceAs (Decidable (_ → _ → _ → _))

instance [DecidableEq V] (w : Interleaving.World (Store I K V) ι (Call I K V)) :
    (turn : ι × Input I) → Decidable (Careful config w turn)
  | (c, .proceed _ answer) => inferInstanceAs (Decidable ((w.locals c).Careful config w.shared ∧
      (w.locals c).Deletes w.shared answer))
  | (_, .deliver _) => instDecidableTrue
  | (_, .sweep _) => instDecidableTrue
  | (_, .tick _) => instDecidableTrue

end Decidability

/-! ## The invariant -/

namespace Store

/-- A row that a get may return at any time that it is live. -/
structure Admits (s : Store I K V) (i : I) (row : Row K V) : Prop where
  unseen : s.Unseen i row.key row.found.stamp
  lives : ∃ expires ∈ row.expires, expires ≤ row.found.deadline

/-- An entry that a `GET` can find. -/
def Has (s : Store I K V) (entry : Entry K V) : Prop :=
  entry ∈ s.redis.rows ∧ s.clock ≤ entry.found.deadline

/-- The stamp is not later than what Redis has for the key. -/
structure Behind (s : Store I K V) (key : K) (stamp : ℕ) : Prop where
  bound : stamp ≤ s.writes
  redis : ∀ entry, s.Has entry → entry.key = key → stamp ≤ entry.found.stamp

structure Sound (s : Store I K V) : Prop where
  published : ∀ message ∈ s.published, s.Behind message.1 message.2
  memory : ∀ i, ∀ row ∈ (s.memory i).rows, s.Admits i row

/-- What a turn does to Redis: entries go, and new ones come later. -/
structure Grows (s' s : Store I K V) : Prop where
  writes : s.writes ≤ s'.writes
  redis : ∀ entry, s'.Has entry → s.Has entry ∨ s.writes < entry.found.stamp

theorem Grows.refl (s : Store I K V) : s.Grows s := ⟨le_rfl, fun _ h => .inl h⟩

theorem Behind.mono {s s' : Store I K V} {key : K} {stamp : ℕ} (h : s.Behind key stamp)
    (grows : s'.Grows s) : s'.Behind key stamp := by
  refine ⟨h.bound.trans grows.writes, fun entry hentry hkey => ?_⟩
  rcases grows.redis entry hentry with hold | hnew
  · exact h.redis entry hold hkey
  · exact h.bound.trans hnew.le

end Store

/-- What a call knows of the store. -/
def Call.Sound (s : Store I K V) (call : Call I K V) : Prop :=
  match call.phase with
  | .reading floor => s.Behind call.key floor
  | .parsing floor (some found) => floor ≤ found.stamp
  | .publishing stamp => s.Behind call.key stamp
  | .returned (some r) => r.Lawful
  | _ => True

theorem Call.Sound.lawful {s : Store I K V} {call : Call I K V} (h : call.Sound s) :
    call.Lawful := by
  intro r hphase
  simpa only [Call.Sound, hphase] using h

theorem Call.Sound.mono {s s' : Store I K V} {call : Call I K V} (h : call.Sound s)
    (grows : s'.Grows s) : call.Sound s' := by
  unfold Call.Sound at h ⊢
  split at h
  · exact h.mono grows
  · exact h
  · exact h.mono grows
  · exact h
  · trivial

/-! ## Turns -/

namespace Store

variable [DecidableEq K] [Fintype I]

theorem settled_le {s : Store I K V} {key : K} {n : ℕ}
    (h : ∀ message ∈ s.published, message.1 = key → (∀ i, message ∉ s.inbox i) → message.2 ≤ n) :
    s.settled key ≤ n := by
  refine Finset.sup_le fun message hmessage => ?_
  obtain ⟨hpublished, hkey, hdelivered⟩ := Finset.mem_filter.1 hmessage
  exact h message (List.mem_toFinset.1 hpublished) hkey hdelivered

theorem Sound.settled_behind {s : Store I K V} (h : s.Sound) (key : K) :
    s.Behind key (s.settled key) := by
  constructor
  · exact settled_le fun message hmessage _ _ => (h.published message hmessage).bound
  · intro entry hentry hkey
    refine settled_le fun message hmessage hkey' _ => ?_
    exact (h.published message hmessage).redis entry hentry (hkey.trans hkey'.symm)

theorem Unseen.settled_le {s : Store I K V} {i : I} {key : K} {stamp : ℕ}
    (h : s.Unseen i key stamp) : s.settled key ≤ stamp :=
  Store.settled_le fun message hmessage hkey hdelivered => h message hmessage hkey (hdelivered i)

omit [Fintype I]

variable [DecidableEq I]

omit [DecidableEq K] [DecidableEq I] in
/-- Nothing is published, and no row comes into a memory. -/
theorem Sound.of_grows {s s' : Store I K V} (h : s.Sound) (grows : s'.Grows s)
    (published : s'.published = s.published) (inbox : s'.inbox = s.inbox)
    (memory : s'.memory = s.memory) : s'.Sound := by
  refine ⟨fun message hmessage => ?_, fun i row hrow => ⟨?_, ?_⟩⟩
  · rw [published] at hmessage
    exact (h.published message hmessage).mono grows
  · rw [memory] at hrow
    rw [Store.Unseen, published, inbox]
    exact (h.memory i row hrow).unseen
  · rw [memory] at hrow
    exact (h.memory i row hrow).lives

omit [DecidableEq K] in
/-- Redis is not concerned. -/
theorem Sound.withMemory {s : Store I K V} (h : s.Sound) {i : I} {memory : Memory K V}
    (hmemory : ∀ row ∈ memory.rows, s.Admits i row) : (s.withMemory i memory).Sound := by
  refine ⟨fun message hmessage => (h.published message hmessage).mono ⟨le_rfl, fun _ => .inl⟩,
    fun j row hrow => ?_⟩
  by_cases hj : j = i
  · subst hj
    simp only [Store.withMemory, Function.update_self] at hrow
    exact ⟨(hmemory row hrow).unseen, (hmemory row hrow).lives⟩
  · simp only [Store.withMemory, Function.update_of_ne hj] at hrow
    exact ⟨(h.memory j row hrow).unseen, (h.memory j row hrow).lives⟩

omit [DecidableEq I] in
theorem grows_setEx (s : Store I K V) (key : K) (value : V) (ttlSec : ℕ) :
    (s.setEx key value ttlSec).Grows s := by
  refine ⟨Nat.le_succ _, fun entry hentry => ?_⟩
  rcases Keyed.mem_put.1 hentry.1 with rfl | ⟨hold, -⟩
  · exact .inr (Nat.lt_succ_self _)
  · exact .inl ⟨hold, hentry.2⟩

omit [DecidableEq I] in
/-- The write comes after all that Redis has for the key. -/
theorem behind_setEx (s : Store I K V) (key : K) (value : V) (ttlSec : ℕ) :
    (s.setEx key value ttlSec).Behind key (s.setEx key value ttlSec).writes := by
  refine ⟨le_rfl, fun entry hentry hkey => ?_⟩
  rcases Keyed.mem_put.1 hentry.1 with rfl | ⟨-, hother⟩
  · exact le_rfl
  · exact absurd hkey hother

omit [DecidableEq I] in
theorem grows_delete (s : Store I K V) (key : K) (executed : Bool) :
    (s.delete key executed).Grows s := by
  refine ⟨Nat.le_succ _, fun entry hentry => ?_⟩
  cases executed with
  | true => exact .inl ⟨(Keyed.mem_erase.1 hentry.1).1, hentry.2⟩
  | false => exact .inl hentry

omit [DecidableEq I] in
/-- Where a `DEL` that fails finds nothing, nothing is left of the key. -/
theorem behind_delete {s : Store I K V} {key : K} {executed : Bool}
    (nothing : executed = false → s.redis.get key s.clock = none) :
    (s.delete key executed).Behind key (s.delete key executed).writes := by
  refine ⟨le_rfl, fun entry hentry hkey => ?_⟩
  cases executed with
  | true => exact absurd hkey (Keyed.mem_erase.1 hentry.1).2
  | false =>
    have found : s.redis.find? key = some entry := hkey ▸ Keyed.find?_of_mem hentry.1
    have live : s.clock ≤ entry.found.deadline := hentry.2
    have missed := nothing rfl
    rw [Redis.get, found, Option.map_some, Option.filter_some,
      if_pos (decide_eq_true live)] at missed
    cases missed

omit [DecidableEq K] [DecidableEq I] in
/-- An invalidation that is on its way to all says nothing yet. -/
theorem Sound.publish {s : Store I K V} (h : s.Sound) {key : K} {stamp : ℕ}
    (behind : s.Behind key stamp) :
    (s.publish key stamp).Sound ∧ (s.publish key stamp).Grows s := by
  refine ⟨⟨?_, fun i row hrow => ⟨?_, (h.memory i row hrow).lives⟩⟩, le_rfl, fun _ => .inl⟩
  · intro message hmessage
    refine .mono (s := s) ?_ ⟨le_rfl, fun _ => .inl⟩
    rcases List.mem_cons.1 hmessage with rfl | hold
    · exact behind
    · exact h.published message hold
  · intro message hmessage hkey hdelivered
    simp only [Store.publish, List.mem_append, List.mem_singleton, not_or] at hdelivered
    rcases List.mem_cons.1 hmessage with rfl | hold
    · exact absurd rfl hdelivered.2
    · exact (h.memory i row hrow).unseen message hold hkey hdelivered.1

theorem Sound.deliver {s : Store I K V} (h : s.Sound) (i : I) :
    (s.deliver i).Sound ∧ (s.deliver i).Grows s := by
  unfold Store.deliver
  split
  · exact ⟨h, .refl s⟩
  · rename_i message messages hinbox
    refine ⟨⟨fun m hm => (h.published m hm).mono ⟨le_rfl, fun _ => .inl⟩, fun j row hrow => ?_⟩,
      le_rfl, fun _ => .inl⟩
    by_cases hj : j = i
    · subst hj
      simp only [Store.withMemory, Function.update_self] at hrow
      obtain ⟨hold, hother⟩ := Keyed.mem_erase.1 hrow
      refine ⟨fun m hm hkey hdelivered => ?_, (h.memory j row hold).lives⟩
      simp only [Function.update_self] at hdelivered
      refine (h.memory j row hold).unseen m hm hkey ?_
      rw [hinbox, List.mem_cons, not_or]
      exact ⟨fun heq => hother (heq ▸ hkey.symm), hdelivered⟩
    · simp only [Store.withMemory, Function.update_of_ne hj] at hrow
      refine ⟨fun m hm hkey hdelivered => ?_, (h.memory j row hrow).lives⟩
      simp only [Function.update_of_ne hj] at hdelivered
      exact (h.memory j row hrow).unseen m hm hkey hdelivered

theorem Sound.sweep {s : Store I K V} (h : s.Sound) (i : I) :
    (s.sweep i).Sound ∧ (s.sweep i).Grows s := by
  refine ⟨h.withMemory fun row hrow => ?_, le_rfl, fun _ hentry => .inl hentry⟩
  exact h.memory i row (Keyed.mem_foldl_erase.1 hrow).1

end Store

variable [DecidableEq K]

section Memory

variable {memory memory' : Memory K V} {key : K} {now : ℕ}

theorem Memory.of_get {row : Row K V} (h : memory.get key now = some row) :
    row ∈ memory.rows ∧ row.key = key ∧ row.Live now := by
  obtain ⟨hfind, hlive⟩ := Option.filter_eq_some_iff.1 h
  obtain ⟨hmem, hkey⟩ := Keyed.of_find? hfind
  exact ⟨hmem, hkey, of_decide_eq_true hlive⟩

theorem Memory.mem_of_mem_check {row : Row K V} (h : row ∈ (memory.check key now).rows) :
    row ∈ memory.rows := by
  unfold Memory.check at h
  split_ifs at h
  · exact h
  · exact (Keyed.mem_erase.1 h).1

theorem Memory.mem_of_set {found : Found V} {ttlSec : ℕ}
    (h : memory.set config key found ttlSec now = some memory') (httl : 0 < ttlSec) {row : Row K V}
    (hrow : row ∈ memory'.rows) :
    row = ⟨key, found, some (now + ttlSec * 1000)⟩ ∨ row ∈ memory.rows := by
  unfold Memory.set at h
  split_ifs at h with hfull
  · omega
  · cases h
    exact (Keyed.mem_put.1 hrow).imp_right And.left

theorem Memory.length_lt_of_set {found : Found V} {ttlSec : ℕ}
    (h : memory.set config key found ttlSec now = some memory') :
    memory.rows.length < config.maxKeys := by
  unfold Memory.set at h
  split_ifs at h with hfull <;> omega

end Memory

/-- What is proved of a turn of a call. -/
structure Kept (s : Store I K V) (result : Store I K V × Call I K V) : Prop where
  store : result.1.Sound
  grows : result.1.Grows s
  call : result.2.Sound result.1

theorem Store.Behind.found {s : Store I K V} {key : K} {found : Found V} {stamp : ℕ}
    (h : s.Behind key stamp) (hget : s.redis.get key s.clock = some found) :
    stamp ≤ found.stamp := by
  obtain ⟨hfind, hlive⟩ := Option.filter_eq_some_iff.1 hget
  have hnow : s.clock ≤ found.deadline := of_decide_eq_true hlive
  obtain ⟨entry, hentry, rfl⟩ := Option.map_eq_some_iff.1 hfind
  obtain ⟨hmem, hkey⟩ := Keyed.of_find? hentry
  exact h.redis entry ⟨hmem, hnow⟩ hkey

/-- The command is executed, refused or lost. -/
theorem sound_command {s : Store I K V} (h : s.Sound) (call : Call I K V) (executed : Bool) :
    (call.command s executed).Sound ∧ (call.command s executed).Grows s := by
  unfold Call.command
  split
  · exact ⟨h, .refl s⟩
  · split_ifs
    · exact ⟨h.of_grows (Store.grows_setEx _ _ _ _) rfl rfl rfl, Store.grows_setEx _ _ _ _⟩
    · exact ⟨h, .refl s⟩
  · exact ⟨h.of_grows (Store.grows_delete _ _ _) rfl rfl rfl, Store.grows_delete _ _ _⟩

theorem behind_command {s : Store I K V} {call : Call I K V} {answer : DbAnswer}
    (hphase : call.phase = .writing) (hreturns : call.returns answer)
    (deletes : call.Deletes s answer) :
    (call.command s answer.executed).Behind call.key
      (call.command s answer.executed).writes := by
  unfold Call.returns at hreturns
  unfold Call.command
  split at hreturns
  · cases hreturns
  · rename_i value ttlSec hoperation
    obtain ⟨rfl, httl⟩ := of_decide_eq_true hreturns
    rw [if_pos ⟨DbAnswer.executed_answered, httl⟩]
    exact s.behind_setEx call.key value ttlSec
  · rename_i hoperation
    exact Store.behind_delete fun hfailed => deletes hphase hoperation hfailed

variable [DecidableEq I]

/-- A value that is set is newer than all invalidations so far. -/
theorem kept_startSet {s : Store I K V} (h : s.Sound) (call : Call I K V) (value : V) {ttlSec : ℕ}
    (httl : 0 < ttlSec) (isOpen : Bool) :
    Kept s (call.startSet config s value ttlSec isOpen) := by
  unfold Call.startSet
  split
  · rename_i memory hset
    refine ⟨h.withMemory fun row hrow => ?_, ⟨le_rfl, fun _ hentry => .inl hentry⟩, ?_⟩
    · rcases Memory.mem_of_set hset httl hrow with rfl | hold
      · exact ⟨fun message hmessage _ _ => (h.published message hmessage).bound, _, rfl, le_rfl⟩
      · exact h.memory call.instanceId row hold
    · cases isOpen <;> trivial
  · exact ⟨h, .refl s, trivial⟩

theorem kept_startDel {s : Store I K V} (h : s.Sound) (call : Call I K V) (isOpen : Bool) :
    Kept s (call.startDel s isOpen) := by
  refine ⟨h.withMemory fun row hrow => ?_, ⟨le_rfl, fun _ hentry => .inl hentry⟩, ?_⟩
  · exact h.memory call.instanceId row (Keyed.mem_erase.1 hrow).1
  · cases isOpen <;> trivial

theorem kept_populate {s : Store I K V} (h : s.Sound) {call : Call I K V} {floor : ℕ}
    {found : Found V} (hfloor : floor ≤ found.stamp)
    (careful : (s.memory call.instanceId).rows.length < config.maxKeys →
      s.Unseen call.instanceId call.key found.stamp ∧
        s.clock + config.stdTTL * 1000 ≤ found.deadline) :
    Kept s (call.populate config s floor found) := by
  unfold Call.populate
  split
  · rename_i memory hset
    obtain ⟨unseen, hleft⟩ := careful (Memory.length_lt_of_set hset)
    refine ⟨h.withMemory fun row hrow => ?_, ⟨le_rfl, fun _ hentry => .inl hentry⟩, ?_⟩
    · rcases Memory.mem_of_set hset config.stdTTL_pos hrow with rfl | hold
      · exact ⟨unseen, _, rfl, hleft⟩
      · exact h.memory call.instanceId row hold
    · exact ⟨hfloor, (Nat.le_add_right _ _).trans hleft⟩
  · exact ⟨h, .refl s, trivial⟩

variable [Fintype I]

theorem kept_startGet {s : Store I K V} (h : s.Sound) (call : Call I K V) (isOpen : Bool) :
    Kept s (call.startGet s isOpen) := by
  unfold Call.startGet
  split
  · rename_i row hget
    obtain ⟨hmem, hkey, hlive⟩ := Memory.of_get hget
    obtain ⟨unseen, expires, hexpires, hdeadline⟩ := h.memory call.instanceId row hmem
    rw [hkey] at unseen
    exact ⟨h, .refl s, ⟨unseen.settled_le, (hlive expires hexpires).trans hdeadline⟩⟩
  · have sound := h.withMemory fun row (hrow : row ∈
        ((s.memory call.instanceId).check call.key s.clock).rows) =>
      h.memory call.instanceId row (Memory.mem_of_mem_check hrow)
    refine ⟨sound, ⟨le_rfl, fun _ hentry => .inl hentry⟩, ?_⟩
    cases isOpen with
    | true =>
      have behind := h.settled_behind call.key
      exact ⟨behind.bound, behind.redis⟩
    | false => trivial

theorem kept_start {s : Store I K V} (h : s.Sound) {call : Call I K V} (isOpen : Bool)
    (httl : ∀ value ttlSec, call.operation = .set value ttlSec → 0 < ttlSec) :
    Kept s (call.start config s isOpen) := by
  unfold Call.start
  split
  · exact kept_startGet h call isOpen
  · rename_i value ttlSec hoperation
    exact kept_startSet h call value (httl value ttlSec hoperation) isOpen
  · exact kept_startDel h call isOpen

omit [DecidableEq I] [Fintype I] in
theorem kept_write {s : Store I K V} (h : s.Sound) {call : Call I K V} {answer : DbAnswer}
    (hphase : call.phase = .writing) (deletes : call.Deletes s answer) :
    Kept s (call.write s answer) := by
  obtain ⟨sound, grows⟩ := sound_command h call answer.executed
  refine ⟨sound, grows, ?_⟩
  simp only [Call.write]
  split_ifs with hreturns
  · exact behind_command hphase hreturns deletes
  · trivial

theorem kept_proceed {s : Store I K V} (h : s.Sound) {call : Call I K V} (hcall : call.Sound s)
    (careful : call.Careful config s) (isOpen : Bool) {answer : DbAnswer}
    (deletes : call.Deletes s answer) : Kept s (call.proceed config s isOpen answer) := by
  obtain ⟨careful, httl⟩ := careful
  unfold Call.proceed
  unfold Call.Sound at hcall
  cases hphase : call.phase with
  | idle =>
    refine kept_start h isOpen fun value ttlSec hoperation => ?_
    exact httl ttlSec (by simp [Call.ttlToSet, hphase, hoperation])
  | reading floor =>
    rw [hphase] at hcall
    refine ⟨h, .refl s, ?_⟩
    by_cases hanswered : answer = .answered
    · simp only [hanswered, if_true]
      cases hget : s.redis.get call.key s.clock with
      | none => trivial
      | some found => exact hcall.found hget
    · simp only [hanswered, if_false]
      trivial
  | parsing floor raw =>
    cases raw with
    | none => exact ⟨h, .refl s, trivial⟩
    | some found =>
      rw [hphase] at hcall
      exact kept_populate h hcall (careful found (by simp [Call.parsed, hphase]))
  | writing =>
    exact kept_write h hphase deletes
  | publishing stamp =>
    rw [hphase] at hcall
    cases hexecuted : answer.executed with
    | true =>
      obtain ⟨sound, grows⟩ := h.publish hcall
      exact ⟨sound, grows, trivial⟩
    | false => exact ⟨h, .refl s, trivial⟩
  | returned result =>
    refine ⟨h, .refl s, ?_⟩
    simpa only [Call.Sound, hphase] using hcall
  | finished => exact ⟨h, .refl s, by simp only [Call.Sound, hphase]⟩
  | threw => exact ⟨h, .refl s, by simp only [Call.Sound, hphase]⟩

/-! ## Runs -/

open Interleaving

omit [DecidableEq K] [DecidableEq I] [Fintype I] in
/-- A turn from outside leaves the call as it is. -/
theorem Kept.outside {s s' : Store I K V} {call : Call I K V} (hcall : call.Sound s)
    (h : s'.Sound ∧ s'.Grows s) : Kept s (s', call) :=
  ⟨h.1, h.2, hcall.mono h.2⟩

theorem kept_step {s : Store I K V} (h : s.Sound) {call : Call I K V} (hcall : call.Sound s)
    {input : Input I} (careful : ∀ isOpen answer, input = .proceed isOpen answer →
      call.Careful config s ∧ call.Deletes s answer) : Kept s (step config input s call) := by
  cases input with
  | proceed isOpen answer =>
    obtain ⟨careful, deletes⟩ := careful isOpen answer rfl
    exact kept_proceed h hcall careful isOpen deletes
  | deliver i => exact .outside hcall (h.deliver i)
  | sweep i => exact .outside hcall (h.sweep i)
  | tick ms =>
    have grows : ({ s with clock := s.clock + ms } : Store I K V).Grows s :=
      ⟨le_rfl, fun _ hentry => .inl ⟨hentry.1, (Nat.le_add_right _ _).trans hentry.2⟩⟩
    exact .outside hcall ⟨h.of_grows grows rfl rfl rfl, grows⟩

variable [DecidableEq ι]

theorem holds_step {w : World (Store I K V) ι (Call I K V)} {turn : ι × Input I}
    (h : Holds Store.Sound Call.Sound w) (careful : Careful config w turn) :
    Holds Store.Sound Call.Sound (advance (step config) w turn) := by
  have kept : Kept w.shared (step config turn.2 w.shared (w.locals turn.1)) := by
    refine kept_step h.1 (h.2 turn.1) fun isOpen answer hinput => ?_
    simpa only [LayeredCache.Careful, hinput] using careful
  exact holds_advance h ⟨kept.store, kept.call⟩ fun _ hcall => hcall.mono kept.grows

omit [DecidableEq K] [DecidableEq I] [Fintype I] [DecidableEq ι] in
theorem holds_init (requests : ι → Request I K V) :
    Holds Store.Sound Call.Sound (init requests) := by
  refine ⟨⟨?_, ?_⟩, fun _ => trivial⟩ <;> simp [init, Store.init]

/-- In a run all whose turns are careful every get is coherent. -/
theorem coherent_of_careful {requests : ι → Request I K V} {schedule : List (ι × Input I)}
    (every : Runs.Every (advance (step config)) (Careful config) (init requests) schedule)
    {pre : List (ι × Input I)} (hpre : pre <+: schedule) :
    Law (run (step config) (init requests) pre) := by
  have holds := inv_run_of_every (Holds Store.Sound Call.Sound) (fun _ _ => holds_step)
    (holds_init requests) (every.of_prefix hpre)
  exact fun c => (holds.2 c).lawful

section Instances

def standard : CacheConfig := ⟨300, 1000, by decide⟩

def ask (operations : Fin 4 → Operation ℕ) (c : Fin 4) : Request Unit Unit ℕ :=
  ⟨(), (), operations c⟩

def turns (c : Fin 4) (n : ℕ) : List (Fin 4 × Input Unit) :=
  List.replicate n (c, .proceed true .answered)

def delivery : List (Fin 4 × Input Unit) := [(0, .deliver ())]

def setAndGets : Fin 4 → Operation ℕ
  | 0 => .set 7 3600
  | _ => .get

/-- A value is set, read from Redis and read from memory. -/
theorem coherent_setAndGets : Law (run (step standard) (init (ask setAndGets))
    (turns 0 3 ++ delivery ++ turns 1 3 ++ turns 2 1)) :=
  coherent_of_careful (by decide +kernel) List.prefix_rfl

def overwriting : Fin 4 → Operation ℕ
  | 0 => .set 7 3600
  | 2 => .set 8 3600
  | _ => .get

def shortLived : Fin 4 → Operation ℕ
  | 0 => .set 7 1
  | _ => .get

/-- A get that is in flight during a write puts the old value back, and the next get returns it; and
a value that has been read with a second to live is returned after two. -/
theorem memory_outlives :
    ¬Law (run (step standard) (init (ask overwriting))
      (turns 0 3 ++ delivery ++ turns 1 2 ++ turns 2 3 ++ delivery ++ turns 1 1 ++ turns 3 1)) ∧
    ¬Law (run (step standard) (init (ask shortLived))
      (turns 0 3 ++ delivery ++ turns 1 3 ++ [(0, .tick 2000)] ++ turns 2 1)) := by
  constructor
  · intro law
    have lawful := law 3 ⟨⟨7, 1, 3600000⟩, 2, 0⟩ (by decide +kernel)
    exact absurd lawful.fresh (by decide)
  · intro law
    have lawful := law 2 ⟨⟨7, 1, 1000⟩, 1, 2000⟩ (by decide +kernel)
    exact absurd lawful.lives (by decide)

end Instances

end MobileMoney.LayeredCache
