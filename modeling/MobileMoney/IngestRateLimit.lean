import Mathlib.Tactic.Positivity
import Mathlib.Tactic.Ring
import MobileMoney.Library.Runs
import MobileMoney.Library.TokenBucket

/-!
# The rate limiter of the ingest routes

`middleware/ingestRateLimit.ts`: the bucket of one key, as the Redis script and as the fallback in
memory keep it, on one sequence of requests. Numbers are exact rationals, times are milliseconds of
one clock. What each of the two drops is the same as what it would have kept only if the bucket is
full again by then.
-/

namespace MobileMoney.IngestRateLimit

structure TokenBucketConfig where
  capacity : ℚ
  refillRate : ℚ
  keyTtlSeconds : ℤ
  deriving DecidableEq

structure BucketState where
  tokens : ℚ
  lastRefill : ℕ
  deriving DecidableEq

variable (cfg : TokenBucketConfig)

/-- Refill based on elapsed time, without the cap. -/
def uncapped (bucket : BucketState) (now : ℕ) : ℚ :=
  let elapsedSec := ((now : ℚ) - bucket.lastRefill) / 1000
  bucket.tokens + elapsedSec * cfg.refillRate

/-! ## Redis -/

/-- `TOKEN_BUCKET_SCRIPT`, on what `HMGET` finds. -/
def tokenBucketScript (data : Option BucketState) (nowMs : ℕ) : Bool × BucketState :=
  let tokens := min cfg.capacity (uncapped cfg (data.getD ⟨cfg.capacity, nowMs⟩) nowMs)
  if 1 ≤ tokens then (true, ⟨tokens - 1, nowMs⟩) else (false, ⟨tokens, nowMs⟩)

/-- The hash under the key, until it expires. -/
structure RedisKey where
  bucket : BucketState
  expiresAt : ℤ
  deriving DecidableEq

/-- `HSET` and `EXPIRE`. -/
def persist (bucket : BucketState) : RedisKey :=
  ⟨bucket, bucket.lastRefill + cfg.keyTtlSeconds * 1000⟩

/-- The key is still there; a time to live that is not positive deletes it at once. -/
def RedisKey.live (key : RedisKey) (now : ℕ) : Bool :=
  key.bucket.lastRefill < key.expiresAt && now ≤ key.expiresAt

/-! ## Memory -/

def fallbackConsume (state : Option BucketState) (now : ℕ) : Bool × BucketState :=
  match state with
  | none => (true, ⟨cfg.capacity - 1, now⟩)
  | some state =>
    let tokens := min cfg.capacity (uncapped cfg state now)
    if tokens < 1 then (false, ⟨tokens, now⟩) else (true, ⟨tokens - 1, now⟩)

/-- Five minutes idle. -/
def BucketState.idle (state : BucketState) (now : ℕ) : Bool :=
  let cutoff : ℤ := now - 5 * 60 * 1000
  state.lastRefill < cutoff

/-! ## Runs -/

/-- What both have decided on a request, and whether one of them had dropped the key before. -/
structure Decision where
  now : ℕ
  redis : Bool
  fallback : Bool
  dropped : Bool
  deriving DecidableEq

structure World where
  now : ℕ
  redis : Option RedisKey
  fallback : Option BucketState
  dropped : Bool
  decisions : List Decision

def World.init : World := ⟨0, none, none, false, []⟩

inductive Event where
  | elapse (ms : ℕ)
  | request
  | prune

def step (w : World) : Event → World
  | .elapse ms => { w with now := w.now + ms }
  | .request =>
    let found := w.redis.filter (·.live w.now)
    let dropped := w.dropped || (w.redis.isSome && found.isNone)
    let (redis, bucket) := tokenBucketScript cfg (found.map (·.bucket)) w.now
    let (fallback, state) := fallbackConsume cfg w.fallback w.now
    { w with
      redis := some (persist cfg bucket)
      fallback := some state
      dropped := dropped
      decisions := w.decisions ++ [⟨w.now, redis, fallback, dropped⟩] }
  | .prune =>
    if w.fallback.any (·.idle w.now) then { w with fallback := none, dropped := true } else w

/-- The times, in seconds, of the requests that were allowed. -/
def World.allowed (w : World) (who : Decision → Bool) : List ℚ :=
  (w.decisions.filter who).map fun d => (d.now : ℚ) / 1000

/-- The bound for either of the two, and that they agree until one of them has dropped the key. -/
structure Lawful (w : World) : Prop where
  redis : TokenBucket.Bounded cfg.capacity cfg.refillRate (w.allowed (·.redis))
  fallback : TokenBucket.Bounded cfg.capacity cfg.refillRate (w.allowed (·.fallback))
  agree : ∀ d ∈ w.decisions, d.dropped = false → d.redis = d.fallback

/-- The bucket has been filled again. -/
def Full (bucket : BucketState) (now : ℕ) : Prop := cfg.capacity ≤ uncapped cfg bucket now

instance (bucket : BucketState) (now : ℕ) : Decidable (Full cfg bucket now) :=
  inferInstanceAs (Decidable (_ ≤ _))

/-- What a request finds expired, and what is pruned, is a bucket that is full again. -/
def Careful (w : World) : Event → Prop
  | .elapse _ => True
  | .request => ∀ key ∈ w.redis, key.live w.now = false → Full cfg key.bucket w.now
  | .prune => ∀ state ∈ w.fallback, state.idle w.now = true → Full cfg state w.now

/-! ## Both keep the same level -/

open TokenBucket (Holds)

/-- What a request finds, a full bucket where there is none. -/
def level (data : Option BucketState) (now : ℕ) : ℚ :=
  min cfg.capacity (uncapped cfg (data.getD ⟨cfg.capacity, now⟩) now)

variable {cfg}

theorem uncapped_self (tokens : ℚ) (now : ℕ) : uncapped cfg ⟨tokens, now⟩ now = tokens := by
  simp [uncapped]

theorem level_none (now : ℕ) : level cfg none now = cfg.capacity := by
  simp [level, uncapped_self]

theorem level_of_full {bucket : BucketState} {now : ℕ} (full : Full cfg bucket now) :
    level cfg (some bucket) now = cfg.capacity :=
  min_eq_left full

theorem level_some_self {tokens : ℚ} (h : tokens ≤ cfg.capacity) (now : ℕ) :
    level cfg (some ⟨tokens, now⟩) now = tokens := by
  simpa [level, uncapped_self] using h

theorem level_elapse (hrate : 0 ≤ cfg.refillRate) (data : Option BucketState) (now ms : ℕ) :
    level cfg data (now + ms) =
      TokenBucket.refill cfg.capacity cfg.refillRate (level cfg data now)
        (((now + ms : ℕ) : ℚ) / 1000 - now / 1000) := by
  have elapsed : ((now + ms : ℕ) : ℚ) / 1000 - now / 1000 = ms / 1000 := by push_cast; ring
  have nonneg : (0 : ℚ) ≤ ms / 1000 := by positivity
  rw [elapsed]
  unfold level
  rw [TokenBucket.refill_min hrate nonneg]
  cases data with
  | none =>
    simp only [Option.getD_none, uncapped_self]
    exact (min_eq_left le_rfl).trans
      (min_eq_left (le_add_of_nonneg_right (mul_nonneg nonneg hrate))).symm
  | some bucket =>
    simp only [Option.getD_some, uncapped]
    push_cast
    ring_nf

/-- A request on a level. -/
def consume (tokens : ℚ) (now : ℕ) : Bool × BucketState :=
  if 1 ≤ tokens then (true, ⟨tokens - 1, now⟩) else (false, ⟨tokens, now⟩)

theorem tokenBucketScript_eq (data : Option BucketState) (now : ℕ) :
    tokenBucketScript cfg data now = consume (level cfg data now) now := rfl

/-- With room for a token the first request of the fallback is like any other. -/
theorem fallbackConsume_eq (hcapacity : 1 ≤ cfg.capacity) (state : Option BucketState) (now : ℕ) :
    fallbackConsume cfg state now = consume (level cfg state now) now := by
  cases state with
  | none => rw [level_none, consume, if_pos hcapacity, fallbackConsume]
  | some state =>
    have unfolded (tokens : ℚ) (h : tokens = level cfg (some state) now) :
        fallbackConsume cfg (some state) now =
          if tokens < 1 then (false, ⟨tokens, now⟩) else (true, ⟨tokens - 1, now⟩) := by
      subst h
      rfl
    rw [unfolded _ rfl, consume]
    by_cases h : 1 ≤ level cfg (some state) now
    · rw [if_pos h, if_neg (not_lt.2 h)]
    · rw [if_neg h, if_pos (not_le.1 h)]

section Consumption

variable {times : List ℚ} {tokens : ℚ} {now : ℕ}

theorem holds_consume (hrate : 0 ≤ cfg.refillRate)
    (holds : Holds cfg.capacity cfg.refillRate times tokens (now / 1000)) :
    Holds cfg.capacity cfg.refillRate
      (times ++ if (consume tokens now).1 then [(now : ℚ) / 1000] else [])
      (level cfg (some (consume tokens now).2) now) (now / 1000) := by
  unfold consume
  by_cases hlevel : 1 ≤ tokens
  · have spent := holds.spend hrate hlevel
    rw [if_pos hlevel, if_pos rfl, level_some_self spent.le_capacity]
    exact spent
  · rw [if_neg hlevel, if_neg Bool.false_ne_true, List.append_nil,
      level_some_self holds.le_capacity]
    exact holds

end Consumption

/-! ## Careful runs -/

/-- Each of the two holds what its own decisions have left, and both hold the same. -/
structure Inv (cfg : TokenBucketConfig) (w : World) : Prop where
  redis : Holds cfg.capacity cfg.refillRate (w.allowed (·.redis))
    (level cfg (w.redis.map (·.bucket)) w.now) (w.now / 1000)
  fallback : Holds cfg.capacity cfg.refillRate (w.allowed (·.fallback))
    (level cfg w.fallback w.now) (w.now / 1000)
  same : level cfg (w.redis.map (·.bucket)) w.now = level cfg w.fallback w.now
  agree : ∀ d ∈ w.decisions, d.redis = d.fallback

theorem inv_init (hrate : 0 ≤ cfg.refillRate) (hcapacity : 1 ≤ cfg.capacity) :
    Inv cfg World.init := by
  have full := TokenBucket.holds_full (zero_le_one.trans hcapacity) hrate (0 : ℚ)
  refine ⟨?_, ?_, rfl, by simp [World.init]⟩ <;>
    simpa [World.init, World.allowed, level_none] using full

theorem allowed_concat (w w' : World) (d : Decision) (who : Decision → Bool)
    (h : w'.decisions = w.decisions ++ [d]) :
    w'.allowed who = w.allowed who ++ if who d then [(d.now : ℚ) / 1000] else [] := by
  unfold World.allowed
  rw [h, List.filter_append, List.map_append]
  cases hd : who d <;> simp [hd]

theorem level_found {w : World} (careful : Careful cfg w .request) :
    level cfg ((w.redis.filter (·.live w.now)).map (·.bucket)) w.now =
      level cfg (w.redis.map (·.bucket)) w.now := by
  cases hredis : w.redis with
  | none => rfl
  | some key =>
    cases hlive : key.live w.now with
    | true =>
      have found : (some key).filter (·.live w.now) = some key :=
        Option.filter_eq_some_iff.2 ⟨rfl, hlive⟩
      rw [found]
    | false =>
      have found : (some key).filter (·.live w.now) = none := by simp [Option.filter, hlive]
      rw [found, Option.map_none, level_none, Option.map_some,
        level_of_full (careful key hredis hlive)]

theorem inv_step (hrate : 0 ≤ cfg.refillRate) (hcapacity : 1 ≤ cfg.capacity) (w : World)
    (e : Event) (inv : Inv cfg w) (careful : Careful cfg w e) : Inv cfg (step cfg w e) := by
  cases e with
  | elapse ms =>
    have later : (w.now : ℚ) / 1000 ≤ ((w.now + ms : ℕ) : ℚ) / 1000 := by
      push_cast
      gcongr
      simp
    have redis := inv.redis.refill hrate later
    have fallback := inv.fallback.refill hrate later
    rw [← level_elapse hrate] at redis fallback
    refine ⟨redis, fallback, ?_, inv.agree⟩
    simp only [step, level_elapse hrate, inv.same]
  | request =>
    have redis := holds_consume hrate inv.redis
    have fallback := holds_consume hrate inv.fallback
    have same := inv.same
    simp only [step, tokenBucketScript_eq, level_found careful, fallbackConsume_eq hcapacity]
    refine ⟨?_, ?_, ?_, ?_⟩
    · rw [allowed_concat w _ _ _ rfl]
      exact redis
    · rw [allowed_concat w _ _ _ rfl]
      exact fallback
    · simp [persist, same]
    · intro d hd
      rcases List.mem_append.1 hd with hd | hd
      · exact inv.agree d hd
      · obtain rfl := List.mem_singleton.1 hd
        simp [same]
  | prune =>
    cases hstate : w.fallback with
    | none => simpa [step, hstate] using inv
    | some state =>
      cases hidle : state.idle w.now with
      | false => simpa [step, hstate, hidle] using inv
      | true =>
        have pruned : step cfg w .prune = { w with fallback := none, dropped := true } := by
          simp [step, hstate, hidle]
        have empty : level cfg none w.now = level cfg w.fallback w.now := by
          rw [hstate, level_none, level_of_full (careful state hstate hidle)]
        rw [pruned]
        exact ⟨inv.redis, empty.symm ▸ inv.fallback, inv.same.trans empty.symm, inv.agree⟩

/-- On every sequence of requests at non-decreasing times: while nothing is dropped but buckets that
are full again, either limiter allows at most `capacity + refillRate * T` requests in any interval
of `T` seconds, and both decide alike. -/
theorem ingest_rate_bounded (cfg : TokenBucketConfig) (hrate : 0 ≤ cfg.refillRate)
    (hcapacity : 1 ≤ cfg.capacity) (es : List Event)
    (careful : Runs.Every (step cfg) (Careful cfg) World.init es) :
    Lawful cfg (es.foldl (step cfg) World.init) := by
  have inv := Runs.inv_foldl_of_every (Inv cfg) (inv_step hrate hcapacity)
    (inv_init hrate hcapacity) es careful
  exact ⟨inv.redis.bounded, inv.fallback.bounded, fun d hd _ => inv.agree d hd⟩

/-! ## Configurations under which every run is careful -/

/-- What is stored is not negative, and expires after the configured lifetime. -/
structure Stored (cfg : TokenBucketConfig) (w : World) : Prop where
  redis : ∀ key ∈ w.redis, 0 ≤ key.bucket.tokens ∧ key.bucket.lastRefill ≤ w.now ∧
    key = persist cfg key.bucket
  fallback : ∀ state ∈ w.fallback, 0 ≤ state.tokens ∧ state.lastRefill ≤ w.now

theorem full_of_idle {bucket : BucketState} {now : ℕ} {seconds : ℚ} (hrate : 0 ≤ cfg.refillRate)
    (htokens : 0 ≤ bucket.tokens) (idle : bucket.lastRefill + seconds * 1000 ≤ now)
    (hcapacity : cfg.capacity ≤ cfg.refillRate * seconds) : Full cfg bucket now := by
  have elapsed : seconds ≤ ((now : ℚ) - bucket.lastRefill) / 1000 := by linarith
  have gained := mul_le_mul_of_nonneg_left elapsed hrate
  unfold Full uncapped
  linarith

theorem careful_of_stored (hrate : 0 ≤ cfg.refillRate) (hcapacity : 1 ≤ cfg.capacity)
    (httl : cfg.capacity ≤ cfg.refillRate * cfg.keyTtlSeconds)
    (hcutoff : cfg.capacity ≤ cfg.refillRate * 300) {w : World} (stored : Stored cfg w)
    (e : Event) : Careful cfg w e := by
  cases e with
  | elapse ms => trivial
  | request =>
    intro key hkey hlive
    obtain ⟨htokens, -, hpersist⟩ := stored.redis key hkey
    have positive : 0 < cfg.keyTtlSeconds := by
      by_contra hnot
      have : (cfg.keyTtlSeconds : ℚ) ≤ 0 := by exact_mod_cast not_lt.1 hnot
      have := mul_nonneg hrate (neg_nonneg.2 this)
      linarith
    have expired : (key.bucket.lastRefill : ℤ) + cfg.keyTtlSeconds * 1000 < w.now := by
      have hexpires : key.expiresAt = key.bucket.lastRefill + cfg.keyTtlSeconds * 1000 := by
        rw [hpersist, persist]
      simp only [RedisKey.live, hexpires, Bool.and_eq_false_iff, decide_eq_false_iff_not] at hlive
      omega
    refine full_of_idle hrate htokens ?_ httl
    exact_mod_cast expired.le
  | prune =>
    intro state hstate hidle
    refine full_of_idle hrate (stored.fallback state hstate).1 ?_ hcutoff
    have expired : (state.lastRefill : ℤ) < w.now - 5 * 60 * 1000 := of_decide_eq_true hidle
    have expired : (state.lastRefill : ℤ) + 300 * 1000 ≤ w.now := by omega
    exact_mod_cast expired

theorem level_nonneg (hrate : 0 ≤ cfg.refillRate) (hcapacity : 1 ≤ cfg.capacity)
    {data : Option BucketState} {now : ℕ}
    (h : ∀ bucket ∈ data, 0 ≤ bucket.tokens ∧ bucket.lastRefill ≤ now) :
    0 ≤ level cfg data now := by
  cases data with
  | none =>
    rw [level_none]
    linarith
  | some bucket =>
    obtain ⟨htokens, hlast⟩ := h bucket rfl
    have elapsed : (0 : ℚ) ≤ ((now : ℚ) - bucket.lastRefill) / 1000 := by
      have : (bucket.lastRefill : ℚ) ≤ now := by exact_mod_cast hlast
      linarith
    have gained := mul_nonneg elapsed hrate
    simp only [level, uncapped, Option.getD_some]
    exact le_min (by linarith) (by linarith)

theorem consume_spec {tokens : ℚ} (h : 0 ≤ tokens) (now : ℕ) :
    0 ≤ (consume tokens now).2.tokens ∧ (consume tokens now).2.lastRefill = now := by
  unfold consume
  split_ifs with hlevel
  · exact ⟨sub_nonneg.2 hlevel, rfl⟩
  · exact ⟨h, rfl⟩

theorem stored_step (hrate : 0 ≤ cfg.refillRate) (hcapacity : 1 ≤ cfg.capacity) (w : World)
    (e : Event) (stored : Stored cfg w) : Stored cfg (step cfg w e) := by
  cases e with
  | elapse ms =>
    have later {n : ℕ} (h : n ≤ w.now) : n ≤ w.now + ms := h.trans (Nat.le_add_right _ _)
    refine ⟨fun key hkey => ?_, fun state hstate => ?_⟩
    · obtain ⟨htokens, hlast, hpersist⟩ := stored.redis key hkey
      exact ⟨htokens, later hlast, hpersist⟩
    · obtain ⟨htokens, hlast⟩ := stored.fallback state hstate
      exact ⟨htokens, later hlast⟩
  | request =>
    have found : ∀ bucket ∈ (w.redis.filter (·.live w.now)).map (·.bucket),
        0 ≤ bucket.tokens ∧ bucket.lastRefill ≤ w.now := by
      intro bucket hbucket
      obtain ⟨key, hkey, rfl⟩ := Option.mem_map.1 hbucket
      obtain ⟨htokens, hlast, -⟩ := stored.redis key (Option.mem_filter_iff.1 hkey).1
      exact ⟨htokens, hlast⟩
    have redis := consume_spec (level_nonneg hrate hcapacity found) w.now
    have fallback := consume_spec (level_nonneg hrate hcapacity stored.fallback) w.now
    simp only [step, tokenBucketScript_eq, fallbackConsume_eq hcapacity]
    refine ⟨?_, ?_⟩
    · rintro key ⟨⟩
      exact ⟨redis.1, redis.2.le, rfl⟩
    · rintro state ⟨⟩
      exact ⟨fallback.1, fallback.2.le⟩
  | prune =>
    simp only [step]
    split_ifs
    · exact ⟨stored.redis, by simp⟩
    · exact stored

/-- With a lifetime in which an empty bucket is filled, and a rate that fills it in the five minutes
of the fallback, every run is careful. -/
theorem careful_of_config (cfg : TokenBucketConfig) (hrate : 0 ≤ cfg.refillRate)
    (hcapacity : 1 ≤ cfg.capacity) (httl : cfg.capacity ≤ cfg.refillRate * cfg.keyTtlSeconds)
    (hcutoff : cfg.capacity ≤ cfg.refillRate * 300) (es : List Event) :
    Runs.Every (step cfg) (Careful cfg) World.init es :=
  Runs.Every.of_inv (Stored cfg) (stored_step hrate hcapacity)
    (fun _ e stored => careful_of_stored hrate hcapacity httl hcutoff stored e)
    ⟨by simp [World.init], by simp [World.init]⟩ es

/-! ## Examples -/

/-- The defaults of the environment. -/
def defaultConfig : TokenBucketConfig := ⟨100, 50, 120⟩

/-- Requests before and after the key has expired, and a pause after which the fallback is
pruned. -/
def pauses : List Event :=
  [.request, .request, .elapse 200000, .request, .elapse 400000, .prune, .request]

theorem default_bounded : Lawful defaultConfig (pauses.foldl (step defaultConfig) World.init) :=
  ingest_rate_bounded defaultConfig (by norm_num [defaultConfig]) (by norm_num [defaultConfig])
    pauses (careful_of_config defaultConfig (by norm_num [defaultConfig])
      (by norm_num [defaultConfig]) (by norm_num [defaultConfig]) (by norm_num [defaultConfig])
        pauses)

/-- A bucket of two tokens that is refilled in four seconds, and forgotten after one. -/
def forgetful : TokenBucketConfig := ⟨2, 1 / 2, 1⟩

def twoBursts : List Event := [.request, .request, .elapse 1001, .request, .request]

/-- Four requests in 1.001 seconds, where 2.5005 are allowed. -/
theorem two_bursts_pass :
    ¬ ∀ (cfg : TokenBucketConfig) (es : List Event),
      Lawful cfg (es.foldl (step cfg) World.init) := by
  intro law
  have bound := (law forgetful twoBursts).redis 0 (1001 / 1000) (by norm_num)
  have allowed : (twoBursts.foldl (step forgetful) World.init).allowed (·.redis) =
      [0, 0, 1001 / 1000, 1001 / 1000] := by
    norm_num [twoBursts, step, World.init, World.allowed, forgetful, tokenBucketScript, uncapped,
      persist, RedisKey.live, Option.filter]
  rw [allowed] at bound
  norm_num [TokenBucket.eventsIn, forgetful] at bound

end MobileMoney.IngestRateLimit
