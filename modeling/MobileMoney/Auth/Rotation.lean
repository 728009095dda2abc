import MobileMoney.Auth.Grace

/-!
# Runs of rotations and rollbacks

The steps after which the law still holds, and from them the runs that keep it.
-/

namespace MobileMoney.Auth

variable {env : Env} {s : Store} {w : World}

/-- Nothing in the store or on record is from the future. -/
structure Timed (s : Store) (now : ℕ) (held : List (SigningKey × ℕ)) : Prop where
  created : ∀ e ∈ s.keyStore.rows, e.createdAt ≤ now
  rotatedOut : ∀ e ∈ s.keyStore.rows, e.rotatedOutAt ≤ now
  held : ∀ k t, (k, t) ∈ held → t ≤ now

/-- The store can be used, and the law holds. -/
def Sound (env : Env) (w : World) : Prop :=
  Timed w.store w.now w.held ∧ Kept env w.store w.now w.held

/-- The conditions under which an event keeps the law. -/
def Harmless (env : Env) (w : World) : Event → Prop
  | .call (.setActiveVersion version) _ =>
    version = w.store.activeVersion ∨ w.store.keyStore.find? version = none ∨
      env.gracePeriodMs = 0 ∨ ∀ e₀, w.store.Active e₀ → e₀.deprecationTime = w.now
  | .call (.rotateKey newKey) _ => ∀ e ∈ w.store.keyStore.rows,
    e.version = w.store.newVersion → e.key = newKey ∨ ¬ Owed env w.record e.signingKey w.now
  | _ => True

/-! ## Times -/

theorem Timed.deprecationTime_le {now : ℕ} {held : List (SigningKey × ℕ)}
    (timed : Timed s now held) {e : KeyEntry} (he : e ∈ s.keyStore.rows) :
    e.deprecationTime ≤ now := by
  unfold KeyEntry.deprecationTime
  split_ifs
  · exact timed.created e he
  · exact timed.rotatedOut e he

theorem Timed.record (timed : Timed w.store w.now w.held) :
    Timed w.store w.now w.record := by
  refine ⟨timed.created, timed.rotatedOut, ?_⟩
  intro k t ht
  unfold World.record at ht
  split at ht
  · exact timed.held k t ht
  · rcases List.mem_cons.1 ht with heq | ht
    · exact (Prod.ext_iff.1 heq).2.le
    · exact timed.held k t ht

theorem Timed.later {now now' : ℕ} {held : List (SigningKey × ℕ)} (timed : Timed s now held)
    (h : now ≤ now') : Timed s now' held :=
  ⟨fun e he => (timed.created e he).trans h, fun e he => (timed.rotatedOut e he).trans h,
    fun k t ht => (timed.held k t ht).trans h⟩

theorem Timed.of_subset {s' : Store} {now : ℕ} {held : List (SigningKey × ℕ)}
    (timed : Timed s now held) (h : ∀ e ∈ s'.keyStore.rows, e ∈ s.keyStore.rows) :
    Timed s' now held :=
  ⟨fun e he => timed.created e (h e he), fun e he => timed.rotatedOut e (h e he), timed.held⟩

theorem le_deprecationTime_rotateOut {t now : ℕ} (h : t ≤ now) (e : KeyEntry) :
    t ≤ (e.rotateOut now).deprecationTime := by
  unfold KeyEntry.deprecationTime KeyEntry.rotateOut
  dsimp only
  split_ifs <;> omega

theorem deprecationTime_rotateOut_le {now : ℕ} {e : KeyEntry} (h : e.createdAt ≤ now) :
    (e.rotateOut now).deprecationTime ≤ now := by
  unfold KeyEntry.deprecationTime KeyEntry.rotateOut
  dsimp only
  split_ifs
  · exact h
  · exact le_rfl

/-! ## Rotation -/

theorem mem_rotated {now : ℕ} {newKey : String} {e : KeyEntry} :
    e ∈ (s.rotated now newKey).keyStore.rows ↔ e = ⟨s.newVersion, newKey, now, 0⟩ ∨
      ∃ a ∈ s.keyStore.rows, a.version ≠ s.newVersion ∧
        e = if a.version = s.activeVersion then a.rotateOut now else a := by
  simp only [Store.rotated, Keyed.mem_put, Keyed.mem_modify (KeyEntry.version_rotateOut now)]
  refine or_congr_right ?_
  constructor
  · rintro ⟨⟨a, ha, rfl⟩, hne⟩
    refine ⟨a, ha, ?_, rfl⟩
    split_ifs at hne
    · exact hne
    · exact hne
  · rintro ⟨a, ha, hne, rfl⟩
    refine ⟨⟨a, ha, rfl⟩, ?_⟩
    split_ifs
    · exact hne
    · exact hne

theorem active_rotated (now : ℕ) (newKey : String) :
    (s.rotated now newKey).Active ⟨s.newVersion, newKey, now, 0⟩ :=
  ⟨mem_rotated.2 (.inl rfl), rfl⟩

theorem timed_rotated {now : ℕ} {held : List (SigningKey × ℕ)} (timed : Timed s now held)
    (newKey : String) : Timed (s.rotated now newKey) now held := by
  refine ⟨?_, ?_, timed.held⟩
  · intro e he
    rcases mem_rotated.1 he with rfl | ⟨a, ha, -, rfl⟩
    · exact le_rfl
    · split_ifs
      · exact timed.created a ha
      · exact timed.created a ha
  · intro e he
    rcases mem_rotated.1 he with rfl | ⟨a, ha, -, rfl⟩
    · exact Nat.zero_le now
    · split_ifs
      · exact le_rfl
      · exact timed.rotatedOut a ha

/-- The demoted primary is stamped, so only an entry that the new one replaces can be lost. -/
theorem kept_rotated_iff (sound : Sound env w) (newKey : String) :
    Kept env (w.store.rotated w.now newKey) w.now w.record ↔
      ∀ e ∈ w.store.keyStore.rows, e.version = w.store.newVersion →
        e.key = newKey ∨ ¬ Owed env w.record e.signingKey w.now := by
  obtain ⟨timed, kept⟩ := sound
  obtain ⟨e₀, active⟩ := kept.active
  have recorded := kept.record
  constructor
  · rintro kept' e he hversion
    by_contra hlost
    push Not at hlost
    obtain ⟨hkey, t, ht, hyoung⟩ := hlost
    rcases kept'.retained _ t ht with hover | ⟨e', he', hsame, -⟩
    · omega
    have hversion' : e'.version = w.store.newVersion :=
      (congrArg SigningKey.kid hsame).trans hversion
    have hnew := (active_rotated (s := w.store) w.now newKey).eq he' hversion'
    rw [hnew] at hsame
    exact hkey (congrArg SigningKey.key hsame).symm
  · intro harmless
    refine ⟨⟨_, active_rotated w.now newKey⟩, ?_, ?_⟩
    · intro k t ht
      rcases recorded.retained k t ht with hover | ⟨e, he, rfl, hlate⟩
      · exact .inl hover
      by_cases hversion : e.version = w.store.newVersion
      · rcases harmless e he hversion with rfl | hover
        · refine .inr ⟨_, (active_rotated w.now e.key).1, ?_, .inl rfl⟩
          exact congrArg (SigningKey.mk e.key) hversion.symm
        · refine .inl ?_
          by_contra hyoung
          exact hover ⟨t, ht, by omega⟩
      · refine .inr ⟨_, mem_rotated.2 (.inr ⟨e, he, hversion, rfl⟩), ?_, .inr ?_⟩
        · split_ifs <;> rfl
        · split_ifs with hactive
          · exact le_deprecationTime_rotateOut (timed.record.held _ t ht) e
          · exact hlate.resolve_left hactive
    · rintro e he secondary ht
      rcases mem_rotated.1 he with rfl | ⟨a, ha, -, rfl⟩
      · exact absurd rfl secondary
      · split_ifs at ht ⊢ with hactive
        · refine .inr ⟨w.now, ?_, deprecationTime_rotateOut_le (timed.created a ha)⟩
          rw [active.eq ha hactive]
          exact (mem_record active).2 (.inl ⟨rfl, rfl⟩)
        · exact recorded.released a ha hactive ht

/-! ## Rollback -/

/-- The demoted primary keeps the deprecation time it had. -/
theorem kept_setActiveVersion_iff (sound : Sound env w) {version : String}
    (present : w.store.keyStore.find? version ≠ none) :
    Kept env { w.store with activeVersion := version } w.now w.record ↔
      version = w.store.activeVersion ∨ env.gracePeriodMs = 0 ∨
        ∀ e₀, w.store.Active e₀ → e₀.deprecationTime = w.now := by
  obtain ⟨timed, kept⟩ := sound
  obtain ⟨e₀, active⟩ := kept.active
  have recorded := kept.record
  have last : (e₀.signingKey, w.now) ∈ w.record := (mem_record active).2 (.inl ⟨rfl, rfl⟩)
  constructor
  · intro kept'
    by_cases hsame : version = w.store.activeVersion
    · exact .inl hsame
    rcases kept'.retained _ _ last with hover | ⟨e, he, hkey, hlate⟩
    · exact .inr (.inl (by omega))
    have hversion : e.version = w.store.activeVersion :=
      (congrArg SigningKey.kid hkey).trans active.2
    refine .inr (.inr ?_)
    intro e₁ active₁
    rw [← active₁.eq he hversion]
    have hdemoted : e.version ≠ version := fun h => hsame (h.symm.trans hversion)
    exact le_antisymm (timed.deprecationTime_le he) (hlate.resolve_left hdemoted)
  · intro harmless
    by_cases hsame : version = w.store.activeVersion
    · rw [hsame]
      exact recorded
    have harmless := harmless.resolve_left hsame
    obtain ⟨e₁, found⟩ := Option.ne_none_iff_exists'.1 present
    refine ⟨⟨e₁, Keyed.of_find? found⟩, ?_, ?_⟩
    · intro k t ht
      have htime := timed.record.held k t ht
      rcases recorded.retained k t ht with hover | ⟨e, he, hkey, hlate⟩
      · exact .inl hover
      rcases harmless with hgrace | hstamp
      · exact .inl (by omega)
      refine .inr ⟨e, he, hkey, .inr ?_⟩
      rcases hlate with hactive | hlate
      · rw [hstamp e ⟨he, hactive⟩]
        exact htime
      · exact hlate
    · intro e he secondary ht
      by_cases hactive : e.version = w.store.activeVersion
      · rw [active.eq he hactive]
        exact .inr ⟨w.now, last, timed.deprecationTime_le active.1⟩
      · exact recorded.released e he hactive ht

/-! ## One event -/

/-- What a call does to a store that has its primary. -/
theorem Call.run_of_active {e₀ : KeyEntry} (active : s.Active e₀) (now : ℕ) (random : String)
    (c : Call) : c.run env now random s = match c with
      | .rotateKey newKey => (Auth.deprecateExpiredKeys env now random (s.rotated now newKey)).1
      | .setActiveVersion version =>
        if s.keyStore.find? version = none then s else { s with activeVersion := version }
      | .getActiveSigningKey => s
      | .getVerificationKeys | .deprecateExpiredKeys =>
        (Auth.deprecateExpiredKeys env now random s).1 := by
  cases c with
  | rotateKey newKey => simp only [run, Auth.rotateKey, ready_of_active active]
  | setActiveVersion version =>
    simp only [run, Auth.setActiveVersion, ready_of_active active]
    split_ifs <;> rfl
  | getVerificationKeys =>
    simp only [run, Auth.getVerificationKeys, ready_of_active active]
    split_ifs <;> rfl
  | getActiveSigningKey => rw [run, getActiveSigningKey_of_active active]
  | deprecateExpiredKeys => rfl

theorem timed_deprecateExpiredKeys {e₀ : KeyEntry} (active : s.Active e₀) {now : ℕ}
    {held : List (SigningKey × ℕ)} (timed : Timed s now held) (random : String) :
    Timed (deprecateExpiredKeys env now random s).1 now held :=
  timed.of_subset fun _ he => ((mem_deprecateExpiredKeys active).1 he).1

theorem timed_step (sound : Sound env w) (e : Event) :
    Timed (w.step env e).store (w.step env e).now (w.step env e).held := by
  obtain ⟨e₀, active⟩ := sound.2.active
  have timed := sound.1.record
  cases e with
  | elapse ms => exact timed.later (Nat.le_add_right w.now ms)
  | call c random =>
    rw [World.step, Call.run_of_active active]
    cases c with
    | rotateKey newKey =>
      exact timed_deprecateExpiredKeys (active_rotated _ _) (timed_rotated timed newKey) random
    | setActiveVersion version =>
      refine timed.of_subset ?_
      intro e he
      dsimp only at he
      split_ifs at he <;> exact he
    | getActiveSigningKey => exact timed
    | getVerificationKeys | deprecateExpiredKeys =>
      exact timed_deprecateExpiredKeys active timed random

theorem active_step (sound : Sound env w) (e : Event) :
    ∃ e₀, (w.step env e).store.Active e₀ := by
  obtain ⟨e₀, active⟩ := sound.2.active
  cases e with
  | elapse ms => exact ⟨e₀, active⟩
  | call c random =>
    rw [World.step, Call.run_of_active active]
    cases c with
    | rotateKey newKey => exact ⟨_, active_deprecateExpiredKeys env (active_rotated _ _) _ _⟩
    | setActiveVersion version =>
      dsimp only
      split_ifs with absent
      · exact ⟨e₀, active⟩
      · obtain ⟨e₁, found⟩ := Option.ne_none_iff_exists'.1 absent
        exact ⟨e₁, Keyed.of_find? found⟩
    | getActiveSigningKey => exact ⟨e₀, active⟩
    | getVerificationKeys | deprecateExpiredKeys =>
      exact ⟨e₀, active_deprecateExpiredKeys env active _ _⟩

theorem kept_step_iff (sound : Sound env w) (e : Event) :
    Kept env (w.step env e).store (w.step env e).now (w.step env e).held ↔
      Harmless env w e := by
  obtain ⟨e₀, active⟩ := sound.2.active
  have recorded := sound.2.record
  cases e with
  | elapse ms =>
    exact ⟨fun _ => trivial, fun _ => recorded.later (Nat.le_add_right w.now ms)⟩
  | call c random =>
    rw [World.step, Call.run_of_active active]
    cases c with
    | rotateKey newKey =>
      rw [kept_deprecateExpiredKeys (active_rotated _ _)]
      exact kept_rotated_iff sound newKey
    | setActiveVersion version =>
      dsimp only
      by_cases absent : w.store.keyStore.find? version = none
      · rw [if_pos absent]
        exact ⟨fun _ => .inr (.inl absent), fun _ => recorded⟩
      · rw [if_neg absent, kept_setActiveVersion_iff sound absent]
        simp only [Harmless, absent, false_or]
    | getActiveSigningKey => exact ⟨fun _ => trivial, fun _ => recorded⟩
    | getVerificationKeys | deprecateExpiredKeys =>
      rw [kept_deprecateExpiredKeys active]
      exact ⟨fun _ => trivial, fun _ => recorded⟩

/-! ## Loading -/

/-- One of the two secrets gives a key with this version. -/
def Env.Configured (env : Env) (version : String) : Prop :=
  version ∈ env.jwtSecrets.map Prod.fst ∨
    version = defaultActiveVersion ∧ ∃ legacy ∈ env.jwtSecret, legacy ≠ ""

/-- The requested version is configured, or the default, or nothing at all. -/
def Env.HasPrimary (env : Env) : Prop :=
  env.Configured env.requestedVersion ∨ env.Configured defaultActiveVersion ∨
    ∀ version, ¬ env.Configured version

theorem exists_mem_put {keys : Keyed KeyEntry.version} {entry : KeyEntry} {version : String} :
    (∃ e ∈ (keys.put entry).rows, e.version = version) ↔
      version = entry.version ∨ ∃ e ∈ keys.rows, e.version = version := by
  simp only [Keyed.mem_put]
  by_cases h : version = entry.version <;> grind

theorem exists_mem_foldl_put (now : ℕ) (version : String) (secrets : List (String × String))
    (keys : Keyed KeyEntry.version) :
    (∃ e ∈ (secrets.foldl (fun keys (version, key) => keys.put ⟨version, key, now, 0⟩) keys).rows,
      e.version = version) ↔
        version ∈ secrets.map Prod.fst ∨ ∃ e ∈ keys.rows, e.version = version := by
  induction secrets generalizing keys with
  | nil => simp
  | cons secret secrets ih =>
    rw [List.foldl_cons, ih, exists_mem_put, List.map_cons, List.mem_cons]
    grind

theorem exists_mem_configuredKeys (env : Env) (now : ℕ) (version : String) :
    (∃ e ∈ (configuredKeys env now).rows, e.version = version) ↔ env.Configured version := by
  have parsed := fun version =>
    exists_mem_foldl_put now version env.jwtSecrets ⟨[], List.nodup_nil⟩
  simp only [List.not_mem_nil, false_and, exists_false, or_false] at parsed
  unfold configuredKeys Env.Configured
  cases hlegacy : env.jwtSecret with
  | none => simp [parsed]
  | some legacy =>
    dsimp only
    split_ifs with hused
    · rw [exists_mem_put, parsed]
      simp [hused.1, or_comm]
    · rw [parsed]
      constructor
      · exact .inl
      · rintro (h | ⟨rfl, legacy', heq, hne⟩)
        · exact h
        · obtain rfl := Option.some.inj heq
          rw [← parsed, ← Keyed.find?_ne_none]
          exact fun hnone => hused ⟨hne, hnone⟩

/-- The entries are as old as the store. -/
def New (now : ℕ) (keys : Keyed KeyEntry.version) : Prop :=
  ∀ e ∈ keys.rows, e.createdAt = now ∧ e.rotatedOutAt = 0

theorem New.put {now : ℕ} {keys : Keyed KeyEntry.version} (h : New now keys)
    (version key : String) : New now (keys.put ⟨version, key, now, 0⟩) := by
  intro e he
  rcases Keyed.mem_put.1 he with rfl | ⟨he, -⟩
  · exact ⟨rfl, rfl⟩
  · exact h e he

theorem new_foldl_put (now : ℕ) (secrets : List (String × String))
    (keys : Keyed KeyEntry.version) (h : New now keys) :
    New now (secrets.foldl (fun keys (version, key) => keys.put ⟨version, key, now, 0⟩) keys) := by
  induction secrets generalizing keys with
  | nil => exact h
  | cons secret secrets ih => exact ih _ (h.put secret.1 secret.2)

theorem new_initFromEnv (env : Env) (now : ℕ) (random : String) :
    New now (initFromEnv env now random).keyStore := by
  have parsed := new_foldl_put now env.jwtSecrets ⟨[], List.nodup_nil⟩
    (fun _ he => absurd he List.not_mem_nil)
  have configured : New now (configuredKeys env now) := by
    unfold configuredKeys
    cases env.jwtSecret with
    | none => exact parsed
    | some legacy =>
      dsimp only
      split_ifs
      · exact parsed.put _ _
      · exact parsed
  unfold initFromEnv
  dsimp only
  split_ifs
  · exact configured.put _ _
  · exact configured
  · exact configured

theorem initFromEnv_ne_nil (env : Env) (now : ℕ) (random : String) :
    (initFromEnv env now random).keyStore.rows ≠ [] := by
  unfold initFromEnv
  dsimp only
  split_ifs with hempty
  · exact List.ne_nil_of_mem (Keyed.mem_put.2 (.inl rfl))
  · exact hempty
  · exact hempty

theorem active_initFromEnv_iff (env : Env) (now : ℕ) (random : String) :
    (∃ e₀, (initFromEnv env now random).Active e₀) ↔ env.HasPrimary := by
  have configured := exists_mem_configuredKeys env now
  unfold initFromEnv Env.HasPrimary Store.Active
  dsimp only
  split_ifs with hempty hdefault
  · refine ⟨fun _ => .inr (.inr ?_), fun _ => ⟨_, Keyed.mem_put.2 (.inl rfl), rfl⟩⟩
    intro version h
    obtain ⟨e, he, -⟩ := (configured version).2 h
    rw [hempty] at he
    cases he
  · have hrequested : ¬ env.Configured env.requestedVersion := by
      rw [← configured, ← Keyed.find?_ne_none]
      exact fun h => h hdefault
    obtain ⟨e, he⟩ := List.exists_mem_of_ne_nil _ hempty
    have hsome : ¬ ∀ version, ¬ env.Configured version :=
      fun h => h e.version ((configured _).1 ⟨e, he, rfl⟩)
    simp only [configured, hrequested, hsome, false_or, or_false]
  · have hrequested := (configured _).1 (Keyed.find?_ne_none.1 hdefault)
    simp only [configured, hrequested, true_or]

theorem timed_load (env : Env) (now : ℕ) (random : String) :
    Timed (World.load env now random).store now [] := by
  have entries := new_initFromEnv env now random
  refine ⟨?_, ?_, ?_⟩
  · intro e he
    exact (entries e he).1.le
  · intro e he
    rw [(entries e he).2]
    exact Nat.zero_le now
  · intro k t ht
    cases ht

theorem sound_load_iff (env : Env) (now : ℕ) (random : String) :
    Sound env (World.load env now random) ↔ env.HasPrimary := by
  rw [← active_initFromEnv_iff env now random]
  constructor
  · exact fun sound => sound.2.active
  · intro active
    refine ⟨timed_load env now random, active, ?_, ?_⟩
    · intro k t ht
      cases ht
    · rintro e - - ⟨t, ht⟩
      cases ht

/-! ## Runs -/

/-- What is loaded without a primary breaks the law at once. -/
theorem hasPrimary_of_lawful {env : Env} {now : ℕ} {random : String}
    (lawful : Lawful env (World.load env now random)) : env.HasPrimary := by
  obtain ⟨k, -, hsigning, -⟩ := (lawful now random le_rfl).primary
  rw [← active_initFromEnv_iff env now random]
  have ready : (initFromEnv env now random).ready env now random = initFromEnv env now random :=
    if_neg (initFromEnv_ne_nil env now random)
  simp only [World.load, getActiveSigningKey, ready] at hsigning
  cases found : (initFromEnv env now random).keyStore.find?
      (initFromEnv env now random).activeVersion with
  | none =>
    rw [found] at hsigning
    cases hsigning
  | some e => exact ⟨e, Keyed.of_find? found⟩

/-- The reads of a run return every key for exactly the grace period after it was last primary,
and the primary first, exactly when the process is loaded with a primary, no rollback demotes
a key whose deprecation time is past, and no rotation replaces a key that is owed acceptance. -/
theorem grace_kept_iff (env : Env) (now : ℕ) (random : String) (events : List Event) :
    (∀ pre, pre <+: events →
      Lawful env (pre.foldl (World.step env) (World.load env now random))) ↔
        env.HasPrimary ∧
          Runs.Every (World.step env) (Harmless env) (World.load env now random) events := by
  by_cases loaded : env.HasPrimary
  · rw [and_iff_right loaded]
    refine Runs.forall_prefix_iff_every_of_inv (Lawful env) (Sound env)
      (fun w sound => lawful_of_kept sound.2) ?_ ?_ ((sound_load_iff env now random).2 loaded)
      events
    · intro w e sound harmless
      exact ⟨timed_step sound e, (kept_step_iff sound e).2 harmless⟩
    · intro w e sound lawful
      obtain ⟨e₀, active⟩ := active_step sound e
      exact (kept_step_iff sound e).1 (kept_of_lawful active lawful)
  · constructor
    · intro law
      exact absurd (hasPrimary_of_lawful (law [] List.nil_prefix)) loaded
    · exact fun h => absurd h.1 loaded

/-- A rollback ten hours after a rotation, with a grace period of a day. -/
def rollback : List Event :=
  [.elapse 30, .call (.rotateKey "second") "", .elapse 10, .call (.setActiveVersion "v1") ""]

/-- The key that the rollback demotes is no longer accepted fourteen hours later. -/
theorem demoted_key_rejected : ¬ ∀ (env : Env) (now : ℕ) (random : String)
    (events pre : List Event), pre <+: events →
      Lawful env (pre.foldl (World.step env) (World.load env now random)) := by
  intro law
  have lawful := law ⟨[], some "first", none, 24⟩ 0 "" rollback rollback List.prefix_rfl
  obtain ⟨keys, hkeys, hk⟩ := (lawful 54 "" (by decide +kernel)).grace ⟨"second", "v2"⟩
    ⟨40, by decide +kernel, by decide⟩
  have answer : (getVerificationKeys ⟨[], some "first", none, 24⟩ 54 ""
      (rollback.foldl (World.step ⟨[], some "first", none, 24⟩)
        (World.load ⟨[], some "first", none, 24⟩ 0 "")).store).2.toOption =
      some [⟨"first", "v1"⟩] := by
    decide +kernel
  rw [hkeys] at answer
  obtain rfl := Option.some.inj answer
  revert hk
  decide

end MobileMoney.Auth
