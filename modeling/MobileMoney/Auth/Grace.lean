import MobileMoney.Auth.Program
import MobileMoney.Library.Runs

/-!
# Grace after rotation

A key is owed acceptance for a grace period after every time at which it was primary. The
reads keep this law from a state on exactly when the primary is in the store, every key that
is owed is there with a late enough deprecation time, and no key there has a later one than it
is owed. Rotation keeps this unless its new version is in the store already; a change of the
primary by hand does not stamp the key it demotes.
-/

namespace MobileMoney.Auth

variable {env : Env} {s : Store} {w : World}

/-! ## The law -/

/-- The key was primary less than a grace period before `T`. -/
def Owed (env : Env) (held : List (SigningKey × ℕ)) (k : SigningKey) (T : ℕ) : Prop :=
  ∃ t, (k, t) ∈ held ∧ T < t + env.gracePeriodMs

/-- The reads at time `T`. -/
structure LawfulAt (env : Env) (w : World) (T : ℕ) (random : String) : Prop where
  grace : ∀ k, Owed env w.record k T →
    ∃ keys, (getVerificationKeys env T random w.store).2 = .ok keys ∧ k ∈ keys
  expiry : ∀ keys, (getVerificationKeys env T random w.store).2 = .ok keys → ∀ k ∈ keys,
    (∃ t, (k, t) ∈ w.record) → (getActiveSigningKey env T random w.store).2 ≠ .ok k →
    Owed env w.record k T
  primary : ∃ k rest, (getActiveSigningKey env T random w.store).2 = .ok k ∧
    (getVerificationKeys env T random w.store).2 = .ok (k :: rest)

/-- The reads now and at any later time, as long as nothing else is called. -/
def Lawful (env : Env) (w : World) : Prop :=
  ∀ T random, w.now ≤ T → LawfulAt env w T random

/-! ## What the functions do when the primary is in the store -/

/-- The entry of the primary. -/
def Store.Active (s : Store) (entry : KeyEntry) : Prop :=
  entry ∈ s.keyStore.rows ∧ entry.version = s.activeVersion

theorem active_iff_find? {entry : KeyEntry} :
    s.Active entry ↔ s.keyStore.find? s.activeVersion = some entry := by
  constructor
  · rintro ⟨hmem, hversion⟩
    rw [← hversion]
    exact Keyed.find?_of_mem hmem
  · exact Keyed.of_find?

theorem Store.Active.eq {e₀ e : KeyEntry} (active : s.Active e₀) (he : e ∈ s.keyStore.rows)
    (h : e.version = s.activeVersion) : e = e₀ :=
  s.keyStore.eq_of_mem he active.1 (h.trans active.2.symm)

theorem ready_of_active {e₀ : KeyEntry} (active : s.Active e₀) (now : ℕ) (random : String) :
    s.ready env now random = s :=
  if_neg (List.ne_nil_of_mem active.1)

theorem primary?_of_active {e₀ : KeyEntry} (active : s.Active e₀) :
    s.primary? = some e₀.signingKey := by
  rw [Store.primary?, active_iff_find?.1 active, Option.map_some]

theorem mem_record {e₀ : KeyEntry} (active : w.store.Active e₀) {k : SigningKey} {t : ℕ} :
    (k, t) ∈ w.record ↔ (k = e₀.signingKey ∧ t = w.now) ∨ (k, t) ∈ w.held := by
  simp [World.record, primary?_of_active active]

/-- The keys of expired entries go, and nothing else. -/
theorem mem_deprecateExpiredKeys {e₀ : KeyEntry} (active : s.Active e₀) {now : ℕ}
    {random : String} {e : KeyEntry} :
    e ∈ (deprecateExpiredKeys env now random s).1.keyStore.rows ↔
      e ∈ s.keyStore.rows ∧ ¬ s.Expired env now e := by
  simp only [deprecateExpiredKeys, ready_of_active active, Keyed.mem_foldl_erase, List.mem_map,
    List.mem_filter, decide_eq_true_eq]
  constructor
  · rintro ⟨he, kept⟩
    exact ⟨he, fun hexpired => kept ⟨e, ⟨he, hexpired⟩, rfl⟩⟩
  · rintro ⟨he, kept⟩
    refine ⟨he, ?_⟩
    rintro ⟨e', ⟨he', hexpired⟩, hversion⟩
    rw [s.keyStore.eq_of_mem he' he hversion] at hexpired
    exact kept hexpired

variable (env) in
theorem activeVersion_deprecateExpiredKeys {e₀ : KeyEntry} (active : s.Active e₀)
    (now : ℕ) (random : String) :
    (deprecateExpiredKeys env now random s).1.activeVersion = s.activeVersion := by
  simp only [deprecateExpiredKeys, ready_of_active active]

variable (env) in
theorem active_deprecateExpiredKeys {e₀ : KeyEntry} (active : s.Active e₀) (now : ℕ)
    (random : String) : (deprecateExpiredKeys env now random s).1.Active e₀ :=
  ⟨(mem_deprecateExpiredKeys active).2 ⟨active.1, fun h => h.1 active.2⟩,
    active.2.trans (activeVersion_deprecateExpiredKeys env active now random).symm⟩

theorem getActiveSigningKey_of_active {e₀ : KeyEntry} (active : s.Active e₀) (now : ℕ)
    (random : String) : getActiveSigningKey env now random s = (s, .ok e₀.signingKey) := by
  simp only [getActiveSigningKey, ready_of_active active, active_iff_find?.1 active]

/-! ## The answer of `getVerificationKeys` -/

theorem mem_results {now : ℕ} {k : SigningKey} : k ∈ s.results env now ↔
    ∃ e ∈ s.keyStore.rows, e.signingKey = k ∧
      (e.version = s.activeVersion ∨ now < e.deprecationTime + env.gracePeriodMs) := by
  simp only [Store.results, List.mem_map, List.mem_filter, decide_eq_true_eq]
  grind

variable (env) in
/-- The sort puts the primary first. -/
theorem insertionSort_before {e₀ : KeyEntry} (active : s.Active e₀) (now : ℕ) :
    ∃ rest, (s.results env now).insertionSort s.Before = e₀.signingKey :: rest := by
  have total : Std.Total s.Before := ⟨fun a b => by
    by_cases ha : a.kid = s.activeVersion
    · exact .inl fun _ => ha
    · exact .inr fun h => absurd h ha⟩
  have trans : IsTrans SigningKey s.Before := ⟨fun a b c hab hbc h => hab (hbc h)⟩
  have present : e₀.signingKey ∈ (s.results env now).insertionSort s.Before :=
    (List.mem_insertionSort _).2 (mem_results.2 ⟨e₀, active.1, rfl, .inl active.2⟩)
  have sorted := List.pairwise_insertionSort s.Before (s.results env now)
  cases h : (s.results env now).insertionSort s.Before with
  | nil =>
    rw [h] at present
    cases present
  | cons k rest =>
    rw [h] at present sorted
    have hkid : k.kid = s.activeVersion := by
      rcases List.mem_cons.1 present with rfl | hrest
      · exact active.2
      · exact (List.pairwise_cons.1 sorted).1 _ hrest active.2
    have hmem : k ∈ s.results env now := by
      rw [← List.mem_insertionSort s.Before, h]
      exact List.mem_cons_self
    obtain ⟨e, he, rfl, -⟩ := mem_results.1 hmem
    rw [active.eq he hkid]
    exact ⟨rest, rfl⟩

variable (env) in
/-- The primary comes first; of the other keys those are returned whose grace window, counted
from their deprecation time, has not ended. -/
theorem getVerificationKeys_of_active {e₀ : KeyEntry} (active : s.Active e₀) (now : ℕ)
    (random : String) : ∃ rest,
      (getVerificationKeys env now random s).2 = .ok (e₀.signingKey :: rest) ∧
      ∀ k, k ∈ e₀.signingKey :: rest ↔ ∃ e ∈ s.keyStore.rows, e.signingKey = k ∧
        (e.version = s.activeVersion ∨ now < e.deprecationTime + env.gracePeriodMs) := by
  have active' := active_deprecateExpiredKeys env active now random
  obtain ⟨rest, hsort⟩ := insertionSort_before env active' now
  have nonempty : (deprecateExpiredKeys env now random s).1.results env now ≠ [] := by
    intro h
    rw [h] at hsort
    cases hsort
  refine ⟨rest, ?_, ?_⟩
  · simp only [getVerificationKeys, ready_of_active active, if_neg nonempty, hsort]
  · intro k
    rw [← hsort, List.mem_insertionSort, mem_results,
      activeVersion_deprecateExpiredKeys env active]
    constructor
    · rintro ⟨e, he, hk, hvalid⟩
      exact ⟨e, ((mem_deprecateExpiredKeys active).1 he).1, hk, hvalid⟩
    · rintro ⟨e, he, hk, hvalid⟩
      refine ⟨e, (mem_deprecateExpiredKeys active).2 ⟨he, ?_⟩, hk, hvalid⟩
      rintro ⟨hne, hold⟩
      rcases hvalid with hactive | hyoung
      · exact hne hactive
      · omega

/-! ## The law as a property of the state -/

/-- What was primary at time `t` is in the store and does not expire before `t + G`, unless
its time is over; what was primary and is in the store expires by then. -/
structure Kept (env : Env) (s : Store) (now : ℕ) (held : List (SigningKey × ℕ)) : Prop where
  active : ∃ e₀, s.Active e₀
  retained : ∀ k t, (k, t) ∈ held → t + env.gracePeriodMs ≤ now ∨
    ∃ e ∈ s.keyStore.rows, e.signingKey = k ∧
      (e.version = s.activeVersion ∨ t ≤ e.deprecationTime)
  released : ∀ e ∈ s.keyStore.rows, e.version ≠ s.activeVersion →
    (∃ t, (e.signingKey, t) ∈ held) → e.deprecationTime + env.gracePeriodMs ≤ now ∨
      ∃ t, (e.signingKey, t) ∈ held ∧ e.deprecationTime ≤ t

theorem signingKey_ne {e₀ e : KeyEntry} (active : s.Active e₀)
    (h : e.version ≠ s.activeVersion) : e.signingKey ≠ e₀.signingKey := by
  intro heq
  exact h ((congrArg SigningKey.kid heq).trans active.2)

theorem lawful_of_kept (kept : Kept env w.store w.now w.held) : Lawful env w := by
  intro T random hT
  obtain ⟨e₀, active⟩ := kept.active
  obtain ⟨rest, hkeys, hmem⟩ := getVerificationKeys_of_active env active T random
  have hsigning : (getActiveSigningKey env T random w.store).2 = .ok e₀.signingKey := by
    rw [getActiveSigningKey_of_active active]
  refine ⟨?_, ?_, ⟨e₀.signingKey, rest, hsigning, hkeys⟩⟩
  · rintro k ⟨t, ht, hT'⟩
    refine ⟨_, hkeys, ?_⟩
    rcases (mem_record active).1 ht with ⟨rfl, -⟩ | ht
    · exact List.mem_cons_self
    · rcases kept.retained k t ht with hover | ⟨e, he, hk, hlate⟩
      · omega
      · refine (hmem k).2 ⟨e, he, hk, hlate.imp_right ?_⟩
        intro hlate
        omega
  · rintro keys hkeys' k hk ⟨t, ht⟩ hne
    obtain rfl := Except.ok.inj (hkeys.symm.trans hkeys')
    obtain ⟨e, he, rfl, hvalid⟩ := (hmem k).1 hk
    have secondary : e.version ≠ w.store.activeVersion := by
      intro h
      rw [active.eq he h] at hne
      exact hne hsigning
    have hheld : (e.signingKey, t) ∈ w.held :=
      ((mem_record active).1 ht).resolve_left fun h => signingKey_ne active secondary h.1
    have hyoung := hvalid.resolve_left secondary
    rcases kept.released e he secondary ⟨t, hheld⟩ with hover | ⟨t', ht', hlate⟩
    · omega
    · exact ⟨t', (mem_record active).2 (.inr ht'), by omega⟩

/-- A key that is due longest is asked for at the last moment. -/
theorem kept_of_lawful {e₀ : KeyEntry} (active : w.store.Active e₀) (lawful : Lawful env w) :
    Kept env w.store w.now w.held := by
  refine ⟨⟨e₀, active⟩, ?_, ?_⟩
  · intro k t ht
    by_cases hover : t + env.gracePeriodMs ≤ w.now
    · exact .inl hover
    have hlaw := lawful (t + env.gracePeriodMs - 1) "" (by omega)
    obtain ⟨keys, hkeys, hk⟩ := hlaw.grace k ⟨t, (mem_record active).2 (.inr ht), by omega⟩
    obtain ⟨rest, hkeys', hmem⟩ :=
      getVerificationKeys_of_active env active (t + env.gracePeriodMs - 1) ""
    obtain rfl := Except.ok.inj (hkeys'.symm.trans hkeys)
    obtain ⟨e, he, hek, hvalid⟩ := (hmem k).1 hk
    refine .inr ⟨e, he, hek, hvalid.imp_right ?_⟩
    intro hyoung
    omega
  · rintro e he secondary ⟨t, ht⟩
    by_cases hover : e.deprecationTime + env.gracePeriodMs ≤ w.now
    · exact .inl hover
    have hlaw := lawful (e.deprecationTime + env.gracePeriodMs - 1) "" (by omega)
    obtain ⟨rest, hkeys, hmem⟩ := getVerificationKeys_of_active env active
      (e.deprecationTime + env.gracePeriodMs - 1) ""
    have hreturned := (hmem e.signingKey).2 ⟨e, he, rfl, .inr (by omega)⟩
    have other : (getActiveSigningKey env (e.deprecationTime + env.gracePeriodMs - 1) ""
        w.store).2 ≠ .ok e.signingKey := by
      rw [getActiveSigningKey_of_active active]
      intro h
      exact signingKey_ne active secondary (Except.ok.inj h).symm
    obtain ⟨t', ht', hT⟩ := hlaw.expiry _ hkeys _ hreturned
      ⟨t, (mem_record active).2 (.inr ht)⟩ other
    have hheld := ((mem_record active).1 ht').resolve_left fun h =>
      signingKey_ne active secondary h.1
    exact .inr ⟨t', hheld, by omega⟩

/-! ## What the calls do to it -/

/-- Time passes. -/
theorem Kept.later {now now' : ℕ} {held : List (SigningKey × ℕ)} (kept : Kept env s now held)
    (h : now ≤ now') : Kept env s now' held :=
  ⟨kept.active, fun k t ht => (kept.retained k t ht).imp_left fun hover => hover.trans h,
    fun e he secondary ht => (kept.released e he secondary ht).imp_left fun hover =>
      hover.trans h⟩

/-- The present primary joins the record. -/
theorem Kept.record (kept : Kept env w.store w.now w.held) :
    Kept env w.store w.now w.record := by
  obtain ⟨e₀, active⟩ := kept.active
  refine ⟨kept.active, ?_, ?_⟩
  · intro k t ht
    rcases (mem_record active).1 ht with ⟨rfl, -⟩ | ht
    · exact .inr ⟨e₀, active.1, rfl, .inl active.2⟩
    · exact kept.retained k t ht
  · rintro e he secondary ⟨t, ht⟩
    have hheld := ((mem_record active).1 ht).resolve_left fun h =>
      signingKey_ne active secondary h.1
    refine (kept.released e he secondary ⟨t, hheld⟩).imp_right ?_
    rintro ⟨t', ht', hlate⟩
    exact ⟨t', (mem_record active).2 (.inr ht'), hlate⟩

/-- Only keys that are owed nothing expire. -/
theorem kept_deprecateExpiredKeys {e₀ : KeyEntry} (active : s.Active e₀) {now : ℕ}
    {random : String} {held : List (SigningKey × ℕ)} :
    Kept env (deprecateExpiredKeys env now random s).1 now held ↔ Kept env s now held := by
  have hversion := activeVersion_deprecateExpiredKeys env active now random
  constructor
  · intro kept
    refine ⟨⟨e₀, active⟩, ?_, ?_⟩
    · intro k t ht
      refine (kept.retained k t ht).imp_right ?_
      rintro ⟨e, he, hk, hlate⟩
      rw [hversion] at hlate
      exact ⟨e, ((mem_deprecateExpiredKeys active).1 he).1, hk, hlate⟩
    · intro e he secondary ht
      by_cases hexpired : s.Expired env now e
      · exact .inl hexpired.2
      · exact kept.released e ((mem_deprecateExpiredKeys active).2 ⟨he, hexpired⟩)
          (hversion ▸ secondary) ht
  · intro kept
    refine ⟨⟨e₀, active_deprecateExpiredKeys env active now random⟩, ?_, ?_⟩
    · intro k t ht
      rcases kept.retained k t ht with hover | ⟨e, he, hk, hlate⟩
      · exact .inl hover
      by_cases hexpired : s.Expired env now e
      · have := hlate.resolve_left hexpired.1
        have := hexpired.2
        exact .inl (by omega)
      · exact .inr ⟨e, (mem_deprecateExpiredKeys active).2 ⟨he, hexpired⟩, hk, hversion ▸ hlate⟩
    · intro e he secondary ht
      exact kept.released e ((mem_deprecateExpiredKeys active).1 he).1 (hversion ▸ secondary) ht

end MobileMoney.Auth
