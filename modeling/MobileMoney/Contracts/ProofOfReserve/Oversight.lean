import MobileMoney.Contracts.ProofOfReserve.Program
import MobileMoney.Library.Runs

/-!
# How the storage of the proof-of-reserve contract changes

A successful call initialises the contract, replaces the latest attestation, schedules or
executes a change of the freshness window, or changes nothing. The latest attestation
always carries a quorum of the auditors, which are never replaced.

The latest attestation goes back to a submission that its signers authorised, and a
freshness window to a schedule that has waited out the timelock and has been neither
overwritten nor executed meanwhile.
-/

namespace MobileMoney.ProofOfReserve

open Soroban MachineInt

variable {A : Type} [DecidableEq A] {contract : A} {env : Invocation A contract}

/-- What the signature loop ensures: distinct auditors, all of whom authorised. -/
structure Signed (env : Invocation A contract) (auditors signers valid : List A) : Prop where
  nodup : valid.Nodup
  auditor : ∀ a ∈ valid, a ∈ auditors
  authorised : ∀ a ∈ valid, env.authorised a = true
  listed : ∀ a ∈ valid, a ∈ signers

theorem collectSigners_eq_ok {auditors seen signers valid collected : List A}
    (signed : Signed env auditors seen valid)
    (h : collectSigners env auditors signers valid = .ok collected) :
    Signed env auditors (seen ++ signers) collected := by
  induction signers generalizing seen valid with
  | nil =>
    cases h
    simpa using signed
  | cons signer rest ih =>
    simp only [collectSigners, bind_eq_ok, require_eq_ok, exists_const] at h
    obtain ⟨hauditor, h⟩ := h
    have later : ∀ {valid' : List A}, Signed env auditors (seen ++ [signer]) valid' →
        collectSigners env auditors rest valid' = .ok collected →
        Signed env auditors (seen ++ signer :: rest) collected := by
      intro valid' signed' h'
      simpa using ih signed' h'
    split_ifs at h with hseen
    · refine later ⟨signed.nodup, signed.auditor, signed.authorised, ?_⟩ h
      exact fun a ha => List.mem_append_left _ (signed.listed a ha)
    · simp only [bind_eq_ok, Invocation.requireAuth_eq_ok, exists_const] at h
      obtain ⟨hauth, h⟩ := h
      refine later ⟨?_, ?_, ?_, ?_⟩ h
      · exact List.Nodup.append signed.nodup (List.nodup_singleton _) (by simpa using hseen)
      · grind [signed.auditor]
      · grind [signed.authorised]
      · grind [signed.listed]

/-- What a call of `schedule_freshness_update` leaves pending. -/
def scheduled (newMaxAgeSeconds now : ℕ) : PendingFreshnessUpdate :=
  ⟨newMaxAgeSeconds, (u64.saturatingAdd now freshnessUpdateTimelockSeconds).toNat⟩

/-- What a successful call of `op` can do to the storage. -/
inductive Change (env : Invocation A contract) (op : Operation A) (s s' : Storage A) : Prop where
  | idle (same : s' = s) (isRead : op ≠ .executeFreshnessUpdate ∧
      ∀ newMaxAgeSeconds, op ≠ .scheduleFreshnessUpdate newMaxAgeSeconds)
  | initialised (admin : A) (auditors : List A) (requiredSignatures : ℕ)
      (asked : op = .initializeReserve admin auditors requiredSignatures)
      (vacant : s.admin = none)
      (result : s' = { s with
        admin := some admin
        auditors := some auditors
        requiredSignatures := some requiredSignatures
        maxAge := some maxAttestationAgeSeconds })
  | attested (onChainSupply reserveBalance : ℤ) (signers auditors valid : List A) (required : ℕ)
      (asked : op = .submitAttestation onChainSupply reserveBalance signers)
      (roster : s.auditors = some auditors) (threshold : s.requiredSignatures = some required)
      (signed : Signed env auditors signers valid) (enough : required ≤ valid.length)
      (result : s' = { s with
        latest := some ⟨onChainSupply, reserveBalance, env.timestamp, valid⟩ })
  | scheduled (newMaxAgeSeconds : ℕ) (asked : op = .scheduleFreshnessUpdate newMaxAgeSeconds)
      (initialised : s.admin ≠ none)
      (result : s' = { s with
        pendingMaxAge := some (scheduled newMaxAgeSeconds env.timestamp) })
  | executed (pending : PendingFreshnessUpdate) (asked : op = .executeFreshnessUpdate)
      (found : s.pendingMaxAge = some pending) (due : pending.executableAt ≤ env.timestamp)
      (result : s' = { s with
        maxAge := some pending.newMaxAgeSeconds, pendingMaxAge := none })

theorem invoke_change {op : Operation A} {w w' : ReserveWorld A}
    (h : invoke env op w = .ok w') : Change env op w.storage w'.storage := by
  cases op with
  | initializeReserve admin auditors requiredSignatures =>
    simp only [invoke, initializeReserve, bind_eq_ok, require_eq_ok, pure_eq_ok,
      exists_const] at h
    obtain ⟨hvacant, -, _, -, rfl⟩ := h
    exact .initialised admin auditors requiredSignatures rfl (by simpa using hvacant) rfl
  | submitAttestation onChainSupply reserveBalance signers =>
    simp only [invoke, submitAttestation, getAuditors, bind_eq_ok, require_eq_ok, orFail_eq_ok,
      pure_eq_ok, exists_const] at h
    obtain ⟨-, auditors, hauditors, required, hrequired, valid, hcollect, henough, rfl⟩ := h
    have signed := collectSigners_eq_ok
      (⟨List.nodup_nil, by simp, by simp, by simp⟩ : Signed env auditors [] []) hcollect
    exact .attested onChainSupply reserveBalance signers auditors valid required rfl hauditors
      hrequired (by simpa using signed) (not_lt.1 henough) rfl
  | scheduleFreshnessUpdate newMaxAgeSeconds =>
    simp only [invoke, scheduleFreshnessUpdate, getAdmin, bind_eq_ok, orFail_eq_ok,
      pure_eq_ok] at h
    obtain ⟨admin, hadmin, _, -, _, -, rfl⟩ := h
    exact .scheduled newMaxAgeSeconds rfl (by simp [hadmin]) rfl
  | executeFreshnessUpdate =>
    simp only [invoke, executeFreshnessUpdate, bind_eq_ok, require_eq_ok, orFail_eq_ok,
      pure_eq_ok, exists_const] at h
    obtain ⟨_, -, _, -, pending, hpending, hdue, rfl⟩ := h
    exact .executed pending rfl hpending (not_lt.1 hdue) rfl
  | latestAttestation | isFullyBacked | reserveRatioBps =>
    obtain ⟨_, -, rfl⟩ := map_eq_ok.1 h
    exact .idle rfl (by simp)

/-! ## The invariant -/

/-- The latest attestation carries a quorum of the auditors, and nothing is stored before
the contract is initialised. -/
structure Attested (s : Storage A) : Prop where
  vacant : s.admin = none →
    s.auditors = none ∧ s.latest = none ∧ s.maxAge = none ∧ s.pendingMaxAge = none
  quorum : ∀ attestation, s.latest = some attestation → ∃ auditors required,
    s.auditors = some auditors ∧ s.requiredSignatures = some required ∧
    attestation.signers.Nodup ∧ (∀ a ∈ attestation.signers, a ∈ auditors) ∧
    required ≤ attestation.signers.length

omit [DecidableEq A] in
theorem deployed_attested (balances : A → A → ℤ) :
    Attested (deployed balances).storage where
  vacant _ := ⟨rfl, rfl, rfl, rfl⟩
  quorum _ h := by cases h

omit [DecidableEq A] in
theorem Change.attested_kept {op : Operation A} {s s' : Storage A} (hs : Attested s)
    (h : Change env op s s') : Attested s' := by
  obtain ⟨vacant, quorum⟩ := hs
  cases h with
  | idle same isRead => exact same ▸ ⟨vacant, quorum⟩
  | initialised admin auditors requiredSignatures asked hvacant result =>
    have empty := (vacant hvacant).2.1
    subst result
    exact ⟨by simp, by simp [empty]⟩
  | attested onChainSupply reserveBalance signers auditors valid required asked roster threshold
      signed enough result =>
    subst result
    refine ⟨?_, ?_⟩
    · intro hnone
      have := (vacant hnone).1
      simp [roster] at this
    · rintro attestation ⟨⟩
      exact ⟨auditors, required, roster, threshold, signed.nodup, signed.auditor, enough⟩
  | scheduled newMaxAgeSeconds asked initialised result =>
    subst result
    exact ⟨fun hnone => absurd hnone initialised, quorum⟩
  | executed pending asked found due result =>
    subst result
    refine ⟨?_, quorum⟩
    intro hnone
    have := (vacant hnone).2.2.2
    simp [found] at this

theorem attested_invariant :
    Invariant (@invoke A contract _) fun w : ReserveWorld A => Attested w.storage where
  outside _ hw _ := hw
  call _ _ _ _ hw h := (invoke_change h).attested_kept hw

/-- A step changes the storage only by a call that succeeded. -/
theorem step_change (w : ReserveWorld A) (e : Event A contract (Operation A)) :
    (step invoke w e).storage = w.storage ∨ ∃ env op w', e = .call env op ∧
      invoke env op w = .ok w' ∧ step invoke w e = w' ∧ Change env op w.storage w'.storage := by
  cases e with
  | outside move => exact .inl rfl
  | call env op =>
    unfold step
    dsimp only
    split
    · next w' h => exact .inr ⟨env, op, w', rfl, h, rfl, invoke_change h⟩
    · exact .inl rfl

/-! ## Auditors and timelock over whole runs -/

/-- A successful call that schedules or executes a change of the freshness window. -/
def Settles (w : ReserveWorld A) (e : Event A contract (Operation A)) : Prop :=
  ∃ env op w', e = .call env op ∧ invoke env op w = .ok w' ∧
    (op = .executeFreshnessUpdate ∨
      ∃ newMaxAgeSeconds, op = .scheduleFreshnessUpdate newMaxAgeSeconds)

/-- What is pending was scheduled by the last call that has settled anything. -/
theorem pending_last (balances : A → A → ℤ) (es : List (Event A contract (Operation A)))
    {pending : PendingFreshnessUpdate}
    (found : (run invoke (deployed balances) es).storage.pendingMaxAge = some pending) :
    ∃ pre env newMaxAgeSeconds mid,
      es = pre ++ Event.call env (.scheduleFreshnessUpdate newMaxAgeSeconds) :: mid ∧
      pending = scheduled newMaxAgeSeconds env.timestamp ∧
      Settles (run invoke (deployed balances) pre)
        (.call env (.scheduleFreshnessUpdate newMaxAgeSeconds)) ∧
      ∀ mid₁ e mid₂, mid = mid₁ ++ e :: mid₂ → ¬ Settles (run invoke (deployed balances)
        (pre ++ Event.call env (.scheduleFreshnessUpdate newMaxAgeSeconds) :: mid₁)) e := by
  have only : ∀ (w : ReserveWorld A) (e : Event A contract (Operation A)),
      (step invoke w e).storage.pendingMaxAge = some pending →
      ¬ w.storage.pendingMaxAge = some pending → Settles w e := by
    intro w e hafter hbefore
    rcases step_change w e with same | ⟨env, op, w', rfl, hok, hstep, change⟩
    · exact absurd (same ▸ hafter) hbefore
    · rw [hstep] at hafter
      refine ⟨env, op, w', rfl, hok, ?_⟩
      cases change <;> grind
  obtain ⟨pre, e, mid, rfl, settles, hsince, hnone⟩ := Runs.exists_last
    (fun w : ReserveWorld A => w.storage.pendingMaxAge = some pending) Settles only es
    (by simp [deployed]) found
  have hafter := hsince [] List.nil_prefix
  rw [List.foldl_append, List.foldl_cons, List.foldl_nil] at hafter
  obtain ⟨env, op, w', rfl, hok, hop⟩ := id settles
  rw [step_of_ok hok] at hafter
  obtain ⟨newMaxAgeSeconds, rfl, rfl⟩ : ∃ newMaxAgeSeconds,
      op = .scheduleFreshnessUpdate newMaxAgeSeconds ∧
        pending = scheduled newMaxAgeSeconds env.timestamp := by
    cases invoke_change hok <;> grind
  exact ⟨pre, env, newMaxAgeSeconds, mid, rfl, rfl, settles, hnone⟩

/-- The latest attestation has been there since the call that submitted it. -/
theorem latest_since (balances : A → A → ℤ) (es : List (Event A contract (Operation A)))
    {attestation : Attestation A}
    (found : (run invoke (deployed balances) es).storage.latest = some attestation) :
    ∃ pre env signers mid,
      es = pre ++ Event.call env (.submitAttestation attestation.onChainSupply
        attestation.reserveBalance signers) :: mid ∧
      attestation.attestedAt = env.timestamp ∧
      (∀ a ∈ attestation.signers, a ∈ signers ∧ env.authorised a = true) ∧
      ∀ mid₁, mid₁ <+: mid → (run invoke (deployed balances)
        (pre ++ Event.call env (.submitAttestation attestation.onChainSupply
          attestation.reserveBalance signers) :: mid₁)).storage.latest = some attestation := by
  obtain ⟨pre, e, mid, rfl, hbefore, hsince⟩ := Runs.exists_since
    (fun w : ReserveWorld A => w.storage.latest = some attestation) es (by simp [deployed]) found
  have hafter := hsince [] List.nil_prefix
  rw [List.foldl_append, List.foldl_cons, List.foldl_nil] at hafter
  rcases step_change (pre.foldl (step invoke) (deployed balances)) e with
    same | ⟨env, op, w', rfl, -, hstep, change⟩
  · exact absurd (same ▸ hafter) hbefore
  · rw [hstep] at hafter
    obtain ⟨onChainSupply, reserveBalance, signers, auditors, valid, rfl, signed, rfl⟩ :
        ∃ onChainSupply reserveBalance signers auditors valid,
          op = .submitAttestation onChainSupply reserveBalance signers ∧
          Signed env auditors signers valid ∧
          attestation = ⟨onChainSupply, reserveBalance, env.timestamp, valid⟩ := by
      cases change <;> grind
    exact ⟨pre, env, signers, mid, rfl, rfl,
      fun a ha => ⟨signed.listed a ha, signed.authorised a ha⟩, hsince⟩

theorem executableAt_scheduled {newMaxAgeSeconds now : ℕ} (h : now < 2 ^ 63) :
    (scheduled newMaxAgeSeconds now).executableAt = now + freshnessUpdateTimelockSeconds := by
  have hle : (now : ℤ) + freshnessUpdateTimelockSeconds ≤ u64.max := by
    norm_num [u64, freshnessUpdateTimelockSeconds]
    omega
  rw [scheduled, IntType.saturatingAdd_of_le hle]
  exact Int.toNat_natCast (now + freshnessUpdateTimelockSeconds)

/-- Only an execution changes the freshness window. -/
theorem executed_of_maxAge_ne {w : ReserveWorld A} (attested : Attested w.storage)
    {e : Event A contract (Operation A)} (moved : maxAge (step invoke w e) ≠ maxAge w) :
    ∃ env, e = .call env .executeFreshnessUpdate ∧
      executeFreshnessUpdate env w = .ok (step invoke w e) := by
  rcases step_change w e with same | ⟨env, op, w', rfl, hok, hstep, change⟩
  · exact absurd (by unfold maxAge; rw [same]) moved
  · refine ⟨env, ?_⟩
    have isExecute : op = .executeFreshnessUpdate := by
      unfold maxAge at moved
      rw [hstep] at moved
      have vacant := attested.vacant
      cases change <;> grind
    subst isExecute
    exact ⟨rfl, hstep ▸ hok⟩

/-- An execution applies what is pending, once it is due. -/
theorem executeFreshnessUpdate_eq_ok {env : Invocation A contract} {w w' : ReserveWorld A}
    (h : executeFreshnessUpdate env w = .ok w') :
    ∃ pending, w.storage.pendingMaxAge = some pending ∧ pending.executableAt ≤ env.timestamp ∧
      maxAge w' = pending.newMaxAgeSeconds := by
  have change : Change env .executeFreshnessUpdate w.storage w'.storage := invoke_change h
  have applied : ∃ pending, w.storage.pendingMaxAge = some pending ∧
      pending.executableAt ≤ env.timestamp ∧
      w'.storage.maxAge = some pending.newMaxAgeSeconds := by
    cases change <;> grind
  obtain ⟨pending, found, due, result⟩ := applied
  exact ⟨pending, found, due, by rw [maxAge, result]; rfl⟩

/-! ### The law -/

/-- Over every run at ledger times below 2^63, with one more event `e`: the
latest attestation carries distinct auditors, at least the required number, all of whom
authorised its submission; the freshness window changes only by an execution; and an
execution applies what was scheduled at least the timelock earlier, with no schedule or
execution in between. -/
theorem proof_of_reserve_sound (balances : A → A → ℤ)
    (es : List (Event A contract (Operation A))) (e : Event A contract (Operation A))
    (bounded : ∀ e' ∈ es, ∀ now, e'.timestamp = some now → now < 2 ^ 63) :
    let w := run invoke (deployed balances) es
    let w' := step invoke w e
    (∀ attestation, w.storage.latest = some attestation →
      (∃ auditors required, w.storage.auditors = some auditors ∧
        w.storage.requiredSignatures = some required ∧ attestation.signers.Nodup ∧
        (∀ a ∈ attestation.signers, a ∈ auditors) ∧ required ≤ attestation.signers.length) ∧
      ∃ pre env signers mid, es = pre ++ Event.call env (.submitAttestation
          attestation.onChainSupply attestation.reserveBalance signers) :: mid ∧
        attestation.attestedAt = env.timestamp ∧
        (∀ a ∈ attestation.signers, a ∈ signers ∧ env.authorised a = true) ∧
        ∀ mid₁, mid₁ <+: mid → (run invoke (deployed balances)
          (pre ++ Event.call env (.submitAttestation attestation.onChainSupply
            attestation.reserveBalance signers) :: mid₁)).storage.latest = some attestation) ∧
    (maxAge w' ≠ maxAge w →
      ∃ env, e = .call env .executeFreshnessUpdate ∧ executeFreshnessUpdate env w = .ok w') ∧
    ∀ env, e = .call env .executeFreshnessUpdate → executeFreshnessUpdate env w = .ok w' →
      ∃ pre env₀ newMaxAgeSeconds mid,
        es = pre ++ Event.call env₀ (.scheduleFreshnessUpdate newMaxAgeSeconds) :: mid ∧
        Settles (run invoke (deployed balances) pre)
          (.call env₀ (.scheduleFreshnessUpdate newMaxAgeSeconds)) ∧
        maxAge w' = newMaxAgeSeconds ∧
        env₀.timestamp + freshnessUpdateTimelockSeconds ≤ env.timestamp ∧
        ∀ mid₁ e' mid₂, mid = mid₁ ++ e' :: mid₂ → ¬ Settles (run invoke (deployed balances)
          (pre ++ Event.call env₀ (.scheduleFreshnessUpdate newMaxAgeSeconds) :: mid₁)) e' := by
  intro w w'
  have attested : Attested w.storage :=
    attested_invariant.run (deployed_attested balances) es
  refine ⟨?_, ?_, ?_⟩
  · intro attestation found
    exact ⟨attested.quorum attestation found, latest_since balances es found⟩
  · exact executed_of_maxAge_ne attested
  · rintro env rfl executed
    obtain ⟨pending, found, due, result⟩ := executeFreshnessUpdate_eq_ok executed
    obtain ⟨pre, env₀, newMaxAgeSeconds, mid, hes, rfl, settles, hnone⟩ :=
      pending_last balances es found
    have hmem : (.call env₀ (.scheduleFreshnessUpdate newMaxAgeSeconds) :
        Event A contract (Operation A)) ∈ es := by
      rw [hes]
      exact List.mem_append_right _ List.mem_cons_self
    rw [executableAt_scheduled (bounded _ hmem _ rfl)] at due
    exact ⟨pre, env₀, newMaxAgeSeconds, mid, hes, settles, result, due, hnone⟩

section Window

/-- Two of the auditors 2, 2 and 3 have to sign; then a window of an hour is scheduled. -/
def scheduledWindow : List (Event ℕ 0 (Operation ℕ)) :=
  [.call (openInvocation 1) (.initializeReserve 1 [2, 2, 3] 2),
    .call (openInvocation 1) (.submitAttestation 100 100 [3, 2, 3]),
    .call (openInvocation 1) (.scheduleFreshnessUpdate 3600)]

/-- Its execution two days later goes back to that schedule. -/
theorem scheduled_window_applied : ∃ pre env₀ newMaxAgeSeconds mid,
    scheduledWindow = pre ++ Event.call env₀ (.scheduleFreshnessUpdate newMaxAgeSeconds) :: mid ∧
      env₀.timestamp + freshnessUpdateTimelockSeconds ≤ 172801 := by
  obtain ⟨-, -, executed⟩ := proof_of_reserve_sound (fun _ _ => 0) scheduledWindow
    (.call (openInvocation 172801) .executeFreshnessUpdate)
    (by simp [scheduledWindow, Event.timestamp, openInvocation])
  obtain ⟨pre, env₀, newMaxAgeSeconds, mid, hes, -, -, hdelay, -⟩ := executed _ rfl rfl
  exact ⟨pre, env₀, newMaxAgeSeconds, mid, hes, hdelay⟩

end Window

end MobileMoney.ProofOfReserve
