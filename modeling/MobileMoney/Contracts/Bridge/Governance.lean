import MobileMoney.Contracts.Bridge.Program
import MobileMoney.Library.Runs

/-!
# The two timelocks of the bridge

The governance part of the storage moves in few ways (`Change`): proposals come from the
admin and carry their deadline, and the fee rate and the admin change only by taking over
a proposal that is due. What is pending has been pending since it was proposed, which
makes the delay a property of whole runs.
-/

namespace MobileMoney.Bridge

open Soroban MachineInt

variable {A : Type} {contract : A}

/-- The part of the storage that governance is about. -/
structure Governance (A : Type) where
  admin : Option A
  pendingAdmin : Option (PendingAdmin A)
  feeBps : Option ℕ
  pendingFeeUpdate : Option PendingFeeUpdate

def governance (w : BridgeWorld A) : Governance A :=
  ⟨w.storage.admin, w.storage.pendingAdmin, w.storage.feeBps, w.storage.pendingFeeUpdate⟩

/-- The proposal of a new admin at a time. -/
def adminProposal (newAdmin : A) (now : ℕ) : PendingAdmin A :=
  ⟨newAdmin, now, now + adminTransferDelay⟩

/-- The proposal of a new fee at a time. -/
def feeProposal (feeBps now : ℕ) : PendingFeeUpdate := ⟨feeBps, now, now + feeTimelockDelay⟩

/-- What a successful call of `op` can do to the governance of the bridge. -/
inductive Change (env : Invocation A contract) (op : Operation A) (g g' : Governance A) :
    Prop where
  | idle (same : g' = g)
  | initialised (admin : A) (feeBps : ℕ) (vacant : g.admin = none)
      (bounded : feeBps ≤ maxFeeBps)
      (result : g' = { g with admin := some admin, feeBps := some feeBps })
  | adminProposed (admin newAdmin : A) (asked : op = .proposeAdmin newAdmin)
      (current : g.admin = some admin) (signed : env.authorised admin = true)
      (result : g' = { g with pendingAdmin := some (adminProposal newAdmin env.timestamp) })
  | adminRevoked (result : g' = { g with pendingAdmin := none })
  | adminAccepted (pending : PendingAdmin A) (asked : op = .acceptAdmin)
      (found : g.pendingAdmin = some pending) (signed : env.authorised pending.newAdmin = true)
      (due : pending.acceptAfter ≤ env.timestamp)
      (result : g' = { g with admin := some pending.newAdmin, pendingAdmin := none })
  | feeProposed (admin : A) (feeBps : ℕ) (asked : op = .proposeFeeBps feeBps)
      (current : g.admin = some admin) (signed : env.authorised admin = true)
      (bounded : feeBps ≤ maxFeeBps)
      (result : g' = { g with pendingFeeUpdate := some (feeProposal feeBps env.timestamp) })
  | feeRevoked (result : g' = { g with pendingFeeUpdate := none })
  | feeExecuted (admin : A) (pending : PendingFeeUpdate) (asked : op = .executeFeeUpdate)
      (current : g.admin = some admin) (found : g.pendingFeeUpdate = some pending)
      (due : pending.executeAfter ≤ env.timestamp)
      (result : g' = { g with pendingFeeUpdate := none, feeBps := some pending.feeBps })

/-! ## One lemma for each kind of operation -/

theorem requireAdmin_eq_ok {env : Invocation A contract} {w : BridgeWorld A} {admin : A} :
    requireAdmin env w = .ok admin ↔
      w.storage.admin = some admin ∧ env.authorised admin = true := by
  simp only [requireAdmin, getAdmin, bind_eq_ok, orFail_eq_ok,
    Invocation.requireAuth_eq_ok, pure_eq_ok, exists_const]
  constructor
  · rintro ⟨_, found, signed, rfl⟩
    exact ⟨found, signed⟩
  · rintro ⟨found, signed⟩
    exact ⟨_, found, signed, rfl⟩

theorem deadline_eq_ok {now delay time : ℕ} (h : deadline now delay = .ok time) :
    time = now + delay := by
  simp only [deadline, bind_eq_ok, require_eq_ok, pure_eq_ok, exists_const] at h
  exact h.2.symm

theorem transfer_storage [DecidableEq A] {env : Invocation A contract} {t : Transfer A}
    {w w' : BridgeWorld A} (h : env.transfer t w = (.ok w' : Result _)) :
    w'.storage = w.storage := by
  obtain ⟨-, rfl⟩ := Invocation.transfer_eq_ok.1 h
  rfl

theorem payFee_storage [DecidableEq A] {env : Invocation A contract} {token : A} {fee : ℤ}
    {w w' : BridgeWorld A} (h : payFee env token fee w = .ok w') :
    w'.storage = w.storage := by
  unfold payFee at h
  split_ifs at h
  · obtain ⟨_, -, h⟩ := bind_eq_ok.1 h
    exact transfer_storage h
  · cases h
    rfl

theorem deposit_storage [DecidableEq A] {env : Invocation A contract}
    {registries : Registries A} {depositor : A} {amount : ℤ} {w w' : BridgeWorld A}
    (h : deposit env registries depositor amount w = .ok w') : w'.storage = w.storage := by
  simp only [deposit, bind_eq_ok, pure_eq_ok] at h
  obtain ⟨_, -, _, -, _, -, _, -, token, -, w₁, paid, rfl⟩ := h
  have same := transfer_storage paid
  exact same

theorem settle_storage [DecidableEq A] {env : Invocation A contract}
    {registries : Registries A} {target : A} {amount : ℤ} {w w' : BridgeWorld A}
    {s : Settlement} (h : settle env registries target amount w = .ok (s, w')) :
    w'.storage = w.storage := by
  simp only [settle, bind_eq_ok, pure_eq_ok, Prod.mk.injEq] at h
  obtain ⟨_, -, _, -, _, -, _, -, token, -, _, -, w₁, paid, w₂, fee, -, rfl⟩ := h
  exact (payFee_storage fee).trans (transfer_storage paid)

theorem governance_congr {w w' : BridgeWorld A} (h : w'.storage = w.storage) :
    governance w' = governance w := by
  simp only [governance, h]

theorem invoke_change [DecidableEq A] {env : Invocation A contract} {op : Operation A}
    {w w' : BridgeWorld A} (h : invoke env op w = .ok w') :
    Change env op (governance w) (governance w') := by
  cases op with
  | initializeBridge admin token feeRecipient feeBps =>
    simp only [invoke, initializeBridge, bind_eq_ok, Invocation.requireAuth_eq_ok,
      require_eq_ok, pure_eq_ok, exists_const] at h
    obtain ⟨-, hvacant, hfee, rfl⟩ := h
    exact .initialised admin feeBps (by simpa [governance] using hvacant)
      (Nat.le_of_not_lt hfee) rfl
  | proposeAdmin newAdmin =>
    obtain ⟨⟨pending, _⟩, proposed, rfl⟩ := map_eq_ok.1 h
    simp only [proposeAdmin, bind_eq_ok, requireAdmin_eq_ok, require_eq_ok, pure_eq_ok,
      exists_const, Prod.mk.injEq] at proposed
    obtain ⟨admin, ⟨current, signed⟩, -, time, hdeadline, -, rfl⟩ := proposed
    obtain rfl := deadline_eq_ok hdeadline
    exact .adminProposed admin newAdmin rfl current signed rfl
  | revokeAdminProposal =>
    simp only [invoke, revokeAdminProposal, bind_eq_ok, pure_eq_ok] at h
    obtain ⟨_, -, _, -, rfl⟩ := h
    exact .adminRevoked rfl
  | acceptAdmin =>
    simp only [invoke, acceptAdmin, pendingAdmin, bind_eq_ok, orFail_eq_ok,
      Invocation.requireAuth_eq_ok, require_eq_ok, pure_eq_ok, exists_const] at h
    obtain ⟨pending, found, signed, hdue, _, -, rfl⟩ := h
    exact .adminAccepted pending rfl found signed (Nat.le_of_not_lt hdue) rfl
  | setBlacklist blacklist =>
    simp only [invoke, setBlacklist, bind_eq_ok, pure_eq_ok] at h
    obtain ⟨_, -, rfl⟩ := h
    exact .idle rfl
  | setFeeTier feeTier =>
    simp only [invoke, setFeeTier, bind_eq_ok, pure_eq_ok] at h
    obtain ⟨_, -, rfl⟩ := h
    exact .idle rfl
  | proposeFeeBps feeBps =>
    obtain ⟨⟨pending, _⟩, proposed, rfl⟩ := map_eq_ok.1 h
    simp only [proposeFeeBps, bind_eq_ok, requireAdmin_eq_ok, require_eq_ok, pure_eq_ok,
      exists_const, Prod.mk.injEq] at proposed
    obtain ⟨admin, ⟨current, signed⟩, hfee, time, hdeadline, -, rfl⟩ := proposed
    obtain rfl := deadline_eq_ok hdeadline
    exact .feeProposed admin feeBps rfl current signed (Nat.le_of_not_lt hfee) rfl
  | revokeFeeUpdate =>
    simp only [invoke, revokeFeeUpdate, bind_eq_ok, pure_eq_ok] at h
    obtain ⟨_, -, _, -, rfl⟩ := h
    exact .feeRevoked rfl
  | executeFeeUpdate =>
    simp only [invoke, executeFeeUpdate, requireAdmin_eq_ok, pendingFeeUpdate, bind_eq_ok,
      orFail_eq_ok, require_eq_ok, pure_eq_ok, exists_const] at h
    obtain ⟨admin, ⟨current, -⟩, pending, found, hdue, rfl⟩ := h
    exact .feeExecuted admin pending rfl current found (Nat.le_of_not_lt hdue) rfl
  | pause | unpause =>
    simp only [invoke, pause, unpause, bind_eq_ok, pure_eq_ok] at h
    obtain ⟨_, -, rfl⟩ := h
    exact .idle rfl
  | deposit registries depositor amount =>
    exact .idle (governance_congr (deposit_storage h))
  | settle registries target amount =>
    obtain ⟨⟨s, _⟩, settled, rfl⟩ := map_eq_ok.1 h
    exact .idle (governance_congr (settle_storage settled))

/-! ## The invariant -/

/-- Stored and pending rates are at most the maximum, and without an admin there is neither
a rate nor a pending admin. -/
structure Governed (w : BridgeWorld A) : Prop where
  feeBps_le : ∀ feeBps, w.storage.feeBps = some feeBps → feeBps ≤ maxFeeBps
  pending_le : ∀ pending, w.storage.pendingFeeUpdate = some pending →
    pending.feeBps ≤ maxFeeBps
  rated : w.storage.admin = none → w.storage.feeBps = none
  owned : w.storage.admin = none → w.storage.pendingAdmin = none

theorem deployed_governed (balances : A → A → ℤ) : Governed (deployed balances) where
  feeBps_le _ h := by cases h
  pending_le _ h := by cases h
  rated _ := rfl
  owned _ := rfl

/-- Being governed is a property of the governance part alone. -/
theorem governed_iff {w : BridgeWorld A} : Governed w ↔
    (∀ feeBps, (governance w).feeBps = some feeBps → feeBps ≤ maxFeeBps) ∧
    (∀ pending, (governance w).pendingFeeUpdate = some pending →
      pending.feeBps ≤ maxFeeBps) ∧
    ((governance w).admin = none → (governance w).feeBps = none) ∧
    ((governance w).admin = none → (governance w).pendingAdmin = none) :=
  ⟨fun h => ⟨h.1, h.2, h.3, h.4⟩, fun h => ⟨h.1, h.2.1, h.2.2.1, h.2.2.2⟩⟩

theorem Change.governed {env : Invocation A contract} {op : Operation A}
    {w w' : BridgeWorld A} (hw : Governed w)
    (h : Change env op (governance w) (governance w')) : Governed w' := by
  rw [governed_iff] at hw ⊢
  cases h <;> grind [feeProposal]

variable [DecidableEq A]

theorem governed_invariant : Invariant (@invoke A contract _) Governed where
  outside _ hw _ := ⟨hw.feeBps_le, hw.pending_le, hw.rated, hw.owned⟩
  call _ _ _ _ hw h := (invoke_change h).governed hw

/-- A step changes the governance only by a call that succeeded. -/
theorem step_change (w : BridgeWorld A) (e : Event A contract (Operation A)) :
    governance (step invoke w e) = governance w ∨
      ∃ env op, e = .call env op ∧
        Change env op (governance w) (governance (step invoke w e)) := by
  refine step_cases (fun v => governance v = governance w ∨
    ∃ env op, e = .call env op ∧ Change env op (governance w) (governance v)) w e
    (.inl rfl) ?_ ?_
  · rintro move rfl
    exact .inl rfl
  · intro env op v he h
    exact .inr ⟨env, op, he, invoke_change h⟩

/-- A step that changes a stored fee rate executes the pending update. -/
theorem step_feeBps {w : BridgeWorld A} {e : Event A contract (Operation A)} {feeBps : ℕ}
    (hw : Governed w) (stored : w.storage.feeBps = some feeBps)
    (moved : (step invoke w e).storage.feeBps ≠ some feeBps) :
    ∃ env pending, e = .call env .executeFeeUpdate ∧
      w.storage.pendingFeeUpdate = some pending ∧ pending.executeAfter ≤ env.timestamp ∧
      (step invoke w e).storage.feeBps = some pending.feeBps := by
  change (governance w).feeBps = some feeBps at stored
  change (governance (step invoke w e)).feeBps ≠ some feeBps at moved
  have rated : (governance w).admin = none → (governance w).feeBps = none := hw.rated
  rcases step_change w e with same | ⟨env, op, rfl, change⟩
  · exact absurd (same ▸ stored) moved
  · have executed : ∃ pending, op = .executeFeeUpdate ∧
        (governance w).pendingFeeUpdate = some pending ∧
        pending.executeAfter ≤ env.timestamp ∧
        (governance (step invoke w (.call env op))).feeBps = some pending.feeBps := by
      cases change <;> grind
    obtain ⟨pending, rfl, found, due, result⟩ := executed
    exact ⟨env, pending, rfl, found, due, result⟩

/-- A step that changes a stored admin is an acceptance by the pending one. -/
theorem step_admin {w : BridgeWorld A} {e : Event A contract (Operation A)} {admin : A}
    (current : w.storage.admin = some admin)
    (moved : (step invoke w e).storage.admin ≠ some admin) :
    ∃ env pending, e = .call env .acceptAdmin ∧ w.storage.pendingAdmin = some pending ∧
      env.authorised pending.newAdmin = true ∧ pending.acceptAfter ≤ env.timestamp ∧
      (step invoke w e).storage.admin = some pending.newAdmin := by
  change (governance w).admin = some admin at current
  change (governance (step invoke w e)).admin ≠ some admin at moved
  rcases step_change w e with same | ⟨env, op, rfl, change⟩
  · exact absurd (same ▸ current) moved
  · have accepted : ∃ pending, op = .acceptAdmin ∧
        (governance w).pendingAdmin = some pending ∧
        env.authorised pending.newAdmin = true ∧ pending.acceptAfter ≤ env.timestamp ∧
        (governance (step invoke w (.call env op))).admin = some pending.newAdmin := by
      cases change <;> grind
    obtain ⟨pending, rfl, found, signed, due, result⟩ := accepted
    exact ⟨env, pending, rfl, found, signed, due, result⟩

/-! ## Since when a proposal has been pending -/

/-- A pending fee update has been pending since the call that proposed it. -/
theorem pendingFeeUpdate_since (balances : A → A → ℤ)
    (es : List (Event A contract (Operation A))) {pending : PendingFeeUpdate}
    (found : (run invoke (deployed balances) es).storage.pendingFeeUpdate = some pending) :
    ∃ pre env mid, es = pre ++ Event.call env (.proposeFeeBps pending.feeBps) :: mid ∧
      pending = feeProposal pending.feeBps env.timestamp ∧
      ∀ mid₁, mid₁ <+: mid → (run invoke (deployed balances)
        (pre ++ Event.call env (.proposeFeeBps pending.feeBps) :: mid₁)).storage.pendingFeeUpdate =
          some pending := by
  obtain ⟨pre, e, mid, rfl, hbefore, hsince⟩ := Runs.exists_since
    (fun w : BridgeWorld A => w.storage.pendingFeeUpdate = some pending) es
    (by simp [deployed, Storage.empty]) found
  have hafter := hsince [] List.nil_prefix
  rw [List.foldl_append, List.foldl_cons, List.foldl_nil] at hafter
  change (governance (step invoke (run invoke (deployed balances) pre) e)).pendingFeeUpdate =
    some pending at hafter
  change (governance (run invoke (deployed balances) pre)).pendingFeeUpdate ≠
    some pending at hbefore
  rcases step_change (run invoke (deployed balances) pre) e with same | ⟨env, op, rfl, change⟩
  · exact absurd (same ▸ hafter) hbefore
  · obtain ⟨feeBps, asked, rfl⟩ : ∃ feeBps, op = .proposeFeeBps feeBps ∧
        pending = feeProposal feeBps env.timestamp := by
      cases change <;> grind
    subst asked
    exact ⟨pre, env, mid, rfl, rfl, hsince⟩

/-- A pending admin has been pending, under the same admin, since the call in which that
admin proposed it. -/
theorem pendingAdmin_since (balances : A → A → ℤ)
    (es : List (Event A contract (Operation A))) {pending : PendingAdmin A} {admin : A}
    (found : (run invoke (deployed balances) es).storage.pendingAdmin = some pending)
    (current : (run invoke (deployed balances) es).storage.admin = some admin) :
    ∃ pre env mid, es = pre ++ Event.call env (.proposeAdmin pending.newAdmin) :: mid ∧
      pending = adminProposal pending.newAdmin env.timestamp ∧
      env.authorised admin = true ∧
      (run invoke (deployed balances) pre).storage.admin = some admin ∧
      ∀ mid₁, mid₁ <+: mid →
        let w := run invoke (deployed balances)
          (pre ++ Event.call env (.proposeAdmin pending.newAdmin) :: mid₁)
        w.storage.pendingAdmin = some pending ∧ w.storage.admin = some admin := by
  obtain ⟨pre, e, mid, rfl, hbefore, hsince⟩ := Runs.exists_since
    (fun w : BridgeWorld A => w.storage.pendingAdmin = some pending ∧
      w.storage.admin = some admin) es (by simp [deployed, Storage.empty]) ⟨found, current⟩
  have hafter := hsince [] List.nil_prefix
  rw [List.foldl_append, List.foldl_cons, List.foldl_nil] at hafter
  change (governance (step invoke (run invoke (deployed balances) pre) e)).pendingAdmin =
    some pending ∧ (governance (step invoke (run invoke (deployed balances) pre) e)).admin =
    some admin at hafter
  change ¬ ((governance (run invoke (deployed balances) pre)).pendingAdmin = some pending ∧
    (governance (run invoke (deployed balances) pre)).admin = some admin) at hbefore
  have governed := governed_invariant.run (deployed_governed balances) pre
  have owned : (governance (run invoke (deployed balances) pre)).admin = none →
      (governance (run invoke (deployed balances) pre)).pendingAdmin = none := governed.owned
  rcases step_change (run invoke (deployed balances) pre) e with same | ⟨env, op, rfl, change⟩
  · exact absurd (same ▸ hafter) hbefore
  · obtain ⟨newAdmin, asked, rfl, signed, hadmin⟩ : ∃ newAdmin, op = .proposeAdmin newAdmin ∧
        pending = adminProposal newAdmin env.timestamp ∧ env.authorised admin = true ∧
        (governance (run invoke (deployed balances) pre)).admin = some admin := by
      cases change <;> grind
    subst asked
    exact ⟨pre, env, mid, rfl, rfl, signed, hadmin, hsince⟩

/-! ## The law -/

/-- Over every run of the bridge: the stored fee rate is at most the maximum; it changes
only by an execution, to the rate proposed at least the delay earlier and pending ever
since; and the admin changes only when the address that this admin proposed accepts, at
least the delay after that proposal, which has been pending ever since. -/
theorem bridge_timelocked (balances : A → A → ℤ) (es : List (Event A contract (Operation A)))
    (e : Event A contract (Operation A)) :
    let w := run invoke (deployed balances) es
    let w' := step invoke w e
    (∀ feeBps, w.storage.feeBps = some feeBps → feeBps ≤ maxFeeBps) ∧
    (∀ feeBps, w.storage.feeBps = some feeBps → w'.storage.feeBps ≠ some feeBps →
      ∃ pre env₀ mid newFee env, es = pre ++ Event.call env₀ (.proposeFeeBps newFee) :: mid ∧
        e = .call env .executeFeeUpdate ∧ w'.storage.feeBps = some newFee ∧
        env₀.timestamp + feeTimelockDelay ≤ env.timestamp ∧
        ∀ mid₁, mid₁ <+: mid → (run invoke (deployed balances)
          (pre ++ Event.call env₀ (.proposeFeeBps newFee) :: mid₁)).storage.pendingFeeUpdate =
            some (feeProposal newFee env₀.timestamp)) ∧
    (∀ admin, w.storage.admin = some admin → w'.storage.admin ≠ some admin →
      ∃ pre env₀ mid newAdmin env, es = pre ++ Event.call env₀ (.proposeAdmin newAdmin) :: mid ∧
        e = .call env .acceptAdmin ∧ w'.storage.admin = some newAdmin ∧
        env₀.authorised admin = true ∧ env.authorised newAdmin = true ∧
        (run invoke (deployed balances) pre).storage.admin = some admin ∧
        env₀.timestamp + adminTransferDelay ≤ env.timestamp ∧
        ∀ mid₁, mid₁ <+: mid →
          let v := run invoke (deployed balances)
            (pre ++ Event.call env₀ (.proposeAdmin newAdmin) :: mid₁)
          v.storage.pendingAdmin = some (adminProposal newAdmin env₀.timestamp) ∧
            v.storage.admin = some admin) := by
  intro w w'
  have governed : Governed w := governed_invariant.run (deployed_governed balances) es
  refine ⟨governed.feeBps_le, ?_, ?_⟩
  · intro feeBps stored moved
    obtain ⟨env, pending, rfl, found, due, result⟩ := step_feeBps governed stored moved
    obtain ⟨pre, env₀, mid, hes, hpending, hsince⟩ := pendingFeeUpdate_since balances es found
    rw [hpending] at due
    exact ⟨pre, env₀, mid, pending.feeBps, env, hes, rfl, result, due,
      fun mid₁ h => (hsince mid₁ h).trans (congrArg some hpending)⟩
  · intro admin current moved
    obtain ⟨env, pending, rfl, found, signed, due, result⟩ := step_admin current moved
    obtain ⟨pre, env₀, mid, hes, hpending, signed₀, before, hsince⟩ :=
      pendingAdmin_since balances es found current
    rw [hpending] at due
    exact ⟨pre, env₀, mid, pending.newAdmin, env, hes, rfl, result, signed₀, signed, before,
      due, fun mid₁ h => ⟨(hsince mid₁ h).1.trans (congrArg some hpending), (hsince mid₁ h).2⟩⟩

end MobileMoney.Bridge
