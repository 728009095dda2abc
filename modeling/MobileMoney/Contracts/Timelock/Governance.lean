import MobileMoney.Contracts.Timelock.Operations
import MobileMoney.Library.Hold
import MobileMoney.Library.Quorum

/-!
# Requests, votes and governance

Three storage entries change in different calls and must agree: `REQUESTS`, `CANCEL_V`
and `GOVERN`. `Consistent` ties them together. Each request is a `Hold` of its own, and
the votes cast along a run are the history that a cancellation rests on.
-/

namespace MobileMoney.Timelock

open Soroban MachineInt

variable {A : Type} [DecidableEq A] {contract : A} {hash : ℕ × A × ℤ × ℕ × ℕ → BitVec 256}

/-! ## The invariant -/

/-- A tally still short of its threshold: some distinct governance admins, too few. -/
structure Tally (governance : GovernanceConfig A) (approvals : List A) : Prop where
  distinct : approvals.Nodup
  members : ∀ a ∈ approvals, a ∈ governance.admins
  nonempty : 0 < approvals.length
  few : approvals.length < governance.cancellationThreshold

/-- The ids published as initiated. -/
def initiatedIds (w : TimelockWorld A) : List ℕ :=
  w.events.filterMap fun
    | .withdrawalInitiated id _ _ => some id
    | _ => none

structure Consistent (w : TimelockWorld A) : Prop where
  fresh : w.storage.config = none → ∀ id, request w id = none
  named : ∀ id r, request w id = some r → r.id = id ∧ id < w.storage.nextIdOr
  recorded : ∀ id, id ∈ initiatedIds w ↔ (request w id).isSome = true
  once : (initiatedIds w).Nodup
  tallies : ∀ id approvals, votes w id = some approvals → ∃ open_ governance,
    request w id = some open_ ∧ open_.status = .pending ∧
      w.storage.governance = some governance ∧ Tally governance approvals

omit [DecidableEq A] in
theorem deployed_consistent (balances : A → A → ℤ) : Consistent (deployed balances) := by
  refine ⟨fun _ _ => rfl, ?_, ?_, List.nodup_nil, ?_⟩
  · rintro id r ⟨⟩
  · intro id
    simp [request, deployed, Storage.empty, initiatedIds, Storage.getRequests]
  · rintro id approvals ⟨⟩

omit [DecidableEq A] in
theorem Tally.of_votes {env : Invocation A contract} {w : TimelockWorld A} {id : ℕ}
    {admin : A} {governance : GovernanceConfig A} {open_ : WithdrawalRequest A}
    (hw : Consistent w) (h : Votes env w id admin governance open_) :
    ((votes w id).getD [] ++ [admin]).Nodup ∧
      ∀ a ∈ (votes w id).getD [] ++ [admin], a ∈ governance.admins := by
  have earlier : ((votes w id).getD []).Nodup ∧
      ∀ a ∈ (votes w id).getD [], a ∈ governance.admins := by
    cases hv : votes w id with
    | none => simp
    | some approvals =>
      obtain ⟨-, governance', -, -, hgov, tally⟩ := hw.tallies id approvals hv
      obtain rfl : governance' = governance := Option.some.inj (hgov.symm.trans h.governed)
      exact ⟨tally.distinct, tally.members⟩
  constructor
  · rw [List.nodup_append]
    refine ⟨earlier.1, List.nodup_singleton admin, ?_⟩
    rintro a ha b hb rfl
    rw [List.mem_singleton] at hb
    exact h.first (hb ▸ ha)
  · intro a ha
    rcases List.mem_append.1 ha with ha | ha
    · exact earlier.2 a ha
    · rw [List.mem_singleton.1 ha]
      exact h.member

omit [DecidableEq A] in
/-- Resolving a pending request and dropping its votes. -/
theorem Consistent.resolve {w w' : TimelockWorld A} (hw : Consistent w) {id : ℕ}
    {open_ : WithdrawalRequest A} (found : request w id = some open_)
    (status : WithdrawalStatus)
    (storage : w'.storage = { w.storage with
      requests := some (Function.update w.storage.getRequests id
        (some { open_ with status := status }))
      cancelVotes := some (Function.update w.storage.getCancelVotes id none) })
    (same : initiatedIds w' = initiatedIds w) : Consistent w' := by
  have requests : ∀ j, request w' j =
      if j = id then some { open_ with status := status } else request w j := by
    intro j
    simp [request, storage, Storage.getRequests, Function.update_apply]
  have tallies : ∀ j, votes w' j = if j = id then none else votes w j := by
    intro j
    simp [votes, storage, Storage.getCancelVotes, Function.update_apply]
  refine ⟨?_, ?_, ?_, same ▸ hw.once, ?_⟩
  · intro hfresh
    rw [storage] at hfresh
    rw [hw.fresh hfresh id] at found
    cases found
  · intro j r hr
    rw [requests] at hr
    rw [storage]
    split_ifs at hr with hj
    · cases hr
      exact hj ▸ hw.named id open_ found
    · exact hw.named j r hr
  · intro j
    rw [same, hw.recorded, requests]
    split_ifs with hj
    · simp [hj, found]
    · rfl
  · intro j approvals hv
    rw [tallies] at hv
    split_ifs at hv with hj
    rw [requests, if_neg hj, storage]
    exact hw.tallies j approvals hv

omit [DecidableEq A] in
/-- A new request under the next id, which is above every id in use. -/
theorem Consistent.initiate {w w' : TimelockWorld A} (hw : Consistent w)
    (configured : w.storage.config ≠ none) {r : WithdrawalRequest A}
    (named : r.id = w.storage.nextIdOr)
    (storage : w'.storage = { w.storage with
      nextId := some (w.storage.nextIdOr + 1)
      requests := some (Function.update w.storage.getRequests w.storage.nextIdOr (some r)) })
    (ids : initiatedIds w' = initiatedIds w ++ [w.storage.nextIdOr]) : Consistent w' := by
  have unused : request w w.storage.nextIdOr = none := by
    by_contra hsome
    obtain ⟨r, hr⟩ := Option.ne_none_iff_exists'.1 hsome
    exact absurd (hw.named _ r hr).2 (lt_irrefl _)
  have requests : ∀ j, request w' j =
      if j = w.storage.nextIdOr then some r else request w j := by
    intro j
    simp [storage, request, Storage.getRequests, Function.update_apply]
  refine ⟨?_, ?_, ?_, ?_, ?_⟩
  · intro hfresh
    rw [storage] at hfresh
    exact absurd hfresh configured
  · intro j other hr
    have next : w'.storage.nextIdOr = w.storage.nextIdOr + 1 := by rw [storage]; rfl
    rw [requests] at hr
    split_ifs at hr with hj
    · cases hr
      exact ⟨named.trans hj.symm, by omega⟩
    · obtain ⟨hname, hlt⟩ := hw.named j other hr
      exact ⟨hname, by omega⟩
  · intro j
    rw [ids, List.mem_append, hw.recorded, requests, List.mem_singleton]
    split_ifs with hj <;> simp [hj]
  · rw [ids, List.nodup_append]
    refine ⟨hw.once, List.nodup_singleton _, ?_⟩
    rintro j hj k hk rfl
    rw [List.mem_singleton] at hk
    rw [hw.recorded, hk, unused] at hj
    cases hj
  · intro j approvals hv
    have hv' : votes w j = some approvals := by rw [votes, storage] at hv; exact hv
    obtain ⟨open_, governance, hr, hpending, hgov, tally⟩ := hw.tallies j approvals hv'
    refine ⟨open_, governance, ?_, hpending, by rw [storage]; exact hgov, tally⟩
    rw [requests, if_neg, hr]
    rintro rfl
    rw [unused] at hr
    cases hr

omit [DecidableEq A] in
/-- A tally that is still short of its threshold, for a pending request. -/
theorem Consistent.vote {w w' : TimelockWorld A} (hw : Consistent w) {id : ℕ}
    {open_ : WithdrawalRequest A} {governance : GovernanceConfig A} {approvals : List A}
    (found : request w id = some open_) (pending : open_.status = .pending)
    (governed : w.storage.governance = some governance) (tally : Tally governance approvals)
    (storage : w'.storage = { w.storage with
      cancelVotes := some (Function.update w.storage.getCancelVotes id (some approvals)) })
    (same : initiatedIds w' = initiatedIds w) : Consistent w' := by
  have requests : request w' = request w := by
    funext j
    rw [request, storage]
    rfl
  have tallies : ∀ j, votes w' j = if j = id then some approvals else votes w j := by
    intro j
    simp [storage, votes, Storage.getCancelVotes, Function.update_apply]
  refine ⟨?_, ?_, ?_, same ▸ hw.once, ?_⟩
  · rw [requests, storage]
    exact hw.fresh
  · rw [requests, storage]
    exact hw.named
  · rw [same, requests]
    exact hw.recorded
  · intro j others hv
    rw [tallies] at hv
    rw [requests, storage]
    split_ifs at hv with hj
    · cases hv
      exact ⟨open_, governance, hj ▸ found, pending, governed, tally⟩
    · exact hw.tallies j others hv

theorem Effect.consistent {env : Invocation A contract} {op : Operation A}
    {w w' : TimelockWorld A} (hw : Consistent w) (h : Effect hash env op w w') :
    Consistent w' := by
  cases h with
  | initialized admin token amount fresh positive result =>
    subst result
    have none_yet := hw.fresh fresh
    refine ⟨fun _ _ => rfl, ?_, ?_, hw.once, ?_⟩
    · rintro id r ⟨⟩
    · intro id
      have := hw.recorded id
      rw [none_yet id] at this
      exact this
    · rintro id approvals ⟨⟩
  | initiated recipient amount called config configured authorised positive result =>
    subst result
    exact hw.initiate (by simp [configured]) rfl rfl (by simp [initiatedIds])
  | configured admins threshold positive enough distinct result =>
    subst result
    refine ⟨hw.fresh, hw.named, hw.recorded, hw.once, ?_⟩
    rintro id approvals ⟨⟩
  | voted id admin called governance open_ checked few result =>
    subst result
    obtain ⟨distinct, members⟩ := Tally.of_votes hw checked
    exact hw.vote checked.found checked.pending checked.governed
      ⟨distinct, members, by simp, few⟩ rfl (by simp [initiatedIds])
  | cancelled id admin called governance open_ checked enough result =>
    subst result
    exact hw.resolve checked.found .cancelled rfl (by simp [initiatedIds])
  | executed id called config configured open_ found pending matured payable result =>
    subst result
    exact hw.resolve found .executed rfl (by simp [initiatedIds, executedWorld])
  | withdrawn recipient amount called config configured authorised positive small payable
      result =>
    subst result
    exact ⟨hw.fresh, hw.named, hw.recorded, hw.once, hw.tallies⟩
  | idle result =>
    subst result
    exact hw

theorem consistent_invariant : Invariant (@invoke A contract _ hash) Consistent where
  outside _ hw _ := ⟨hw.fresh, hw.named, hw.recorded, hw.once, hw.tallies⟩
  call _ _ _ _ hw h := (invoke_cases h).consistent hw

/-! ## Each request is held once and resolved once -/

/-- A request as it was initiated. -/
def terms (r : WithdrawalRequest A) : WithdrawalRequest A := { r with status := .pending }

def view (id : ℕ) (w : TimelockWorld A) :
    Hold.State (WithdrawalRequest A) (WithdrawalRequest A) :=
  Hold.ofRecord (·.status = .pending) terms (request w id)

omit [DecidableEq A] in
theorem view_resolve {w w' : TimelockWorld A} {id : ℕ} {open_ : WithdrawalRequest A}
    (found : request w id = some open_) (pending : open_.status = .pending)
    (status : WithdrawalStatus) (resolved : status ≠ .pending)
    (requests : w'.storage.getRequests =
      Function.update w.storage.getRequests id (some { open_ with status := status })) (j : ℕ) :
    Hold.Step (·.status = .pending) (fun _ r => r.status ≠ .pending) (view j w) (view j w') := by
  by_cases hj : j = id
  · subst hj
    have after : request w' j = some { open_ with status := status } := by
      simp [request, requests]
    exact Hold.step_settle found after pending resolved rfl resolved
  · have same : request w' j = request w j := by
      simp [request, requests, Function.update_of_ne hj]
    rw [view, view, same]
    exact .idle _

theorem Effect.refines {env : Invocation A contract} {op : Operation A}
    {w w' : TimelockWorld A} (hw : Consistent w) (h : Effect hash env op w w') (id : ℕ) :
    Hold.Step (·.status = .pending) (fun _ r => r.status ≠ .pending)
      (view id w) (view id w') := by
  cases h with
  | initialized admin token amount fresh positive result =>
    have same : request w' id = request w id := by
      rw [hw.fresh fresh id, result]
      rfl
    rw [view, view, same]
    exact .idle _
  | initiated recipient amount called config configured authorised positive result =>
    by_cases hid : id = w.storage.nextIdOr
    · have unused : request w id = none := by
        by_contra hsome
        obtain ⟨r, hr⟩ := Option.ne_none_iff_exists'.1 hsome
        have := (hw.named _ r hr).2
        omega
      have after : request w' id = some (initiatedRequest env w recipient amount) := by
        simp [result, request, Storage.getRequests, hid]
      exact Hold.step_fund unused after rfl rfl
    · have same : request w' id = request w id := by
        simp [result, request, Storage.getRequests, Function.update_of_ne hid]
      rw [view, view, same]
      exact .idle _
  | cancelled id' admin called governance open_ checked enough result =>
    exact view_resolve checked.found checked.pending .cancelled (by simp)
      (by rw [result]; rfl) id
  | executed id' called config configured open_ found pending matured payable result =>
    exact view_resolve found pending .executed (by simp) (by rw [result]; rfl) id
  | configured | voted | withdrawn | idle =>
    subst_vars
    exact .idle _

/-- Every request id is a hold of its own. -/
def withdrawal (contract : A) (hash : ℕ × A × ℤ × ℕ × ℕ → BitVec 256) (id : ℕ) :
    Hold.Implementation (TimelockWorld A) (Event A contract (Operation A))
      (WithdrawalRequest A) (WithdrawalRequest A) where
  step := step (invoke hash)
  view := view id
  inv := Consistent
  admits := (·.status = .pending)
  pays _ r := r.status ≠ .pending
  preserves _ e hw := consistent_invariant.step hw e
  refines w e hw := by
    refine step_cases (fun v => Hold.Step _ _ (view id w) (view id v)) w e (.idle _) ?_ ?_
    · rintro move rfl
      exact .idle _
    · intro env op v _ h
      exact (invoke_cases h).refines hw id

/-- A resolved request never changes again. -/
theorem resolved_absorbing {w : TimelockWorld A} (hw : Consistent w) {id : ℕ}
    {r : WithdrawalRequest A} (found : request w id = some r) (resolved : r.status ≠ .pending)
    (es : List (Event A contract (Operation A))) :
    request (run (invoke hash) w es) id = some r := by
  have now : view id w = .settled (terms r) r := by
    rw [view, found]
    exact Hold.ofRecord_closed resolved
  exact Hold.eq_some_of_settled ((withdrawal contract hash id).settled_run hw now es)

/-- An id is never given to another request: only the status of its request can change. -/
theorem request_kept {w : TimelockWorld A} (hw : Consistent w) {id : ℕ}
    {r : WithdrawalRequest A} (found : request w id = some r)
    (es : List (Event A contract (Operation A))) :
    ∃ status, request (run (invoke hash) w es) id = some { r with status := status } := by
  by_cases pending : r.status = .pending
  · have now : view id w = .held (terms r) := by
      rw [view, found]
      exact Hold.ofRecord_open pending
    have kept : ∃ r', request (run (invoke hash) w es) id = some r' ∧ terms r' = terms r := by
      rcases (withdrawal contract hash id).held_run hw now es with h | ⟨r', h⟩
      · obtain ⟨r', hr', -, hterms⟩ := Hold.terms_of_held h
        exact ⟨r', hr', hterms⟩
      · exact ⟨r', Hold.eq_some_of_settled h, Hold.terms_of_settled h⟩
    obtain ⟨r', hr', hterms⟩ := kept
    refine ⟨r'.status, hr'.trans ?_⟩
    cases r
    cases r'
    simp_all [terms]
  · exact ⟨r.status, resolved_absorbing hw found pending es⟩

/-! ## What leaves the contract -/

/-- The transfers of one step: none, the payment of a matured request, or an immediate
withdrawal below the threshold. -/
inductive Outflow (w : TimelockWorld A) :
    Event A contract (Operation A) → List (Transfer A) → Prop where
  | none (e : Event A contract (Operation A)) : Outflow w e []
  | executed (env : Invocation A contract) (id : ℕ) (config : TimelockConfig A)
      (open_ : WithdrawalRequest A) (configured : w.storage.config = some config)
      (found : request w id = some open_) (pending : open_.status = .pending)
      (matured : open_.executableAt ≤ env.timestamp) (nonneg : 0 ≤ open_.amount) :
      Outflow w (.call env (.executeWithdrawal id))
        [payment contract config open_.recipient open_.amount]
  | withdrawn (env : Invocation A contract) (recipient : A) (amount : ℤ)
      (config : TimelockConfig A) (configured : w.storage.config = some config)
      (authorised : env.authorised config.admin = true) (positive : 0 < amount)
      (small : amount < config.minTimelockAmount)
      (payable : Payable env w (payment contract config recipient amount)) :
      Outflow w (.call env (.withdrawImmediate recipient amount))
        [payment contract config recipient amount]

theorem outflow_of_step (w : TimelockWorld A) (e : Event A contract (Operation A)) :
    ∃ ts, Outflow w e ts ∧ (step (invoke hash) w e).transfers = w.transfers ++ ts := by
  refine step_cases (fun v => ∃ ts, Outflow w e ts ∧ v.transfers = w.transfers ++ ts) w e
    ⟨[], .none e, by simp⟩ ?_ ?_
  · rintro move rfl
    exact ⟨[], .none _, by simp [step]⟩
  · rintro env op w' rfl h
    cases invoke_cases h with
    | executed id called config configured open_ found pending matured payable result =>
      subst called
      exact ⟨_, .executed env id config open_ configured found pending matured payable.2.1,
        by rw [result]; rfl⟩
    | withdrawn recipient amount called config configured authorised positive small payable
        result =>
      subst called
      exact ⟨_, .withdrawn env recipient amount config configured authorised positive small
        payable, by rw [result]; rfl⟩
    | initialized | initiated | configured | voted | cancelled | idle =>
      exact ⟨[], .none _, by subst_vars; simp⟩

end MobileMoney.Timelock
