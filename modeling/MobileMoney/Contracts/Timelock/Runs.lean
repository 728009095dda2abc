import MobileMoney.Contracts.Timelock.Governance

/-!
# Runs of the timelock contract

Votes are read off the run, as the successful calls that cast them; the tallies in
storage are backed by these votes, and so is every cancellation.
-/

namespace MobileMoney.Timelock

open Soroban MachineInt

variable {A : Type} [DecidableEq A] {contract : A} {hash : ℕ × A × ℤ × ℕ × ℕ → BitVec 256}

/-- The vote one event casts, if it is a voting call that succeeds. -/
def cast (hash : ℕ × A × ℤ × ℕ × ℕ → BitVec 256) (w : TimelockWorld A) :
    Event A contract (Operation A) → List (ℕ × A)
  | .call env op =>
    match invoke hash env op w with
    | .ok _ => (op.ballot w).toList
    | .error _ => []
  | .outside _ => []

/-- The votes cast along a run: which request, by whom. -/
def ballots (hash : ℕ × A × ℤ × ℕ × ℕ → BitVec 256) (w : TimelockWorld A)
    (es : List (Event A contract (Operation A))) : List (ℕ × A) :=
  Runs.collect (step (invoke hash)) (cast hash) w es

/-- Whether an event pays out the request `id`. -/
def paysRequest (hash : ℕ × A × ℤ × ℕ × ℕ → BitVec 256) (id : ℕ) (w : TimelockWorld A)
    (e : Event A contract (Operation A)) : Bool :=
  match e with
  | .call _ (.executeWithdrawal id') =>
    decide (id' = id ∧ (step (invoke hash) w e).transfers ≠ w.transfers)
  | _ => false

/-- The number of events of a run that pay out the request `id`. -/
def payouts (hash : ℕ × A × ℤ × ℕ × ℕ → BitVec 256) (id : ℕ) (w : TimelockWorld A)
    (es : List (Event A contract (Operation A))) : ℕ :=
  Runs.count (step (invoke hash)) (paysRequest hash id) w es

/-! ## Step lemmas -/

theorem settles_of_paysRequest {id : ℕ} {w : TimelockWorld A}
    {e : Event A contract (Operation A)} (h : paysRequest hash id w e = true) :
    (withdrawal contract hash id).settles w e = true := by
  change Hold.closes (view id w) (view id (step (invoke hash) w e)) = true
  unfold paysRequest at h
  split at h
  · next env id' =>
    obtain ⟨rfl, moved⟩ := of_decide_eq_true h
    refine step_cases (fun v => v.transfers ≠ w.transfers →
      Hold.closes (view id' w) (view id' v) = true) w _ (fun h => absurd rfl h) ?_ ?_ moved
    · rintro move ⟨⟩
    · rintro env op w' ⟨⟩ hcall -
      obtain ⟨config, open_, -, found, pending, -, -, rfl⟩ := executeWithdrawal_eq_ok hcall
      have after : request (executedWorld contract config id' open_ w) id' =
          some { open_ with status := .executed } := by
        simp [request]
      exact Hold.closes_ofRecord found after pending (by simp)
  · cases h

theorem cast_eq {env : Invocation A contract} {op : Operation A} {w w' : TimelockWorld A}
    (h : invoke hash env op w = .ok w') : cast hash w (.call env op) = (op.ballot w).toList := by
  simp [cast, h]

/-- After a call, a tally holds earlier votes and possibly the one just cast. -/
theorem Effect.votes {env : Invocation A contract} {op : Operation A} {w w' : TimelockWorld A}
    (h : Effect hash env op w w') {id : ℕ} {approvals : List A}
    (hv : Timelock.votes w' id = some approvals) :
    ∀ a ∈ approvals, a ∈ (Timelock.votes w id).getD [] ∨ op.ballot w = some (id, a) := by
  -- Most effects keep the tally of `id` or drop it.
  have kept : Timelock.votes w' id = Timelock.votes w id →
      ∀ a ∈ approvals, a ∈ (Timelock.votes w id).getD [] := by
    intro same a ha
    rw [← same, hv]
    exact ha
  intro a ha
  cases h with
  | voted id' admin called governance open_ checked few result =>
    by_cases hid : id = id'
    · subst hid
      have new : approvals = (Timelock.votes w id).getD [] ++ [admin] := by
        simpa [result, Timelock.votes, Storage.getCancelVotes] using hv.symm
      rw [new, List.mem_append, List.mem_singleton] at ha
      rcases ha with ha | rfl
      · exact .inl ha
      · exact .inr called
    · refine .inl (kept ?_ a ha)
      simp [result, Timelock.votes, Storage.getCancelVotes, Function.update_of_ne hid]
  | cancelled id' admin called governance open_ checked enough result =>
    by_cases hid : id = id'
    · simp [result, Timelock.votes, Storage.getCancelVotes, hid] at hv
    · refine .inl (kept ?_ a ha)
      simp [result, Timelock.votes, Storage.getCancelVotes, Function.update_of_ne hid]
  | executed id' called config configured open_ found pending matured payable result =>
    by_cases hid : id = id'
    · simp [result, Timelock.votes, hid] at hv
    · refine .inl (kept ?_ a ha)
      simp [result, Timelock.votes, Function.update_of_ne hid]
  | initialized | configured =>
    subst_vars
    cases hv
  | initiated | withdrawn | idle =>
    subst_vars
    exact .inl (kept rfl a ha)

/-- Only the completing vote of a tally cancels. -/
theorem Effect.cancels {env : Invocation A contract} {op : Operation A}
    {w w' : TimelockWorld A} (hw : Consistent w) (h : Effect hash env op w w') {id : ℕ}
    {r r' : WithdrawalRequest A} (before : request w id = some r)
    (active : r.status ≠ .cancelled) (after : request w' id = some r')
    (gone : r'.status = .cancelled) :
    ∃ admin governance open_, op.ballot w = some (id, admin) ∧
      Votes env w id admin governance open_ ∧
      governance.cancellationThreshold ≤ ((Timelock.votes w id).getD [] ++ [admin]).length := by
  have moved : request w' id ≠ request w id := by
    intro same
    rw [same, before] at after
    cases after
    exact active gone
  cases h with
  | cancelled id' admin called governance open_ checked enough result =>
    by_cases hid : id = id'
    · subst hid
      exact ⟨admin, governance, open_, called, checked, enough⟩
    · refine absurd ?_ moved
      simp [result, request, Storage.getRequests, Function.update_of_ne hid]
  | executed id' called config configured open_ found pending matured payable result =>
    by_cases hid : id = id'
    · have executed : r' = { open_ with status := .executed } := by
        simpa [result, request, hid] using after.symm
      simp [executed] at gone
    · refine absurd ?_ moved
      simp [result, request, Function.update_of_ne hid]
  | initiated recipient amount called config configured authorised positive result =>
    by_cases hid : id = w.storage.nextIdOr
    · have := (hw.named id r before).2
      omega
    · refine absurd ?_ moved
      simp [result, request, Storage.getRequests, Function.update_of_ne hid]
  | initialized admin token amount fresh positive result =>
    rw [hw.fresh fresh id] at before
    cases before
  | configured | voted | withdrawn | idle =>
    subst_vars
    exact absurd rfl moved

/-! ## Votes along a run -/

/-- Every vote in a stored tally was cast in this run. -/
theorem votes_cast (balances : A → A → ℤ) (es : List (Event A contract (Operation A)))
    {id : ℕ} {approvals : List A}
    (h : votes (run (invoke hash) (deployed balances) es) id = some approvals) :
    ∀ a ∈ approvals, (id, a) ∈ ballots hash (deployed balances) es := by
  refine Runs.inv_collect (fun w bs => ∀ approvals, votes w id = some approvals →
    ∀ a ∈ approvals, (id, a) ∈ bs) ?_ (by rintro _ ⟨⟩) es approvals h
  intro w bs e ih approvals hv a ha
  refine step_cases (fun v => votes v id = some approvals → (id, a) ∈ bs ++ cast hash w e)
    w e ?_ ?_ ?_ hv
  · intro hv
    exact List.mem_append_left _ (ih approvals hv a ha)
  · rintro move rfl hv
    exact List.mem_append_left _ (ih approvals hv a ha)
  · rintro env op w' rfl hcall hv
    rcases (invoke_cases hcall).votes hv a ha with earlier | now
    · cases hbefore : votes w id with
      | none => simp [hbefore] at earlier
      | some before =>
        rw [hbefore] at earlier
        exact List.mem_append_left _ (ih before hbefore a earlier)
    · rw [cast_eq hcall, now]
      exact List.mem_append_right _ (by simp)

/-- A request turns cancelled only in a step by which `threshold` distinct current admins
have voted for it. -/
theorem cancelled_by_quorum (balances : A → A → ℤ)
    (es : List (Event A contract (Operation A))) (e : Event A contract (Operation A)) {id : ℕ}
    {r r' : WithdrawalRequest A}
    (before : request (run (invoke hash) (deployed balances) es) id = some r)
    (active : r.status ≠ .cancelled)
    (after : request (run (invoke hash) (deployed balances) (es ++ [e])) id = some r')
    (gone : r'.status = .cancelled) :
    ∃ governance, (run (invoke hash) (deployed balances) es).storage.governance =
        some governance ∧
      Quorum.Reached (fun a => (id, a) ∈ ballots hash (deployed balances) (es ++ [e]))
        governance.admins governance.cancellationThreshold := by
  have consistent : Consistent (run (invoke hash) (deployed balances) es) :=
    consistent_invariant.run (deployed_consistent balances) es
  rw [run_append] at after
  refine step_cases (fun v => request v id = some r' → _) _ e ?_ ?_ ?_ after
  · intro after
    rw [before] at after
    cases after
    exact absurd gone active
  · rintro move rfl after
    change request (run (invoke hash) (deployed balances) es) id = some r' at after
    rw [before] at after
    cases after
    exact absurd gone active
  · rintro env op w' rfl hcall after
    obtain ⟨admin, governance, open_, called, checked, enough⟩ :=
      (invoke_cases hcall).cancels consistent before active after gone
    obtain ⟨distinct, members⟩ := Tally.of_votes consistent checked
    refine ⟨governance, checked.governed, ?_⟩
    refine Quorum.reached_of_ballot (fun a ha => ⟨members a ha, ?_⟩)
      (by rwa [List.toFinset_card_of_nodup distinct])
    have history : ballots hash (deployed balances) (es ++ [.call env op]) =
        ballots hash (deployed balances) es ++ [(id, admin)] := by
      rw [ballots, Runs.collect_concat]
      change _ ++ cast hash (run (invoke hash) (deployed balances) es) _ = _
      rw [cast_eq hcall, called]
      rfl
    rw [history]
    rcases List.mem_append.1 ha with earlier | now
    · cases hbefore : votes (run (invoke hash) (deployed balances) es) id with
      | none => simp [hbefore] at earlier
      | some approvals =>
        rw [hbefore] at earlier
        exact List.mem_append_left _ (votes_cast balances es hbefore a earlier)
    · rw [List.mem_singleton.1 now]
      exact List.mem_append_right _ (by simp)

/-! ## The law of the timelock -/

/-- Every run of the timelock contract from deployment: tallies belong to pending requests
and stay short of their threshold; ids are fresh, below the counter and keep their
request; each request is paid out at most once and nothing else but immediate withdrawals
moves tokens; resolved requests are final; and only a quorum of current admins cancels. -/
theorem timelock_consistent (hash : ℕ × A × ℤ × ℕ × ℕ → BitVec 256) (balances : A → A → ℤ)
    (es : List (Event A contract (Operation A))) :
    let w := run (invoke hash) (deployed balances) es
    (∀ id approvals, votes w id = some approvals → ∃ open_ governance,
      request w id = some open_ ∧ open_.status = .pending ∧
        w.storage.governance = some governance ∧ Tally governance approvals) ∧
    (∀ id r, request w id = some r → r.id = id ∧ id < w.storage.nextIdOr) ∧
    ((initiatedIds w).Nodup ∧ (∀ id, id ∈ initiatedIds w ↔ (request w id).isSome = true) ∧
      ∀ id r, request w id = some r → ∀ fs : List (Event A contract (Operation A)),
        ∃ status, request (run (invoke hash) w fs) id = some { r with status := status }) ∧
    (∀ id, payouts hash id (deployed balances) es ≤ 1) ∧
    (∀ e : Event A contract (Operation A), ∃ ts, Outflow w e ts ∧
      (step (invoke hash) w e).transfers = w.transfers ++ ts) ∧
    (∀ id r, request w id = some r → r.status ≠ .pending →
      ∀ fs : List (Event A contract (Operation A)),
        request (run (invoke hash) w fs) id = some r) ∧
    (∀ (e : Event A contract (Operation A)) id r r', request w id = some r → r.status ≠ .cancelled →
      request (step (invoke hash) w e) id = some r' → r'.status = .cancelled →
      ∃ governance, w.storage.governance = some governance ∧
        Quorum.Reached (fun a => (id, a) ∈ ballots hash (deployed balances) (es ++ [e]))
          governance.admins governance.cancellationThreshold) := by
  have start : Consistent (deployed balances) := deployed_consistent balances
  have kept : Consistent (run (invoke hash) (deployed balances) es) :=
    consistent_invariant.run start es
  refine ⟨kept.tallies, kept.named, ⟨kept.once, kept.recorded, ?_⟩, ?_, ?_, ?_, ?_⟩
  · intro id r found fs
    exact request_kept kept found fs
  · intro id
    exact (withdrawal contract hash id).count_le_one
      (fun _ _ _ h => settles_of_paysRequest h) start es
  · intro e
    exact outflow_of_step _ e
  · intro id r found resolved fs
    exact resolved_absorbing kept found resolved fs
  · intro e id r r' before active after gone
    refine cancelled_by_quorum balances es e before active ?_ gone
    rwa [run_append]

end MobileMoney.Timelock
