import MobileMoney.Contracts.Timelock.Program

/-!
# What each timelock operation does when it succeeds

`Effect` lists everything a successful call can do, with the checks it passed; every
invariant below follows from `invoke_cases` and never unfolds an operation again.
-/

namespace MobileMoney.Timelock

open Soroban MachineInt

variable {A : Type} [DecidableEq A] {contract : A} {hash : ℕ × A × ℤ × ℕ × ℕ → BitVec 256}

abbrev request (w : TimelockWorld A) (id : ℕ) : Option (WithdrawalRequest A) :=
  w.storage.getRequests id

abbrev votes (w : TimelockWorld A) (id : ℕ) : Option (List A) := w.storage.getCancelVotes id

/-- The request a successful `initiate_withdrawal` stores. -/
def initiatedRequest (env : Invocation A contract) (w : TimelockWorld A) (recipient : A)
    (amount : ℤ) : WithdrawalRequest A :=
  ⟨w.storage.nextIdOr, recipient, amount, env.timestamp,
    (u64.saturatingAdd env.timestamp timelockDurationSeconds).toNat, .pending⟩

/-- The cancellation vote an operation casts: for which request, and by whom. -/
def Operation.ballot (w : TimelockWorld A) : Operation A → Option (ℕ × A)
  | .voteCancel id admin => some (id, admin)
  | .cancelOperation id admin => some (id, admin)
  | .cancelWithdrawal id => w.storage.config.map fun config => (id, config.admin)
  | _ => none

/-- What a successful vote has checked. -/
structure Votes (env : Invocation A contract) (w : TimelockWorld A) (id : ℕ) (admin : A)
    (governance : GovernanceConfig A) (pending : WithdrawalRequest A) : Prop where
  governed : w.storage.governance = some governance
  member : admin ∈ governance.admins
  authorised : env.authorised admin = true
  found : request w id = some pending
  pending : pending.status = .pending
  first : admin ∉ (votes w id).getD []

/-- The withdrawal an execution or an immediate withdrawal pays. -/
def payment (contract : A) (config : TimelockConfig A) (recipient : A) (amount : ℤ) :
    Transfer A :=
  ⟨config.token, contract, recipient, amount⟩

/-- The world after a successful `execute_withdrawal`. -/
def executedWorld (contract : A) (config : TimelockConfig A) (id : ℕ)
    (open_ : WithdrawalRequest A) (w : TimelockWorld A) : TimelockWorld A :=
  ((w.pay (payment contract config open_.recipient open_.amount)).store { w.storage with
    requests := some (Function.update w.storage.getRequests id
      (some { open_ with status := .executed }))
    cancelVotes := some (Function.update w.storage.getCancelVotes id none) }).publish
  (.withdrawalExecuted id)

@[simp] theorem executedWorld_requests (config : TimelockConfig A) (id : ℕ)
    (open_ : WithdrawalRequest A) (w : TimelockWorld A) :
    (executedWorld contract config id open_ w).storage.getRequests =
      Function.update w.storage.getRequests id (some { open_ with status := .executed }) := rfl

@[simp] theorem executedWorld_votes (config : TimelockConfig A) (id : ℕ)
    (open_ : WithdrawalRequest A) (w : TimelockWorld A) :
    (executedWorld contract config id open_ w).storage.getCancelVotes =
      Function.update w.storage.getCancelVotes id none := rfl

@[simp] theorem executedWorld_transfers (config : TimelockConfig A) (id : ℕ)
    (open_ : WithdrawalRequest A) (w : TimelockWorld A) :
    (executedWorld contract config id open_ w).transfers =
      w.transfers ++ [payment contract config open_.recipient open_.amount] := rfl

/-- The token's answer that an executed payment needs. -/
def Payable (env : Invocation A contract) (w : TimelockWorld A) (t : Transfer A) : Prop :=
  env.accepts (.transfer t) = true ∧ 0 ≤ t.amount ∧ t.amount ≤ w.balances t.token t.source

inductive Effect (hash : ℕ × A × ℤ × ℕ × ℕ → BitVec 256) (env : Invocation A contract)
    (op : Operation A) (w w' : TimelockWorld A) : Prop where
  | initialized (admin token : A) (amount : ℤ) (fresh : w.storage.config = none)
      (positive : 0 < amount)
      (result : w' = w.store ⟨some ⟨admin, token, amount⟩, some ⟨[admin], 1⟩,
        some fun _ => none, some fun _ => none, some 0⟩)
  | initiated (recipient : A) (amount : ℤ) (called : op = .initiateWithdrawal recipient amount)
      (config : TimelockConfig A) (configured : w.storage.config = some config)
      (authorised : env.authorised config.admin = true) (positive : 0 < amount)
      (result : w' = (w.store { w.storage with
          nextId := some (w.storage.nextIdOr + 1)
          requests := some (Function.update w.storage.getRequests w.storage.nextIdOr
            (some (initiatedRequest env w recipient amount))) }).publish
        (.withdrawalInitiated w.storage.nextIdOr amount
          (initiatedRequest env w recipient amount).executableAt))
  | configured (admins : List A) (threshold : ℕ) (positive : 0 < threshold)
      (enough : threshold ≤ admins.length) (distinct : admins.Nodup)
      (result : w' = w.store { w.storage with
        governance := some ⟨admins, threshold⟩, cancelVotes := some fun _ => none })
  | voted (id : ℕ) (admin : A) (called : op.ballot w = some (id, admin))
      (governance : GovernanceConfig A) (open_ : WithdrawalRequest A)
      (checked : Votes env w id admin governance open_)
      (few : ((votes w id).getD [] ++ [admin]).length < governance.cancellationThreshold)
      (result : w' = (w.store { w.storage with
          cancelVotes := some (Function.update w.storage.getCancelVotes id
            (some ((votes w id).getD [] ++ [admin]))) }).publish
        (.cancellationVoteCast id admin ((votes w id).getD [] ++ [admin]).length
          governance.cancellationThreshold))
  | cancelled (id : ℕ) (admin : A) (called : op.ballot w = some (id, admin))
      (governance : GovernanceConfig A) (open_ : WithdrawalRequest A)
      (checked : Votes env w id admin governance open_)
      (enough : governance.cancellationThreshold ≤ ((votes w id).getD [] ++ [admin]).length)
      (result : w' = ((w.store { w.storage with
          requests := some (Function.update w.storage.getRequests id
            (some { open_ with status := .cancelled }))
          cancelVotes := some (Function.update w.storage.getCancelVotes id none) }).publish
        (.withdrawalCancelled id)).publish
        (.operationCancelled id (operationHash hash open_) ((votes w id).getD [] ++ [admin])))
  | executed (id : ℕ) (called : op = .executeWithdrawal id) (config : TimelockConfig A)
      (configured : w.storage.config = some config) (open_ : WithdrawalRequest A)
      (found : request w id = some open_) (pending : open_.status = .pending)
      (matured : open_.executableAt ≤ env.timestamp)
      (payable : Payable env w (payment contract config open_.recipient open_.amount))
      (result : w' = executedWorld contract config id open_ w)
  | withdrawn (recipient : A) (amount : ℤ) (called : op = .withdrawImmediate recipient amount)
      (config : TimelockConfig A) (configured : w.storage.config = some config)
      (authorised : env.authorised config.admin = true)
      (positive : 0 < amount) (small : amount < config.minTimelockAmount)
      (payable : Payable env w (payment contract config recipient amount))
      (result : w' = w.pay (payment contract config recipient amount))
  | idle (result : w' = w)

theorem initializeTimelock_effect {env : Invocation A contract} {admin token : A}
    {amount : ℤ} {w w' : TimelockWorld A}
    (h : initializeTimelock env admin token amount w = .ok w') (op : Operation A) :
    Effect hash env op w w' := by
  simp only [initializeTimelock, bind_eq_ok, require_eq_ok, Invocation.requireAuth_eq_ok,
    pure_eq_ok, exists_const] at h
  obtain ⟨hfresh, hpos, -, rfl⟩ := h
  exact .initialized admin token amount (by simpa using hfresh) hpos rfl

omit [DecidableEq A] in
theorem nextId_eq_ok {w w' : TimelockWorld A} {id : ℕ} (h : nextId w = .ok (id, w')) :
    id = w.storage.nextIdOr ∧
      w' = w.store { w.storage with nextId := some (w.storage.nextIdOr + 1) } := by
  simp only [nextId, bind_eq_ok, require_eq_ok, pure_eq_ok, Prod.mk.injEq] at h
  obtain ⟨_, -, hid, hw⟩ := h
  exact ⟨hid.symm, hw.symm⟩

theorem initiateWithdrawal_effect {env : Invocation A contract} {recipient : A} {amount : ℤ}
    {w w' : TimelockWorld A} {id : ℕ}
    (h : initiateWithdrawal env recipient amount w = .ok (id, w')) :
    Effect hash env (.initiateWithdrawal recipient amount) w w' := by
  simp only [initiateWithdrawal, getConfig, bind_eq_ok, orFail_eq_ok, require_eq_ok,
    Invocation.requireAuth_eq_ok, pure_eq_ok, exists_const, Prod.mk.injEq] at h
  obtain ⟨config, hconfig, hauth, hpos, ⟨_, _⟩, hnext, -, rfl⟩ := h
  obtain ⟨rfl, rfl⟩ := nextId_eq_ok hnext
  refine .initiated recipient amount rfl config hconfig hauth hpos ?_
  simp only [initiatedRequest, World.store_storage]
  rfl

theorem configureGovernance_effect {env : Invocation A contract} {admins : List A}
    {threshold : ℕ} {w w' : TimelockWorld A}
    (h : configureGovernance env admins threshold w = .ok w') (op : Operation A) :
    Effect hash env op w w' := by
  simp only [configureGovernance, getConfig, bind_eq_ok, orFail_eq_ok, require_eq_ok,
    Invocation.requireAuth_eq_ok, pure_eq_ok, exists_const] at h
  obtain ⟨config, -, -, hsome, hle, hnodup, rfl⟩ := h
  push Not at hsome
  exact .configured admins threshold (by omega) (by omega) hnodup rfl

theorem voteCancel_effect {env : Invocation A contract} {op : Operation A} {id count : ℕ}
    {admin : A} {w w' : TimelockWorld A} (called : op.ballot w = some (id, admin))
    (h : voteCancel hash env id admin w = .ok (count, w')) : Effect hash env op w w' := by
  simp only [voteCancel, loadGovernance, bind_eq_ok, orFail_eq_ok, require_eq_ok,
    Invocation.requireAuth_eq_ok, exists_const] at h
  obtain ⟨governance, hgov, hmem, hauth, open_, hfound, hpending, hfirst, h⟩ := h
  have checked : Votes env w id admin governance open_ :=
    ⟨hgov, hmem, hauth, hfound, hpending, hfirst⟩
  split_ifs at h with henough
  · simp only [pure_eq_ok, Prod.mk.injEq] at h
    exact .cancelled id admin called governance open_ checked henough h.2.symm
  · simp only [pure_eq_ok, Prod.mk.injEq] at h
    exact .voted id admin called governance open_ checked (not_le.1 henough) h.2.symm

theorem executeWithdrawal_eq_ok {env : Invocation A contract} {id : ℕ}
    {w w' : TimelockWorld A} (h : executeWithdrawal env id w = .ok w') :
    ∃ config open_, w.storage.config = some config ∧ request w id = some open_ ∧
      open_.status = .pending ∧ open_.executableAt ≤ env.timestamp ∧
      Payable env w (payment contract config open_.recipient open_.amount) ∧
      w' = executedWorld contract config id open_ w := by
  simp only [executeWithdrawal, getConfig, bind_eq_ok, orFail_eq_ok, require_eq_ok,
    Invocation.transfer_eq_ok, pure_eq_ok, exists_const] at h
  obtain ⟨config, hconfig, open_, hfound, hpending, hmatured, _, ⟨hpay, rfl⟩, rfl⟩ := h
  exact ⟨config, open_, hconfig, hfound, hpending, hmatured, hpay, rfl⟩

theorem withdrawImmediate_eq_ok {env : Invocation A contract} {recipient : A} {amount : ℤ}
    {w w' : TimelockWorld A} :
    withdrawImmediate env recipient amount w = .ok w' ↔ ∃ config,
      w.storage.config = some config ∧ env.authorised config.admin = true ∧ 0 < amount ∧
      amount < config.minTimelockAmount ∧
      Payable env w (payment contract config recipient amount) ∧
      w.pay (payment contract config recipient amount) = w' := by
  simp only [withdrawImmediate, getConfig, bind_eq_ok, orFail_eq_ok, require_eq_ok,
    Invocation.requireAuth_eq_ok, Invocation.transfer_eq_ok, exists_const, not_le]
  rfl

theorem invoke_cases {env : Invocation A contract} {op : Operation A}
    {w w' : TimelockWorld A} (h : invoke hash env op w = .ok w') :
    Effect hash env op w w' := by
  cases op with
  | initializeTimelock admin token amount => exact initializeTimelock_effect h _
  | initiateWithdrawal recipient amount =>
    obtain ⟨⟨id, _⟩, hk, rfl⟩ := map_eq_ok.1 h
    exact initiateWithdrawal_effect hk
  | configureGovernance admins threshold => exact configureGovernance_effect h _
  | voteCancel id admin =>
    obtain ⟨⟨count, _⟩, hk, rfl⟩ := map_eq_ok.1 h
    exact voteCancel_effect rfl hk
  | cancelOperation id admin =>
    obtain ⟨⟨count, _⟩, hk, rfl⟩ := map_eq_ok.1 h
    exact voteCancel_effect rfl hk
  | cancelWithdrawal id =>
    simp only [invoke, cancelWithdrawal, getConfig, bind_eq_ok, orFail_eq_ok,
      pure_eq_ok] at h
    obtain ⟨config, hconfig, ⟨count, _⟩, h, rfl⟩ := h
    exact voteCancel_effect (by simp [Operation.ballot, hconfig]) h
  | executeWithdrawal id =>
    obtain ⟨config, open_, hconfig, hfound, hpending, hmatured, hpay, hw'⟩ :=
      executeWithdrawal_eq_ok h
    exact .executed id rfl config hconfig open_ hfound hpending hmatured hpay hw'
  | withdrawImmediate recipient amount =>
    obtain ⟨config, hconfig, hauth, hpos, hsmall, hpay, hw'⟩ := withdrawImmediate_eq_ok.1 h
    exact .withdrawn recipient amount rfl config hconfig hauth hpos hsmall hpay hw'.symm
  | getGovernance | getCancellationStatus | getRequest | minTimelockAmount =>
    obtain ⟨_, -, rfl⟩ := map_eq_ok.1 h
    exact .idle rfl

end MobileMoney.Timelock
