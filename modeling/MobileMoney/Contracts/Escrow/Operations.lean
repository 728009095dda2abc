import MobileMoney.Contracts.Escrow.Program
import Mathlib.Tactic.Linarith

/-!
# What each escrow operation does when it succeeds

One lemma for each operation, over worlds in the current storage layout: which stored
state it acted on, who authorised it, what it stored and which transfers it made.
-/

namespace MobileMoney.Escrow

open Soroban MachineInt

variable {A : Type} {contract : A}

/-! ## The fee split -/

/-- On the range `initialize` admits the split neither overflows nor loses a unit. -/
theorem split_total {state : EscrowState A} (hpos : 0 < state.amount)
    (hmax : state.amount ≤ i128.max / 10000) (hfee : state.feeBps ≤ 10000) :
    ∃ fee net, state.split = some (fee, net) ∧ 0 ≤ fee ∧ fee ≤ state.amount ∧
      fee + net = state.amount := by
  have hbps : (0 : ℤ) ≤ state.feeBps := Int.natCast_nonneg _
  have hle : (state.feeBps : ℤ) ≤ 10000 := by exact_mod_cast hfee
  obtain ⟨h0, h1⟩ := tdiv_share_bounds hpos.le hbps (by norm_num : (0 : ℤ) < 10000) hle
  simp only [i128] at hmax
  norm_num at hmax
  have hprod : state.amount * state.feeBps ≤ state.amount * 10000 :=
    mul_le_mul_of_nonneg_left hle hpos.le
  have hnonneg : 0 ≤ state.amount * state.feeBps := mul_nonneg hpos.le hbps
  have hmul : i128.checkedMul state.amount state.feeBps =
      some (state.amount * state.feeBps) := by
    apply IntType.checked_of_mem <;> simp only [i128] <;> linarith
  have hdiv : i128.checkedDiv (state.amount * state.feeBps) 10000 =
      some ((state.amount * state.feeBps).tdiv 10000) := by
    rw [IntType.checkedDiv, if_neg (by norm_num)]
    apply IntType.checked_of_mem <;> simp only [i128] <;> linarith
  have hsub : i128.checkedSub state.amount ((state.amount * state.feeBps).tdiv 10000) =
      some (state.amount - (state.amount * state.feeBps).tdiv 10000) := by
    apply IntType.checked_of_mem <;> simp only [i128] <;> linarith
  refine ⟨(state.amount * state.feeBps).tdiv 10000,
    state.amount - (state.amount * state.feeBps).tdiv 10000, ?_, h0, h1, by ring⟩
  simp [EscrowState.split, hmul, hdiv, hsub]

/-! ## What has been transferred, as a function of the stored state -/

/-- What `initialize` has checked about a stored escrow. -/
structure Admitted (contract : A) (state : EscrowState A) : Prop where
  amount_pos : 0 < state.amount
  amount_le : state.amount ≤ i128.max / 10000
  fee_le : state.feeBps ≤ 10000
  depositor_ne : state.depositor ≠ contract

def deposit (contract : A) (state : EscrowState A) : Transfer A :=
  ⟨state.token, state.depositor, contract, state.amount⟩

def releaseTransfers (contract : A) (state : EscrowState A) (fee net : ℤ) :
    List (Transfer A) :=
  (if 0 < fee then [⟨state.token, contract, state.feeRecipient, fee⟩] else []) ++
    [⟨state.token, contract, state.beneficiary, net⟩]

def refundTransfers (contract : A) (state : EscrowState A) : List (Transfer A) :=
  [⟨state.token, contract, state.depositor, state.amount⟩]

/-- The state under the `ESCROW` key when it has the current layout. -/
def stored (w : EscrowWorld A) : Option (EscrowState A) :=
  match w.storage.escrow with
  | some (.hot state) => some state
  | _ => none

/-- Escrow and admin entries are written together and in the current layout. -/
structure SplitLayout (w : EscrowWorld A) : Prop where
  unlocked : w.storage.reentrancy = false
  hot : ∀ entry, w.storage.escrow = some entry →
    (∃ state, entry = .hot state) ∧ w.storage.escrowAdmins.isSome = true

theorem stored_eq_some {w : EscrowWorld A} {state : EscrowState A} :
    stored w = some state ↔ w.storage.escrow = some (.hot state) := by
  unfold stored
  split <;> simp_all

/-! ## One lemma for each operation -/

theorem enterGuard_eq_ok {w w' : EscrowWorld A} :
    enterGuard w = .ok w' ↔
      w.storage.reentrancy = false ∧ w.store { w.storage with reentrancy := true } = w' := by
  simp only [enterGuard, bind_eq_ok, require_eq_ok, pure_eq_ok, exists_const]

/-- In the current layout loading reads the stored state and changes nothing. -/
theorem loadState_eq_ok {w w' : EscrowWorld A} {loaded : Option (EscrowState A)}
    (hot : ∀ entry, w.storage.escrow = some entry →
      (∃ state, entry = .hot state) ∧ w.storage.escrowAdmins.isSome = true)
    (h : loadState w = .ok (loaded, w')) : loaded = stored w ∧ w' = w := by
  unfold loadState at h
  cases he : w.storage.escrow with
  | none =>
    rw [he] at h
    simp only [Except.ok.injEq, Prod.mk.injEq] at h
    exact ⟨by simp [stored, he, ← h.1], h.2.symm⟩
  | some entry =>
    obtain ⟨⟨state, rfl⟩, hadm⟩ := hot entry he
    obtain ⟨admins, ha⟩ := Option.isSome_iff_exists.1 hadm
    rw [he, ha] at h
    simp only [Except.ok.injEq, Prod.mk.injEq] at h
    exact ⟨by simp [stored, he, ← h.1], h.2.symm⟩

theorem openState_eq_ok {w w' : EscrowWorld A} (hw : SplitLayout w)
    {missing : Failure EscrowError} {state : EscrowState A}
    (h : openState missing w = .ok (state, w')) :
    stored w = some state ∧ w.store { w.storage with reentrancy := true } = w' := by
  simp only [openState, bind_eq_ok, enterGuard_eq_ok, orFail_eq_ok, pure_eq_ok,
    Prod.mk.injEq] at h
  obtain ⟨_, ⟨-, rfl⟩, ⟨loaded, _⟩, hload, _, hstate, rfl, rfl⟩ := h
  obtain ⟨hl, rfl⟩ := loadState_eq_ok (by exact hw.hot) hload
  exact ⟨hl.symm.trans hstate, rfl⟩


theorem getState_eq_ok {w w' : EscrowWorld A} {state : EscrowState A} (hw : SplitLayout w)
    (h : getState w = .ok (state, w')) : stored w = some state ∧ w' = w := by
  simp only [getState, bind_eq_ok, orFail_eq_ok, pure_eq_ok, Prod.mk.injEq] at h
  obtain ⟨⟨loaded, w₁⟩, hload, _, hstate, rfl, rfl⟩ := h
  obtain ⟨hl, hw'⟩ := loadState_eq_ok hw.hot hload
  exact ⟨hl ▸ hstate, hw'⟩

theorem getAdmins_eq_ok {w w' : EscrowWorld A} {admins : EscrowAdmins A}
    (hw : SplitLayout w) (h : getAdmins w = .ok (admins, w')) :
    w.storage.escrowAdmins = some admins ∧ w' = w := by
  simp only [getAdmins, bind_eq_ok, orFail_eq_ok, pure_eq_ok, Prod.mk.injEq] at h
  obtain ⟨⟨loaded, w₁⟩, hload, _, -, _, hadmins, rfl, rfl⟩ := h
  obtain ⟨-, rfl⟩ := loadState_eq_ok hw.hot hload
  exact ⟨hadmins, rfl⟩

variable [DecidableEq A]

theorem returnDeposit_eq_ok {env : Invocation A contract} {state : EscrowState A}
    {w w' : EscrowWorld A} (h : returnDeposit env state w = .ok w') :
    w'.storage = { w.storage with
      escrow := some (.hot { state with status := .refunded }), reentrancy := false } ∧
    Paid w w' (refundTransfers contract state) := by
  simp only [returnDeposit, bind_eq_ok, Invocation.transfer_eq_ok, pure_eq_ok] at h
  obtain ⟨_, ⟨-, rfl⟩, rfl⟩ := h
  have same : Paid w (setState w { state with status := .refunded }) [] :=
    Paid.of_same rfl rfl
  exact ⟨rfl, (same.pay _).congr rfl rfl rfl rfl⟩

theorem payFee_eq_ok {env : Invocation A contract} {state : EscrowState A} {fee : ℤ}
    {v w w' : EscrowWorld A} {ts : List (Transfer A)} (hp : Paid v w ts)
    (h : payFee env state fee w = .ok w') :
    w'.storage = w.storage ∧ Paid v w'
      (ts ++ if 0 < fee then [⟨state.token, contract, state.feeRecipient, fee⟩] else []) := by
  unfold payFee at h
  split_ifs at h with hfee
  · simp only [bind_eq_ok, Invocation.trust_eq_ok, Invocation.transfer_eq_ok] at h
    obtain ⟨_, -, -, rfl⟩ := h
    rw [if_pos hfee]
    exact ⟨rfl, hp.pay _⟩
  · simp only [Except.ok.injEq] at h
    subst h
    rw [if_neg hfee, List.append_nil]
    exact ⟨rfl, hp⟩

/-- A refund path succeeds only on a pending escrow and returns the deposit. -/
structure Refunded (contract : A) (state : EscrowState A) (w w' : EscrowWorld A) : Prop where
  pending : state.status = .pending
  storage : w'.storage = { w.storage with
    escrow := some (.hot { state with status := .refunded }) }
  paid : Paid w w' (refundTransfers contract state)

theorem refund_eq_ok {env : Invocation A contract} {w w' : EscrowWorld A}
    (hw : SplitLayout w) (h : refund env w = .ok w') :
    ∃ state, stored w = some state ∧ env.authorised state.arbiter = true ∧
      Refunded contract state w w' := by
  simp only [refund, bind_eq_ok, Invocation.requireAuth_eq_ok, require_eq_ok] at h
  obtain ⟨⟨state, _⟩, hopen, _, hauth, _, hpending, _, -, hk⟩ := h
  obtain ⟨hstate, rfl⟩ := openState_eq_ok hw hopen
  obtain ⟨hs, hp⟩ := returnDeposit_eq_ok hk
  refine ⟨state, hstate, hauth, hpending, ?_, hp.congr rfl rfl rfl rfl⟩
  rw [hs, ← hw.unlocked]
  rfl

theorem emergencyRefund_eq_ok {env : Invocation A contract} {w w' : EscrowWorld A}
    (hw : SplitLayout w) (h : emergencyRefund env w = .ok w') :
    ∃ state, stored w = some state ∧ env.authorised state.depositor = true ∧
      state.emergencyUnlockTimestamp ≤ env.timestamp ∧ Refunded contract state w w' := by
  simp only [emergencyRefund, bind_eq_ok, Invocation.requireAuth_eq_ok, require_eq_ok] at h
  obtain ⟨⟨state, _⟩, hopen, _, hauth, _, hpending, _, htime, hk⟩ := h
  obtain ⟨hstate, rfl⟩ := openState_eq_ok hw hopen
  obtain ⟨hs, hp⟩ := returnDeposit_eq_ok hk
  refine ⟨state, hstate, hauth, htime, hpending, ?_, hp.congr rfl rfl rfl rfl⟩
  rw [hs, ← hw.unlocked]
  rfl

theorem selfRefund_eq_ok {env : Invocation A contract} {w w' : EscrowWorld A}
    (hw : SplitLayout w) (h : selfRefund env w = .ok w') :
    ∃ state, stored w = some state ∧ env.authorised state.depositor = true ∧
      state.lockUntilLedger < env.sequence ∧ Refunded contract state w w' := by
  simp only [selfRefund, bind_eq_ok, Invocation.requireAuth_eq_ok, require_eq_ok] at h
  obtain ⟨⟨state, _⟩, hopen, _, hauth, _, hpending, _, hlock, hk⟩ := h
  obtain ⟨hstate, rfl⟩ := openState_eq_ok hw hopen
  obtain ⟨hs, hp⟩ := returnDeposit_eq_ok hk
  refine ⟨state, hstate, hauth, by dsimp only at hlock; omega, hpending, ?_,
    hp.congr rfl rfl rfl rfl⟩
  rw [hs, ← hw.unlocked]
  rfl

/-- `release` succeeds only on a pending escrow, and pays the fee and the net amount of
its split. -/
structure Released (contract : A) (state : EscrowState A) (w w' : EscrowWorld A) : Prop where
  pending : state.status = .pending
  storage : w'.storage = { w.storage with
    escrow := some (.hot { state with status := .completed }) }
  paid : ∃ fee net, state.split = some (fee, net) ∧
    Paid w w' (releaseTransfers contract state fee net)

theorem release_eq_ok {env : Invocation A contract} {w w' : EscrowWorld A}
    (hw : SplitLayout w) (h : release env w = .ok w') :
    ∃ state, stored w = some state ∧ env.authorised state.arbiter = true ∧
      Released contract state w w' := by
  simp only [release, bind_eq_ok, Invocation.requireAuth_eq_ok, require_eq_ok, orFail_eq_ok,
    Invocation.trust_eq_ok, Invocation.transfer_eq_ok, pure_eq_ok] at h
  obtain ⟨⟨state, _⟩, hopen, _, hauth, _, hpending, _, -, ⟨fee, net⟩, hsplit, _, -, w₁, hfee,
    _, ⟨-, rfl⟩, rfl⟩ := h
  obtain ⟨hstate, rfl⟩ := openState_eq_ok hw hopen
  have same : Paid w (setState (w.store { w.storage with reentrancy := true })
      { state with status := .completed }) [] := Paid.of_same rfl rfl
  obtain ⟨hs, hp⟩ := payFee_eq_ok same hfee
  refine ⟨state, hstate, hauth, hpending, ?_, fee, net, hsplit,
    (hp.pay ⟨state.token, contract, state.beneficiary, net⟩).congr rfl rfl rfl rfl⟩
  simp only [dropGuard, World.store_storage, World.publish_storage, World.pay_storage, hs,
    setState]
  rw [← hw.unlocked]

theorem initializeEscrow_eq_ok {env : Invocation A contract} {args : InitializeArgs A}
    {w w' : EscrowWorld A} (h : initializeEscrow env args w = .ok w') :
    w.storage.escrow = none ∧ Admitted contract args.state ∧
      w'.storage = { w.storage with
        escrow := some (.hot args.state)
        escrowAdmins := some ⟨args.adminSigners, args.requiredAdminSignatures⟩
        reentrancy := false } ∧
      Paid w w' [deposit contract args.state] := by
  simp only [initializeEscrow, bind_eq_ok, enterGuard_eq_ok, Invocation.requireAuth_eq_ok,
    require_eq_ok, Invocation.transfer_eq_ok, pure_eq_ok] at h
  obtain ⟨_, ⟨-, rfl⟩, _, hauth, _, hpos, _, hmax, _, hnone, _, -, _, hfee, _, -, _, -, _, -,
    _, ⟨-, rfl⟩, rfl⟩ := h
  refine ⟨hnone, ⟨hpos, hmax, hfee, env.ne_contract_of_authorised hauth⟩, rfl, ?_⟩
  have same : Paid w w [] := Paid.of_same rfl rfl
  exact (same.pay (deposit contract args.state)).congr rfl rfl rfl rfl

theorem upgrade_eq_ok {env : Invocation A contract} {newWasmHash : BitVec 256}
    {adminSigners : List A} {w w' : EscrowWorld A} (hw : SplitLayout w)
    (h : upgrade env newWasmHash adminSigners w = .ok w') :
    w'.storage = { w.storage with wasm := newWasmHash } ∧ Paid w w' [] := by
  simp only [upgrade, bind_eq_ok, orFail_eq_ok, require_eq_ok, pure_eq_ok] at h
  obtain ⟨⟨state, _⟩, hopen, _, -, _, -, _, -, _, -, rfl⟩ := h
  obtain ⟨-, rfl⟩ := openState_eq_ok hw hopen
  refine ⟨?_, Paid.of_same rfl rfl⟩
  simp only [dropGuard, World.store_storage]
  rw [← hw.unlocked]

end MobileMoney.Escrow
