import MobileMoney.Contracts.Escrow.Custody
import MobileMoney.Library.Hold

/-!
# Runs of the escrow contract

The contract's view of its own storage refines `Hold`: vacant, held under fixed terms,
settled once. Absorption and at-most-once payout over runs come from there, and the
balance of the contract from the host's accounting.
-/

namespace MobileMoney.Escrow

open Soroban MachineInt

variable {A : Type} [DecidableEq A] {contract : A}

/-- The state an escrow was published in. -/
def terms (state : EscrowState A) : EscrowState A := { state with status := .pending }

/-- The escrow as a hold: its terms are the state as it was published, its payout is the
state it was closed in. -/
def view (w : EscrowWorld A) : Hold.State (EscrowState A) (EscrowState A) :=
  Hold.ofRecord (·.status = .pending) terms (stored w)

theorem Effect.refines {op : Operation A} {w w' : EscrowWorld A}
    (h : Effect contract op w w') :
    Hold.Step (Admitted contract) (fun _ state => state.status ≠ .pending)
      (view w) (view w') := by
  cases h with
  | funded args vacant admitted storage paid =>
    have before : stored w = none := by simp [stored, vacant]
    have after : stored w' = some args.state := stored_eq_some.2 (by rw [storage])
    exact Hold.step_fund before after rfl admitted
  | released _ state found hr =>
    have after : stored w' = some { state with status := .completed } :=
      stored_eq_some.2 (by rw [hr.storage])
    exact Hold.step_settle found after hr.pending (by simp) rfl (by simp)
  | refunded _ state found hr =>
    have after : stored w' = some { state with status := .refunded } :=
      stored_eq_some.2 (by rw [hr.storage])
    exact Hold.step_settle found after hr.pending (by simp) rfl (by simp)
  | idle storage paid =>
    obtain ⟨wasm, storage⟩ := storage
    have same : view w' = view w := by simp [view, stored, storage]
    rw [same]
    exact .idle _

/-- The escrow contract implements a hold. -/
def hold (contract : A) : Hold.Implementation (EscrowWorld A)
    (Event A contract (Operation A)) (EscrowState A) (EscrowState A) where
  step := step invoke
  view := view
  inv := Custodied contract
  admits := Admitted contract
  pays _ state := state.status ≠ .pending
  preserves _ e hw := custodied_invariant.step hw e
  refines w e hw := by
    refine step_cases (fun v => Hold.Step _ _ (view w) (view v)) w e (.idle _) ?_ ?_
    · rintro move rfl
      exact .idle _
    · intro env op v _ h
      exact (invoke_cases hw.toSplitLayout h).refines

/-- A closed escrow stays as it was closed, and nothing more is transferred. -/
theorem closed_absorbing {w : EscrowWorld A} (hw : Custodied contract w)
    {state : EscrowState A} (found : stored w = some state) (closed : state.status ≠ .pending)
    (es : List (Event A contract (Operation A))) :
    stored (run invoke w es) = some state ∧ (run invoke w es).transfers = w.transfers := by
  have now : view w = .settled (terms state) state := by
    rw [view, found]
    exact Hold.ofRecord_closed closed
  have stays : stored (run invoke w es) = some state :=
    Hold.eq_some_of_settled ((hold contract).settled_run hw now es)
  refine ⟨stays, ?_⟩
  rw [((custodied_invariant.run hw es).occupied state stays).2, (hw.occupied state found).2]

/-! ## At most one payout -/

/-- Whether an event makes the contract pay somebody. -/
def paysOut (w : EscrowWorld A) (e : Event A contract (Operation A)) : Bool :=
  ((step invoke w e).transfers.drop w.transfers.length).any (fun t => t.source = contract)

/-- The number of events of a run in which the contract pays somebody. -/
def payouts (w : EscrowWorld A) (es : List (Event A contract (Operation A))) : ℕ :=
  Runs.count (step invoke) paysOut w es

theorem settles_of_paysOut {w : EscrowWorld A} (hw : Custodied contract w)
    {e : Event A contract (Operation A)} (h : paysOut w e = true) :
    (hold contract).settles w e = true := by
  have idle : ∀ v : EscrowWorld A, v.transfers = w.transfers →
      ¬ (v.transfers.drop w.transfers.length).any (fun t => t.source = contract) = true := by
    intro v hv
    simp [hv]
  unfold paysOut at h
  change Hold.closes (view w) (view (step invoke w e)) = true
  refine step_cases (fun v =>
      (v.transfers.drop w.transfers.length).any (fun t => t.source = contract) = true →
      Hold.closes (view w) (view v) = true) w e (fun h => absurd h (idle w rfl)) ?_ ?_ h
  · rintro move rfl h
    exact absurd h (idle _ rfl)
  · rintro env op v rfl hcall hpays
    cases invoke_cases hw.toSplitLayout hcall with
    | funded args _ admitted _ paid =>
      rw [paid.transfers, List.drop_left] at hpays
      simp [deposit, admitted.depositor_ne] at hpays
    | released _ state found hr =>
      exact Hold.closes_ofRecord found (stored_eq_some.2 (by rw [hr.storage])) hr.pending
        (by simp)
    | refunded _ state found hr =>
      exact Hold.closes_ofRecord found (stored_eq_some.2 (by rw [hr.storage])) hr.pending
        (by simp)
    | idle _ paid => exact absurd hpays (idle v (by simpa using paid.transfers))

theorem payouts_le_one {w : EscrowWorld A} (hw : Custodied contract w)
    (es : List (Event A contract (Operation A))) : payouts w es ≤ 1 :=
  (hold contract).count_le_one (fun _ _ hw h => settles_of_paysOut hw h) hw es

/-! ## The law of the escrow -/

/-- While pending, the contract's balance exceeds what it started with and was given by
outsiders by exactly the held amount. -/
theorem pending_balance (wasm : BitVec 256) (balances : A → A → ℤ)
    (es : List (Event A contract (Operation A))) {state : EscrowState A}
    (found : stored (run invoke (deployed wasm balances) es) = some state)
    (pending : state.status = .pending) (token : A) :
    (run invoke (deployed wasm balances) es).balances token contract =
      balances token contract + donated es token +
        if state.token = token then state.amount else 0 := by
  have start : Custodied contract (deployed wasm balances) := deployed_custodied wasm balances
  obtain ⟨admitted, transfers⟩ := (custodied_invariant.run start es).occupied state found
  obtain ⟨ts, hts, hb⟩ := custodied_invariant.balance
    (fun env op w w' hw h => (invoke_cases hw.toSplitLayout h).paid) start es
  have hts' : ts = [deposit contract state] := by
    rw [transfers] at hts
    simpa [deployed, payout, pending] using hts.symm
  rw [hb token, hts']
  simp [deployed, deposit, Transfer.effect, admitted.depositor_ne]

/-- Every run of the escrow contract from deployment: while pending it holds exactly the
amount; the call that leaves `Pending` is a settlement of exactly that amount; there is at
most one payout; a closed escrow is final; and no admitted escrow makes the split fail. -/
theorem escrow_conserves (wasm : BitVec 256) (balances : A → A → ℤ)
    (es : List (Event A contract (Operation A))) :
    let w := run invoke (deployed wasm balances) es
    (∀ state, stored w = some state → state.status = .pending → ∀ token,
      w.balances token contract = balances token contract + donated es token +
        if state.token = token then state.amount else 0) ∧
    (∀ state state' e, stored w = some state → state.status = .pending →
      stored (step invoke w e) = some state' → state'.status ≠ .pending →
      ∃ ts, Settlement contract state e state' ts ∧ Paid w (step invoke w e) ts ∧
        (ts.map (·.amount)).sum = state.amount ∧ ∀ t ∈ ts, t.source = contract) ∧
    payouts (deployed wasm balances) es ≤ 1 ∧
    (∀ state, stored w = some state → state.status ≠ .pending →
      ∀ fs : List (Event A contract (Operation A)),
        stored (run invoke w fs) = some state ∧ (run invoke w fs).transfers = w.transfers) ∧
    (∀ (env : Invocation A contract) args v v', initializeEscrow env args v = .ok v' →
      ∃ fee net, args.state.split = some (fee, net) ∧ 0 ≤ fee ∧ fee ≤ args.amount ∧
        fee + net = args.amount) := by
  have start : Custodied contract (deployed wasm balances) := deployed_custodied wasm balances
  have kept := custodied_invariant.run start es
  refine ⟨?_, ?_, ?_, ?_, ?_⟩
  · intro state found pending token
    exact pending_balance wasm balances es found pending token
  · intro state state' e found pending found' left
    obtain ⟨ts, settled, paid⟩ := settlement_of_step kept found pending found' left
    exact ⟨ts, settled, paid, settled.total⟩
  · exact payouts_le_one start es
  · intro state found closed fs
    exact closed_absorbing kept found closed fs
  · intro env args v v' h
    have admitted := (initializeEscrow_eq_ok h).2.1
    exact split_total admitted.amount_pos admitted.amount_le admitted.fee_le

end MobileMoney.Escrow
