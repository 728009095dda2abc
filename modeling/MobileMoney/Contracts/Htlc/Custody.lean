import MobileMoney.Contracts.Htlc.Program
import MobileMoney.Library.Hold

/-!
# Custody of the locked funds

A successful call funds a vacant HTLC, settles an open one by claim or refund, or leaves
everything alone. The transfers made so far are a function of the stored state
(`Custodied`), and the contract refines `Hold`, which carries at-most-one payment and
finality to its runs.

The two windows of an atomic swap are meant to be disjoint: claim before the timelock,
refund from then on. `refund` checks the clock and `claim` does not, so in every reachable
state the windows overlap from the timelock on, exactly for an open contract with a
preimage and somebody to authorise the claim.
-/

namespace MobileMoney.Htlc

open Soroban

section Custody

variable {A : Type} [DecidableEq A] {contract : A} {sha256 : BitVec 256 → BitVec 256}

/-- Neither claimed nor refunded. -/
def HtlcState.isOpen (state : HtlcState A) : Prop :=
  state.claimed = false ∧ state.refunded = false

instance : DecidablePred (HtlcState.isOpen (A := A)) := fun state =>
  inferInstanceAs (Decidable (state.claimed = false ∧ state.refunded = false))

/-- The state an HTLC was initialised in. -/
def terms (state : HtlcState A) : HtlcState A :=
  { state with claimed := false, refunded := false }

/-! ## What a call can do -/

/-- What a successful call of `op` can have done to a world. -/
inductive Effect (sha256 : BitVec 256 → BitVec 256) (env : Invocation A contract)
    (op : Operation A) (w w' : HtlcWorld A) : Prop where
  | funded (args : InitializeArgs A) (vacant : w.storage = none)
      (admitted : Admitted contract args.state) (storage : w'.storage = some args.state)
      (paid : Paid w w' [deposit contract args.state])
  | claimed (preimage : BitVec 256) (signers : List A) (isClaim : op = .claim preimage signers)
      (state : HtlcState A) (found : w.storage = some state) (isOpen : state.isOpen)
      (hashed : sha256 preimage = state.hashlock)
      (storage : w'.storage = some { state with claimed := true })
      (paid : Paid w w' [claimPayment contract state])
  | refunded (isRefund : op = .refund) (state : HtlcState A) (found : w.storage = some state)
      (isOpen : state.isOpen) (due : state.timelock ≤ env.timestamp)
      (storage : w'.storage = some { state with refunded := true })
      (paid : Paid w w' [refundPayment contract state])
  | idle (same : w' = w)

theorem invoke_cases {env : Invocation A contract} {op : Operation A} {w w' : HtlcWorld A}
    (h : invoke sha256 env op w = .ok w') : Effect sha256 env op w w' := by
  cases op with
  | initializeHtlc args =>
    obtain ⟨vacant, admitted, -, storage, paid⟩ := initializeHtlc_eq_ok h
    exact .funded args vacant admitted storage paid
  | claim preimage signers =>
    obtain ⟨state, claimable, -, -, rfl⟩ := claim_eq_ok.1 h
    refine .claimed preimage signers rfl state claimable.stored
      ⟨claimable.unclaimed, claimable.unrefunded⟩ claimable.hashed rfl ?_
    exact ((Paid.of_same rfl rfl).pay _).congr rfl rfl rfl rfl
  | refund =>
    obtain ⟨state, refundable, due, -, rfl⟩ := refund_eq_ok.1 h
    refine .refunded rfl state refundable.stored
      ⟨refundable.unclaimed, refundable.unrefunded⟩ due rfl ?_
    exact ((Paid.of_same rfl rfl).pay _).congr rfl rfl rfl rfl
  | getState =>
    obtain ⟨_, -, rfl⟩ := map_eq_ok.1 h
    exact .idle rfl

theorem Effect.paid {env : Invocation A contract} {op : Operation A} {w w' : HtlcWorld A}
    (h : Effect sha256 env op w w') : ∃ ts, Paid w w' ts := by
  cases h with
  | funded _ _ _ _ paid => exact ⟨_, paid⟩
  | claimed _ _ _ _ _ _ _ _ paid => exact ⟨_, paid⟩
  | refunded _ _ _ _ _ _ paid => exact ⟨_, paid⟩
  | idle same => exact ⟨[], same ▸ Paid.of_same rfl rfl⟩

/-! ## The invariant -/

/-- Everything paid out once the HTLC is in this state. -/
def payout (contract : A) (state : HtlcState A) : List (Transfer A) :=
  (if state.claimed then [claimPayment contract state] else []) ++
    (if state.refunded then [refundPayment contract state] else [])

structure Custodied (contract : A) (w : HtlcWorld A) : Prop where
  vacant : w.storage = none → w.transfers = []
  admitted : ∀ state, w.storage = some state → Admitted contract state
  exclusive : ∀ state, w.storage = some state → ¬ (state.claimed ∧ state.refunded)
  transfers : ∀ state, w.storage = some state →
    w.transfers = deposit contract state :: payout contract state

omit [DecidableEq A] in
theorem deployed_custodied (balances : A → A → ℤ) :
    Custodied contract (deployed balances) where
  vacant _ := rfl
  admitted _ h := by cases h
  exclusive _ h := by cases h
  transfers _ h := by cases h

omit [DecidableEq A] in
/-- A world whose entry has just been written. -/
theorem Custodied.of_stored {w : HtlcWorld A} {state : HtlcState A}
    (found : w.storage = some state) (admitted : Admitted contract state)
    (exclusive : ¬ (state.claimed ∧ state.refunded))
    (transfers : w.transfers = deposit contract state :: payout contract state) :
    Custodied contract w := by
  have only : ∀ state', w.storage = some state' → state = state' := by
    intro state' h
    exact Option.some.inj (found.symm.trans h)
  refine ⟨?_, ?_, ?_, ?_⟩
  · intro hnone
    simp [found] at hnone
  all_goals
    intro state' h
    obtain rfl := only state' h
    assumption

theorem Effect.custodied {env : Invocation A contract} {op : Operation A} {w w' : HtlcWorld A}
    (hw : Custodied contract w) (h : Effect sha256 env op w w') : Custodied contract w' := by
  cases h with
  | funded args vacant admitted storage paid =>
    refine .of_stored storage admitted (by simp [InitializeArgs.state]) ?_
    rw [paid.transfers, hw.vacant vacant]
    simp [payout, InitializeArgs.state]
  | claimed _ _ _ state found isOpen _ storage paid =>
    have admitted := hw.admitted state found
    refine .of_stored storage ⟨admitted.1, admitted.2, admitted.3⟩ (by simp [isOpen.2]) ?_
    rw [paid.transfers, hw.transfers state found]
    simp [payout, isOpen.1, isOpen.2, deposit, claimPayment]
  | refunded _ state found isOpen _ storage paid =>
    have admitted := hw.admitted state found
    refine .of_stored storage ⟨admitted.1, admitted.2, admitted.3⟩ (by simp [isOpen.1]) ?_
    rw [paid.transfers, hw.transfers state found]
    simp [payout, isOpen.1, isOpen.2, deposit, refundPayment]
  | idle same =>
    rw [same]
    exact hw

theorem custodied_invariant (sha256 : BitVec 256 → BitVec 256) :
    Invariant (@invoke A _ contract sha256) (Custodied contract) where
  outside _ hw _ := ⟨hw.vacant, hw.admitted, hw.exclusive, hw.transfers⟩
  call _ _ _ _ hw h := (invoke_cases h).custodied hw

/-! ## The HTLC as a hold -/

/-- Its terms are the state it was initialised in, its payout is the state it was closed in. -/
def view (w : HtlcWorld A) : Hold.State (HtlcState A) (HtlcState A) :=
  Hold.ofRecord HtlcState.isOpen terms w.storage

omit [DecidableEq A] in
theorem not_isOpen_claimed (state : HtlcState A) :
    ¬ ({ state with claimed := true } : HtlcState A).isOpen := by
  simp [HtlcState.isOpen]

omit [DecidableEq A] in
theorem not_isOpen_refunded (state : HtlcState A) :
    ¬ ({ state with refunded := true } : HtlcState A).isOpen := by
  simp [HtlcState.isOpen]

theorem Effect.refines {env : Invocation A contract} {op : Operation A} {w w' : HtlcWorld A}
    (h : Effect sha256 env op w w') :
    Hold.Step (Admitted contract) (fun _ state => ¬ state.isOpen) (view w) (view w') := by
  cases h with
  | funded args vacant admitted storage _ =>
    exact Hold.step_fund vacant storage ⟨rfl, rfl⟩ admitted
  | claimed _ _ _ state found isOpen _ storage _ =>
    have closed := not_isOpen_claimed state
    exact Hold.step_settle found storage isOpen closed rfl closed
  | refunded _ state found isOpen _ storage _ =>
    have closed := not_isOpen_refunded state
    exact Hold.step_settle found storage isOpen closed rfl closed
  | idle same =>
    rw [same]
    exact .idle _

/-- The HTLC implements a hold. -/
def hold (sha256 : BitVec 256 → BitVec 256) (contract : A) :
    Hold.Implementation (HtlcWorld A) (Event A contract (Operation A)) (HtlcState A)
      (HtlcState A) where
  step := step (invoke sha256)
  view := view
  inv := Custodied contract
  admits := Admitted contract
  pays _ state := ¬ state.isOpen
  preserves _ e hw := (custodied_invariant sha256).step hw e
  refines w e hw := by
    refine step_cases (fun v => Hold.Step _ _ (view w) (view v)) w e (.idle _) ?_ ?_
    · rintro move rfl
      exact .idle _
    · intro env op v _ h
      exact (invoke_cases h).refines

/-- A closed HTLC stays as it was closed, and nothing more is transferred. -/
theorem closed_absorbing {w : HtlcWorld A} (hw : Custodied contract w) {state : HtlcState A}
    (found : w.storage = some state) (closed : ¬ state.isOpen)
    (es : List (Event A contract (Operation A))) :
    (run (invoke sha256) w es).storage = some state ∧
      (run (invoke sha256) w es).transfers = w.transfers := by
  have now : view w = .settled (terms state) state := by
    rw [view, found]
    exact Hold.ofRecord_closed closed
  have stays : (run (invoke sha256) w es).storage = some state :=
    Hold.eq_some_of_settled ((hold sha256 contract).settled_run hw now es)
  refine ⟨stays, ?_⟩
  rw [((custodied_invariant sha256).run hw es).transfers state stays, hw.transfers state found]

/-- The terms an HTLC was initialised with never change. -/
theorem terms_run {w : HtlcWorld A} (hw : Custodied contract w) {state : HtlcState A}
    (found : w.storage = some state) (es : List (Event A contract (Operation A))) :
    ∃ state', (run (invoke sha256) w es).storage = some state' ∧
      terms state' = terms state := by
  by_cases isOpen : state.isOpen
  · have now : view w = .held (terms state) := by
      rw [view, found]
      exact Hold.ofRecord_open isOpen
    rcases (hold sha256 contract).held_run hw now es with held | ⟨state', settled⟩
    · obtain ⟨state', hs, -, ht⟩ := Hold.terms_of_held held
      exact ⟨state', hs, ht⟩
    · exact ⟨state', Hold.eq_some_of_settled settled, Hold.terms_of_settled settled⟩
  · exact ⟨state, (closed_absorbing hw found isOpen es).1, rfl⟩

/-! ## At most one payment -/

/-- Whether an event makes the contract pay somebody. -/
def paysOut (sha256 : BitVec 256 → BitVec 256) (w : HtlcWorld A)
    (e : Event A contract (Operation A)) : Bool :=
  ((step (invoke sha256) w e).transfers.drop w.transfers.length).any (fun t => t.source = contract)

/-- The number of events of a run in which the contract pays somebody. -/
def payments (sha256 : BitVec 256 → BitVec 256) (w : HtlcWorld A)
    (es : List (Event A contract (Operation A))) : ℕ :=
  Runs.count (step (invoke sha256)) (paysOut sha256) w es

/-- The two ways the contract pays: a claim with the preimage of the hashlock pays the
receiver, a refund at or after the timelock pays the sender, the whole amount either way. -/
inductive Payment (sha256 : BitVec 256 → BitVec 256) (state : HtlcState A) :
    Event A contract (Operation A) → Transfer A → HtlcState A → Prop where
  | claim (env : Invocation A contract) (preimage : BitVec 256) (signers : List A)
      (hashed : sha256 preimage = state.hashlock) :
      Payment sha256 state (.call env (.claim preimage signers))
        ⟨state.token, contract, state.receiver, state.amount⟩ { state with claimed := true }
  | refund (env : Invocation A contract) (due : state.timelock ≤ env.timestamp) :
      Payment sha256 state (.call env .refund)
        ⟨state.token, contract, state.sender, state.amount⟩ { state with refunded := true }

/-- Every payment is one of the two, out of an open HTLC, and closes it. -/
theorem payment_of_paysOut {w : HtlcWorld A} {e : Event A contract (Operation A)}
    (h : paysOut sha256 w e = true) : ∃ state t state', w.storage = some state ∧ state.isOpen ∧
      Payment sha256 state e t state' ∧ Paid w (step (invoke sha256) w e) [t] ∧
      (step (invoke sha256) w e).storage = some state' := by
  have idle : ∀ v : HtlcWorld A, v.transfers = w.transfers →
      ¬ (v.transfers.drop w.transfers.length).any (fun t => t.source = contract) = true := by
    intro v hv
    simp [hv]
  unfold paysOut at h
  refine step_cases (fun v =>
      (v.transfers.drop w.transfers.length).any (fun t => t.source = contract) = true →
      ∃ state t state', w.storage = some state ∧ state.isOpen ∧ Payment sha256 state e t state' ∧
        Paid w v [t] ∧ v.storage = some state') w e (fun h => absurd h (idle w rfl)) ?_ ?_ h
  · rintro move rfl h
    exact absurd h (idle _ rfl)
  · rintro env op v rfl hcall hpays
    cases invoke_cases hcall with
    | funded args _ admitted _ paid =>
      rw [paid.transfers, List.drop_left] at hpays
      simp [deposit, admitted.sender_ne] at hpays
    | claimed preimage signers isClaim state found isOpen hashed storage paid =>
      subst isClaim
      exact ⟨state, _, _, found, isOpen, .claim env preimage signers hashed, paid, storage⟩
    | refunded isRefund state found isOpen due storage paid =>
      subst isRefund
      exact ⟨state, _, _, found, isOpen, .refund env due, paid, storage⟩
    | idle same => exact absurd hpays (idle v (by rw [same]))

theorem settles_of_paysOut {w : HtlcWorld A} {e : Event A contract (Operation A)}
    (h : paysOut sha256 w e = true) : (hold sha256 contract).settles w e = true := by
  obtain ⟨state, t, state', found, isOpen, payment, -, storage⟩ := payment_of_paysOut h
  have closed : ¬ state'.isOpen := by
    cases payment with
    | claim => exact not_isOpen_claimed state
    | refund => exact not_isOpen_refunded state
  exact Hold.closes_ofRecord found storage isOpen closed

theorem payments_le_one {w : HtlcWorld A} (hw : Custodied contract w)
    (es : List (Event A contract (Operation A))) : payments sha256 w es ≤ 1 :=
  (hold sha256 contract).count_le_one (fun _ _ _ h => settles_of_paysOut h) hw es

/-! ## The law of the HTLC -/

/-- While open, the contract's balance exceeds what it started with and was given by
outsiders by exactly the locked amount. -/
theorem open_balance (balances : A → A → ℤ) (es : List (Event A contract (Operation A)))
    {state : HtlcState A}
    (found : (run (invoke sha256) (deployed balances) es).storage = some state)
    (isOpen : state.isOpen) (token : A) :
    (run (invoke sha256) (deployed balances) es).balances token contract =
      balances token contract + donated es token +
        if state.token = token then state.amount else 0 := by
  have start : Custodied contract (deployed balances) := deployed_custodied balances
  have kept := (custodied_invariant sha256).run start es
  obtain ⟨ts, hts, hb⟩ := (custodied_invariant sha256).balance
    (fun env op w w' _ h => (invoke_cases h).paid) start es
  have hts' : ts = [deposit contract state] := by
    rw [kept.transfers state found] at hts
    simpa [deployed, payout, isOpen.1, isOpen.2] using hts.symm
  rw [hb token, hts']
  simp [deployed, deposit, Transfer.effect, (kept.admitted state found).sender_ne]

/-- Every run of the HTLC from deployment, at any ledger times: while open it holds exactly
the positive amount it was initialised with, under terms that never change; whatever it
pays is a claim or a refund of exactly that amount, out of an open HTLC; there is at most
one payment; a closed HTLC is final; and a call that fails leaves the world as it was. -/
theorem htlc_safe (sha256 : BitVec 256 → BitVec 256) (balances : A → A → ℤ)
    (es : List (Event A contract (Operation A))) :
    let w := run (invoke sha256) (deployed balances) es
    (∀ state, w.storage = some state → state.isOpen → 0 < state.amount ∧ ∀ token,
      w.balances token contract = balances token contract + donated es token +
        if state.token = token then state.amount else 0) ∧
    (∀ state, w.storage = some state → ∀ fs : List (Event A contract (Operation A)),
      ∃ state', (run (invoke sha256) w fs).storage = some state' ∧
        terms state' = terms state) ∧
    (∀ e : Event A contract (Operation A), paysOut sha256 w e = true →
      ∃ state t state', w.storage = some state ∧ state.isOpen ∧
      Payment sha256 state e t state' ∧ Paid w (step (invoke sha256) w e) [t] ∧
      (step (invoke sha256) w e).storage = some state') ∧
    payments sha256 (deployed balances) es ≤ 1 ∧
    (∀ state, w.storage = some state → ¬ state.isOpen →
      ∀ fs : List (Event A contract (Operation A)),
        (run (invoke sha256) w fs).storage = some state ∧
        (run (invoke sha256) w fs).transfers = w.transfers) ∧
    (∀ (env : Invocation A contract) op failure, invoke sha256 env op w = .error failure →
      step (invoke sha256) w (.call env op) = w) := by
  have start : Custodied contract (deployed balances) := deployed_custodied balances
  have kept := (custodied_invariant sha256).run start es
  refine ⟨?_, ?_, ?_, ?_, ?_, ?_⟩
  · intro state found isOpen
    exact ⟨(kept.admitted state found).amount_pos, open_balance balances es found isOpen⟩
  · intro state found fs
    exact terms_run kept found fs
  · intro e h
    exact payment_of_paysOut h
  · exact payments_le_one start es
  · intro state found closed fs
    exact closed_absorbing kept found closed fs
  · intro env op failure h
    exact step_of_error h

end Custody

/-! ## When claim and refund are both enabled -/

variable {A : Type} {contract : A} {sha256 : BitVec 256 → BitVec 256}

/-- Some invocation at this time can claim, whatever preimage and signers it takes. -/
def ClaimEnabled [DecidableEq A] (sha256 : BitVec 256 → BitVec 256) (contract : A)
    (w : HtlcWorld A) (time : ℕ) : Prop :=
  ∃ env : Invocation A contract, env.timestamp = time ∧
    ∃ preimage signers w', claim sha256 env preimage signers w = .ok w'

/-- Some invocation at this time can refund. -/
def RefundEnabled [DecidableEq A] (contract : A) (w : HtlcWorld A) (time : ℕ) : Prop :=
  ∃ env : Invocation A contract, env.timestamp = time ∧ ∃ w', refund env w = .ok w'

/-- At most one of the two is enabled, and no claim once the timelock is reached. -/
structure WindowLaw [DecidableEq A] (sha256 : BitVec 256 → BitVec 256) (contract : A)
    (w : HtlcWorld A) (time : ℕ) : Prop where
  exclusive : ¬ (ClaimEnabled sha256 contract w time ∧ RefundEnabled contract w time)
  expired : ∀ state, w.storage = some state → state.timelock ≤ time →
    ¬ ClaimEnabled sha256 contract w time

/-- Somebody who can authorise an invocation is entitled to claim. -/
def Claimant (contract : A) (state : HtlcState A) : Prop :=
  if state.approvedSigners = [] then state.receiver ≠ contract
  else ∃ a ∈ state.approvedSigners, a ≠ contract

/-- Everybody but the contract authorises, and no token refuses. -/
def anybody (contract : A) [DecidableEq A] (time : ℕ) : Invocation A contract :=
  { Invocation.signedBy (· ≠ contract) (by simp) with timestamp := time }

variable [DecidableEq A]

theorem claimant_of_authoriseClaim {env : Invocation A contract} {state : HtlcState A}
    {signers : List A} (admitted : Admitted contract state)
    (h : authoriseClaim env state signers = .ok ()) : Claimant contract state := by
  rw [authoriseClaim_eq_ok] at h
  unfold Claimant
  split_ifs at h ⊢ with hempty
  · exact env.ne_contract_of_authorised h
  · obtain ⟨valid, enough⟩ := h
    have hpos := admitted.threshold hempty
    cases signers with
    | nil => simp at enough; omega
    | cons a rest =>
      obtain ⟨happroved, hauth⟩ := valid a List.mem_cons_self
      exact ⟨a, happroved, env.ne_contract_of_authorised hauth⟩

/-- One approved signer, listed as often as the threshold asks, is enough. -/
theorem authoriseClaim_anybody {state : HtlcState A} (h : Claimant contract state) (time : ℕ) :
    ∃ signers, authoriseClaim (anybody contract time) state signers = .ok () := by
  simp only [authoriseClaim_eq_ok]
  unfold Claimant at h
  split_ifs at h ⊢ with hempty
  · exact ⟨[], by simpa [anybody, Invocation.signedBy] using h⟩
  · obtain ⟨a, happroved, hne⟩ := h
    refine ⟨List.replicate state.requiredSignatures a, ?_, by simp⟩
    intro b hb
    obtain rfl := List.eq_of_mem_replicate hb
    exact ⟨happroved, by simpa [anybody, Invocation.signedBy] using hne⟩

/-- Whether a claim is enabled does not depend on the time. -/
theorem claimEnabled_iff {w : HtlcWorld A} (hw : Custodied contract w) (time : ℕ) :
    ClaimEnabled sha256 contract w time ↔ ∃ state preimage,
      Claimable sha256 contract preimage w state ∧ Claimant contract state := by
  constructor
  · rintro ⟨env, -, preimage, signers, w', h⟩
    obtain ⟨state, claimable, hauth, -, -⟩ := claim_eq_ok.1 h
    exact ⟨state, preimage, claimable,
      claimant_of_authoriseClaim (hw.admitted state claimable.stored) hauth⟩
  · rintro ⟨state, preimage, claimable, claimant⟩
    obtain ⟨signers, hauth⟩ := authoriseClaim_anybody claimant time
    exact ⟨anybody contract time, rfl, preimage, signers, _,
      claim_eq_ok.2 ⟨state, claimable, hauth, rfl, rfl⟩⟩

theorem refundEnabled_iff {w : HtlcWorld A} (time : ℕ) :
    RefundEnabled contract w time ↔
      ∃ state, Refundable contract w state ∧ state.timelock ≤ time := by
  constructor
  · rintro ⟨env, rfl, w', h⟩
    obtain ⟨state, refundable, due, -, -⟩ := refund_eq_ok.1 h
    exact ⟨state, refundable, due⟩
  · rintro ⟨state, refundable, due⟩
    exact ⟨anybody contract time, rfl, _, refund_eq_ok.2 ⟨state, refundable, due, rfl, rfl⟩⟩

/-- The states and times at which the windows are disjoint: whenever an open HTLC with a
covered amount has a preimage and a claimant, its timelock is still ahead. -/
def WindowsDisjoint (sha256 : BitVec 256 → BitVec 256) (contract : A) (w : HtlcWorld A)
    (time : ℕ) : Prop :=
  ∀ state preimage, Claimable sha256 contract preimage w state →
    Claimant contract state → time < state.timelock

theorem windowLaw_iff {w : HtlcWorld A} (hw : Custodied contract w) (time : ℕ) :
    WindowLaw sha256 contract w time ↔ WindowsDisjoint sha256 contract w time := by
  constructor
  · intro law state preimage claimable claimant
    by_contra hlate
    exact law.expired state claimable.stored (Nat.le_of_not_lt hlate)
      ((claimEnabled_iff hw time).2 ⟨state, preimage, claimable, claimant⟩)
  · intro disjoint
    have early : ClaimEnabled sha256 contract w time →
        ∀ state, w.storage = some state → time < state.timelock := by
      intro enabled state found
      obtain ⟨state', preimage, claimable, claimant⟩ := (claimEnabled_iff hw time).1 enabled
      obtain rfl : state' = state := Option.some.inj (claimable.stored.symm.trans found)
      exact disjoint state' preimage claimable claimant
    refine ⟨?_, ?_⟩
    · rintro ⟨claiming, refunding⟩
      obtain ⟨state, refundable, due⟩ := (refundEnabled_iff time).1 refunding
      have := early claiming state refundable.stored
      omega
    · intro state found due claiming
      have := early claiming state found
      omega

/-- In every reachable state and at every time, the two windows are disjoint exactly when
`WindowsDisjoint` says so. -/
theorem htlc_windows_iff (sha256 : BitVec 256 → BitVec 256) (balances : A → A → ℤ)
    (es : List (Event A contract (Operation A))) (time : ℕ) :
    let w := run (invoke sha256) (deployed balances) es
    WindowLaw sha256 contract w time ↔ WindowsDisjoint sha256 contract w time :=
  windowLaw_iff ((custodied_invariant sha256).run (deployed_custodied balances) es) time

/-- 100 units locked under the hash of 7 until time 10, for receiver 2. -/
def lockedUntilTen (sha256 : BitVec 256 → BitVec 256) : InitializeArgs ℕ :=
  ⟨1, 2, 9, 100, sha256 7, 10, [], 0⟩

/-- Whatever the hash function: at the timelock the sender may take the funds back, and the
receiver may still claim them. -/
theorem htlc_windows_overlap : ¬ ∃ sha256 : BitVec 256 → BitVec 256,
    ∀ (es : List (Event ℕ 0 (Operation ℕ))) (time : ℕ),
      WindowLaw sha256 0 (run (invoke sha256) (deployed fun _ _ => 100) es) time := by
  rintro ⟨sha256, law⟩
  have custodied : Custodied 0 (run (invoke sha256) (deployed fun _ _ => 100)
      [.call (anybody 0 0) (.initializeHtlc (lockedUntilTen sha256))]) :=
    (custodied_invariant sha256).run (deployed_custodied _) _
  have late := (windowLaw_iff custodied 10).1 (law _ 10)
  have hundred : (0 : ℤ) ≤ 100 ∧ (100 : ℤ) ≤ 100 + (100 - 0) := by omega
  have claimable : Claimable sha256 0 7
      (run (invoke sha256) (deployed fun _ _ => 100)
        [.call (anybody 0 0) (.initializeHtlc (lockedUntilTen sha256))])
      (lockedUntilTen sha256).state :=
    ⟨rfl, rfl, rfl, rfl, hundred.1, hundred.2⟩
  have claimant : Claimant 0 (lockedUntilTen sha256).state := by
    simp [Claimant, lockedUntilTen, InitializeArgs.state]
  exact absurd (late _ 7 claimable claimant) (by simp [lockedUntilTen, InitializeArgs.state])

end MobileMoney.Htlc
