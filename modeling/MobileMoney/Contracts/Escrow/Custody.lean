import MobileMoney.Contracts.Escrow.Operations

/-!
# Custody of the escrowed funds

A successful call funds a vacant escrow, settles a pending one by release or refund, or
leaves escrow and tokens alone (`invoke_cases`). The transfers made so far are a function
of the stored state (`Custodied`), and leaving `Pending` is a `Settlement`.
-/

namespace MobileMoney.Escrow

open Soroban MachineInt

variable {A : Type} [DecidableEq A] {contract : A}

/-- The three refund entry points. -/
def Operation.isRefund : Operation A → Bool
  | .refund | .emergencyRefund | .selfRefund => true
  | _ => false

/-- What a successful call of `op` can have done to a world in the split layout. -/
inductive Effect (contract : A) (op : Operation A) (w w' : EscrowWorld A) : Prop where
  | funded (args : InitializeArgs A) (vacant : w.storage.escrow = none)
      (admitted : Admitted contract args.state)
      (storage : w'.storage = { w.storage with
        escrow := some (.hot args.state)
        escrowAdmins := some ⟨args.adminSigners, args.requiredAdminSignatures⟩
        reentrancy := false })
      (paid : Paid w w' [deposit contract args.state])
  | released (isRelease : op = .release) (state : EscrowState A)
      (found : stored w = some state) (released : Released contract state w w')
  | refunded (isRefund : op.isRefund = true) (state : EscrowState A)
      (found : stored w = some state) (refunded : Refunded contract state w w')
  | idle (storage : ∃ wasm, w'.storage = { w.storage with wasm := wasm }) (paid : Paid w w' [])

theorem Effect.of_same {op : Operation A} {w w' : EscrowWorld A} (h : w' = w) :
    Effect contract op w w' := by
  subst h
  exact .idle ⟨_, rfl⟩ (Paid.of_same rfl rfl)

theorem invoke_cases {env : Invocation A contract} {op : Operation A} {w w' : EscrowWorld A}
    (hw : SplitLayout w) (h : invoke env op w = .ok w') : Effect contract op w w' := by
  cases op with
  | initializeEscrow args =>
    obtain ⟨hv, ha, hs, hp⟩ := initializeEscrow_eq_ok h
    exact .funded args hv ha hs hp
  | upgrade newWasmHash adminSigners =>
    obtain ⟨hs, hp⟩ := upgrade_eq_ok hw h
    exact .idle ⟨_, hs⟩ hp
  | release =>
    obtain ⟨state, hf, -, hr⟩ := release_eq_ok hw h
    exact .released rfl state hf hr
  | refund =>
    obtain ⟨state, hf, -, hr⟩ := refund_eq_ok hw h
    exact .refunded rfl state hf hr
  | emergencyRefund =>
    obtain ⟨state, hf, -, -, hr⟩ := emergencyRefund_eq_ok hw h
    exact .refunded rfl state hf hr
  | selfRefund =>
    obtain ⟨state, hf, -, -, hr⟩ := selfRefund_eq_ok hw h
    exact .refunded rfl state hf hr
  | getState =>
    obtain ⟨r, hr, rfl⟩ := map_eq_ok.1 h
    exact .of_same (getState_eq_ok hw hr).2
  | getAdmins =>
    obtain ⟨r, hr, rfl⟩ := map_eq_ok.1 h
    exact .of_same (getAdmins_eq_ok hw hr).2
  | reentrancyGuardActive =>
    simp only [invoke, Except.ok.injEq] at h
    exact .of_same h.symm

/-- Every successful call is explained by the transfers it made. -/
theorem Effect.paid {op : Operation A} {w w' : EscrowWorld A}
    (h : Effect contract op w w') : ∃ ts, Paid w w' ts := by
  cases h with
  | funded args _ _ _ paid => exact ⟨_, paid⟩
  | released _ state _ hr =>
    obtain ⟨fee, net, -, hp⟩ := hr.paid
    exact ⟨_, hp⟩
  | refunded _ state _ hr => exact ⟨_, hr.paid⟩
  | idle _ paid => exact ⟨_, paid⟩

/-! ## The invariant -/

/-- Everything paid out once the escrow is in this state. -/
def payout (contract : A) (state : EscrowState A) : List (Transfer A) :=
  match state.status with
  | .pending => []
  | .completed =>
    match state.split with
    | some (fee, net) => releaseTransfers contract state fee net
    | none => []
  | .refunded => refundTransfers contract state

structure Custodied (contract : A) (w : EscrowWorld A) : Prop extends SplitLayout w where
  vacant : w.storage.escrow = none → w.transfers = []
  occupied : ∀ state, stored w = some state → Admitted contract state ∧
    w.transfers = deposit contract state :: payout contract state

/-- A deployed contract that has not been initialised. -/
def deployed (wasm : BitVec 256) (balances : A → A → ℤ) : EscrowWorld A where
  storage := .empty wasm
  balances := balances
  transfers := []
  events := []

omit [DecidableEq A] in
theorem deployed_custodied (wasm : BitVec 256) (balances : A → A → ℤ) :
    Custodied contract (deployed wasm balances) := by
  refine ⟨⟨rfl, ?_⟩, fun _ => rfl, ?_⟩ <;> simp [deployed, Storage.empty, stored]

omit [DecidableEq A] in
theorem Admitted.with_status {state : EscrowState A} (h : Admitted contract state)
    (status : EscrowStatus) : Admitted contract { state with status := status } :=
  ⟨h.amount_pos, h.amount_le, h.fee_le, h.depositor_ne⟩

omit [DecidableEq A] in
/-- A world whose escrow entry has just been rewritten in the split layout. -/
theorem Custodied.of_stored {w : EscrowWorld A} (state : EscrowState A)
    (unlocked : w.storage.reentrancy = false) (found : w.storage.escrow = some (.hot state))
    (admins : w.storage.escrowAdmins.isSome = true) (admitted : Admitted contract state)
    (transfers : w.transfers = deposit contract state :: payout contract state) :
    Custodied contract w := by
  refine ⟨⟨unlocked, ?_⟩, ?_, ?_⟩
  · intro entry he
    rw [found, Option.some.injEq] at he
    exact ⟨⟨state, he.symm⟩, admins⟩
  · intro hnone
    simp [found] at hnone
  · intro state' hs
    rw [stored_eq_some, found] at hs
    simp only [Option.some.injEq, EscrowEntry.hot.injEq] at hs
    subst hs
    exact ⟨admitted, transfers⟩

theorem Effect.custodied {op : Operation A} {w w' : EscrowWorld A}
    (hw : Custodied contract w) (h : Effect contract op w w') : Custodied contract w' := by
  cases h with
  | funded args vacant admitted storage paid =>
    refine .of_stored args.state ?_ ?_ ?_ admitted ?_
    · rw [storage]
    · rw [storage]
    · rw [storage]
      rfl
    · rw [paid.transfers, hw.vacant vacant]
      rfl
  | released _ state found hr =>
    obtain ⟨admitted, transfers⟩ := hw.occupied state found
    have hadmins := (hw.hot _ (stored_eq_some.1 found)).2
    obtain ⟨fee, net, hsplit, paid⟩ := hr.paid
    have hsplit' : ({ state with status := .completed } : EscrowState A).split =
        some (fee, net) := hsplit
    refine .of_stored { state with status := .completed } ?_ ?_ ?_ (admitted.with_status _) ?_
    · rw [hr.storage]
      exact hw.unlocked
    · rw [hr.storage]
    · rw [hr.storage]
      exact hadmins
    · rw [paid.transfers, transfers]
      simp only [payout, hr.pending, hsplit']
      rfl
  | refunded _ state found hr =>
    obtain ⟨admitted, transfers⟩ := hw.occupied state found
    have hadmins := (hw.hot _ (stored_eq_some.1 found)).2
    refine .of_stored { state with status := .refunded } ?_ ?_ ?_ (admitted.with_status _) ?_
    · rw [hr.storage]
      exact hw.unlocked
    · rw [hr.storage]
    · rw [hr.storage]
      exact hadmins
    · rw [hr.paid.transfers, transfers]
      simp only [payout, hr.pending]
      rfl
  | idle storage paid =>
    obtain ⟨wasm, storage⟩ := storage
    have htransfers : w'.transfers = w.transfers := by simpa using paid.transfers
    refine ⟨⟨?_, ?_⟩, ?_, ?_⟩
    · rw [storage]
      exact hw.unlocked
    · rw [storage]
      exact hw.hot
    · rw [storage, htransfers]
      exact hw.vacant
    · intro state hs
      rw [htransfers]
      exact hw.occupied state (by simpa [stored, storage] using hs)

theorem custodied_invariant : Invariant (@invoke A _ contract) (Custodied contract) where
  outside _ hw _ := ⟨⟨hw.unlocked, hw.hot⟩, hw.vacant, hw.occupied⟩
  call _ _ _ _ hw h := (invoke_cases hw.toSplitLayout h).custodied hw

/-! ## Settlement -/

/-- How a pending escrow is left: by which call, in which state, with which transfers. -/
inductive Settlement (contract : A) (state : EscrowState A) :
    Event A contract (Operation A) → EscrowState A → List (Transfer A) → Prop where
  | release (env : Invocation A contract) (fee net : ℤ) (fee_nonneg : 0 ≤ fee)
      (fee_le : fee ≤ state.amount) (total : fee + net = state.amount) :
      Settlement contract state (.call env .release) { state with status := .completed }
        (releaseTransfers contract state fee net)
  | refund (env : Invocation A contract) (op : Operation A) (isRefund : op.isRefund = true) :
      Settlement contract state (.call env op) { state with status := .refunded }
        (refundTransfers contract state)

omit [DecidableEq A] in
/-- The transfers of a settlement leave the contract and add up to the held amount. -/
theorem Settlement.total {state state' : EscrowState A} {e : Event A contract (Operation A)}
    {ts : List (Transfer A)} (h : Settlement contract state e state' ts) :
    (ts.map (·.amount)).sum = state.amount ∧ ∀ t ∈ ts, t.source = contract := by
  cases h with
  | release env fee net fee_nonneg fee_le total =>
    unfold releaseTransfers
    split_ifs with hfee
    · simpa using total
    · have hzero : fee = 0 := le_antisymm (not_lt.1 hfee) fee_nonneg
      simpa [hzero] using total
  | refund env op isRefund => simp [refundTransfers]

theorem settlement_of_step {w : EscrowWorld A} (hw : Custodied contract w)
    {state state' : EscrowState A} {e : Event A contract (Operation A)}
    (found : stored w = some state) (pending : state.status = .pending)
    (found' : stored (step invoke w e) = some state') (left : state'.status ≠ .pending) :
    ∃ ts, Settlement contract state e state' ts ∧ Paid w (step invoke w e) ts := by
  have stays : ∀ v : EscrowWorld A, stored v = stored w → stored v ≠ some state' := by
    intro v hv hv'
    rw [hv, found, Option.some.injEq] at hv'
    exact left (hv' ▸ pending)
  refine step_cases (fun v => stored v = some state' →
    ∃ ts, Settlement contract state e state' ts ∧ Paid w v ts) w e
    (fun h => absurd h (stays w rfl)) ?_ ?_ found'
  · rintro move rfl h
    exact absurd h (stays _ rfl)
  · rintro env op v rfl h hv
    have admitted := (hw.occupied state found).1
    cases invoke_cases hw.toSplitLayout h with
    | funded args vacant => simp [stored, vacant] at found
    | released isRelease state₁ found₁ hr =>
      obtain rfl : state₁ = state := Option.some.inj (found₁.symm.trans found)
      obtain ⟨fee, net, hsplit, paid⟩ := hr.paid
      obtain ⟨fee', net', hsplit', h0, h1, hsum⟩ :=
        split_total admitted.amount_pos admitted.amount_le admitted.fee_le
      rw [hsplit, Option.some.injEq, Prod.mk.injEq] at hsplit'
      obtain ⟨rfl, rfl⟩ := hsplit'
      rw [stored_eq_some, hr.storage] at hv
      simp only [Option.some.injEq, EscrowEntry.hot.injEq] at hv
      subst hv isRelease
      exact ⟨_, .release env fee net h0 h1 hsum, paid⟩
    | refunded isRefund state₁ found₁ hr =>
      obtain rfl : state₁ = state := Option.some.inj (found₁.symm.trans found)
      rw [stored_eq_some, hr.storage] at hv
      simp only [Option.some.injEq, EscrowEntry.hot.injEq] at hv
      subst hv
      exact ⟨_, .refund env op isRefund, hr.paid⟩
    | idle storage paid =>
      obtain ⟨wasm, storage⟩ := storage
      exact absurd hv (stays v (by simp [stored, storage]))

end MobileMoney.Escrow
