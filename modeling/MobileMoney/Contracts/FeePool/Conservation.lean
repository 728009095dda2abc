import MobileMoney.Contracts.FeePool.Program
import MobileMoney.Library.ProRata

/-!
# Conservation of pooled fees

`distribute` pays every provider its share of the pooled fees, rounded down, and then
records that nothing is left. Whatever the rounding leaves over stays in the contract's
balance and is in no record, so the fees are conserved exactly when no share is rounded.
-/

namespace MobileMoney.FeePool

open Soroban MachineInt

/-! ## Payments -/

section Payments

variable {A : Type} [DecidableEq A] {contract : A}

theorem transferPositive_eq_ok {env : Invocation A contract} {t : Transfer A}
    {w w' : FeePoolWorld A} (h : transferPositive env t w = .ok w') :
    w'.storage = w.storage ∧ ∀ v ts, Paid v w ts →
      Paid v w' (ts ++ [t].filter fun t => 0 < t.amount) := by
  unfold transferPositive at h
  split_ifs at h with hpos
  · obtain ⟨-, rfl⟩ := Invocation.transfer_eq_ok.1 h
    refine ⟨rfl, ?_⟩
    intro v ts paid
    simpa [hpos] using paid.pay t
  · cases h
    refine ⟨rfl, ?_⟩
    intro v ts paid
    simpa [hpos] using paid

/-- What the providers are paid, before the empty shares are left out. -/
def allShares (contract token : A) (totalFees totalWeight : ℤ) (shares : HostMap A ℤ) :
    List (Transfer A) :=
  shares.map fun e => ⟨token, contract, e.1, (totalFees * e.2).tdiv totalWeight⟩

theorem payShares_eq_ok {env : Invocation A contract} {token : A}
    {totalFees totalWeight : ℤ} (hpos : 0 < totalWeight) {shares : HostMap A ℤ}
    {w w' : FeePoolWorld A}
    (h : payShares env token totalFees totalWeight shares w = .ok w') :
    w'.storage = w.storage ∧ ∀ v ts, Paid v w ts → Paid v w' (ts ++
      (allShares contract token totalFees totalWeight shares).filter fun t => 0 < t.amount) := by
  induction shares generalizing w with
  | nil =>
    cases h
    exact ⟨rfl, fun v ts paid => by simpa [allShares] using paid⟩
  | cons e rest ih =>
    obtain ⟨provider, weight⟩ := e
    simp only [payShares, bind_eq_ok, orFail_eq_ok] at h
    obtain ⟨product, hmul, share, hdiv, w₁, hpay, hrest⟩ := h
    obtain rfl := (IntType.checked_eq_some.1 hmul).1
    rw [IntType.checkedDiv, if_neg hpos.ne'] at hdiv
    obtain rfl := (IntType.checked_eq_some.1 hdiv).1
    obtain ⟨same, extend⟩ := transferPositive_eq_ok hpay
    obtain ⟨same', extend'⟩ := ih hrest
    refine ⟨same'.trans same, ?_⟩
    intro v ts paid
    have paid' := extend' v _ (extend v ts paid)
    rw [List.append_assoc, ← List.filter_append] at paid'
    exact paid'

theorem weightOf_eq_ok {s : ℕ → ℕ} {metrics : ProviderMetrics} {weight : ℤ}
    (h : weightOf s metrics = .ok weight) : weight = exactWeight s metrics := by
  simp only [weightOf, bind_eq_ok, orFail_eq_ok] at h
  obtain ⟨scaled, hscaled, product, hproduct, hdiv⟩ := h
  obtain rfl := (IntType.checked_eq_some.1 hscaled).1
  obtain rfl := (IntType.checked_eq_some.1 hproduct).1
  rw [IntType.checkedDiv, if_neg (by norm_num)] at hdiv
  exact (IntType.checked_eq_some.1 hdiv).1.symm

omit [DecidableEq A] in
theorem weightedShares_eq_ok {s : ℕ → ℕ} {total total' : ℤ}
    {providers : HostMap A ProviderMetrics} {shares : HostMap A ℤ}
    (h : weightedShares s total providers = .ok (shares, total')) :
    shares = providers.map (fun e => (e.1, exactWeight s e.2)) ∧
      total' = total + (providers.map fun e => exactWeight s e.2).sum := by
  induction providers generalizing total shares with
  | nil =>
    cases h
    simp
  | cons e rest ih =>
    obtain ⟨provider, metrics⟩ := e
    simp only [weightedShares, bind_eq_ok, orFail_eq_ok, pure_eq_ok, Prod.mk.injEq] at h
    obtain ⟨weight, hweight, total₁, hadd, ⟨shares₁, _⟩, hrest, rfl, rfl⟩ := h
    obtain rfl := weightOf_eq_ok hweight
    obtain rfl := (IntType.checked_eq_some.1 hadd).1
    obtain ⟨rfl, rfl⟩ := ih hrest
    simp [add_assoc]

/-- The sum of the providers' weights. -/
def poolWeight (s : ℕ → ℕ) (providers : HostMap A ProviderMetrics) : ℤ :=
  (providers.map fun e => exactWeight s e.2).sum

/-- What the providers are paid out of the pooled fees. -/
def payments (s : ℕ → ℕ) (contract : A) (state : FeePoolState A)
    (providers : HostMap A ProviderMetrics) : List (Transfer A) :=
  (allShares contract state.token state.totalFees (poolWeight s providers)
    (providers.map fun e => (e.1, exactWeight s e.2))).filter fun t => 0 < t.amount

theorem distribute_eq_ok {s : ℕ → ℕ} {env : Invocation A contract} {w w' : FeePoolWorld A}
    (h : distribute s env w = .ok w') : ∃ state providers,
      w.storage.state = some state ∧ w.storage.providers = some providers ∧
      0 < state.totalFees ∧ 0 < poolWeight s providers ∧
      w'.storage = { w.storage with
        state := some { state with totalFees := 0, lastDistribution := env.timestamp } } ∧
      Paid w w' (payments s contract state providers) := by
  simp only [distribute, loadState, bind_eq_ok, orFail_eq_ok, Invocation.requireAuth_eq_ok,
    require_eq_ok, pure_eq_ok, exists_const, not_le] at h
  obtain ⟨state, hstate, -, -, -, hfees, providers, hproviders, -, ⟨shares, total⟩, hshares,
    hpos, w₁, hpay, rfl⟩ := h
  obtain ⟨rfl, rfl⟩ := weightedShares_eq_ok hshares
  rw [zero_add] at hpos hpay
  obtain ⟨same, extend⟩ := payShares_eq_ok hpos hpay
  have paid : Paid w w₁ (payments s contract state providers) := by
    simpa [payments, poolWeight] using extend w [] (Paid.of_same rfl rfl)
  refine ⟨state, providers, hstate, hproviders, hfees, hpos, ?_, paid.congr rfl rfl rfl rfl⟩
  rw [World.store_storage, same]

end Payments

/-! ## Weights and shares -/

section Shares

variable {A : Type} {s : ℕ → ℕ} {providers : HostMap A ProviderMetrics}

theorem exactWeight_nonneg {metrics : ProviderMetrics} (h : 0 < metrics.liquidity) :
    0 ≤ exactWeight s metrics := by
  have hfactor : 0 ≤ txFactor s metrics := by
    unfold txFactor
    split_ifs <;> omega
  have huptime : (0 : ℤ) ≤ metrics.uptime := Int.natCast_nonneg _
  have hprod := mul_nonneg (mul_nonneg h.le huptime) hfactor
  rw [exactWeight, Int.tdiv_eq_ediv_of_nonneg hprod]
  exact Int.ediv_nonneg hprod (by norm_num)

/-- The shares of the distribution are shares rounded down. -/
theorem amounts_allShares (contract : A) {state : FeePoolState A} (hfees : 0 < state.totalFees)
    (liquid : ∀ e ∈ providers, 0 < e.2.liquidity) :
    (allShares contract state.token state.totalFees (poolWeight s providers)
      (providers.map fun e => (e.1, exactWeight s e.2))).map (·.amount) =
    (providers.map fun e => exactWeight s e.2).map
      (ProRata.share state.totalFees (poolWeight s providers)) := by
  simp only [allShares, List.map_map, List.map_inj_left, Function.comp_apply, ProRata.share]
  intro e he
  have hprod := mul_nonneg hfees.le (exactWeight_nonneg (s := s) (liquid e he))
  exact Int.tdiv_eq_ediv_of_nonneg hprod

theorem amount_nonneg (contract : A) {state : FeePoolState A} (hfees : 0 < state.totalFees)
    (hpos : 0 < poolWeight s providers) (liquid : ∀ e ∈ providers, 0 < e.2.liquidity) :
    ∀ t ∈ allShares contract state.token state.totalFees (poolWeight s providers)
      (providers.map fun e => (e.1, exactWeight s e.2)), 0 ≤ t.amount := by
  intro t ht
  have hmem := List.mem_map_of_mem (f := (·.amount)) ht
  rw [amounts_allShares contract hfees liquid] at hmem
  obtain ⟨weight, hweight, heq⟩ := List.mem_map.1 hmem
  obtain ⟨e, he, rfl⟩ := List.mem_map.1 hweight
  rw [← heq]
  exact ProRata.share_nonneg hfees.le hpos.le (exactWeight_nonneg (liquid e he))

/-- What is paid adds up to the shares of the providers. -/
theorem sum_payments (contract : A) {state : FeePoolState A} (hfees : 0 < state.totalFees)
    (hpos : 0 < poolWeight s providers) (liquid : ∀ e ∈ providers, 0 < e.2.liquidity) :
    ((payments s contract state providers).map (·.amount)).sum =
      ((providers.map fun e => exactWeight s e.2).map
        (ProRata.share state.totalFees (poolWeight s providers))).sum := by
  rw [payments, ProRata.sum_filter_pos _ (amount_nonneg contract hfees hpos liquid),
    amounts_allShares contract hfees liquid]

end Shares

/-! ## The invariant -/

section Runs

variable {A : Type} [LinearOrder A] {contract : A} {s : ℕ → ℕ}

/-- What the transfers made so far have added to the contract's balance in `token`. -/
def netReceived (contract token : A) (ts : List (Transfer A)) : ℤ :=
  (ts.map (·.effect token contract)).sum

/-- Providers have liquidity, the platform's rate is at most the whole, and what is recorded
as undistributed has been received and not been paid. -/
structure Pooled (contract : A) (w : FeePoolWorld A) : Prop where
  liquid : ∀ providers, w.storage.providers = some providers →
    ∀ e ∈ providers, 0 < e.2.liquidity
  vacant : w.storage.state = none → w.transfers = []
  rate : ∀ state, w.storage.state = some state → state.feeBps ≤ 10000
  nonneg : ∀ state, w.storage.state = some state → 0 ≤ state.totalFees
  covered : ∀ state, w.storage.state = some state →
    state.totalFees ≤ netReceived contract state.token w.transfers

theorem deployed_pooled (balances : A → A → ℤ) : Pooled contract (deployed balances) where
  liquid _ h := by cases h
  vacant _ := rfl
  rate _ h := by cases h
  nonneg _ h := by cases h
  covered _ h := by cases h

/-- A world whose pool state has just been written. -/
theorem Pooled.of_state {w : FeePoolWorld A} {state : FeePoolState A}
    (found : w.storage.state = some state)
    (liquid : ∀ providers, w.storage.providers = some providers →
      ∀ e ∈ providers, 0 < e.2.liquidity)
    (rate : state.feeBps ≤ 10000) (nonneg : 0 ≤ state.totalFees)
    (covered : state.totalFees ≤ netReceived contract state.token w.transfers) :
    Pooled contract w := by
  have only : ∀ state', w.storage.state = some state' → state = state' := by
    intro state' h
    exact Option.some.inj (found.symm.trans h)
  refine ⟨liquid, ?_, ?_, ?_, ?_⟩
  · intro hnone
    simp [found] at hnone
  all_goals
    intro state' h
    obtain rfl := only state' h
    assumption

/-- Writing a provider keeps everything, as long as it has liquidity. -/
theorem Pooled.set_provider {w w' : FeePoolWorld A} (hw : Pooled contract w) {provider : A}
    {metrics : ProviderMetrics} (hliquid : 0 < metrics.liquidity)
    {providers : HostMap A ProviderMetrics} (before : w.storage.providers.getD [] = providers)
    (storage : w'.storage.state = w.storage.state)
    (after : w'.storage.providers = some (providers.set provider metrics))
    (transfers : w'.transfers = w.transfers) : Pooled contract w' := by
  refine ⟨?_, ?_, ?_, ?_, ?_⟩
  · intro providers' h e he
    rw [after, Option.some.injEq] at h
    subst h
    rcases HostMap.mem_set he with rfl | he
    · exact hliquid
    · cases hp : w.storage.providers with
      | none => simp_all
      | some ps =>
        rw [hp, Option.getD_some] at before
        exact hw.liquid ps hp e (before ▸ he)
  · rw [storage, transfers]
    exact hw.vacant
  · rw [storage]
    exact hw.rate
  · rw [storage]
    exact hw.nonneg
  · rw [storage, transfers]
    exact hw.covered

theorem initializeFeePool_pooled {env : Invocation A contract}
    {admin token platformTreasury : A} {feeBps distributionInterval : ℕ}
    {w w' : FeePoolWorld A} (hw : Pooled contract w)
    (h : initializeFeePool env admin token platformTreasury feeBps distributionInterval w =
      .ok w') : Pooled contract w' := by
  simp only [initializeFeePool, bind_eq_ok, Invocation.requireAuth_eq_ok, require_eq_ok,
    pure_eq_ok, exists_const] at h
  obtain ⟨-, hvacant, hrate, -, rfl⟩ := h
  have hnone : w.storage.state = none := by simpa using hvacant
  have none_yet := hw.vacant hnone
  exact .of_state rfl hw.liquid hrate le_rfl (by simp [netReceived, none_yet])

theorem accumulateFees_eq_ok {env : Invocation A contract} {payer : A} {amount : ℤ}
    {w w' : FeePoolWorld A} (h : accumulateFees env payer amount w = .ok w') :
    ∃ state cut, w.storage.state = some state ∧ 0 < amount ∧ payer ≠ contract ∧
      cut = (amount * state.feeBps).tdiv bpsDenominator ∧
      w'.storage = { w.storage with
        state := some { state with totalFees := state.totalFees + (amount - cut) } } ∧
      Paid w w' ([⟨state.token, payer, state.platformTreasury, cut⟩,
        ⟨state.token, payer, contract, amount - cut⟩].filter fun t => 0 < t.amount) := by
  simp only [accumulateFees, loadState, bind_eq_ok, Invocation.requireAuth_eq_ok,
    require_eq_ok, orFail_eq_ok, pure_eq_ok, exists_const] at h
  obtain ⟨hauth, hpos, state, hstate, product, hmul, cut, hdiv, rest, hsub, w₁, hplatform, w₂,
    hpool, total, hadd, rfl⟩ := h
  obtain rfl := (IntType.checked_eq_some.1 hmul).1
  rw [IntType.checkedDiv, if_neg (by norm_num [bpsDenominator])] at hdiv
  obtain rfl := (IntType.checked_eq_some.1 hdiv).1
  obtain rfl := (IntType.checked_eq_some.1 hsub).1
  obtain rfl := (IntType.checked_eq_some.1 hadd).1
  obtain ⟨same₁, extend₁⟩ := transferPositive_eq_ok hplatform
  obtain ⟨same₂, extend₂⟩ := transferPositive_eq_ok hpool
  have paid := extend₂ w _ (extend₁ w [] (Paid.of_same rfl rfl))
  rw [List.nil_append, ← List.filter_append] at paid
  refine ⟨state, _, hstate, hpos, env.ne_contract_of_authorised hauth, rfl, ?_,
    paid.congr rfl rfl rfl rfl⟩
  simp only [World.publish_storage, World.store_storage, same₂, same₁]

/-- Accumulating a fee adds at least the recorded part to the contract's balance. -/
theorem netReceived_accumulated (token treasury : A) {payer : A} {cut : ℤ} (rest : ℤ)
    (hne : payer ≠ contract) (hcut : 0 ≤ cut) :
    rest ≤ netReceived contract token ([(⟨token, payer, treasury, cut⟩ : Transfer A),
      ⟨token, payer, contract, rest⟩].filter fun t => 0 < t.amount) := by
  by_cases hcutpos : 0 < cut <;> by_cases hrestpos : 0 < rest <;>
    by_cases htreasury : treasury = contract <;>
    simp [netReceived, Transfer.effect, hne, hcutpos, hrestpos, htreasury] <;> omega

theorem accumulateFees_pooled {env : Invocation A contract} {payer : A} {amount : ℤ}
    {w w' : FeePoolWorld A} (hw : Pooled contract w)
    (h : accumulateFees env payer amount w = .ok w') : Pooled contract w' := by
  obtain ⟨state, cut, found, hpos, hne, hcut, storage, paid⟩ := accumulateFees_eq_ok h
  have hrate : (state.feeBps : ℤ) ≤ bpsDenominator := by
    have := hw.rate state found
    unfold bpsDenominator
    omega
  obtain ⟨hlow, hhigh⟩ := tdiv_share_bounds hpos.le (Int.natCast_nonneg state.feeBps)
    (by norm_num [bpsDenominator] : (0 : ℤ) < bpsDenominator) hrate
  rw [← hcut] at hlow hhigh
  have hfees := hw.nonneg state found
  have hcovered := hw.covered state found
  have hadded := netReceived_accumulated state.token state.platformTreasury (amount - cut)
    hne hlow
  have found' : w'.storage.state =
      some { state with totalFees := state.totalFees + (amount - cut) } := by
    rw [storage]
  refine .of_state found' ?_ (hw.rate state found) ?_ ?_
  · rw [storage]
    exact hw.liquid
  · dsimp only
    omega
  · rw [paid.transfers, netReceived, List.map_append, List.sum_append]
    exact Int.add_le_add hcovered hadded

/-- A payment out of the contract takes at most its amount from the balance. -/
theorem neg_amounts_le_netReceived (token : A) {ts : List (Transfer A)}
    (h : ∀ t ∈ ts, t.source = contract ∧ 0 ≤ t.amount) :
    -(ts.map (·.amount)).sum ≤ netReceived contract token ts := by
  induction ts with
  | nil => simp [netReceived]
  | cons t ts ih =>
    obtain ⟨hsource, hamount⟩ := h t List.mem_cons_self
    have htail := ih fun u hu => h u (List.mem_cons_of_mem t hu)
    have heffect : -t.amount ≤ t.effect token contract := by
      unfold Transfer.effect
      split_ifs <;> omega
    simp only [netReceived, List.map_cons, List.sum_cons] at htail ⊢
    omega

theorem distribute_pooled {env : Invocation A contract} {w w' : FeePoolWorld A}
    (hw : Pooled contract w) (h : distribute s env w = .ok w') : Pooled contract w' := by
  obtain ⟨state, providers, found, hproviders, hfees, hpos, storage, paid⟩ :=
    distribute_eq_ok h
  have liquid := hw.liquid providers hproviders
  have hle : ((payments s contract state providers).map (·.amount)).sum ≤ state.totalFees := by
    rw [sum_payments contract hfees hpos liquid]
    exact ProRata.sum_share_le hpos rfl
  have outgoing : ∀ t ∈ payments s contract state providers,
      t.source = contract ∧ 0 ≤ t.amount := by
    intro t ht
    have hmem := List.mem_of_mem_filter ht
    refine ⟨?_, amount_nonneg contract hfees hpos liquid t hmem⟩
    obtain ⟨e, -, rfl⟩ := List.mem_map.1 hmem
    rfl
  have houtgoing := neg_amounts_le_netReceived state.token outgoing
  have hcovered := hw.covered state found
  have found' : w'.storage.state =
      some { state with totalFees := 0, lastDistribution := env.timestamp } := by
    rw [storage]
  refine .of_state found' ?_ (hw.rate state found) le_rfl ?_
  · rw [storage]
    exact hw.liquid
  · rw [paid.transfers, netReceived, List.map_append, List.sum_append]
    change 0 ≤ netReceived contract state.token w.transfers +
      netReceived contract state.token (payments s contract state providers)
    omega

theorem pooled_invariant (s : ℕ → ℕ) :
    Invariant (@invoke A _ contract s) (Pooled contract) where
  outside _ hw _ := ⟨hw.liquid, hw.vacant, hw.rate, hw.nonneg, hw.covered⟩
  call env op w w' hw h := by
    cases op with
    | initializeFeePool admin token platformTreasury feeBps distributionInterval =>
      exact initializeFeePool_pooled hw h
    | registerProvider provider liquidity uptime =>
      simp only [invoke, registerProvider, bind_eq_ok, require_eq_ok, orFail_eq_ok,
        pure_eq_ok, exists_const] at h
      obtain ⟨_, -, _, -, hliquid, -, -, _, -, rfl⟩ := h
      exact hw.set_provider hliquid rfl rfl rfl rfl
    | updateMetrics provider liquidity uptime transactionCount =>
      simp only [invoke, updateMetrics, bind_eq_ok, require_eq_ok, orFail_eq_ok, pure_eq_ok,
        exists_const] at h
      obtain ⟨_, -, hliquid, -, providers, hproviders, metrics, -, _, -, -, _, -, rfl⟩ := h
      exact hw.set_provider hliquid (by rw [hproviders]; rfl) rfl rfl rfl
    | accumulateFees payer amount => exact accumulateFees_pooled hw h
    | distribute => exact distribute_pooled hw h

theorem invoke_paid {env : Invocation A contract} {op : Operation A} {w w' : FeePoolWorld A}
    (h : invoke s env op w = .ok w') : ∃ ts, Paid w w' ts := by
  cases op with
  | initializeFeePool admin token platformTreasury feeBps distributionInterval =>
    simp only [invoke, initializeFeePool, bind_eq_ok, pure_eq_ok] at h
    obtain ⟨_, -, _, -, _, -, _, -, rfl⟩ := h
    exact ⟨[], Paid.of_same rfl rfl⟩
  | registerProvider provider liquidity uptime =>
    simp only [invoke, registerProvider, bind_eq_ok, pure_eq_ok] at h
    obtain ⟨_, -, _, -, _, -, _, -, _, -, _, -, rfl⟩ := h
    exact ⟨[], Paid.of_same rfl rfl⟩
  | updateMetrics provider liquidity uptime transactionCount =>
    simp only [invoke, updateMetrics, bind_eq_ok, pure_eq_ok] at h
    obtain ⟨_, -, _, -, _, -, _, -, _, -, _, -, _, -, _, -, rfl⟩ := h
    exact ⟨[], Paid.of_same rfl rfl⟩
  | accumulateFees payer amount =>
    obtain ⟨_, _, -, -, -, -, -, paid⟩ := accumulateFees_eq_ok h
    exact ⟨_, paid⟩
  | distribute =>
    obtain ⟨_, _, -, -, -, -, -, paid⟩ := distribute_eq_ok h
    exact ⟨_, paid⟩

/-! ## The law -/

/-- A distribution accounts for every pooled unit: what it paid and what it still records
make up what was recorded before. -/
def Conserved (w w' : FeePoolWorld A) : Prop :=
  ∃ state state', w.storage.state = some state ∧ w'.storage.state = some state' ∧
    ((w'.transfers.drop w.transfers.length).map (·.amount)).sum + state'.totalFees =
      state.totalFees

/-- Every provider's exact share is a whole number of units. -/
def ExactShares (s : ℕ → ℕ) (w : FeePoolWorld A) : Prop :=
  ∀ state providers, w.storage.state = some state → w.storage.providers = some providers →
    ∀ e ∈ providers, poolWeight s providers ∣ state.totalFees * exactWeight s e.2

theorem conserved_iff {env : Invocation A contract} {w w' : FeePoolWorld A}
    (hw : Pooled contract w) (h : distribute s env w = .ok w') :
    Conserved w w' ↔ ExactShares s w := by
  obtain ⟨state, providers, found, hproviders, hfees, hpos, storage, paid⟩ :=
    distribute_eq_ok h
  have found' : w'.storage.state =
      some { state with totalFees := 0, lastDistribution := env.timestamp } := by
    rw [storage]
  have accounted : Conserved w w' ↔
      ((providers.map fun e => exactWeight s e.2).map
        (ProRata.share state.totalFees (poolWeight s providers))).sum = state.totalFees := by
    rw [← sum_payments contract hfees hpos (hw.liquid providers hproviders), Conserved,
      paid.transfers, List.drop_left]
    constructor
    · rintro ⟨state₁, state₂, h₁, h₂, hsum⟩
      rw [found] at h₁
      rw [found'] at h₂
      cases h₁
      cases h₂
      simpa using hsum
    · intro hsum
      exact ⟨state, _, found, found', by simpa using hsum⟩
  rw [accounted, ProRata.sum_share_eq_iff hpos rfl, List.forall_mem_map]
  constructor
  · intro exact state₁ providers₁ h₁ h₂
    rw [found] at h₁
    rw [hproviders] at h₂
    cases h₁
    cases h₂
    exact exact
  · intro exact
    exact exact state providers found hproviders

/-- Besides what the contract held before and was given by outsiders, its balance covers what
is recorded as undistributed. -/
theorem undistributed_covered (s : ℕ → ℕ) (balances : A → A → ℤ)
    (es : List (Event A contract (Operation A))) {state : FeePoolState A}
    (found : (run (invoke s) (deployed balances) es).storage.state = some state) :
    balances state.token contract + donated es state.token + state.totalFees ≤
      (run (invoke s) (deployed balances) es).balances state.token contract := by
  have start : Pooled contract (deployed balances) := deployed_pooled balances
  have kept := (pooled_invariant s).run start es
  obtain ⟨ts, hts, hb⟩ := (pooled_invariant s).balance
    (fun env op w w' _ h => invoke_paid h) start es
  have hcovered := kept.covered state found
  have hts' : (run (invoke s) (deployed balances) es).transfers = ts := hts
  rw [hts', netReceived] at hcovered
  rw [hb state.token]
  exact Int.add_le_add_left hcovered _

/-- In every reachable state: a successful distribution conserves the pooled fees exactly
when every provider's share is a whole number, and besides what the contract held before
and was given by outsiders, its balance covers what is recorded as undistributed. -/
theorem fee_pool_conserves_iff (s : ℕ → ℕ) (balances : A → A → ℤ)
    (es : List (Event A contract (Operation A))) :
    let w := run (invoke s) (deployed balances) es
    (∀ (env : Invocation A contract) w', distribute s env w = .ok w' →
      (Conserved w w' ↔ ExactShares s w)) ∧
    (∀ state, w.storage.state = some state → 0 ≤ state.totalFees ∧
      balances state.token contract + donated es state.token + state.totalFees ≤
        w.balances state.token contract) := by
  intro w
  have kept : Pooled contract w := (pooled_invariant s).run (deployed_pooled balances) es
  refine ⟨fun env w' h => conserved_iff kept h, ?_⟩
  intro state found
  exact ⟨kept.nonneg state found, undistributed_covered s balances es found⟩

end Runs

/-! ## Three equal providers -/

section Remainder

/-- A pool without a platform cut, three providers of equal weight and 100 pooled units. -/
def threeProviders : List (Event ℕ 0 (Operation ℕ)) :=
  [.call (openInvocation 1) (.initializeFeePool 1 9 2 0 3600),
    .call (openInvocation 1) (.registerProvider 3 10000 1),
    .call (openInvocation 1) (.registerProvider 4 10000 1),
    .call (openInvocation 1) (.registerProvider 5 10000 1),
    .call (openInvocation 1) (.accumulateFees 6 100)]

/-- Whatever the square root: each of the three is paid 33, and the last unit is forgotten. -/
theorem distribute_loses_remainder : ¬ ∃ s : ℕ → ℕ, ∀ (es : List (Event ℕ 0 (Operation ℕ)))
    (env : Invocation ℕ 0) w',
    distribute s env (run (invoke s) (deployed fun _ _ => 100) es) = .ok w' →
      Conserved (run (invoke s) (deployed fun _ _ => 100) es) w' := by
  rintro ⟨s, law⟩
  have kept : Pooled 0 (run (invoke s) (deployed fun _ _ => 100) threeProviders) :=
    (pooled_invariant s).run (deployed_pooled _) _
  obtain ⟨w', runs⟩ : ∃ w', distribute s (openInvocation 3600)
      (run (invoke s) (deployed fun _ _ => 100) threeProviders) = .ok w' := ⟨_, rfl⟩
  have exact_shares := (conserved_iff kept runs).1 (law threeProviders _ w' runs)
  have divides : (3 : ℤ) ∣ 100 * 1 :=
    exact_shares _ _ rfl rfl (3, ⟨10000, 1, 0, 1⟩) List.mem_cons_self
  exact absurd divides (by decide)

end Remainder

end MobileMoney.FeePool
