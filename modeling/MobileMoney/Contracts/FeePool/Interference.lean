import MobileMoney.Contracts.FeePool.Shares

/-!
# What one provider can do to the others

A provider declares its own liquidity, and nothing bounds it but the sum of all of them. A
large declaration makes sums and products leave `i128`, where the whole call traps: the
distribution of everybody's fees and the registration of other providers. This module says
exactly which declarations do no harm.
-/

namespace MobileMoney.FeePool

open Soroban MachineInt

/-! ## When a distribution succeeds -/

section Distribution

variable {A : Type} {contract : A} {s : ℕ → ℕ}

/-- The two products of a weight stay inside `i128`. -/
def WeightFits (s : ℕ → ℕ) (metrics : ProviderMetrics) : Prop :=
  metrics.liquidity * metrics.uptime ≤ i128.max ∧
    metrics.liquidity * metrics.uptime * txFactor s metrics ≤ i128.max

theorem txFactor_nonneg (s : ℕ → ℕ) (metrics : ProviderMetrics) : 0 ≤ txFactor s metrics := by
  unfold txFactor
  split_ifs <;> omega

theorem weightOf_ok_iff {metrics : ProviderMetrics} (liquid : 0 < metrics.liquidity) :
    weightOf s metrics = .ok (exactWeight s metrics) ↔ WeightFits s metrics := by
  have hscaled : 0 ≤ metrics.liquidity * metrics.uptime :=
    mul_nonneg liquid.le (Int.natCast_nonneg _)
  have hproduct := mul_nonneg hscaled (txFactor_nonneg s metrics)
  constructor
  · intro h
    simp only [weightOf, bind_eq_ok, orFail_eq_ok] at h
    obtain ⟨scaled, h₁, product, h₂, -⟩ := h
    obtain ⟨rfl, -, hle₁⟩ := IntType.checked_eq_some.1 h₁
    obtain ⟨rfl, -, hle₂⟩ := IntType.checked_eq_some.1 h₂
    exact ⟨hle₁, hle₂⟩
  · rintro ⟨hle₁, hle₂⟩
    simp only [weightOf, bind_eq_ok, orFail_eq_ok]
    refine ⟨_, (checked_i128_of_nonneg hscaled).2 hle₁, _,
      (checked_i128_of_nonneg hproduct).2 hle₂, ?_⟩
    rw [IntType.checkedDiv, if_neg (by norm_num)]
    refine (checked_i128_of_nonneg (exactWeight_nonneg liquid)).2 ?_
    exact (tdiv_le_self _ hproduct).trans hle₂

theorem poolWeight_nonneg {providers : HostMap A ProviderMetrics}
    (liquid : ∀ e ∈ providers, 0 < e.2.liquidity) : 0 ≤ poolWeight s providers := by
  apply List.sum_nonneg
  intro weight hweight
  obtain ⟨e, he, rfl⟩ := List.mem_map.1 hweight
  exact exactWeight_nonneg (liquid e he)

theorem weightedShares_ok_iff {total : ℤ} (nonneg : 0 ≤ total) (bounded : total ≤ i128.max)
    {providers : HostMap A ProviderMetrics} (liquid : ∀ e ∈ providers, 0 < e.2.liquidity) :
    (∃ r, weightedShares s total providers = .ok r) ↔
      (∀ e ∈ providers, WeightFits s e.2) ∧ total + poolWeight s providers ≤ i128.max := by
  induction providers generalizing total with
  | nil => simp [weightedShares, poolWeight, bounded]
  | cons e rest ih =>
    obtain ⟨provider, metrics⟩ := e
    have hliquid : 0 < metrics.liquidity := liquid _ List.mem_cons_self
    have liquid_rest : ∀ e ∈ rest, 0 < e.2.liquidity := fun e he =>
      liquid e (List.mem_cons_of_mem _ he)
    have hweight := exactWeight_nonneg (s := s) hliquid
    have hrest := poolWeight_nonneg (s := s) liquid_rest
    have hsum : poolWeight s ((provider, metrics) :: rest) =
        exactWeight s metrics + poolWeight s rest := by
      simp [poolWeight]
    have hadded : 0 ≤ total + exactWeight s metrics := by omega
    rw [List.forall_mem_cons, hsum]
    constructor
    · rintro ⟨r, h⟩
      simp only [weightedShares, bind_eq_ok, orFail_eq_ok] at h
      obtain ⟨weight, h₁, total₁, h₂, shares, h₃, -⟩ := h
      obtain rfl := weightOf_eq_ok h₁
      obtain ⟨rfl, -, hle⟩ := IntType.checked_eq_some.1 h₂
      obtain ⟨fits, htotal⟩ := (ih hadded hle liquid_rest).1 ⟨shares, h₃⟩
      exact ⟨⟨(weightOf_ok_iff hliquid).1 h₁, fits⟩, by omega⟩
    · rintro ⟨⟨fits, fits_rest⟩, htotal⟩
      have hle : total + exactWeight s metrics ≤ i128.max := by omega
      obtain ⟨shares, h₃⟩ := (ih hadded hle liquid_rest).2 ⟨fits_rest, by omega⟩
      refine ⟨((provider, exactWeight s metrics) :: shares.1, shares.2), ?_⟩
      simp only [weightedShares, bind_eq_ok, orFail_eq_ok]
      exact ⟨_, (weightOf_ok_iff hliquid).2 fits, _, (checked_i128_of_nonneg hadded).2 hle,
        shares, h₃, rfl⟩

variable [DecidableEq A]

/-- What the second loop takes from the contract when it pays everybody. -/
def sumShares (totalFees totalWeight : ℤ) (shares : HostMap A ℤ) : ℤ :=
  (shares.map fun e => (totalFees * e.2).tdiv totalWeight).sum

theorem paidShare_nonneg {totalFees totalWeight weight : ℤ} (hfees : 0 ≤ totalFees)
    (hpos : 0 < totalWeight) (hweight : 0 ≤ weight) : 0 ≤ (totalFees * weight).tdiv totalWeight :=
  Int.tdiv_nonneg (mul_nonneg hfees hweight) hpos.le

omit [DecidableEq A] in
theorem sumShares_nonneg {totalFees totalWeight : ℤ} (hfees : 0 ≤ totalFees)
    (hpos : 0 < totalWeight) {shares : HostMap A ℤ} (nonneg : ∀ e ∈ shares, 0 ≤ e.2) :
    0 ≤ sumShares totalFees totalWeight shares := by
  apply List.sum_nonneg
  intro share hmem
  obtain ⟨e, he, rfl⟩ := List.mem_map.1 hmem
  exact paidShare_nonneg hfees hpos (nonneg e he)

/-- The loop succeeds when its first round and the rest of it do. -/
theorem payShares_cons_ok_iff {env : Invocation A contract} {token provider : A}
    {totalFees totalWeight weight : ℤ} (hfees : 0 ≤ totalFees) (hpos : 0 < totalWeight)
    (hweight : 0 ≤ weight) {rest : HostMap A ℤ} {w : FeePoolWorld A} :
    (∃ w', payShares env token totalFees totalWeight ((provider, weight) :: rest) w = .ok w') ↔
      totalFees * weight ≤ i128.max ∧ ∃ w₁, transferPositive env ⟨token, contract, provider,
          (totalFees * weight).tdiv totalWeight⟩ w = .ok w₁ ∧
        ∃ w', payShares env token totalFees totalWeight rest w₁ = .ok w' := by
  have hproduct := mul_nonneg hfees hweight
  simp only [payShares, bind_eq_ok, orFail_eq_ok, IntType.checkedMul, IntType.checkedDiv,
    if_neg hpos.ne']
  constructor
  · rintro ⟨w', product, hmul, share, hdiv, w₁, hpay, h⟩
    obtain ⟨rfl, -, hle⟩ := IntType.checked_eq_some.1 hmul
    obtain rfl := (IntType.checked_eq_some.1 hdiv).1
    exact ⟨hle, w₁, hpay, w', h⟩
  · rintro ⟨hle, w₁, hpay, w', h⟩
    have fits := (tdiv_le_self totalWeight hproduct).trans hle
    exact ⟨w', _, (checked_i128_of_nonneg hproduct).2 hle, _,
      (checked_i128_of_nonneg (paidShare_nonneg hfees hpos hweight)).2 fits, w₁, hpay, h⟩

/-- A transfer of at most `amount` leaves what is covered beyond `amount`. -/
theorem transferPositive_covers {env : Invocation A contract} {token provider : A}
    {amount rest : ℤ} {w w' : FeePoolWorld A} (hamount : 0 ≤ amount)
    (covered : amount + rest ≤ w.balances token contract)
    (h : transferPositive env ⟨token, contract, provider, amount⟩ w = .ok w') :
    rest ≤ w'.balances token contract := by
  unfold transferPositive at h
  split_ifs at h with hpositive
  · obtain ⟨-, rfl⟩ := Invocation.transfer_eq_ok.1 h
    simp only [World.pay_balances, Transfer.effect, if_true]
    split_ifs <;> omega
  · cases h
    omega

theorem payShares_ok_iff {env : Invocation A contract} {token : A} {totalFees totalWeight : ℤ}
    (hfees : 0 ≤ totalFees) (hpos : 0 < totalWeight) {shares : HostMap A ℤ}
    (nonneg : ∀ e ∈ shares, 0 ≤ e.2) {w : FeePoolWorld A}
    (covered : sumShares totalFees totalWeight shares ≤ w.balances token contract) :
    (∃ w', payShares env token totalFees totalWeight shares w = .ok w') ↔
      (∀ e ∈ shares, totalFees * e.2 ≤ i128.max) ∧
      ∀ t ∈ (allShares contract token totalFees totalWeight shares).filter
        (fun t => 0 < t.amount), env.accepts (.transfer t) = true := by
  induction shares generalizing w with
  | nil => simp [payShares, allShares]
  | cons e rest ih =>
    obtain ⟨provider, weight⟩ := e
    have hweight : 0 ≤ weight := nonneg _ List.mem_cons_self
    have nonneg_rest : ∀ e ∈ rest, 0 ≤ e.2 := fun e he => nonneg e (List.mem_cons_of_mem _ he)
    have hshare := paidShare_nonneg hfees hpos hweight
    have hrest := sumShares_nonneg hfees hpos nonneg_rest
    rw [show sumShares totalFees totalWeight ((provider, weight) :: rest) =
      (totalFees * weight).tdiv totalWeight + sumShares totalFees totalWeight rest from rfl]
      at covered
    -- Whatever is paid here, the rest of the shares is still covered.
    have after : ∀ w₁, transferPositive env ⟨token, contract, provider,
        (totalFees * weight).tdiv totalWeight⟩ w = .ok w₁ →
        sumShares totalFees totalWeight rest ≤ w₁.balances token contract :=
      fun w₁ => transferPositive_covers hshare covered
    rw [payShares_cons_ok_iff hfees hpos hweight, List.forall_mem_cons, allShares, List.map_cons,
      List.filter_cons]
    by_cases hamount : 0 < (totalFees * weight).tdiv totalWeight
    · simp only [transferPositive, hamount, decide_true, if_true, List.forall_mem_cons]
      constructor
      · rintro ⟨hle, w₁, hpay, hrest_ok⟩
        have hafter := after w₁ (by simpa only [transferPositive, hamount, if_true] using hpay)
        obtain ⟨⟨accepted, -⟩, rfl⟩ := Invocation.transfer_eq_ok.1 hpay
        obtain ⟨fits, accepted_rest⟩ := (ih nonneg_rest hafter).1 hrest_ok
        exact ⟨⟨hle, fits⟩, accepted, accepted_rest⟩
      · rintro ⟨⟨hle, fits⟩, accepted, accepted_rest⟩
        have hpay : env.transfer ⟨token, contract, provider,
            (totalFees * weight).tdiv totalWeight⟩ w = (.ok (w.pay _) : Result _) :=
          Invocation.transfer_eq_ok.2 ⟨⟨accepted, hshare, by dsimp only; omega⟩, rfl⟩
        have hafter := after _ (by simpa only [transferPositive, hamount, if_true] using hpay)
        exact ⟨hle, _, hpay, (ih nonneg_rest hafter).2 ⟨fits, accepted_rest⟩⟩
    · have hsame := ih nonneg_rest (w := w) (by omega)
      simp only [transferPositive, hamount, decide_false, if_false, Bool.false_eq_true,
        Except.ok.injEq, exists_eq_left', hsame, and_assoc]
      rfl

/-- The checks of `distribute` that look at the pool state only. -/
structure Due (env : Invocation A contract) (state : FeePoolState A) : Prop where
  authorised : env.authorised state.admin = true
  interval : 0 < state.lastDistribution →
    (state.lastDistribution + state.distributionInterval : ℕ) ≤ u64.max
  elapsed : ¬ (0 < state.lastDistribution ∧
    env.timestamp < state.lastDistribution + state.distributionInterval)
  fees : 0 < state.totalFees

/-- What the two loops of `distribute` ask of the providers. -/
structure Payable (s : ℕ → ℕ) (env : Invocation A contract) (state : FeePoolState A)
    (providers : HostMap A ProviderMetrics) : Prop where
  weights : ∀ e ∈ providers, WeightFits s e.2
  products : ∀ e ∈ providers, state.totalFees * exactWeight s e.2 ≤ i128.max
  positive : 0 < poolWeight s providers
  bounded : poolWeight s providers ≤ i128.max
  accepted : ∀ t ∈ payments s contract state providers, env.accepts (.transfer t) = true

omit [DecidableEq A] in
theorem sumShares_le {state : FeePoolState A} (hfees : 0 < state.totalFees)
    {providers : HostMap A ProviderMetrics} (liquid : ∀ e ∈ providers, 0 < e.2.liquidity)
    (hpos : 0 < poolWeight s providers) :
    sumShares state.totalFees (poolWeight s providers)
      (providers.map fun e => (e.1, exactWeight s e.2)) ≤ state.totalFees := by
  have hshares : sumShares state.totalFees (poolWeight s providers)
      (providers.map fun e => (e.1, exactWeight s e.2)) =
      ((allShares state.token state.token state.totalFees (poolWeight s providers)
        (providers.map fun e => (e.1, exactWeight s e.2))).map (·.amount)).sum := by
    simp [sumShares, allShares, Function.comp_def]
  rw [hshares, amounts_allShares state.token hfees liquid]
  exact ProRata.sum_share_le hpos rfl

theorem distribute_ok_iff {env : Invocation A contract} {w : FeePoolWorld A}
    (liquid : ∀ e ∈ w.storage.providers.getD [], 0 < e.2.liquidity)
    (covered : ∀ state, w.storage.state = some state →
      state.totalFees ≤ w.balances state.token contract) :
    (∃ w', distribute s env w = .ok w') ↔ ∃ state providers,
      w.storage.state = some state ∧ w.storage.providers = some providers ∧
      Due env state ∧ Payable s env state providers := by
  have loops : ∀ state providers, w.storage.state = some state →
      w.storage.providers = some providers → 0 < state.totalFees →
      0 < poolWeight s providers → ((∃ w', payShares env state.token state.totalFees
        (poolWeight s providers) (providers.map fun e => (e.1, exactWeight s e.2)) w = .ok w') ↔
      (∀ e ∈ providers, state.totalFees * exactWeight s e.2 ≤ i128.max) ∧
      ∀ t ∈ payments s contract state providers, env.accepts (.transfer t) = true) := by
    intro state providers hstate hproviders hfees hpos
    rw [hproviders, Option.getD_some] at liquid
    rw [payShares_ok_iff hfees.le hpos _ ((sumShares_le hfees liquid hpos).trans
      (covered state hstate)), List.forall_mem_map, payments]
    rw [List.forall_mem_map]
    exact fun e he => exactWeight_nonneg (liquid e he)
  constructor
  · rintro ⟨w', h⟩
    simp only [distribute, loadState, bind_eq_ok, orFail_eq_ok, Invocation.requireAuth_eq_ok,
      require_eq_ok, pure_eq_ok, exists_const, not_le] at h
    obtain ⟨state, hstate, hauth, hinterval, helapsed, hfees, providers, hproviders, -,
      ⟨shares, total⟩, hshares, hpos, w₁, hpay, -⟩ := h
    have hliquid := liquid
    rw [hproviders, Option.getD_some] at hliquid
    obtain ⟨fits, hbounded⟩ := (weightedShares_ok_iff le_rfl (by norm_num [i128]) hliquid).1
      ⟨_, hshares⟩
    obtain ⟨rfl, rfl⟩ := weightedShares_eq_ok hshares
    change 0 < 0 + poolWeight s providers at hpos
    change payShares env state.token state.totalFees (0 + poolWeight s providers) _ w = _ at hpay
    rw [zero_add] at hpos hpay hbounded
    obtain ⟨products, accepted⟩ :=
      (loops state providers hstate hproviders hfees hpos).1 ⟨w₁, hpay⟩
    exact ⟨state, providers, hstate, hproviders, ⟨hauth, hinterval, helapsed, hfees⟩,
      fits, products, hpos, hbounded, accepted⟩
  · rintro ⟨state, providers, hstate, hproviders, due, payable⟩
    have hliquid := liquid
    rw [hproviders, Option.getD_some] at hliquid
    obtain ⟨⟨shares, total⟩, hshares⟩ := (weightedShares_ok_iff le_rfl (by norm_num [i128])
      hliquid).2 ⟨payable.weights, by rw [zero_add]; exact payable.bounded⟩
    obtain ⟨w₁, hpay⟩ := (loops state providers hstate hproviders due.fees payable.positive).2
      ⟨payable.products, payable.accepted⟩
    have nonempty : providers ≠ [] := by
      rintro rfl
      exact absurd payable.positive (by simp [poolWeight])
    have hfound := weightedShares_eq_ok hshares
    rw [zero_add] at hfound
    obtain ⟨rfl, rfl⟩ := hfound
    refine ⟨w₁.store { w₁.storage with
      state := some { state with totalFees := 0, lastDistribution := env.timestamp } }, ?_⟩
    simp only [distribute, loadState, bind_eq_ok, orFail_eq_ok, Invocation.requireAuth_eq_ok,
      require_eq_ok, pure_eq_ok, exists_const, not_le]
    exact ⟨state, hstate, due.authorised, due.interval, due.elapsed, due.fees, providers,
      hproviders, nonempty, _, hshares, payable.positive, w₁, hpay, rfl⟩

end Distribution

/-! ## The calls of one provider -/

section Runs

variable {A : Type} [LinearOrder A] {contract : A} {s : ℕ → ℕ}

/-- What a provider can call about itself. -/
inductive OwnCall where
  | register (liquidity : ℤ) (uptime : ℕ)
  | update (liquidity : ℤ) (uptime transactionCount : ℕ)
  deriving DecidableEq, Repr

def OwnCall.operation {A : Type} (provider : A) : OwnCall → Operation A
  | .register liquidity uptime => .registerProvider provider liquidity uptime
  | .update liquidity uptime transactionCount =>
    .updateMetrics provider liquidity uptime transactionCount

/-- A sequence of calls by one provider about itself. -/
def ownCalls (provider : A) (calls : List (Invocation A contract × OwnCall)) :
    List (Event A contract (Operation A)) :=
  calls.map fun c => .call c.1 (c.2.operation provider)

/-- What the calls of a provider about itself leave alone. -/
structure Untouched (provider : A) (w w' : FeePoolWorld A) : Prop where
  state : w'.storage.state = w.storage.state
  balances : w'.balances = w.balances
  others : ∀ q, q ≠ provider →
    (w'.storage.providers.getD []).get q = (w.storage.providers.getD []).get q
  registered : w.storage.providers.isSome → w'.storage.providers.isSome

theorem Untouched.refl (provider : A) (w : FeePoolWorld A) : Untouched provider w w :=
  ⟨rfl, rfl, fun _ _ => rfl, id⟩

theorem Untouched.trans {provider : A} {u v w : FeePoolWorld A} (h₁ : Untouched provider u v)
    (h₂ : Untouched provider v w) : Untouched provider u w where
  state := h₂.state.trans h₁.state
  balances := h₂.balances.trans h₁.balances
  others q hq := (h₂.others q hq).trans (h₁.others q hq)
  registered h := h₂.registered (h₁.registered h)

theorem OwnCall.untouched {env : Invocation A contract} {provider : A} {call : OwnCall}
    {w w' : FeePoolWorld A} (hw : Totalled w)
    (h : invoke s env (call.operation provider) w = .ok w') : Untouched provider w w' := by
  have written : ∀ metrics q, q ≠ provider →
      ((w.storage.providers.getD []).set provider metrics).get q =
        (w.storage.providers.getD []).get q := by
    intro metrics q hq
    rw [HostMap.get_set _ _ _ _ hw.sorted, if_neg hq]
  cases call with
  | register liquidity uptime =>
    simp only [OwnCall.operation, invoke, registerProvider, bind_eq_ok, pure_eq_ok] at h
    obtain ⟨_, -, _, -, _, -, _, -, _, -, _, -, rfl⟩ := h
    exact ⟨rfl, rfl, written _, fun _ => rfl⟩
  | update liquidity uptime transactionCount =>
    simp only [OwnCall.operation, invoke, updateMetrics, bind_eq_ok, orFail_eq_ok,
      pure_eq_ok] at h
    obtain ⟨_, -, _, -, _, -, providers, hproviders, _, -, _, -, _, -, _, -, rfl⟩ := h
    refine ⟨rfl, rfl, ?_, fun _ => rfl⟩
    rw [hproviders] at written ⊢
    exact written _

theorem ownCalls_untouched (provider : A) (calls : List (Invocation A contract × OwnCall))
    {w : FeePoolWorld A} (hw : Totalled w) :
    Untouched provider w (run (invoke s) w (ownCalls provider calls)) := by
  induction calls generalizing w with
  | nil => exact .refl provider w
  | cons c calls ih =>
    have hstep : Untouched provider w (step (invoke s) w (.call c.1 (c.2.operation provider))) := by
      refine step_cases _ w _ (.refl provider w) (fun _ h => by cases h) ?_
      rintro env op w' ⟨⟩ h
      exact OwnCall.untouched hw h
    exact hstep.trans (ih ((totalled_invariant s).step hw _))

/-! ## The law -/

/-- What a provider could get in the way of: distributions and the registration of others. -/
def Later (provider : A) : Operation A → Prop
  | .distribute => True
  | .registerProvider q _ _ => q ≠ provider
  | _ => False

/-- What the numbers of one provider have to respect, in the state its calls have led to. -/
def Harmless (s : ℕ → ℕ) (env : Invocation A contract) (provider : A) (w : FeePoolWorld A) :
    Operation A → Prop
  | .distribute => ∀ state providers,
    w.storage.state = some state → w.storage.providers = some providers →
      (∀ metrics, providers.get provider = some metrics →
        WeightFits s metrics ∧ state.totalFees * exactWeight s metrics ≤ i128.max) ∧
      0 < poolWeight s providers ∧ poolWeight s providers ≤ i128.max ∧
      ∀ t ∈ payments s contract state providers, env.accepts (.transfer t) = true
  | .registerProvider _ liquidity _ => w.storage.totalShares.getD 0 + liquidity ≤ i128.max
  | _ => True

def Succeeds (s : ℕ → ℕ) (env : Invocation A contract) (op : Operation A)
    (w : FeePoolWorld A) : Prop := ∃ w', invoke s env op w = .ok w'

theorem Totalled.total_nonneg {w : FeePoolWorld A} (hw : Totalled w) :
    0 ≤ w.storage.totalShares.getD 0 := by
  rw [hw.total]
  apply List.sum_nonneg
  intro liquidity hmem
  obtain ⟨e, he, rfl⟩ := List.mem_map.1 hmem
  exact (hw.liquid e he).le

theorem registerProvider_ok_iff {env : Invocation A contract} {provider : A} {liquidity : ℤ}
    {uptime : ℕ} {w : FeePoolWorld A} (hw : Totalled w) :
    (∃ w', registerProvider env provider liquidity uptime w = .ok w') ↔
      (env.authorised provider = true ∧ w.storage.state.isSome ∧ 0 < liquidity ∧
        uptime ≤ 100 ∧ (w.storage.providers.getD []).get provider = none) ∧
      w.storage.totalShares.getD 0 + liquidity ≤ i128.max := by
  simp only [registerProvider, loadState, bind_eq_ok, Invocation.requireAuth_eq_ok,
    require_eq_ok, orFail_eq_ok, pure_eq_ok, exists_const]
  constructor
  · rintro ⟨w', hauth, state, hstate, hliquid, huptime, hfresh, total, hadd, -⟩
    refine ⟨⟨hauth, by simp [hstate], hliquid, huptime, by simpa using hfresh⟩, ?_⟩
    obtain ⟨rfl, -, hle⟩ := IntType.checked_eq_some.1 hadd
    exact hle
  · rintro ⟨⟨hauth, hsome, hliquid, huptime, hfresh⟩, hle⟩
    obtain ⟨state, hstate⟩ := Option.isSome_iff_exists.1 hsome
    have hsum := Int.add_nonneg hw.total_nonneg hliquid.le
    exact ⟨_, hauth, state, hstate, hliquid, huptime, by simp [hfresh], _,
      (checked_i128_of_nonneg hsum).2 hle, rfl⟩

/-- A distribution that was possible before the calls of one provider is possible after them
exactly when that provider's numbers are harmless. -/
theorem distribute_undisturbed {env : Invocation A contract} {provider : A}
    {w w' : FeePoolWorld A} (hw : Totalled w) (hw' : Totalled w')
    (untouched : Untouched provider w w')
    (covered : ∀ state, w.storage.state = some state →
      state.totalFees ≤ w.balances state.token contract)
    (before : ∃ v, distribute s env w = .ok v) :
    (∃ v, distribute s env w' = .ok v) ↔ Harmless s env provider w' .distribute := by
  have covered' : ∀ state, w'.storage.state = some state →
      state.totalFees ≤ w'.balances state.token contract := by
    rw [untouched.state, untouched.balances]
    exact covered
  obtain ⟨state, providers, hstate, hproviders, due, payable⟩ :=
    (distribute_ok_iff hw.liquid covered).1 before
  rw [distribute_ok_iff hw'.liquid covered']
  constructor
  · rintro ⟨state₁, providers₁, hstate₁, hproviders₁, -, payable₁⟩ state₂ providers₂ hstate₂
      hproviders₂
    obtain rfl := Option.some.inj (hstate₁.symm.trans hstate₂)
    obtain rfl := Option.some.inj (hproviders₁.symm.trans hproviders₂)
    refine ⟨?_, payable₁.positive, payable₁.bounded, payable₁.accepted⟩
    intro metrics hmetrics
    have hmem := HostMap.mem_of_get hmetrics
    exact ⟨payable₁.weights _ hmem, payable₁.products _ hmem⟩
  · intro harmless
    obtain ⟨providers', hproviders'⟩ :=
      Option.isSome_iff_exists.1 (untouched.registered (by simp [hproviders]))
    have hstate' : w'.storage.state = some state := untouched.state.trans hstate
    obtain ⟨own, positive, bounded, accepted⟩ := harmless state providers' hstate' hproviders'
    have sorted := hw'.sorted
    have others := untouched.others
    rw [hproviders', Option.getD_some] at sorted others
    rw [hproviders, Option.getD_some] at others
    -- An entry is the provider's own or was there before.
    have fits : ∀ e ∈ providers', WeightFits s e.2 ∧
        state.totalFees * exactWeight s e.2 ≤ i128.max := by
      rintro ⟨q, metrics⟩ he
      have hget := sorted.get_of_mem he
      by_cases hq : q = provider
      · exact own metrics (hq ▸ hget)
      · have hmem := HostMap.mem_of_get ((others q hq).symm.trans hget)
        exact ⟨payable.weights _ hmem, payable.products _ hmem⟩
    exact ⟨state, providers', hstate', hproviders', due, fun e he => (fits e he).1,
      fun e he => (fits e he).2, positive, bounded, accepted⟩

/-- In every reachable state, whatever one provider calls about itself: a distribution or
another registration that would have succeeded before still does exactly when the numbers
of that provider are harmless. -/
theorem provider_undisturbing_iff (s : ℕ → ℕ) (balances : A → A → ℕ)
    (es : List (Event A contract (Operation A))) (provider : A)
    (calls : List (Invocation A contract × OwnCall)) (env : Invocation A contract)
    (op : Operation A) (later : Later provider op)
    (before : Succeeds s env op
      (run (invoke s) (deployed fun token holder => balances token holder) es)) :
    let w := run (invoke s) (deployed fun token holder => balances token holder) es
    let w' := run (invoke s) w (ownCalls provider calls)
    Succeeds s env op w' ↔ Harmless s env provider w' op := by
  intro w w'
  have hw : Totalled w := (totalled_invariant s).run (deployed_totalled _) es
  have hw' : Totalled w' := (totalled_invariant s).run hw _
  have untouched : Untouched provider w w' := ownCalls_untouched provider calls hw
  cases op with
  | initializeFeePool admin token platformTreasury feeBps distributionInterval => cases later
  | updateMetrics q liquidity uptime transactionCount => cases later
  | accumulateFees payer amount => cases later
  | registerProvider q liquidity uptime =>
    obtain ⟨⟨hauth, hsome, hliquid, huptime, hfresh⟩, -⟩ := (registerProvider_ok_iff hw).1 before
    refine (registerProvider_ok_iff hw').trans ?_
    rw [untouched.state, untouched.others q later]
    exact and_iff_right ⟨hauth, hsome, hliquid, huptime, hfresh⟩
  | distribute =>
    refine distribute_undisturbed hw hw' untouched ?_ before
    intro state found
    have hle := undistributed_covered s _ es found
    have hdonated := donated_nonneg es state.token
    have hbalance := Int.natCast_nonneg (balances state.token contract)
    change state.totalFees ≤ (run (invoke s) (deployed _) es).balances state.token contract
    omega

end Runs

/-! ## A provider with a huge liquidity -/

section Huge

/-- A pool with one provider, whose token address is 9, and 100 pooled units. -/
def oneProvider : List (Event ℕ 0 (Operation ℕ)) :=
  [.call (openInvocation 1) (.initializeFeePool 1 9 2 0 3600),
    .call (openInvocation 1) (.registerProvider 4 10000 1),
    .call (openInvocation 1) (.accumulateFees 6 100)]

def harmlessCall : List (Invocation ℕ 0 × OwnCall) := [(openInvocation 2, .register 10000 1)]

/-- All the liquidity that `i128` has left. -/
def hugeCall : List (Invocation ℕ 0 × OwnCall) :=
  [(openInvocation 2, .register (2 ^ 127 - 10001) 2)]

/-- A provider of the same size as the other leaves the distribution possible. -/
theorem distribute_after_small_provider :
    Harmless (fun n => n) (openInvocation 3600) 3
      (run (invoke fun n => n) (run (invoke fun n => n) (deployed fun _ _ => ((100 : ℕ) : ℤ))
        oneProvider) (ownCalls 3 harmlessCall)) .distribute :=
  (provider_undisturbing_iff (fun n => n) (fun _ _ => 100) oneProvider 3 harmlessCall
    (openInvocation 3600) .distribute trivial ⟨_, rfl⟩).1 ⟨_, rfl⟩

/-- Whatever the square root: after the huge registration the fees cannot be distributed and
nobody else can register. -/
theorem huge_provider_blocks_others : ¬ ∃ s : ℕ → ℕ, ∃ op,
    (op = .distribute ∨ op = .registerProvider 5 10000 1) ∧
    ∀ (balances : ℕ → ℕ → ℕ) (es : List (Event ℕ 0 (Operation ℕ))) (provider : ℕ)
      (calls : List (Invocation ℕ 0 × OwnCall)) (env : Invocation ℕ 0),
      Later provider op →
      Succeeds s env op (run (invoke s) (deployed fun token holder => balances token holder) es) →
      Succeeds s env op (run (invoke s) (run (invoke s)
        (deployed fun token holder => balances token holder) es) (ownCalls provider calls)) := by
  rintro ⟨s, op, rfl | rfl, law⟩
  · obtain ⟨w', h⟩ := law (fun _ _ => 100) oneProvider 3 hugeCall (openInvocation 3600) trivial
      ⟨_, rfl⟩
    cases h
  · obtain ⟨w', h⟩ := law (fun _ _ => 100) oneProvider 3 hugeCall (openInvocation 3600)
      (by decide : (5 : ℕ) ≠ 3) ⟨_, rfl⟩
    cases h

end Huge

end MobileMoney.FeePool
