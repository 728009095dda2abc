import MobileMoney.Contracts.FeePool.Conservation

/-!
# The total of the providers' liquidity

`TOTAL_SHARES` is written beside the map of providers, by adding the liquidity of a new
provider and the difference of an update. It is the sum of what the map holds.
-/

namespace MobileMoney.FeePool

open Soroban MachineInt

/-! ## Sorted host maps -/

namespace HostMap

variable {K V : Type} [LinearOrder K]

/-- Keys in strictly increasing order. -/
def Sorted (m : HostMap K V) : Prop := m.Pairwise fun e f => e.1 < f.1

theorem get_eq_none_of_lt {k : K} {m : HostMap K V} (h : ∀ e ∈ m, k < e.1) :
    get k m = none := by
  induction m with
  | nil => rfl
  | cons e rest ih =>
    have hne : e.1 ≠ k := (h e List.mem_cons_self).ne'
    rw [get, if_neg hne, ih fun f hf => h f (List.mem_cons_of_mem e hf)]

theorem mem_of_get {k : K} {v : V} {m : HostMap K V} (h : get k m = some v) : (k, v) ∈ m := by
  fun_induction get k m <;> grind

theorem Sorted.get_of_mem {k : K} {v : V} {m : HostMap K V} (sorted : Sorted m)
    (h : (k, v) ∈ m) : get k m = some v := by
  induction m with
  | nil => cases h
  | cons e rest ih =>
    obtain ⟨first, sorted⟩ := List.pairwise_cons.1 sorted
    rcases List.mem_cons.1 h with rfl | h
    · rw [get, if_pos rfl]
    · rw [get, if_neg (first _ h).ne, ih sorted h]

theorem Sorted.set {m : HostMap K V} (sorted : Sorted m) (k : K) (v : V) :
    Sorted (set k v m) := by
  induction m with
  | nil => exact List.pairwise_singleton _ _
  | cons e rest ih =>
    obtain ⟨first, tail⟩ := List.pairwise_cons.1 sorted
    unfold HostMap.set
    split_ifs with hlt heq
    · refine List.pairwise_cons.2 ⟨?_, sorted⟩
      intro f hf
      rcases List.mem_cons.1 hf with rfl | hf
      · exact hlt
      · exact hlt.trans (first f hf)
    · exact List.pairwise_cons.2 ⟨fun f hf => heq ▸ first f hf, tail⟩
    · refine List.pairwise_cons.2 ⟨?_, ih tail⟩
      intro f hf
      rcases mem_set hf with rfl | hf
      · exact lt_of_le_of_ne (not_lt.1 hlt) (Ne.symm heq)
      · exact first f hf

/-- Setting a key exchanges its own part of a sum over the entries. -/
theorem Sorted.sum_set {m : HostMap K V} (sorted : Sorted m) (k : K) (v : V) (f : V → ℤ) :
    ((HostMap.set k v m).map fun e => f e.2).sum + (get k m).elim 0 f =
      (m.map fun e => f e.2).sum + f v := by
  induction m with
  | nil => simp [HostMap.set, get]
  | cons e rest ih =>
    obtain ⟨first, tail⟩ := List.pairwise_cons.1 sorted
    unfold HostMap.set
    split_ifs with hlt heq
    · have absent : get k (e :: rest) = none := by
        apply get_eq_none_of_lt
        intro f hf
        rcases List.mem_cons.1 hf with rfl | hf
        · exact hlt
        · exact hlt.trans (first f hf)
      rw [absent]
      simp only [List.map_cons, List.sum_cons, Option.elim_none]
      ring
    · simp only [get, if_pos heq.symm, List.map_cons, List.sum_cons, Option.elim_some]
      ring
    · have := ih tail
      simp only [get, if_neg (Ne.symm heq), List.map_cons, List.sum_cons]
      omega

theorem get_set (k q : K) (v : V) (m : HostMap K V) (sorted : Sorted m) :
    get q (HostMap.set k v m) = if q = k then some v else get q m := by
  induction m with
  | nil => simp [HostMap.set, get, eq_comm]
  | cons e rest ih =>
    obtain ⟨first, tail⟩ := List.pairwise_cons.1 sorted
    have := ih tail
    unfold HostMap.set
    split_ifs with hlt heq <;> grind [get]

end HostMap

/-! ## The invariant -/

/-- The liquidity of all registered providers. -/
def totalLiquidity {A : Type} (providers : HostMap A ProviderMetrics) : ℤ :=
  (providers.map fun e => e.2.liquidity).sum

section Runs

variable {A : Type} [LinearOrder A] {contract : A} {s : ℕ → ℕ}

/-- The recorded total is the liquidity of the providers, which is positive for each. -/
structure Totalled (w : FeePoolWorld A) : Prop where
  sorted : (w.storage.providers.getD []).Sorted
  liquid : ∀ e ∈ w.storage.providers.getD [], 0 < e.2.liquidity
  vacant : w.storage.state = none → w.storage.providers = none ∧ w.storage.totalShares = none
  total : w.storage.totalShares.getD 0 = totalLiquidity (w.storage.providers.getD [])
  recorded : w.storage.state.isSome → w.storage.totalShares.isSome

theorem deployed_totalled (balances : A → A → ℤ) : Totalled (deployed balances) where
  sorted := List.Pairwise.nil
  liquid _ h := by cases h
  vacant _ := ⟨rfl, rfl⟩
  total := rfl
  recorded h := by cases h

/-- What a write of the provider map and the total has to respect. -/
theorem Totalled.set_provider {w w' : FeePoolWorld A} (hw : Totalled w) {provider : A}
    {metrics : ProviderMetrics} {total : ℤ} (hliquid : 0 < metrics.liquidity)
    (initialised : w.storage.state ≠ none) (storage : w'.storage.state = w.storage.state)
    (after : w'.storage.providers =
      some ((w.storage.providers.getD []).set provider metrics))
    (hshares : w'.storage.totalShares = some total)
    (htotal : total + ((w.storage.providers.getD []).get provider).elim 0
        ProviderMetrics.liquidity =
      w.storage.totalShares.getD 0 + metrics.liquidity) : Totalled w' := by
  refine ⟨?_, ?_, ?_, ?_, ?_⟩
  · rw [after]
    exact hw.sorted.set provider metrics
  · rw [after]
    intro e he
    rcases HostMap.mem_set he with rfl | he
    · exact hliquid
    · exact hw.liquid e he
  · intro hnone
    exact absurd (storage ▸ hnone) initialised
  · have hsum := hw.sorted.sum_set provider metrics ProviderMetrics.liquidity
    have := hw.total
    rw [after, hshares, Option.getD_some, Option.getD_some]
    unfold totalLiquidity at this ⊢
    omega
  · intro _
    rw [hshares]
    rfl

/-- Providers and total are all that counts. -/
theorem Totalled.congr {w w' : FeePoolWorld A} (hw : Totalled w)
    (initialised : w'.storage.state = none ↔ w.storage.state = none)
    (providers : w'.storage.providers = w.storage.providers)
    (shares : w'.storage.totalShares = w.storage.totalShares) : Totalled w' := by
  refine ⟨providers ▸ hw.sorted, providers ▸ hw.liquid, ?_, ?_, ?_⟩
  · rw [initialised, providers, shares]
    exact hw.vacant
  · rw [providers, shares]
    exact hw.total
  · rw [shares]
    intro hsome
    apply hw.recorded
    rw [Option.isSome_iff_ne_none] at hsome ⊢
    exact fun hnone => hsome (initialised.2 hnone)

theorem initializeFeePool_totalled {env : Invocation A contract}
    {admin token platformTreasury : A} {feeBps distributionInterval : ℕ}
    {w w' : FeePoolWorld A} (hw : Totalled w)
    (h : initializeFeePool env admin token platformTreasury feeBps distributionInterval w =
      .ok w') : Totalled w' := by
  simp only [initializeFeePool, bind_eq_ok, require_eq_ok, pure_eq_ok, exists_const] at h
  obtain ⟨_, -, hvacant, -, -, rfl⟩ := h
  have hnone : w.storage.state = none := by simpa using hvacant
  obtain ⟨hproviders, -⟩ := hw.vacant hnone
  refine ⟨hw.sorted, hw.liquid, ?_, ?_, fun _ => rfl⟩
  · intro hsome
    cases hsome
  · simp [totalLiquidity, hproviders]

theorem registerProvider_totalled {env : Invocation A contract} {provider : A}
    {liquidity : ℤ} {uptime : ℕ} {w w' : FeePoolWorld A} (hw : Totalled w)
    (h : registerProvider env provider liquidity uptime w = .ok w') : Totalled w' := by
  simp only [registerProvider, loadState, bind_eq_ok, require_eq_ok, orFail_eq_ok, pure_eq_ok,
    exists_const] at h
  obtain ⟨_, -, state, hstate, hliquid, -, hfresh, total, hadd, rfl⟩ := h
  obtain rfl := (IntType.checked_eq_some.1 hadd).1
  have absent : (w.storage.providers.getD []).get provider = none := by simpa using hfresh
  refine hw.set_provider hliquid (by simp [hstate]) rfl rfl rfl ?_
  rw [absent]
  simp

theorem updateMetrics_totalled {env : Invocation A contract} {provider : A}
    {liquidity : ℤ} {uptime transactionCount : ℕ} {w w' : FeePoolWorld A} (hw : Totalled w)
    (h : updateMetrics env provider liquidity uptime transactionCount w = .ok w') :
    Totalled w' := by
  simp only [updateMetrics, bind_eq_ok, require_eq_ok, orFail_eq_ok, pure_eq_ok,
    exists_const] at h
  obtain ⟨_, -, hliquid, -, providers, hproviders, metrics, hmetrics, delta, hsub, -, total,
    hadd, rfl⟩ := h
  obtain rfl := (IntType.checked_eq_some.1 hsub).1
  obtain rfl := (IntType.checked_eq_some.1 hadd).1
  have initialised : w.storage.state ≠ none := by
    intro hnone
    simp [(hw.vacant hnone).1] at hproviders
  refine hw.set_provider hliquid initialised rfl (by rw [hproviders]; rfl) rfl ?_
  rw [hproviders, Option.getD_some, hmetrics, Option.elim_some]
  ring

theorem totalled_invariant (s : ℕ → ℕ) : Invariant (@invoke A _ contract s) Totalled where
  outside _ hw _ := hw.congr Iff.rfl rfl rfl
  call env op w w' hw h := by
    cases op with
    | initializeFeePool admin token platformTreasury feeBps distributionInterval =>
      exact initializeFeePool_totalled hw h
    | registerProvider provider liquidity uptime => exact registerProvider_totalled hw h
    | updateMetrics provider liquidity uptime transactionCount =>
      exact updateMetrics_totalled hw h
    | accumulateFees payer amount =>
      obtain ⟨state, cut, found, -, -, -, storage, -⟩ := accumulateFees_eq_ok h
      exact hw.congr (by simp [storage, found]) (by rw [storage]) (by rw [storage])
    | distribute =>
      obtain ⟨state, providers, found, -, -, -, storage, -⟩ := distribute_eq_ok h
      exact hw.congr (by simp [storage, found]) (by rw [storage]) (by rw [storage])

/-- Over every run the recorded total is the sum of the registered liquidities, all of them
positive, and a call that fails or traps changes nothing. -/
theorem total_shares_eq_liquidity (s : ℕ → ℕ) (balances : A → A → ℤ)
    (es : List (Event A contract (Operation A))) :
    let w := run (invoke s) (deployed balances) es
    (w.storage.state.isSome → w.storage.totalShares.isSome) ∧
    w.storage.totalShares.getD 0 = totalLiquidity (w.storage.providers.getD []) ∧
    (∀ e ∈ w.storage.providers.getD [], 0 < e.2.liquidity) ∧
    ∀ (env : Invocation A contract) op failure, invoke s env op w = .error failure →
      step (invoke s) w (.call env op) = w := by
  intro w
  have kept : Totalled w := (totalled_invariant s).run (deployed_totalled balances) es
  refine ⟨kept.recorded, kept.total, kept.liquid, ?_⟩
  intro env op failure h
  exact step_of_error h

end Runs

end MobileMoney.FeePool
