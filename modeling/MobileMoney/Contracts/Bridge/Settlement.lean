import MobileMoney.Contracts.Bridge.Governance
import MobileMoney.Contracts.FeeTier

/-!
# Settlement fees

The bridge computes its standard fee and lets an external contract discount it. The clamp
makes every answer harmless, and the fee-tier contract of this repository answers at least
half of the standard fee, without overflow, whenever the standard fee itself did not
overflow.
-/

namespace MobileMoney.Bridge

open Soroban MachineInt

variable {A : Type} {contract : A}

/-! ## The fee -/

theorem clamp_bounds {x low high : ℤ} (h : low ≤ high) :
    low ≤ clamp x low high ∧ clamp x low high ≤ high := by
  unfold clamp
  split_ifs <;> omega

theorem standardFee_eq_some {amount standard : ℤ} {feeBps : ℕ}
    (h : standardFee amount feeBps = some standard) :
    amount * feeBps ≤ i128.max ∧ standard = (amount * feeBps).tdiv 10000 := by
  simp only [standardFee, Option.bind_eq_bind, Option.bind_eq_some_iff] at h
  obtain ⟨product, hmul, hdiv⟩ := h
  obtain ⟨rfl, -, hmax⟩ := IntType.checked_eq_some.1 hmul
  rw [IntType.checkedDiv, if_neg (by norm_num [bpsDenominator])] at hdiv
  exact ⟨hmax, (IntType.checked_eq_some.1 hdiv).1.symm⟩

/-- A standard fee that did not overflow is a small part of the amount, and leaves room for
the product that the fee-tier contract computes from it. -/
theorem standardFee_bounds {amount standard : ℤ} {feeBps : ℕ} (pos : 0 < amount)
    (bounded : feeBps ≤ maxFeeBps) (h : standardFee amount feeBps = some standard) :
    0 ≤ standard ∧ standard ≤ amount ∧
      standard * FeeTier.maxDiscountBps ≤ i128.max := by
  obtain ⟨hmax, rfl⟩ := standardFee_eq_some h
  have hbps : (0 : ℤ) ≤ feeBps := Int.natCast_nonneg _
  have hle : (feeBps : ℤ) ≤ 10000 := by
    have : feeBps ≤ 10000 := bounded.trans (by decide)
    exact_mod_cast this
  obtain ⟨hlow, hhigh⟩ := tdiv_share_bounds pos.le hbps (by norm_num : (0 : ℤ) < 10000) hle
  refine ⟨hlow, hhigh, ?_⟩
  have hprod : 0 ≤ amount * feeBps := mul_nonneg pos.le hbps
  have hdiv : (amount * (feeBps : ℤ)).tdiv 10000 * 10000 ≤ amount * feeBps := by
    rw [Int.tdiv_eq_ediv_of_nonneg hprod]
    exact Int.ediv_mul_le _ (by norm_num)
  have hcap : ((FeeTier.maxDiscountBps : ℕ) : ℤ) = 5000 := rfl
  rw [hcap]
  omega

/-! ## The quote -/

/-- What every quote satisfies, whatever the external contract answered. -/
structure Quoted (amount standard : ℤ) (s : Settlement) : Prop where
  amount_eq : s.amount = amount
  standard_eq : s.standardFee = standard
  fee_nonneg : 0 ≤ s.fee
  fee_le : s.fee ≤ standard
  standard_le : standard ≤ amount
  total : s.payout + s.fee = amount

theorem quoteSettlement_eq_ok {registries : Registries A} {target : A} {amount : ℤ}
    {w : BridgeWorld A} {s : Settlement} :
    quoteSettlement registries target amount w = .ok s ↔
      0 < amount ∧ ∃ feeBps, w.storage.feeBps = some feeBps ∧ ∃ standard,
        standardFee amount feeBps = some standard ∧ ∃ answer,
          feeAnswer registries target standard w = .ok answer ∧ ∃ payout,
            i128.checkedSub amount (clamp answer 0 standard) = some payout ∧
              s = ⟨amount, standard, clamp answer 0 standard, payout⟩ := by
  simp only [quoteSettlement, getFeeBps, bind_eq_ok, require_eq_ok, orFail_eq_ok, pure_eq_ok,
    exists_const, not_le, eq_comm (a := s)]

/-- Whatever the answer, the quote succeeds with a fee between zero and the standard fee. -/
theorem quoteSettlement_of_answer {registries : Registries A} {target : A}
    {amount standard answer : ℤ} {feeBps : ℕ} {w : BridgeWorld A} (pos : 0 < amount)
    (range : amount ≤ i128.max) (stored : w.storage.feeBps = some feeBps)
    (bounded : feeBps ≤ maxFeeBps) (h : standardFee amount feeBps = some standard)
    (answered : feeAnswer registries target standard w = .ok answer) :
    ∃ s, quoteSettlement registries target amount w = .ok s ∧ Quoted amount standard s ∧
      s.fee = clamp answer 0 standard := by
  obtain ⟨hlow, hhigh, -⟩ := standardFee_bounds pos bounded h
  obtain ⟨hfee, hle⟩ := clamp_bounds (x := answer) hlow
  have hsub : i128.checkedSub amount (clamp answer 0 standard) =
      some (amount - clamp answer 0 standard) := by
    simp only [i128] at range
    apply IntType.checked_of_mem <;> simp only [i128] <;> omega
  refine ⟨⟨amount, standard, clamp answer 0 standard, amount - clamp answer 0 standard⟩,
    ?_, ⟨rfl, rfl, hfee, hle, hhigh, by dsimp only; omega⟩, rfl⟩
  exact quoteSettlement_eq_ok.2
    ⟨pos, feeBps, stored, standard, h, answer, answered, _, hsub, rfl⟩

theorem quoted_of_ok {registries : Registries A} {target : A} {amount : ℤ}
    {w : BridgeWorld A} (hw : Governed w) {s : Settlement}
    (h : quoteSettlement registries target amount w = .ok s) :
    Quoted amount s.standardFee s := by
  obtain ⟨pos, feeBps, stored, standard, hstandard, answer, -, payout, hsub, rfl⟩ :=
    quoteSettlement_eq_ok.1 h
  obtain ⟨hlow, hhigh, -⟩ := standardFee_bounds pos (hw.feeBps_le feeBps stored) hstandard
  obtain ⟨hfee, hle⟩ := clamp_bounds (x := answer) hlow
  obtain ⟨rfl, -, -⟩ := IntType.checked_eq_some.1 hsub
  exact ⟨rfl, rfl, hfee, hle, hhigh, by dsimp only; omega⟩

/-! ## The settlement -/

variable [DecidableEq A]

/-- The transfers of a settlement: the payout, and the fee when there is one. -/
def settlementTransfers (contract token target recipient : A) (s : Settlement) :
    List (Transfer A) :=
  ⟨token, contract, target, s.payout⟩ ::
    if 0 < s.fee then [⟨token, contract, recipient, s.fee⟩] else []

theorem payFee_eq_ok {env : Invocation A contract} {token : A} {fee : ℤ}
    {w w' : BridgeWorld A} (h : payFee env token fee w = .ok w') (fallback : A) :
    ∃ recipient, (0 < fee → w.storage.feeRecipient = some recipient) ∧ ∀ v ts, Paid v w ts →
        Paid v w' (ts ++ if 0 < fee then [⟨token, contract, recipient, fee⟩] else []) := by
  unfold payFee at h
  split_ifs at h with hfee
  · simp only [bind_eq_ok, orFail_eq_ok, Invocation.transfer_eq_ok] at h
    obtain ⟨recipient, found, -, rfl⟩ := h
    refine ⟨recipient, fun _ => found, ?_⟩
    intro v ts paid
    rw [if_pos hfee]
    exact paid.pay _
  · cases h
    refine ⟨fallback, fun hpos => absurd hpos hfee, ?_⟩
    intro v ts paid
    rw [if_neg hfee, List.append_nil]
    exact paid

theorem settle_eq_ok {env : Invocation A contract} {registries : Registries A} {target : A}
    {amount : ℤ} {w w' : BridgeWorld A} {s : Settlement}
    (h : settle env registries target amount w = .ok (s, w')) :
    quoteSettlement registries target amount w = .ok s ∧
      ∃ token recipient, w.storage.token = some token ∧
        (0 < s.fee → w.storage.feeRecipient = some recipient) ∧
        Paid w w' (settlementTransfers contract token target recipient s) := by
  simp only [settle, getToken, bind_eq_ok, orFail_eq_ok, Invocation.transfer_eq_ok, pure_eq_ok,
    Prod.mk.injEq] at h
  obtain ⟨_, -, _, -, _, -, quoted, hquote, token, htoken, _, -, w₁, ⟨-, rfl⟩, w₂, hfee, rfl,
    rfl⟩ := h
  obtain ⟨recipient, hrecipient, extend⟩ := payFee_eq_ok hfee target
  have paid := extend w _ ((Paid.of_same rfl rfl).pay ⟨token, contract, target, quoted.payout⟩)
  exact ⟨hquote, token, recipient, htoken, hrecipient, paid.congr rfl rfl rfl rfl⟩

omit [DecidableEq A] in
/-- A settlement transfers exactly its amount out of the bridge. -/
theorem settlementTransfers_total (contract token target recipient : A)
    {amount standard : ℤ} {s : Settlement} (quoted : Quoted amount standard s) :
    ((settlementTransfers contract token target recipient s).map (·.amount)).sum = amount ∧
      ∀ t ∈ settlementTransfers contract token target recipient s,
        t.source = contract ∧ t.token = token := by
  have htotal := quoted.total
  have hfee := quoted.fee_nonneg
  unfold settlementTransfers
  split_ifs with h
  · refine ⟨by simpa using htotal, by simp⟩
  · have hzero : s.fee = 0 := by omega
    refine ⟨by simpa [hzero] using htotal, by simp⟩

/-- Only a leg that the settlement pays to the bridge itself comes back. -/
theorem settlementTransfers_effect {token target recipient : A} {amount standard : ℤ}
    {s : Settlement} (quoted : Quoted amount standard s) :
    ((settlementTransfers contract token target recipient s).map
        (·.effect token contract)).sum =
      (if target = contract then s.payout else 0) +
        (if recipient = contract then s.fee else 0) - amount := by
  have htotal := quoted.total
  have hfee := quoted.fee_nonneg
  unfold settlementTransfers
  split_ifs with h h₁ h₂ h₁ h₂ <;> simp_all [Transfer.effect] <;> omega

/-- In every reachable state of the bridge and of the fee-tier contract: a fee-tier quote of
a standard fee that did not overflow does not overflow either and keeps at least half of
the fee; the bridge's own quote keeps its bounds for every answer of the external contract
and fails with a failing one; and a settlement transfers exactly the amount. -/
theorem bridge_fee_bounds (balances : A → A → ℤ) (es : List (Event A contract (Operation A))) :
    let w := run invoke (deployed balances) es
    (∀ feeBps amount standard, w.storage.feeBps = some feeBps → 0 < amount →
      standardFee amount feeBps = some standard →
      ∀ (tierContract : A) (tierBalances : A → A → ℤ)
        (fs : List (Event A tierContract (FeeTier.Operation A))) tiers staking user
        (stakedBalance : FeeTier.StakedBalance A) staked,
        let v := run FeeTier.invoke (FeeTier.deployed tierBalances) fs
        v.storage.tiers = some tiers → v.storage.staking = some staking →
        stakedBalance staking user = .ok staked →
        ∃ q, FeeTier.quote stakedBalance user standard v = .ok q ∧
          standard ≤ 2 * q.fee ∧ q.fee ≤ standard) ∧
    (∀ feeBps amount standard, w.storage.feeBps = some feeBps → 0 < amount →
      standardFee amount feeBps = some standard →
      ∀ tiers, FeeTier.validateTiers tiers = .ok () → ∀ staked,
        ∃ q, FeeTier.quoteAt (FeeTier.tierForStake tiers staked) standard = .ok q ∧
          standard ≤ 2 * q.fee ∧ q.fee ≤ standard) ∧
    (∀ feeBps amount standard, w.storage.feeBps = some feeBps → 0 < amount →
      amount ≤ i128.max → standardFee amount feeBps = some standard →
      ∀ registries target answer, feeAnswer registries target standard w = .ok answer →
        ∃ s, quoteSettlement registries target amount w = .ok s ∧ Quoted amount standard s) ∧
    (∀ (env : Invocation A contract) registries target amount s w',
      settle env registries target amount w = .ok (s, w') →
      Quoted amount s.standardFee s ∧
      (∃ answer, feeAnswer registries target s.standardFee w = .ok answer) ∧
      ∃ token recipient, w.storage.token = some token ∧
        Paid w w' (settlementTransfers contract token target recipient s) ∧
        ((settlementTransfers contract token target recipient s).map (·.amount)).sum =
          amount ∧
        (∀ t ∈ settlementTransfers contract token target recipient s,
          t.source = contract ∧ t.token = token) ∧
        w'.balances token contract = w.balances token contract - amount +
          (if target = contract then s.payout else 0) +
          (if recipient = contract then s.fee else 0)) := by
  intro w
  have governed : Governed w := governed_invariant.run (deployed_governed balances) es
  refine ⟨?_, ?_, ?_, ?_⟩
  · intro feeBps amount standard stored pos hstandard tierContract tierBalances fs tiers staking
      user stakedBalance staked v htiers hstaking answered
    obtain ⟨nonneg, -, room⟩ :=
      standardFee_bounds pos (governed.feeBps_le feeBps stored) hstandard
    have validated : FeeTier.Validated v :=
      FeeTier.validated_invariant.run (fun _ h => by cases h) fs
    exact FeeTier.quote_of_room htiers (validated tiers htiers) hstaking answered nonneg room
  · intro feeBps amount standard stored pos hstandard tiers valid staked
    obtain ⟨nonneg, -, room⟩ :=
      standardFee_bounds pos (governed.feeBps_le feeBps stored) hstandard
    exact FeeTier.quoteAt_of_room nonneg room
      (FeeTier.discount_le (FeeTier.valid_of_validateTiers valid) staked)
  · intro feeBps amount standard stored pos range hstandard registries target answer answered
    obtain ⟨s, hs, quoted, -⟩ := quoteSettlement_of_answer pos range stored
      (governed.feeBps_le feeBps stored) hstandard answered
    exact ⟨s, hs, quoted⟩
  · intro env registries target amount s w' h
    obtain ⟨hquote, token, recipient, htoken, -, paid⟩ := settle_eq_ok h
    have quoted := quoted_of_ok governed hquote
    obtain ⟨total, sources⟩ := settlementTransfers_total contract token target recipient quoted
    refine ⟨quoted, ?_, token, recipient, htoken, paid, total, sources, ?_⟩
    · obtain ⟨-, _, -, standard, -, answer, answered, _, -, rfl⟩ := quoteSettlement_eq_ok.1 hquote
      exact ⟨answer, answered⟩
    · rw [paid.balances, settlementTransfers_effect quoted]
      ring

end MobileMoney.Bridge
