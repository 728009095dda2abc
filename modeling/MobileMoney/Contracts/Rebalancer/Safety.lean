import MobileMoney.Contracts.Rebalancer.Overshoot

/-!
# Where a rebalancing traps

Every product, sum and quotient of `check_and_rebalance` is checked and answers with a
declared error, except for the subtraction of the configured slippage. Nothing keeps the
slippage below the whole, so the call traps whenever it gets that far.

`mul_div` is to give the quotient of a product rounded down whenever the quotient fits. It still
needs the product of the remainder to fit, which for a large divisor need not be so.

`preview` decides by the drift alone. The rebalancing also computes what it would sell, and
skips when that is nothing: the balance can be at its rounded target while the ratio, which
is rounded as well, has drifted.
-/

namespace MobileMoney.Rebalancer

open Soroban MachineInt

section Traps

variable {A : Type} {contract : A}

/-! ## The products -/

theorem mulDiv_eq_error {a b divisor : ℤ} {failure : Failure RebalancerError}
    (h : mulDiv a b divisor = .error failure) : failure = .error .overflow := by
  unfold mulDiv at h
  split_ifs at h
  · exact (Except.error.inj h).symm
  · split at h
    · exact (orFail_eq_error.1 h).2.symm
    · simp only [bind_eq_error, orFail_eq_error] at h
      obtain ⟨-, rfl⟩ | ⟨_, -, ⟨-, rfl⟩ | ⟨_, -, -, rfl⟩⟩ := h <;> rfl

/-- On non-negative numbers only the product of the remainder and the result itself have
to fit. -/
theorem mulDiv_ok_iff {a b divisor : ℤ} (ha : 0 ≤ a) (hb : 0 ≤ b) (hd : 0 < divisor) :
    (∃ r, mulDiv a b divisor = .ok r) ↔
      a % divisor * b ≤ i128.max ∧ a * b / divisor ≤ i128.max := by
  have hproduct := mul_nonneg ha hb
  have hquotient := Int.ediv_nonneg hproduct hd.le
  have hrest := mul_nonneg (Int.emod_nonneg a hd.ne') hb
  have hsplit := tdiv_mul_add_tmod_mul_tdiv a hb hd
  rw [Int.tmod_eq_emod_of_nonneg ha, Int.tdiv_eq_ediv_of_nonneg ha,
    Int.tdiv_eq_ediv_of_nonneg hrest, Int.tdiv_eq_ediv_of_nonneg hproduct] at hsplit
  have hfirst := mul_nonneg (Int.ediv_nonneg ha hd.le) hb
  have hsecond := Int.ediv_nonneg hrest hd.le
  unfold mulDiv
  rw [if_neg (not_le.2 hd)]
  split
  · next product hmul =>
    obtain ⟨rfl, -, hmax⟩ := IntType.checked_eq_some.1 hmul
    have hle := tdiv_le_self divisor hproduct
    rw [Int.tdiv_eq_ediv_of_nonneg hproduct] at hle
    have hrest_le : a % divisor * b ≤ a * b := by
      refine mul_le_mul_of_nonneg_right ?_ hb
      have := Int.mul_ediv_add_emod a divisor
      have := mul_nonneg hd.le (Int.ediv_nonneg ha hd.le)
      omega
    refine iff_of_true ⟨a * b / divisor, ?_⟩ ⟨hrest_le.trans hmax, hle.trans hmax⟩
    rw [orFail_eq_ok, IntType.checkedDiv, if_neg hd.ne', Int.tdiv_eq_ediv_of_nonneg hproduct]
    exact (checked_i128_of_nonneg hquotient).2 (hle.trans hmax)
  · simp only [bind_eq_ok, orFail_eq_ok, Option.bind_eq_some_iff, IntType.checkedMul,
      IntType.checkedAdd, IntType.checkedDiv, if_neg hd.ne', Int.tmod_eq_emod_of_nonneg ha,
      Int.tdiv_eq_ediv_of_nonneg ha, IntType.checked_eq_some]
    constructor
    · rintro ⟨_, _, ⟨rfl, -⟩, _, ⟨_, ⟨rfl, -, hrest_fits⟩, rfl, -⟩, rfl, -, hsum⟩
      rw [Int.tdiv_eq_ediv_of_nonneg hrest, hsplit] at hsum
      exact ⟨hrest_fits, hsum⟩
    · rintro ⟨hrest_fits, hquotient_fits⟩
      have hmin : i128.min ≤ 0 := by decide
      refine ⟨a * b / divisor, _, ⟨rfl, by omega, by omega⟩, _, ⟨_, ⟨rfl, by omega, hrest_fits⟩,
        rfl, ?_⟩, ?_⟩
      · rw [Int.tdiv_eq_ediv_of_nonneg hrest]
        omega
      · rw [Int.tdiv_eq_ediv_of_nonneg hrest]
        omega

/-! ## Exact quotients -/

/-- The quotient where it fits, and a declared error otherwise. -/
def ExactQuotient (a b divisor : ℤ) : Prop :=
  (a * b / divisor ≤ i128.max → mulDiv a b divisor = .ok (a * b / divisor)) ∧
    (i128.max < a * b / divisor → mulDiv a b divisor = .error (.error .overflow))

theorem mulDiv_eq_quotient {a b divisor r : ℤ} (ha : 0 ≤ a) (hb : 0 ≤ b)
    (h : mulDiv a b divisor = .ok r) : r = a * b / divisor := by
  obtain ⟨-, rfl⟩ := mulDiv_eq_ok hb h
  exact Int.tdiv_eq_ediv_of_nonneg (mul_nonneg ha hb)

theorem mulDiv_eq_overflow {a b divisor : ℤ} (h : ¬ ∃ r, mulDiv a b divisor = .ok r) :
    mulDiv a b divisor = .error (.error .overflow) := by
  cases result : mulDiv a b divisor with
  | error failure => rw [mulDiv_eq_error result]
  | ok r => exact absurd ⟨r, result⟩ h

theorem exactQuotient_of_rest {a b divisor : ℤ} (ha : 0 ≤ a) (hb : 0 ≤ b) (hd : 0 < divisor)
    (hrest : a % divisor * b ≤ i128.max ∨ i128.max < a * b / divisor) :
    ExactQuotient a b divisor := by
  refine ⟨fun hquotient => ?_, fun hquotient => mulDiv_eq_overflow fun hok => ?_⟩
  · have hsmall := hrest.resolve_right (not_lt.2 hquotient)
    obtain ⟨r, hr⟩ := (mulDiv_ok_iff ha hb hd).2 ⟨hsmall, hquotient⟩
    rw [hr, mulDiv_eq_quotient ha hb hr]
  · exact absurd ((mulDiv_ok_iff ha hb hd).1 hok).2 (not_le.2 hquotient)

/-- Where the product of divisor and factor fits, as in the calls that divide by
`BPS_DENOMINATOR`, every quotient is exact. -/
theorem exactQuotient_of_small {a b divisor : ℤ} (ha : 0 ≤ a) (hb : 0 ≤ b) (hd : 0 < divisor)
    (hsmall : divisor * b ≤ i128.max) : ExactQuotient a b divisor := by
  have hrest := mul_le_mul_of_nonneg_right (Int.emod_lt_of_pos a hd).le hb
  exact exactQuotient_of_rest ha hb hd (.inl (hrest.trans hsmall))

/-- The product itself need not fit, but that of the remainder has to. -/
theorem mulDiv_exact_iff {a b divisor : ℤ} (ha : 0 ≤ a) (hb : 0 ≤ b) (hd : 0 < divisor) :
    ExactQuotient a b divisor ↔
      a % divisor * b ≤ i128.max ∨ i128.max < a * b / divisor := by
  refine ⟨fun law => ?_, exactQuotient_of_rest ha hb hd⟩
  by_cases hquotient : a * b / divisor ≤ i128.max
  · exact .inl ((mulDiv_ok_iff ha hb hd).1 ⟨_, law.1 hquotient⟩).1
  · exact .inr (not_le.1 hquotient)

theorem whole_balance_exact : ExactQuotient (2 ^ 126) bpsDenominator bpsDenominator :=
  (mulDiv_exact_iff (by decide) (by decide) (by decide)).2 (.inl (by decide))

/-- A balance that is half of the total, in basis points. -/
theorem half_share_overflows : ¬ ExactQuotient (2 ^ 120) bpsDenominator (2 ^ 121) :=
  fun law => absurd (law.1 (by decide)) (by decide)

/-! ## The ratio and the size of the trade -/

/-- The share of the first asset in basis points, rounded down. -/
def ratioBps (balanceA balanceB : ℤ) : ℕ :=
  (balanceA * bpsDenominator / (balanceA + balanceB)).toNat

theorem ratio_le {balanceA balanceB : ℤ} (hB : 0 ≤ balanceB) (hpos : 0 < balanceA + balanceB) :
    balanceA * bpsDenominator / (balanceA + balanceB) ≤ bpsDenominator := by
  apply Int.ediv_le_of_le_mul hpos
  rw [mul_comm]
  exact mul_le_mul_of_nonneg_left (by omega) (Int.natCast_nonneg _)

theorem currentRatio_eq_ok {balanceA balanceB : ℤ} {ratio : ℕ} (hA : 0 ≤ balanceA)
    (hB : 0 ≤ balanceB) (hpos : 0 < balanceA + balanceB)
    (h : currentRatio balanceA (balanceA + balanceB) = .ok ratio) :
    ratio = ratioBps balanceA balanceB := by
  simp only [currentRatio, bind_eq_ok, pure_eq_ok] at h
  obtain ⟨value, hvalue, rfl⟩ := h
  obtain ⟨-, rfl⟩ := mulDiv_eq_ok (Int.natCast_nonneg _) hvalue
  have hproduct : 0 ≤ balanceA * bpsDenominator := mul_nonneg hA (Int.natCast_nonneg _)
  rw [Int.tdiv_eq_ediv_of_nonneg hproduct, min_eq_left (ratio_le hB hpos),
    max_eq_right (Int.ediv_nonneg hproduct hpos.le), ratioBps]

theorem currentRatio_ok_iff {balanceA balanceB : ℤ} (hA : 0 ≤ balanceA) (hB : 0 ≤ balanceB)
    (hpos : 0 < balanceA + balanceB) :
    (∃ ratio, currentRatio balanceA (balanceA + balanceB) = .ok ratio) ↔
      balanceB = 0 ∨ balanceA * bpsDenominator ≤ i128.max := by
  have hratio : (∃ ratio, currentRatio balanceA (balanceA + balanceB) = .ok ratio) ↔
      ∃ value, mulDiv balanceA bpsDenominator (balanceA + balanceB) = .ok value := by
    simp only [currentRatio, bind_eq_ok, pure_eq_ok]
    constructor
    · rintro ⟨_, value, hvalue, -⟩
      exact ⟨value, hvalue⟩
    · rintro ⟨value, hvalue⟩
      exact ⟨_, value, hvalue, rfl⟩
  have hsmall : (bpsDenominator : ℤ) ≤ i128.max := by decide
  rw [hratio, mulDiv_ok_iff hA (Int.natCast_nonneg _) hpos,
    and_iff_left ((ratio_le hB hpos).trans hsmall)]
  rcases hB.eq_or_lt with rfl | hB
  · simp only [add_zero, Int.emod_self, zero_mul, true_or, iff_true]
    decide
  · rw [Int.emod_eq_of_lt hA (by omega), or_iff_right hB.ne']

/-- Sizing a trade never fails. -/
theorem exists_sizeTrade {config : RebalancerConfig A} {balanceA balanceB : ℤ}
    (hA : 0 ≤ balanceA) (hB : 0 ≤ balanceB) (hmax : balanceA + balanceB ≤ i128.max)
    (htarget : config.targetRatioBps < bpsDenominator) :
    ∃ trade, sizeTrade config balanceA balanceB (balanceA + balanceB) = .ok trade := by
  have htotal := add_nonneg hA hB
  have hlow := targetBalance_nonneg config htotal
  have hhigh := targetBalance_le htotal htarget
  have hmin : i128.min ≤ -i128.max := by decide
  have hsmall : (bpsDenominator * bpsDenominator : ℤ) ≤ i128.max := by decide
  have hrest : (balanceA + balanceB) % bpsDenominator * config.targetRatioBps ≤ i128.max := by
    refine le_trans (mul_le_mul ?_ ?_ (Int.natCast_nonneg _) (Int.natCast_nonneg _)) hsmall
    · exact (Int.emod_lt_of_pos _ (by decide)).le
    · exact_mod_cast htarget.le
  obtain ⟨target, hmul⟩ := (mulDiv_ok_iff htotal (Int.natCast_nonneg _) (by decide)).2
    ⟨hrest, hhigh.trans hmax⟩
  have htarget_eq : target = targetBalance config (balanceA + balanceB) := by
    obtain ⟨-, rfl⟩ := mulDiv_eq_ok (Int.natCast_nonneg _) hmul
    rw [Int.tdiv_eq_ediv_of_nonneg (mul_nonneg htotal (Int.natCast_nonneg _)), targetBalance]
  subst htarget_eq
  by_cases hsold : targetBalance config (balanceA + balanceB) < balanceA
  · refine ⟨⟨true, balanceA - targetBalance config (balanceA + balanceB), config.assetA,
      config.assetB, config.pathAToB⟩, ?_⟩
    rw [sizeTrade, bind_eq_ok]
    refine ⟨_, hmul, ?_⟩
    rw [if_pos hsold]
    simp only [bind_eq_ok, orFail_eq_ok, pure_eq_ok, IntType.checkedSub]
    exact ⟨_, IntType.checked_of_mem (by omega) (by omega), rfl⟩
  · refine ⟨⟨false, balanceB - (balanceA + balanceB - targetBalance config (balanceA + balanceB)),
      config.assetB, config.assetA, config.pathBToA⟩, ?_⟩
    rw [sizeTrade, bind_eq_ok]
    refine ⟨_, hmul, ?_⟩
    rw [if_neg hsold]
    simp only [bind_eq_ok, orFail_eq_ok, pure_eq_ok, IntType.checkedSub]
    exact ⟨_, IntType.checked_of_mem (by omega) (by omega), _,
      IntType.checked_of_mem (by omega) (by omega), rfl⟩

theorem amountToSwap_pos_iff {config : RebalancerConfig A} {balanceA balanceB : ℤ}
    {trade : Trade A} (htotal : 0 ≤ balanceA + balanceB)
    (h : sizeTrade config balanceA balanceB (balanceA + balanceB) = .ok trade) :
    0 < trade.amountToSwap ↔ balanceA ≠ targetBalance config (balanceA + balanceB) := by
  rw [sizeTrade_eq_ok htotal h]
  split_ifs <;> dsimp only <;> omega

/-- The balances have drifted beyond the threshold, and there is something to sell. -/
structure SwapDue (config : RebalancerConfig A) (balanceA balanceB : ℤ) : Prop where
  total_pos : 0 < balanceA + balanceB
  total_fits : balanceA + balanceB ≤ i128.max
  ratio_fits : balanceB = 0 ∨ balanceA * bpsDenominator ≤ i128.max
  drifted : config.imbalanceThresholdBps <
    absDiff (ratioBps balanceA balanceB) config.targetRatioBps
  sells : balanceA ≠ targetBalance config (balanceA + balanceB)

/-! ## The failures of a call -/

variable [DecidableEq A] {env : Invocation A contract}

/-- The oracle, the router or a token contract has trapped. -/
def TrapsOutside (quote : Option (Answer A contract)) (answer : Option (RouterAnswer A contract))
    (failure : Failure RebalancerError) : Prop :=
  (quote = none ∧ failure = .panic "get_rate") ∨
    (answer = none ∧ failure = .panic "execute_swap") ∨ failure = .token

theorem executeTrade_eq_error {config : RebalancerConfig A} {trade : Trade A}
    {quote : Option (Answer A contract)} {answer : Option (RouterAnswer A contract)}
    {w : RebalancerWorld A} {failure : Failure RebalancerError}
    (h : executeTrade env config trade quote answer w = .error failure) :
    (∃ e, failure = .error e) ∨ TrapsOutside quote answer failure ∨
      (failure = .arithmetic ∧ quote.isSome = true ∧ bpsDenominator < config.maxSlippageBps) := by
  simp only [executeTrade, bind_eq_error, orFail_eq_error, orFail_eq_ok, require_eq_error,
    require_eq_ok, exists_const] at h
  obtain ⟨hquote, rfl⟩ | ⟨quoted, rfl, ⟨hslippage, rfl⟩ | ⟨-, hmul | ⟨minAmountOut, -,
    ⟨-, rfl⟩ | ⟨-, ⟨hanswer, rfl⟩ | ⟨routed, rfl, hpaid⟩⟩⟩⟩⟩ := h
  · exact .inr (.inl (.inl ⟨hquote, rfl⟩))
  · exact .inr (.inr ⟨rfl, rfl, not_le.1 hslippage⟩)
  · exact .inl ⟨_, mulDiv_eq_error hmul⟩
  · exact .inl ⟨_, rfl⟩
  · exact .inr (.inl (.inr (.inl ⟨hanswer, rfl⟩)))
  · refine .inr (.inl (.inr (.inr ?_)))
    obtain hpaid | ⟨_, -, ⟨⟩⟩ := hpaid
    split_ifs at hpaid
    simp only [Invocation.transfer, bind_eq_error, require_eq_error] at hpaid
    obtain ⟨-, rfl⟩ | ⟨_, -, ⟨⟩⟩ := hpaid
    rfl

/-- A call fails with a declared error, or in the swap that is due. -/
theorem checkAndRebalance_error_cases {quote : Option (Answer A contract)}
    {answer : Option (RouterAnswer A contract)} {w : RebalancerWorld A}
    {failure : Failure RebalancerError} (sound : Sound contract w)
    (h : checkAndRebalance env quote answer w = .error failure) :
    (∃ e, failure = .error e) ∨ ∃ config trade, w.storage = some config ∧
      SwapDue config (w.balances config.assetA contract) (w.balances config.assetB contract) ∧
      executeTrade env config trade quote answer w = .error failure := by
  simp only [checkAndRebalance, getConfig, bind_eq_error, orFail_eq_error, orFail_eq_ok,
    require_eq_error, require_eq_ok, exists_const, IntType.checkedAdd,
    IntType.checked_eq_some] at h
  obtain ⟨-, rfl⟩ | ⟨config, hconfig, ⟨-, rfl⟩ | ⟨hnonzero, ⟨-, rfl⟩ | ⟨total, ⟨rfl, -, hmax⟩,
    hratio | ⟨ratio, hratio, h⟩⟩⟩⟩ := h
  · exact .inl ⟨_, rfl⟩
  · exact .inl ⟨_, rfl⟩
  · exact .inl ⟨_, rfl⟩
  · simp only [currentRatio, bind_eq_error] at hratio
    obtain hmul | ⟨_, -, ⟨⟩⟩ := hratio
    exact .inl ⟨_, mulDiv_eq_error hmul⟩
  have hA := sound.balances config.assetA
  have hB := sound.balances config.assetB
  have hpos : 0 < w.balances config.assetA contract + w.balances config.assetB contract := by
    omega
  split_ifs at h with hdrift
  · cases h
  simp only [bind_eq_error] at h
  obtain hsize | ⟨trade, hsize, h⟩ := h
  · obtain ⟨trade, htrade⟩ := exists_sizeTrade hA hB hmax (sound.target config hconfig)
    rw [htrade] at hsize
    cases hsize
  split_ifs at h with hamount
  · cases h
  simp only [bind_eq_error] at h
  obtain htrade | ⟨_, -, ⟨⟩⟩ := h
  refine .inr ⟨config, trade, hconfig, ⟨hpos, hmax, ?_, ?_, ?_⟩, htrade⟩
  · exact (currentRatio_ok_iff hA hB hpos).1 ⟨ratio, hratio⟩
  · rw [← currentRatio_eq_ok hA hB hpos hratio]
    exact not_le.1 hdrift
  · exact (amountToSwap_pos_iff (add_nonneg hA hB) hsize).1 (not_le.1 hamount)

theorem checkAndRebalance_eq_error {quote : Option (Answer A contract)}
    {answer : Option (RouterAnswer A contract)} {w : RebalancerWorld A}
    {failure : Failure RebalancerError} (sound : Sound contract w)
    (h : checkAndRebalance env quote answer w = .error failure) :
    (∃ e, failure = .error e) ∨ TrapsOutside quote answer failure ∨
      ∃ config, w.storage = some config ∧ failure = .arithmetic ∧ quote.isSome = true ∧
        bpsDenominator < config.maxSlippageBps ∧ SwapDue config
          (w.balances config.assetA contract) (w.balances config.assetB contract) := by
  obtain declared | ⟨config, trade, hconfig, due, htrade⟩ := checkAndRebalance_error_cases sound h
  · exact .inl declared
  refine (executeTrade_eq_error htrade).imp_right (Or.imp_right ?_)
  rintro ⟨harithmetic, hquote, hslippage⟩
  exact ⟨config, hconfig, harithmetic, hquote, hslippage, due⟩

/-- Where a swap is due, a failure of the swap is one of the call. -/
theorem checkAndRebalance_of_due {quote : Option (Answer A contract)}
    {answer : Option (RouterAnswer A contract)} {w : RebalancerWorld A}
    {config : RebalancerConfig A} {failure : Failure RebalancerError} (sound : Sound contract w)
    (hconfig : w.storage = some config)
    (due : SwapDue config (w.balances config.assetA contract)
      (w.balances config.assetB contract))
    (fails : ∀ trade, executeTrade env config trade quote answer w = .error failure) :
    checkAndRebalance env quote answer w = .error failure := by
  have hA := sound.balances config.assetA
  have hB := sound.balances config.assetB
  obtain ⟨ratio, hratio⟩ := (currentRatio_ok_iff hA hB due.total_pos).2 due.ratio_fits
  obtain ⟨trade, hsize⟩ := exists_sizeTrade hA hB due.total_fits (sound.target config hconfig)
  have hmin : i128.min ≤ 0 := by decide
  have hpos := due.total_pos
  have hnonzero : ¬ (w.balances config.assetA contract ≤ 0 ∧
      w.balances config.assetB contract ≤ 0) := by
    omega
  have htotal : i128.checkedAdd (w.balances config.assetA contract)
      (w.balances config.assetB contract) = some _ :=
    IntType.checked_of_mem (by omega) due.total_fits
  have hdrift := due.drifted
  rw [← currentRatio_eq_ok hA hB hpos hratio] at hdrift
  have hamount := (amountToSwap_pos_iff (add_nonneg hA hB) hsize).2 due.sells
  refine bind_eq_error.2 (.inr ⟨config, orFail_eq_ok.2 hconfig, ?_⟩)
  refine bind_eq_error.2 (.inr ⟨(), require_eq_ok.2 hnonzero, ?_⟩)
  refine bind_eq_error.2 (.inr ⟨_, orFail_eq_ok.2 htotal, ?_⟩)
  refine bind_eq_error.2 (.inr ⟨ratio, hratio, ?_⟩)
  dsimp only
  rw [if_neg (not_le.2 hdrift)]
  refine bind_eq_error.2 (.inr ⟨trade, hsize, ?_⟩)
  rw [if_neg (not_le.2 hamount)]
  exact bind_eq_error.2 (.inl (fails trade))

/-- Once a swap is due and quoted, a slippage of more than the whole traps. -/
theorem checkAndRebalance_traps {quote : Option (Answer A contract)}
    {answer : Option (RouterAnswer A contract)} {w : RebalancerWorld A}
    {config : RebalancerConfig A} (sound : Sound contract w) (hconfig : w.storage = some config)
    (due : SwapDue config (w.balances config.assetA contract)
      (w.balances config.assetB contract))
    (hquote : quote.isSome = true) (hslippage : bpsDenominator < config.maxSlippageBps) :
    checkAndRebalance env quote answer w = .error .arithmetic := by
  obtain ⟨quoted, rfl⟩ := Option.isSome_iff_exists.1 hquote
  refine checkAndRebalance_of_due sound hconfig due fun trade => ?_
  refine bind_eq_error.2 (.inr ⟨quoted, rfl, ?_⟩)
  exact bind_eq_error.2 (.inl (require_eq_error.2 ⟨not_le.2 hslippage, rfl⟩))

/-- In every reachable state a call succeeds, fails with a declared error or because the
oracle, the router or a token has trapped, unless the configured slippage is more than the
whole and a swap is due and quoted; then it traps. -/
theorem rebalance_safe_iff (funds : A → A → ℕ)
    (es : List (Event A contract (Operation A contract))) (env : Invocation A contract)
    (quote : Option (Answer A contract)) (answer : Option (RouterAnswer A contract)) :
    let w := run invoke (deployed fun token holder => (funds token holder : ℤ)) es
    (∀ failure, checkAndRebalance env quote answer w = .error failure →
      (∃ e, failure = .error e) ∨ TrapsOutside quote answer failure) ↔
    ∀ config, w.storage = some config → config.maxSlippageBps ≤ bpsDenominator ∨
      ¬ SwapDue config (w.balances config.assetA contract)
        (w.balances config.assetB contract) ∨ quote = none := by
  intro w
  have sound : Sound contract w := sound_invariant.run (sound_deployed funds) es
  constructor
  · intro safe config hconfig
    by_contra hall
    simp only [not_or, not_le, not_not] at hall
    obtain ⟨hslippage, due, hquote⟩ := hall
    have trap : checkAndRebalance env quote answer w = .error .arithmetic :=
      checkAndRebalance_traps sound hconfig due (Option.ne_none_iff_isSome.1 hquote) hslippage
    obtain ⟨_, ⟨⟩⟩ | ⟨-, ⟨⟩⟩ | ⟨-, ⟨⟩⟩ | ⟨⟨⟩⟩ := safe _ trap
  · intro holds failure h
    obtain declared | outside | ⟨config, hconfig, -, hquote, hslippage, due⟩ :=
      checkAndRebalance_eq_error sound h
    · exact .inl declared
    · exact .inr outside
    · rcases holds config hconfig with hle | hnot | hnone
      · omega
      · exact absurd due hnot
      · simp [hnone] at hquote

/-! ## A slippage of more than the whole -/

/-- The slippage of a configured rebalancer is set to 10001 basis points. -/
def wideSlippage : List (Event ℕ 0 (Operation ℕ 0)) :=
  rebalancing ++ [.call (openInvocation 1) (.configureThresholds 500 10001)]

theorem wide_slippage_traps : ¬ ∀ (funds : ℕ → ℕ → ℕ) (es : List (Event ℕ 0 (Operation ℕ 0)))
    (env : Invocation ℕ 0) (quote : Option (Answer ℕ 0)) (answer : Option (RouterAnswer ℕ 0)),
    checkAndRebalance env quote answer
      (run invoke (deployed fun token holder => (funds token holder : ℤ)) es) ≠
        .error .arithmetic := by
  intro law
  exact law floatOf wideSlippage (openInvocation 1) (some (quoteOf 3000)) (some (fillOf 3000)) rfl

end Traps

/-! ## The preview of a rebalancing -/

variable {A : Type} {contract : A}

/-! ## The preview -/

/-- The split can be computed and has drifted beyond the threshold. -/
structure Drifted (config : RebalancerConfig A) (balanceA balanceB : ℤ) : Prop where
  total_pos : 0 < balanceA + balanceB
  total_fits : balanceA + balanceB ≤ i128.max
  ratio_fits : balanceB = 0 ∨ balanceA * bpsDenominator ≤ i128.max
  drifted : config.imbalanceThresholdBps <
    absDiff (ratioBps balanceA balanceB) config.targetRatioBps

theorem swapDue_iff {config : RebalancerConfig A} {balanceA balanceB : ℤ} :
    SwapDue config balanceA balanceB ↔ Drifted config balanceA balanceB ∧
      balanceA ≠ targetBalance config (balanceA + balanceB) := by
  constructor
  · rintro ⟨hpos, hmax, hratio, hdrift, hsells⟩
    exact ⟨⟨hpos, hmax, hratio, hdrift⟩, hsells⟩
  · rintro ⟨⟨hpos, hmax, hratio, hdrift⟩, hsells⟩
    exact ⟨hpos, hmax, hratio, hdrift, hsells⟩

def WouldRebalance (contract : A) (w : RebalancerWorld A) : Prop :=
  ∃ balanceA balanceB ratio, preview contract w = .ok (balanceA, balanceB, ratio, true)

theorem wouldRebalance_iff {w : RebalancerWorld A}
    (balances : ∀ token, 0 ≤ w.balances token contract) :
    WouldRebalance contract w ↔ ∃ config, w.storage = some config ∧
      Drifted config (w.balances config.assetA contract) (w.balances config.assetB contract) := by
  simp only [WouldRebalance, preview, getConfig, bind_eq_ok, orFail_eq_ok, IntType.checkedAdd]
  constructor
  · rintro ⟨_, _, _, config, hconfig, total, htotal, hrest⟩
    have hA := balances config.assetA
    have hB := balances config.assetB
    obtain ⟨rfl, -, hmax⟩ := IntType.checked_eq_some.1 htotal
    split_ifs at hrest with hzero
    · cases hrest
    · simp only [bind_eq_ok, pure_eq_ok, Prod.mk.injEq, decide_eq_true_eq] at hrest
      obtain ⟨ratio, hratio, -, -, -, hdrift⟩ := hrest
      rw [currentRatio_eq_ok hA hB (not_le.1 hzero) hratio] at hdrift
      exact ⟨config, hconfig, not_le.1 hzero, hmax,
        (currentRatio_ok_iff hA hB (not_le.1 hzero)).1 ⟨ratio, hratio⟩, hdrift⟩
  · rintro ⟨config, hconfig, hpos, hmax, hfits, hdrift⟩
    have hA := balances config.assetA
    have hB := balances config.assetB
    have hmin : i128.min ≤ 0 := by decide
    obtain ⟨ratio, hratio⟩ := (currentRatio_ok_iff hA hB hpos).2 hfits
    rw [← currentRatio_eq_ok hA hB hpos hratio] at hdrift
    refine ⟨w.balances config.assetA contract, w.balances config.assetB contract, ratio, config,
      hconfig, _, IntType.checked_of_mem (by omega) hmax, ?_⟩
    rw [if_neg (not_le.2 hpos)]
    refine bind_eq_ok.2 ⟨ratio, hratio, ?_⟩
    rw [decide_eq_true hdrift]
    rfl

/-! ## The rebalancing -/

variable [DecidableEq A]

/-- The rebalancing comes to the first call of a swap: while the oracle traps, it traps
there. -/
def AttemptsSwap (env : Invocation A contract) (w : RebalancerWorld A) : Prop :=
  checkAndRebalance env none none w = .error (.panic "get_rate")

theorem attemptsSwap_iff {env : Invocation A contract} {w : RebalancerWorld A}
    (sound : Sound contract w) :
    AttemptsSwap env w ↔ ∃ config, w.storage = some config ∧
      SwapDue config (w.balances config.assetA contract) (w.balances config.assetB contract) := by
  constructor
  · intro attempts
    obtain ⟨_, ⟨⟩⟩ | ⟨config, trade, hconfig, due, -⟩ :=
      checkAndRebalance_error_cases sound attempts
    exact ⟨config, hconfig, due⟩
  · rintro ⟨config, hconfig, due⟩
    exact checkAndRebalance_of_due sound hconfig due fun trade => rfl

/-- In every reachable state, for every configuration and all balances: the preview reports
a rebalancing exactly when one would be attempted, unless the split has drifted while the
first balance is at its rounded target. -/
theorem preview_agrees_iff (funds : A → A → ℕ)
    (es : List (Event A contract (Operation A contract))) (env : Invocation A contract) :
    let w := run invoke (deployed fun token holder => (funds token holder : ℤ)) es
    (WouldRebalance contract w ↔ AttemptsSwap env w) ↔
      ∀ config, w.storage = some config →
        Drifted config (w.balances config.assetA contract) (w.balances config.assetB contract) →
        w.balances config.assetA contract ≠ targetBalance config
          (w.balances config.assetA contract + w.balances config.assetB contract) := by
  intro w
  have sound : Sound contract w := sound_invariant.run (sound_deployed funds) es
  rw [wouldRebalance_iff sound.balances, attemptsSwap_iff sound]
  simp only [swapDue_iff]
  constructor
  · intro agree config hconfig drifted
    obtain ⟨config', hconfig', -, sells⟩ := agree.1 ⟨config, hconfig, drifted⟩
    obtain rfl := Option.some.inj (hconfig.symm.trans hconfig')
    exact sells
  · intro sells
    refine exists_congr fun config => and_congr_right fun hconfig => ?_
    exact (and_iff_left_of_imp (sells config hconfig)).symm

/-! ## A single unit -/

/-- One unit of the second asset, and nothing of the first. -/
def dust (token holder : ℕ) : ℕ := if holder = 0 ∧ token = 11 then 1 else 0

/-- Half of a unit rounds down to nothing, so there is nothing to buy. -/
theorem dust_previewed :
    ¬ ∀ (funds : ℕ → ℕ → ℕ) (es : List (Event ℕ 0 (Operation ℕ 0))) (env : Invocation ℕ 0),
      let w := run invoke (deployed fun token holder => (funds token holder : ℤ)) es
      WouldRebalance 0 w ↔ AttemptsSwap env w := by
  intro law
  have attempts := (law dust rebalancing (openInvocation 1)).1 ⟨0, 1, 0, rfl⟩
  cases attempts

end MobileMoney.Rebalancer
