import Mathlib.Algebra.Order.Field.Basic
import Mathlib.Data.Rat.Cast.Order
import Mathlib.Order.Interval.Set.UnorderedInterval
import MobileMoney.Contracts.Rebalancer.Program

/-!
# When a rebalancing passes its target

The swap is sized as if both assets had one price: what is sold is the distance of the
balance from its target in the current total. The oracle is asked afterwards, for the least
output only. The share of the first asset then ends on the other side of the target as soon
as the price is not the assumed one, in one direction or the other.
-/

namespace MobileMoney.Rebalancer

open Soroban MachineInt

variable {A : Type} {contract : A}

/-! ## The share of the first asset -/

def share (balanceA balanceB : ℤ) : ℚ := balanceA / (balanceA + balanceB : ℤ)

theorem share_lt_share_iff {a b c d : ℤ} (hab : 0 < a + b) (hcd : 0 < c + d) :
    share a b < share c d ↔ a * d < c * b := by
  unfold share
  rw [div_lt_div_iff₀ (by exact_mod_cast hab) (by exact_mod_cast hcd)]
  norm_cast
  constructor <;> intro h <;> linarith

theorem share_le_share_iff {a b c d : ℤ} (hab : 0 < a + b) (hcd : 0 < c + d) :
    share a b ≤ share c d ↔ a * d ≤ c * b := by
  rw [← not_lt, share_lt_share_iff hcd hab, not_lt]

theorem share_self {n : ℤ} (hn : 0 < n) : share n n = 1 / 2 := by
  have : (n : ℚ) ≠ 0 := by exact_mod_cast hn.ne'
  rw [share, ← two_mul, Int.cast_mul, div_mul_cancel_right₀ this, one_div, Int.cast_ofNat]

/-- The share that a target in basis points stands for. -/
def targetShare (targetRatioBps : ℕ) : ℚ := targetRatioBps / bpsDenominator

theorem targetShare_eq_share (t : ℕ) : targetShare t = share t (bpsDenominator - t) := by
  simp [targetShare, share]

theorem targetShare_le_share_iff {t : ℕ} {a b : ℤ} (hab : 0 < a + b) :
    targetShare t ≤ share a b ↔ t * b ≤ a * (bpsDenominator - t) := by
  rw [targetShare_eq_share, share_le_share_iff (by simp [bpsDenominator]) hab]

theorem share_le_targetShare_iff {t : ℕ} {a b : ℤ} (hab : 0 < a + b) :
    share a b ≤ targetShare t ↔ a * (bpsDenominator - t) ≤ t * b := by
  rw [targetShare_eq_share, share_le_share_iff hab (by simp [bpsDenominator])]

/-- Between the old share and the target, for a share that has fallen. -/
theorem mem_uIcc_iff_of_lt {s s' t : ℚ} (h : s' < s) : s' ∈ Set.uIcc s t ↔ t ≤ s' := by
  simp [Set.mem_uIcc, h.not_ge, h.le]

/-- Between the old share and the target, for a share that has risen. -/
theorem mem_uIcc_iff_of_gt {s s' t : ℚ} (h : s < s') : s' ∈ Set.uIcc s t ↔ s' ≤ t := by
  simp [Set.mem_uIcc, h.not_ge, h.le]

/-! ## The size of the trade -/

theorem mulDiv_eq_ok {a b divisor r : ℤ} (hb : 0 ≤ b) (h : mulDiv a b divisor = .ok r) :
    0 < divisor ∧ r = (a * b).tdiv divisor := by
  unfold mulDiv at h
  split_ifs at h with hdivisor
  have hpos : 0 < divisor := not_le.1 hdivisor
  refine ⟨hpos, ?_⟩
  split at h
  · next product hproduct =>
    obtain ⟨rfl, -⟩ := IntType.checked_eq_some.1 hproduct
    rw [orFail_eq_ok, IntType.checkedDiv, if_neg hpos.ne', IntType.checked_eq_some] at h
    exact h.1.symm
  · simp only [bind_eq_ok, orFail_eq_ok, Option.bind_eq_some_iff, IntType.checkedMul,
      IntType.checkedAdd, IntType.checkedDiv, if_neg hpos.ne', IntType.checked_eq_some] at h
    obtain ⟨_, ⟨rfl, -⟩, _, ⟨_, ⟨rfl, -⟩, rfl, -⟩, rfl, -⟩ := h
    exact tdiv_mul_add_tmod_mul_tdiv a hb hpos

theorem pos_of_mulDiv_pos {a b divisor r : ℤ} (hb : 0 ≤ b) (h : mulDiv a b divisor = .ok r)
    (hr : 0 < r) : 0 < a := by
  obtain ⟨hdivisor, rfl⟩ := mulDiv_eq_ok hb h
  by_contra ha
  have hneg : 0 ≤ -(a * b) := by
    rw [← neg_mul]
    exact mul_nonneg (neg_nonneg.2 (not_lt.1 ha)) hb
  have := Int.tdiv_nonneg hneg hdivisor.le
  rw [Int.neg_tdiv] at this
  omega

/-- What the target ratio assigns to the first asset, rounded down. -/
def targetBalance (config : RebalancerConfig A) (total : ℤ) : ℤ :=
  total * config.targetRatioBps / bpsDenominator

/-- What rounding the target balance down has dropped, in parts of `bpsDenominator`. -/
def targetRest (config : RebalancerConfig A) (total : ℤ) : ℤ :=
  total * config.targetRatioBps % bpsDenominator

theorem targetBalance_add_rest (config : RebalancerConfig A) (total : ℤ) :
    bpsDenominator * targetBalance config total + targetRest config total =
      total * config.targetRatioBps :=
  Int.mul_ediv_add_emod _ _

theorem targetBalance_nonneg (config : RebalancerConfig A) {total : ℤ} (htotal : 0 ≤ total) :
    0 ≤ targetBalance config total :=
  Int.ediv_nonneg (mul_nonneg htotal (Int.natCast_nonneg _)) (by decide)

theorem targetBalance_le {config : RebalancerConfig A} {total : ℤ} (htotal : 0 ≤ total)
    (htarget : config.targetRatioBps < bpsDenominator) : targetBalance config total ≤ total := by
  apply Int.ediv_le_of_le_mul (by decide)
  exact mul_le_mul_of_nonneg_left (by exact_mod_cast htarget.le) htotal

theorem sizeTrade_eq_ok {config : RebalancerConfig A} {balanceA balanceB : ℤ} {trade : Trade A}
    (htotal : 0 ≤ balanceA + balanceB)
    (h : sizeTrade config balanceA balanceB (balanceA + balanceB) = .ok trade) :
    trade = if targetBalance config (balanceA + balanceB) < balanceA then
        ⟨true, balanceA - targetBalance config (balanceA + balanceB), config.assetA,
          config.assetB, config.pathAToB⟩
      else
        ⟨false, targetBalance config (balanceA + balanceB) - balanceA, config.assetB,
          config.assetA, config.pathBToA⟩ := by
  simp only [sizeTrade, bind_eq_ok] at h
  obtain ⟨target, htarget, h⟩ := h
  obtain ⟨-, rfl⟩ := mulDiv_eq_ok (Int.natCast_nonneg _) htarget
  rw [Int.tdiv_eq_ediv_of_nonneg (mul_nonneg htotal (Int.natCast_nonneg _)),
    ← targetBalance.eq_1] at h
  split_ifs at h ⊢
  · simp only [bind_eq_ok, orFail_eq_ok, IntType.checkedSub, IntType.checked_eq_some,
      pure_eq_ok] at h
    obtain ⟨_, ⟨rfl, -⟩, rfl⟩ := h
    rfl
  · simp only [bind_eq_ok, orFail_eq_ok, IntType.checkedSub, IntType.checked_eq_some,
      pure_eq_ok] at h
    obtain ⟨_, ⟨rfl, -⟩, _, ⟨rfl, -⟩, rfl⟩ := h
    congr 1
    ring

/-- The trade does not pass the target. Where the first asset is sold, the quote falls short
of what is sold by what the rounding has added to the sale. Where the second one is sold, it
exceeds what is sold by no more than the rounding has taken from the sale. -/
def StopsShort (config : RebalancerConfig A) (balanceA balanceB quote : ℤ) : Prop :=
  let total := balanceA + balanceB
  if targetBalance config total < balanceA then
    targetRest config total ≤
      config.targetRatioBps * (balanceA - targetBalance config total - quote)
  else
    (bpsDenominator - config.targetRatioBps) * (quote - (targetBalance config total - balanceA)) ≤
      targetRest config total

/-- Selling the first asset: its share falls, and stays above the target under the condition. -/
theorem sellA_mem_uIcc_iff {config : RebalancerConfig A} {balanceA balanceB quote : ℤ}
    (hA : 0 ≤ balanceA) (hB : 0 ≤ balanceB) (hquote : 0 < quote)
    (hsold : targetBalance config (balanceA + balanceB) < balanceA) :
    share (targetBalance config (balanceA + balanceB)) (balanceB + quote) ∈
        Set.uIcc (share balanceA balanceB) (targetShare config.targetRatioBps) ↔
      StopsShort config balanceA balanceB quote := by
  have hrest := targetBalance_add_rest config (balanceA + balanceB)
  have hkept := targetBalance_nonneg config (add_nonneg hA hB)
  unfold StopsShort
  dsimp only
  rw [if_pos hsold]
  generalize targetBalance config (balanceA + balanceB) = target at *
  generalize targetRest config (balanceA + balanceB) = rest at *
  have falls : share target (balanceB + quote) < share balanceA balanceB := by
    rw [share_lt_share_iff (by omega) (by omega)]
    calc target * balanceB ≤ balanceA * balanceB := mul_le_mul_of_nonneg_right hsold.le hB
      _ < balanceA * (balanceB + quote) := by
        apply mul_lt_mul_of_pos_left <;> omega
  rw [mem_uIcc_iff_of_lt falls, targetShare_le_share_iff (by omega)]
  constructor <;> intro h <;> linarith

/-- Selling the second asset: the share of the first rises, and stays below the target under
the condition. -/
theorem sellB_mem_uIcc_iff {config : RebalancerConfig A} {balanceA balanceB quote : ℤ}
    (hA : 0 ≤ balanceA) (hB : 0 ≤ balanceB) (hquote : 0 < quote)
    (htarget : config.targetRatioBps < bpsDenominator)
    (hsold : balanceA < targetBalance config (balanceA + balanceB)) :
    share (balanceA + quote) (balanceA + balanceB - targetBalance config (balanceA + balanceB)) ∈
        Set.uIcc (share balanceA balanceB) (targetShare config.targetRatioBps) ↔
      StopsShort config balanceA balanceB quote := by
  have hrest := targetBalance_add_rest config (balanceA + balanceB)
  have hkept := targetBalance_le (add_nonneg hA hB) htarget
  unfold StopsShort
  dsimp only
  rw [if_neg hsold.not_gt]
  generalize targetBalance config (balanceA + balanceB) = target at *
  generalize targetRest config (balanceA + balanceB) = rest at *
  have rises : share balanceA balanceB <
      share (balanceA + quote) (balanceA + balanceB - target) := by
    rw [share_lt_share_iff (by omega) (by omega)]
    calc balanceA * (balanceA + balanceB - target) ≤ balanceA * balanceB := by
          apply mul_le_mul_of_nonneg_left <;> omega
      _ < (balanceA + quote) * balanceB := by
        apply mul_lt_mul_of_pos_right <;> omega
  rw [mem_uIcc_iff_of_gt rises, share_le_targetShare_iff (by omega)]
  constructor <;> intro h <;> linarith

/-! ## What a call does -/

variable [DecidableEq A] {env : Invocation A contract}

/-- What the router has done to the world: it has taken what it was sold, or not, and moved
tokens. -/
def RouterAnswer.apply (answer : RouterAnswer A contract) (config : RebalancerConfig A)
    (trade : Trade A) (w : RebalancerWorld A) : RebalancerWorld A :=
  World.deliver (if answer.paid then
    w.pay ⟨trade.assetIn, contract, config.router, trade.amountToSwap⟩ else w) answer.moved

theorem executeTrade_eq_ok {config : RebalancerConfig A} {trade : Trade A}
    {quote : Option (Answer A contract)} {answer : Option (RouterAnswer A contract)} {out : ℤ}
    {w w' : RebalancerWorld A}
    (h : executeTrade env config trade quote answer w = .ok (out, w')) :
    ∃ (quoted : Answer A contract) (routed : RouterAnswer A contract), quote = some quoted ∧
      0 < quoted.value ∧ (routed.paid = true → trade.amountToSwap ≤
        (w.deliver quoted.moved).balances trade.assetIn contract) ∧
      w' = routed.apply config trade (w.deliver quoted.moved) := by
  simp only [executeTrade, bind_eq_ok, orFail_eq_ok, require_eq_ok, pure_eq_ok, exists_const,
    Prod.mk.injEq] at h
  obtain ⟨quoted, rfl, -, minAmountOut, hmin, hpos, routed, rfl, w₁, hpaid, -, rfl⟩ := h
  have hquoted := pos_of_mulDiv_pos (Int.natCast_nonneg _) hmin (not_le.1 hpos)
  refine ⟨quoted, routed, rfl, hquoted, ?_⟩
  unfold RouterAnswer.apply
  split_ifs at hpaid ⊢ with paid
  · obtain ⟨⟨-, -, covered⟩, rfl⟩ := Invocation.transfer_eq_ok.1 hpaid
    exact ⟨fun _ => covered, rfl⟩
  · cases hpaid
    exact ⟨fun h => absurd h paid, rfl⟩

/-- A call leaves the pool as it is, or makes one trade. -/
theorem checkAndRebalance_eq_ok {quote : Option (Answer A contract)}
    {answer : Option (RouterAnswer A contract)} {out : ℤ} {w w' : RebalancerWorld A}
    (h : checkAndRebalance env quote answer w = .ok (out, w')) :
    ∃ config, w.storage = some config ∧
      ((∃ ratio, w' = w.publish (.rebalanceSkipped (w.balances config.assetA contract)
          (w.balances config.assetB contract) ratio config.targetRatioBps)) ∨
        ∃ trade w₁, sizeTrade config (w.balances config.assetA contract)
            (w.balances config.assetB contract) (w.balances config.assetA contract +
              w.balances config.assetB contract) = .ok trade ∧
          0 < trade.amountToSwap ∧
          executeTrade env config trade quote answer w = .ok (out, w₁) ∧
          w' = w₁.publish (.rebalanceExecuted (w.balances config.assetA contract)
            (w.balances config.assetB contract) (w₁.balances config.assetA contract)
            (w₁.balances config.assetB contract) trade.amountToSwap trade.soldAssetA)) := by
  simp only [checkAndRebalance, getConfig, bind_eq_ok, orFail_eq_ok, require_eq_ok,
    exists_const, IntType.checkedAdd, IntType.checked_eq_some] at h
  obtain ⟨config, hconfig, -, total, ⟨rfl, -⟩, ratio, -, h⟩ := h
  refine ⟨config, hconfig, ?_⟩
  split_ifs at h
  · cases h
    exact .inl ⟨ratio, rfl⟩
  · simp only [bind_eq_ok] at h
    obtain ⟨trade, hsize, h⟩ := h
    split_ifs at h with hnone
    · cases h
      exact .inl ⟨ratio, rfl⟩
    · simp only [bind_eq_ok, pure_eq_ok, Prod.mk.injEq] at h
      obtain ⟨⟨out, w₁⟩, htrade, rfl, rfl⟩ := h
      exact .inr ⟨trade, w₁, hsize, not_le.1 hnone, htrade, rfl⟩

/-! ## The invariant -/

/-- No balance of the contract is negative, and a configured target is less than the whole. -/
structure Sound (contract : A) (w : RebalancerWorld A) : Prop where
  balances : ∀ token, 0 ≤ w.balances token contract
  target : ∀ config, w.storage = some config → config.targetRatioBps < bpsDenominator

omit [DecidableEq A] in
theorem Sound.of_same {w w' : RebalancerWorld A} (sound : Sound contract w)
    (hbalances : w'.balances = w.balances) (hstorage : w'.storage = w.storage) :
    Sound contract w' :=
  ⟨hbalances ▸ sound.balances, hstorage ▸ sound.target⟩

omit [DecidableEq A] in
theorem Sound.deliver {w : RebalancerWorld A} (sound : Sound contract w)
    (move : OutsideMove A contract) : Sound contract (w.deliver move) :=
  ⟨fun token => add_nonneg (sound.balances token) (move.contract_nonneg token), sound.target⟩

theorem Sound.pay {w : RebalancerWorld A} (sound : Sound contract w) {t : Transfer A}
    (hsource : t.source = contract)
    (covered : t.amount ≤ w.balances t.token contract) : Sound contract (w.pay t) := by
  refine ⟨?_, sound.target⟩
  intro token
  have := sound.balances token
  simp only [World.pay_balances, Transfer.effect, hsource, if_true]
  by_cases htoken : t.token = token
  · subst htoken
    rw [if_pos rfl]
    split_ifs <;> omega
  · rw [if_neg htoken]
    omega

omit [DecidableEq A] in
theorem sound_deployed (funds : A → A → ℕ) :
    Sound contract (deployed fun token holder => (funds token holder : ℤ)) :=
  ⟨fun _ => Int.natCast_nonneg _, fun _ h => nomatch h⟩

theorem sound_invariant :
    Invariant (@invoke A contract _) (Sound contract) where
  outside w sound move := sound.deliver move
  call env op w w' sound h := by
    cases op with
    | initializeRebalancer args =>
      simp only [invoke, initializeRebalancer, bind_eq_ok, require_eq_ok, pure_eq_ok,
        exists_const] at h
      obtain ⟨-, hratio, _, -, rfl⟩ := h
      refine ⟨sound.balances, ?_⟩
      rintro config ⟨⟩
      exact not_le.1 (not_or.1 hratio).2
    | configureThresholds imbalanceThresholdBps maxSlippageBps =>
      simp only [invoke, configureThresholds, getConfig, bind_eq_ok, orFail_eq_ok, pure_eq_ok] at h
      obtain ⟨config, hconfig, _, -, rfl⟩ := h
      refine ⟨sound.balances, ?_⟩
      rintro config' ⟨⟩
      exact sound.target config hconfig
    | checkAndRebalance quote answer =>
      obtain ⟨⟨out, w'⟩, hcall, rfl⟩ := map_eq_ok.1 h
      obtain ⟨config, hconfig, ⟨ratio, rfl⟩ | ⟨trade, w₁, -, -, htrade, rfl⟩⟩ :=
        checkAndRebalance_eq_ok hcall
      · exact sound.of_same rfl rfl
      · obtain ⟨quoted, routed, -, -, hpaid, rfl⟩ := executeTrade_eq_ok htrade
        refine Sound.of_same (Sound.deliver ?_ routed.moved) rfl rfl
        split_ifs with paid
        · exact (sound.deliver quoted.moved).pay rfl (hpaid paid)
        · exact sound.deliver quoted.moved
    | preview =>
      obtain ⟨_, -, rfl⟩ := map_eq_ok.1 h
      exact sound

/-! ## The law -/

/-- The call has traded, the router has taken exactly what was sold, and exactly the quote
has come in for it. -/
structure FilledAtQuote (contract : A) (config : RebalancerConfig A) (trade : Trade A)
    (quote : ℤ) (w w' : RebalancerWorld A) : Prop where
  stored : w.storage = some config
  sized : sizeTrade config (w.balances config.assetA contract) (w.balances config.assetB contract)
    (w.balances config.assetA contract + w.balances config.assetB contract) = .ok trade
  performed : w'.events = w.events ++ [.rebalanceExecuted (w.balances config.assetA contract)
    (w.balances config.assetB contract) (w'.balances config.assetA contract)
    (w'.balances config.assetB contract) trade.amountToSwap trade.soldAssetA]
  filled : ∀ token, w'.balances token contract = w.balances token contract -
    (if token = trade.assetIn then trade.amountToSwap else 0) +
      if token = trade.assetOut then quote else 0

/-- The share of the first asset in what the contract holds. -/
def shareOf (contract : A) (config : RebalancerConfig A) (w : RebalancerWorld A) : ℚ :=
  share (w.balances config.assetA contract) (w.balances config.assetB contract)

/-- What a performed trade tells about its amount and its quote. -/
theorem FilledAtQuote.positive {config : RebalancerConfig A} {trade : Trade A}
    {quote : Answer A contract} {answer : Option (RouterAnswer A contract)} {out : ℤ}
    {w w' : RebalancerWorld A} (filled : FilledAtQuote contract config trade quote.value w w')
    (h : checkAndRebalance env (some quote) answer w = .ok (out, w')) :
    0 < trade.amountToSwap ∧ 0 < quote.value := by
  obtain ⟨config', hconfig, ⟨ratio, rfl⟩ | ⟨trade', w₁, hsize, hamount, htrade, -⟩⟩ :=
    checkAndRebalance_eq_ok h
  · simpa using filled.performed
  · obtain rfl : config' = config := Option.some.inj (hconfig.symm.trans filled.stored)
    obtain rfl : trade' = trade := Except.ok.inj (hsize.symm.trans filled.sized)
    obtain ⟨_, _, ⟨⟩, hquote, -⟩ := executeTrade_eq_ok htrade
    exact ⟨hamount, hquote⟩

/-- Where both assets are one token, a trade does not change the share. -/
theorem FilledAtQuote.shareOf_of_eq {config : RebalancerConfig A} {trade : Trade A} {quote : ℤ}
    {w w' : RebalancerWorld A} (filled : FilledAtQuote contract config trade quote w w')
    (sound : Sound contract w) (hamount : 0 < trade.amountToSwap) (hquote : 0 < quote)
    (same : config.assetA = config.assetB) :
    shareOf contract config w' = shareOf contract config w := by
  have hA := sound.balances config.assetA
  have hB := sound.balances config.assetB
  have htrade := sizeTrade_eq_ok (add_nonneg hA hB) filled.sized
  have hlow := targetBalance_nonneg config (add_nonneg hA hB)
  have hhigh := targetBalance_le (add_nonneg hA hB) (sound.target config filled.stored)
  rw [← same] at hlow hhigh htrade
  have traded : trade.assetIn = config.assetA ∧ trade.assetOut = config.assetA ∧
      trade.amountToSwap ≤ w.balances config.assetA contract := by
    rw [htrade]
    split_ifs <;> refine ⟨rfl, rfl, ?_⟩ <;> dsimp only <;> omega
  obtain ⟨hin, hout, hle⟩ := traded
  have after := filled.filled config.assetA
  rw [hin, hout, if_pos rfl, if_pos rfl] at after
  unfold shareOf
  rw [← same, share_self (by omega), share_self (by omega)]

/-- In every reachable state, after every trade that is filled at the quote of the oracle: the
share of the first asset is between its old value and the target exactly when the price is on
the right side of one to one by the rounding of the target, or both assets are one. -/
theorem rebalance_between_iff {funds : A → A → ℕ}
    {es : List (Event A contract (Operation A contract))} {quote : Answer A contract}
    {answer : Option (RouterAnswer A contract)} {out : ℤ} {w w' : RebalancerWorld A}
    {config : RebalancerConfig A} {trade : Trade A}
    (reached : run invoke (deployed fun token holder => (funds token holder : ℤ)) es = w)
    (h : checkAndRebalance env (some quote) answer w = .ok (out, w'))
    (filled : FilledAtQuote contract config trade quote.value w w') :
    shareOf contract config w' ∈
        Set.uIcc (shareOf contract config w) (targetShare config.targetRatioBps) ↔
      config.assetA = config.assetB ∨ StopsShort config (w.balances config.assetA contract)
        (w.balances config.assetB contract) quote.value := by
  have sound : Sound contract w := reached ▸ sound_invariant.run (sound_deployed funds) es
  obtain ⟨hamount, hquote⟩ := filled.positive h
  by_cases same : config.assetA = config.assetB
  · rw [filled.shareOf_of_eq sound hamount hquote same]
    exact iff_of_true Set.left_mem_uIcc (.inl same)
  rw [or_iff_right same]
  have hA := sound.balances config.assetA
  have hB := sound.balances config.assetB
  have htrade := sizeTrade_eq_ok (add_nonneg hA hB) filled.sized
  unfold shareOf
  split_ifs at htrade with hsold
  · subst htrade
    have afterA : w'.balances config.assetA contract =
        targetBalance config (w.balances config.assetA contract +
          w.balances config.assetB contract) := by
      simp [filled.filled, same]
    have afterB : w'.balances config.assetB contract =
        w.balances config.assetB contract + quote.value := by
      simp [filled.filled, Ne.symm same]
    rw [afterA, afterB]
    exact sellA_mem_uIcc_iff hA hB hquote hsold
  · subst htrade
    have afterA : w'.balances config.assetA contract =
        w.balances config.assetA contract + quote.value := by
      simp [filled.filled, same]
    have afterB : w'.balances config.assetB contract = w.balances config.assetA contract +
        w.balances config.assetB contract - targetBalance config
          (w.balances config.assetA contract + w.balances config.assetB contract) := by
      simp only [filled.filled, if_neg (Ne.symm same), if_true]
      ring
    rw [afterA, afterB]
    exact sellB_mem_uIcc_iff hA hB hquote (sound.target config filled.stored)
      (sub_pos.1 hamount)

/-! ## A price of two to one -/

section Price

/-- The contract holds 8000 of asset 10 and 2000 of asset 11. -/
def floatOf (token holder : ℕ) : ℕ :=
  if holder = 0 then (if token = 10 then 8000 else if token = 11 then 2000 else 0) else 0

/-- Half of the float is to be in asset 10. -/
def halfArgs : InitializeArgs ℕ := ⟨1, 10, 11, 5000, 20, 21, [20], [20]⟩

def rebalancing : List (Event ℕ 0 (Operation ℕ 0)) :=
  [.call (openInvocation 1) (.initializeRebalancer halfArgs)]

/-- The swap that both examples make. -/
def sale : Trade ℕ := ⟨true, 3000, 10, 11, [20]⟩

def quoteOf (amount : ℕ) : Answer ℕ 0 := ⟨amount, .still⟩

/-- The router takes what it was sold and pays `amount` of asset 11. -/
def fillOf (amount : ℕ) : RouterAnswer ℕ 0 where
  value := amount
  moved := {
    change := fun token holder => if token = 11 ∧ holder = 0 then amount else 0
    contract_nonneg := fun token => by split_ifs <;> omega }
  paid := true

def floated : RebalancerWorld ℕ :=
  run invoke (deployed fun token holder => (floatOf token holder : ℤ)) rebalancing

/-- The world after the sale, where the quote is `amount` and is what the router pays. -/
def sold (amount : ℕ) : RebalancerWorld ℕ :=
  ((fillOf amount).apply halfArgs.config sale (floated.deliver (quoteOf amount).moved)).publish
    (.rebalanceExecuted 8000 2000 5000 (2000 + amount) 3000 true)

theorem sold_filledAtQuote (amount : ℕ) :
    FilledAtQuote 0 halfArgs.config sale (quoteOf amount).value floated (sold amount) := by
  refine ⟨rfl, rfl, rfl, ?_⟩
  intro token
  by_cases hin : token = 10
  · subst hin
    rfl
  by_cases hout : token = 11
  · subst hout
    rfl
  · simp [sold, RouterAnswer.apply, fillOf, quoteOf, sale, OutsideMove.still, Transfer.effect,
      hin, hout, Ne.symm hin]

/-- At par the share goes from four fifths to one half. -/
theorem rebalance_at_par :
    checkAndRebalance (openInvocation 1) (some (quoteOf 3000)) (some (fillOf 3000)) floated =
      .ok (3000, sold 3000) ∧
    shareOf 0 halfArgs.config (sold 3000) ∈
      Set.uIcc (shareOf 0 halfArgs.config floated) (targetShare 5000) := by
  have called : checkAndRebalance (openInvocation 1) (some (quoteOf 3000)) (some (fillOf 3000))
      floated = .ok (3000, sold 3000) := rfl
  have stops : StopsShort halfArgs.config 8000 2000 3000 := by
    unfold StopsShort
    decide
  exact ⟨called, (rebalance_between_iff rfl called (sold_filledAtQuote 3000)).2 (.inr stops)⟩

/-- A unit of asset 10 is quoted at two units of asset 11 and filled at that: the share of
asset 10 falls from four fifths to five thirteenths, past one half. -/
theorem rebalance_overshoots : ¬ ∀ (funds : ℕ → ℕ → ℕ) (es : List (Event ℕ 0 (Operation ℕ 0)))
    (env : Invocation ℕ 0) (quote : Answer ℕ 0) (answer : Option (RouterAnswer ℕ 0)) (out : ℤ)
    (w w' : RebalancerWorld ℕ) (config : RebalancerConfig ℕ) (trade : Trade ℕ),
    run invoke (deployed fun token holder => (funds token holder : ℤ)) es = w →
    checkAndRebalance env (some quote) answer w = .ok (out, w') →
    FilledAtQuote 0 config trade quote.value w w' →
    shareOf 0 config w' ∈
      Set.uIcc (shareOf 0 config w) (targetShare config.targetRatioBps) := by
  intro law
  have between := law floatOf rebalancing (openInvocation 1) (quoteOf 6000)
    (some (fillOf 6000)) 6000 floated (sold 6000) halfArgs.config sale rfl rfl
    (sold_filledAtQuote 6000)
  have after : targetShare 5000 ≤ share 5000 8000 :=
    (mem_uIcc_iff_of_lt ((share_lt_share_iff (by decide) (by decide)).2 (by decide))).1 between
  exact absurd ((targetShare_le_share_iff (by decide)).1 after) (by decide)

end Price

end MobileMoney.Rebalancer
