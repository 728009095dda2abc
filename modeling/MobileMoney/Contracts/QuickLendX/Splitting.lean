import MobileMoney.Contracts.QuickLendX.Conservation

/-!
# Liquidations in pieces

A liquidation rounds the collateral that the repaid debt is worth up, and the penalty on it
down, once for each call. This module compares a repayment that is split into several calls
with the same repayment in one call.
-/

namespace MobileMoney.QuickLendX

open Soroban MachineInt

variable {A : Type} {contract : A}

/-! ## Rounding -/

/-- Rounding two parts up costs one unit at most, and none when the first part needs no
rounding. -/
theorem exactDivCeil_add_le {a b divisor : ℤ} (ha : 0 ≤ a) (hb : 0 ≤ b) (hd : 0 < divisor) :
    exactDivCeil a divisor + exactDivCeil b divisor ≤
      exactDivCeil (a + b) divisor + if divisor ∣ a then 0 else 1 := by
  unfold exactDivCeil
  rw [Int.tdiv_eq_ediv_of_nonneg (by omega), Int.tdiv_eq_ediv_of_nonneg (by omega),
    Int.tdiv_eq_ediv_of_nonneg (by omega)]
  split_ifs with hdvd
  · obtain ⟨c, rfl⟩ := hdvd
    have hrest : (divisor - 1) / divisor = 0 := Int.ediv_eq_zero_of_lt (by omega) (by omega)
    rw [add_assoc (divisor * c), Int.mul_add_ediv_left _ _ hd.ne',
      Int.mul_add_ediv_left _ _ hd.ne', hrest]
    omega
  · calc (a + (divisor - 1)) / divisor + (b + (divisor - 1)) / divisor
        ≤ (a + (divisor - 1) + (b + (divisor - 1))) / divisor :=
          Int.ediv_add_ediv_le_add_ediv hd
      _ ≤ (a + b + (divisor - 1) + 1 * divisor) / divisor := Int.ediv_le_ediv hd (by omega)
      _ = (a + b + (divisor - 1)) / divisor + 1 := Int.add_mul_ediv_right _ _ hd.ne'

/-- A first repayment and the rest of one, both capped by what is still owed. -/
theorem exactDivCeil_capped_le (debt : ℤ) {price first rest : ℤ} (hprice : 0 < price)
    (hfirst : 0 < first) (hrest : 0 ≤ rest) :
    exactDivCeil (min first debt) price + exactDivCeil (min rest (debt - min first debt)) price ≤
      exactDivCeil (min (first + rest) debt) price + if price ∣ first then 0 else 1 := by
  rcases le_total first debt with hle | hle
  · rw [min_eq_left hle]
    have hsum : min (first + rest) debt = first + min rest (debt - first) := by omega
    rw [hsum]
    exact exactDivCeil_add_le hfirst.le (by omega) hprice
  · have hzero : exactDivCeil 0 price = 0 := by
      unfold exactDivCeil
      rw [zero_add, Int.tdiv_eq_ediv_of_nonneg (by omega)]
      exact Int.ediv_eq_zero_of_lt (by omega) (by omega)
    rw [min_eq_right hle, sub_self, min_eq_right hrest, min_eq_right (by omega), hzero, add_zero]
    split_ifs <;> omega

/-- An amount of collateral and the penalty on it. -/
def withPenalty (config : LendingConfig A) (base : ℤ) : ℤ :=
  base + exactPartBps base config.liquidationPenaltyBps

theorem withPenalty_eq (config : LendingConfig A) {base : ℤ} (hbase : 0 ≤ base) :
    withPenalty config base = base + base * config.liquidationPenaltyBps / 10000 := by
  unfold withPenalty exactPartBps bpsDenominator
  rw [Int.tdiv_eq_ediv_of_nonneg (mul_nonneg hbase (Int.natCast_nonneg _))]

theorem withPenalty_mono (config : LendingConfig A) {a b : ℤ} (ha : 0 ≤ a) (hab : a ≤ b) :
    withPenalty config a ≤ withPenalty config b := by
  rw [withPenalty_eq config ha, withPenalty_eq config (ha.trans hab)]
  have := mul_le_mul_of_nonneg_right hab (Int.natCast_nonneg config.liquidationPenaltyBps)
  omega

theorem withPenalty_add_le (config : LendingConfig A) {a b : ℤ} (ha : 0 ≤ a) (hb : 0 ≤ b) :
    withPenalty config a + withPenalty config b ≤ withPenalty config (a + b) := by
  rw [withPenalty_eq config ha, withPenalty_eq config hb, withPenalty_eq config (by omega),
    add_mul]
  omega

/-- What `extra` more units of collateral add to a seizure. -/
theorem withPenalty_extra (config : LendingConfig A) {base extra : ℤ} (hbase : 0 ≤ base)
    (hextra : 0 ≤ extra) :
    withPenalty config (base + extra) ≤ withPenalty config base +
      (extra + exactDivCeil (extra * config.liquidationPenaltyBps) bpsDenominator) := by
  have hpenalty : 0 ≤ extra * config.liquidationPenaltyBps :=
    mul_nonneg hextra (Int.natCast_nonneg _)
  unfold exactDivCeil bpsDenominator
  rw [withPenalty_eq config hbase, withPenalty_eq config (by omega),
    Int.tdiv_eq_ediv_of_nonneg (by omega), add_mul]
  omega

/-! ## Several calls -/

variable [DecidableEq A]

/-- One of several liquidations of a loan; the time is that of the oracle's price. -/
structure Piece (A : Type) (contract : A) where
  env : Invocation A contract
  liquidator : A
  debtRepayment : ℤ
  timestamp : ℕ

/-- Liquidations of one loan at one price, one after the other, all of which succeed, with
the collateral that they seize together. -/
def liquidatePieces (loanId : ℕ) (price : ℤ) : List (Piece A contract) → QuickLendXWorld A →
    Result (ℤ × QuickLendXWorld A)
  | [], w => .ok (0, w)
  | piece :: pieces, w => do
    let (result, w) ← liquidate piece.env loanId piece.liquidator piece.debtRepayment
      (some ⟨price, piece.timestamp⟩) w
    let (total, w) ← liquidatePieces loanId price pieces w
    return (result.collateralSeized + total, w)

omit [DecidableEq A] in
def totalRepayment (pieces : List (Piece A contract)) : ℤ :=
  (pieces.map (·.debtRepayment)).sum

omit [DecidableEq A] in
/-- The calls before the last one that do not repay a whole multiple of the price. -/
def uneven (price : ℤ) (pieces : List (Piece A contract)) : ℕ :=
  pieces.dropLast.countP fun piece => ¬ price ∣ piece.debtRepayment

omit [DecidableEq A] in
theorem uneven_cons (price : ℤ) (piece : Piece A contract) {pieces : List (Piece A contract)}
    (more : pieces ≠ []) : (uneven price (piece :: pieces) : ℤ) =
      uneven price pieces + if price ∣ piece.debtRepayment then 0 else 1 := by
  obtain ⟨next, rest, rfl⟩ := List.exists_cons_of_ne_nil more
  unfold uneven
  rw [List.dropLast_cons_cons, List.countP_cons]
  split_ifs <;> simp_all

theorem totalRepayment_nonneg {loanId : ℕ} {price total : ℤ} {pieces : List (Piece A contract)}
    {w w' : QuickLendXWorld A}
    (h : liquidatePieces loanId price pieces w = .ok (total, w')) :
    0 ≤ totalRepayment pieces := by
  induction pieces generalizing w total with
  | nil => exact le_refl 0
  | cons piece pieces ih =>
    simp only [liquidatePieces, bind_eq_ok, pure_eq_ok, Prod.mk.injEq] at h
    obtain ⟨⟨result, w₁⟩, hpiece, ⟨rest, w₂⟩, hrest, -, rfl⟩ := h
    obtain ⟨config, loan, loan', oraclePrice, collateral, liquidated⟩ := liquidate_eq_ok hpiece
    have := ih hrest
    have := liquidated.repayment_pos
    simp only [totalRepayment, List.map_cons, List.sum_cons] at *
    omega

/-- What one of the calls finds, seizes and leaves. -/
structure PieceSeizes (loanId : ℕ) (price repayment : ℤ) (config : LendingConfig A)
    (loan loan₁ : Loan A) (collateralSeized : ℤ) (w₁ : QuickLendXWorld A) : Prop where
  price_pos : 0 < price
  repayment_pos : 0 < repayment
  debt_nonneg : 0 ≤ loan.debtAmount
  seized : collateralSeized = min (withPenalty config
    (exactDivCeil (min repayment loan.debtAmount) price)) loan.collateralAmount
  kept : Lending w₁
  configured : w₁.storage.config = some config
  found : w₁.storage.loans loanId = some loan₁
  debt : loan₁.debtAmount = loan.debtAmount - min repayment loan.debtAmount
  collateral : loan₁.collateralAmount = loan.collateralAmount - collateralSeized

theorem liquidate_piece {loanId : ℕ} {price : ℤ} {config : LendingConfig A} {loan : Loan A}
    {piece : Piece A contract} {w w₁ : QuickLendXWorld A} {result : LiquidationResult}
    (hw : Lending w) (configured : w.storage.config = some config)
    (found : w.storage.loans loanId = some loan)
    (h : liquidate piece.env loanId piece.liquidator piece.debtRepayment
      (some ⟨price, piece.timestamp⟩) w = .ok (result, w₁)) :
    ∃ loan₁, PieceSeizes loanId price piece.debtRepayment config loan loan₁
      result.collateralSeized w₁ := by
  obtain ⟨config', loan', loan₁, oraclePrice, collateral, liquidated⟩ := liquidate_eq_ok h
  obtain rfl := Option.some.inj (configured.symm.trans liquidated.configured)
  obtain rfl := Option.some.inj (found.symm.trans liquidated.found)
  obtain rfl := Option.some.inj liquidated.answered
  have seized := liquidated.seized hw
  have called : invoke piece.env (.liquidate loanId piece.liquidator piece.debtRepayment
      (some ⟨price, piece.timestamp⟩)) w = .ok w₁ := map_eq_ok.2 ⟨_, h, rfl⟩
  refine ⟨loan₁, liquidated.price_pos, liquidated.repayment_pos,
    (hw.sound loanId loan found).2.debt_nonneg, ?_, (invoke_cases called).lending hw, ?_, ?_, ?_,
    liquidated.reduced.collateral⟩
  · rw [seized.seized, seized.debtRepaid]
    rfl
  · rw [liquidated.storage]
    exact configured
  · rw [liquidated.storage]
    exact Function.update_self _ _ _
  · rw [liquidated.reduced.debt, seized.debtRepaid]

/-- Together the calls seize no more than the loan has, and no more than one call would that
rounds up once more for every uneven piece. -/
theorem liquidatePieces_seized {loanId : ℕ} {price total : ℤ} {config : LendingConfig A}
    {loan : Loan A} {pieces : List (Piece A contract)} {w w' : QuickLendXWorld A}
    (hw : Lending w) (configured : w.storage.config = some config)
    (found : w.storage.loans loanId = some loan) (nonempty : pieces ≠ [])
    (h : liquidatePieces loanId price pieces w = .ok (total, w')) :
    total ≤ loan.collateralAmount ∧ total ≤ withPenalty config
      (exactDivCeil (min (totalRepayment pieces) loan.debtAmount) price +
        uneven price pieces) := by
  induction pieces generalizing w total loan with
  | nil => exact absurd rfl nonempty
  | cons piece pieces ih =>
    simp only [liquidatePieces, bind_eq_ok, pure_eq_ok, Prod.mk.injEq] at h
    obtain ⟨⟨result, w₁⟩, hpiece, ⟨rest, w₂⟩, hrest, rfl, rfl⟩ := h
    dsimp only at hrest ⊢
    obtain ⟨loan₁, seizes⟩ := liquidate_piece hw configured found hpiece
    have hseized := seizes.seized
    have hfirst := seizes.repayment_pos
    have howed := seizes.debt_nonneg
    have hbase : 0 ≤ exactDivCeil (min piece.debtRepayment loan.debtAmount) price :=
      exactDivCeil_nonneg (by omega) seizes.price_pos
    cases pieces with
    | nil =>
      cases hrest
      simp only [totalRepayment, List.map_cons, List.map_nil, List.sum_cons, List.sum_nil,
        add_zero, uneven, List.dropLast_singleton, List.countP_nil, Nat.cast_zero]
      omega
    | cons next pieces =>
      have more : next :: pieces ≠ [] := List.cons_ne_nil _ _
      obtain ⟨hcollateral, hbound⟩ := ih seizes.kept seizes.configured seizes.found more hrest
      rw [seizes.debt] at hbound
      rw [seizes.collateral] at hcollateral
      refine ⟨by omega, ?_⟩
      have hrest_nonneg := totalRepayment_nonneg hrest
      have hround := exactDivCeil_capped_le loan.debtAmount seizes.price_pos hfirst hrest_nonneg
      have hbase_rest : 0 ≤ exactDivCeil (min (totalRepayment (next :: pieces))
          (loan.debtAmount - min piece.debtRepayment loan.debtAmount)) price :=
        exactDivCeil_nonneg (by omega) seizes.price_pos
      calc result.collateralSeized + rest
          ≤ withPenalty config (exactDivCeil (min piece.debtRepayment loan.debtAmount) price) +
            withPenalty config (exactDivCeil (min (totalRepayment (next :: pieces))
              (loan.debtAmount - min piece.debtRepayment loan.debtAmount)) price +
              uneven price (next :: pieces)) := add_le_add (by omega) hbound
        _ ≤ withPenalty config (exactDivCeil (min piece.debtRepayment loan.debtAmount) price +
            (exactDivCeil (min (totalRepayment (next :: pieces))
              (loan.debtAmount - min piece.debtRepayment loan.debtAmount)) price +
              uneven price (next :: pieces))) := withPenalty_add_le config hbase (by omega)
        _ ≤ withPenalty config (exactDivCeil (min (totalRepayment (piece :: next :: pieces))
              loan.debtAmount) price + uneven price (piece :: next :: pieces)) := by
          rw [uneven_cons price piece more]
          apply withPenalty_mono config (by omega)
          simp only [totalRepayment, List.map_cons, List.sum_cons] at hround ⊢
          omega

/-! ## The law -/

/-- For every reachable state, every loan and every constant price: liquidations in pieces
that all succeed seize at most the whole collateral, and more than one liquidation of the
same repayment only by what they round up: a unit of collateral, and the penalty on it, for
each call before the last one that does not repay a whole multiple of the price. -/
theorem split_liquidation (balances : A → A → ℤ) (es : List (Event A contract (Operation A)))
    (env : Invocation A contract) (loanId : ℕ) (liquidator : A) (price : ℤ) (timestamp : ℕ)
    (pieces : List (Piece A contract)) (total : ℤ) (one : LiquidationResult)
    (w₁ w₂ : QuickLendXWorld A)
    (split : liquidatePieces loanId price pieces (run invoke (deployed balances) es) =
      .ok (total, w₁))
    (single : liquidate env loanId liquidator (totalRepayment pieces) (some ⟨price, timestamp⟩)
      (run invoke (deployed balances) es) = .ok (one, w₂)) :
    ∃ config loan, (run invoke (deployed balances) es).storage.config = some config ∧
      (run invoke (deployed balances) es).storage.loans loanId = some loan ∧
      total ≤ loan.collateralAmount ∧
      total ≤ one.collateralSeized + (uneven price pieces +
        exactDivCeil (uneven price pieces * config.liquidationPenaltyBps) bpsDenominator) := by
  have kept : Lending (run invoke (deployed balances) es) :=
    lending_invariant.run (deployed_lending balances) es
  obtain ⟨config, loan, loan', oraclePrice, collateral, liquidated⟩ := liquidate_eq_ok single
  obtain rfl := Option.some.inj liquidated.answered
  have seized := liquidated.seized kept
  have hrepayment := liquidated.repayment_pos
  have nonempty : pieces ≠ [] := by
    rintro rfl
    exact absurd hrepayment (lt_irrefl 0)
  obtain ⟨hcollateral, hbound⟩ := liquidatePieces_seized kept liquidated.configured
    liquidated.found nonempty split
  refine ⟨config, loan, liquidated.configured, liquidated.found, hcollateral, ?_⟩
  have hbase : 0 ≤ exactDivCeil (min (totalRepayment pieces) loan.debtAmount) price := by
    have := (kept.sound loanId loan liquidated.found).2.debt_nonneg
    exact exactDivCeil_nonneg (by omega) liquidated.price_pos
  have hextra := withPenalty_extra config hbase (Int.natCast_nonneg (uneven price pieces))
  have hpenalty : 0 ≤ exactDivCeil (uneven price pieces * config.liquidationPenaltyBps)
      bpsDenominator := exactDivCeil_nonneg (by positivity) (by decide)
  have hone : one.collateralSeized = min (withPenalty config
      (exactDivCeil (min (totalRepayment pieces) loan.debtAmount) price))
      loan.collateralAmount := by
    rw [seized.seized, seized.debtRepaid]
    rfl
  omega

/-! ## A repayment of two single units -/

section Units

/-- A debt of 10000 on a collateral of 10, which is worth as much at price 1000. -/
def dueLoan : List (Event ℕ 0 (Operation ℕ)) :=
  configured ++ [.call (openInvocation 1) (.openLoan 3 10000 10)]

def piece (debtRepayment : ℤ) : Piece ℕ 0 := ⟨openInvocation 1, 4, debtRepayment, 1⟩

/-- The first call repays a whole multiple of the price, so that nothing is added. -/
theorem even_split : ∃ config loan,
    (run invoke (deployed funds) dueLoan).storage.config = some config ∧
      (run invoke (deployed funds) dueLoan).storage.loans 0 = some loan ∧
      3 ≤ loan.collateralAmount ∧
      3 ≤ 3 + ((uneven 1000 [piece 2000, piece 500] : ℕ) + exactDivCeil
        ((uneven 1000 [piece 2000, piece 500] : ℕ) * config.liquidationPenaltyBps)
          bpsDenominator) :=
  split_liquidation funds dueLoan (openInvocation 1) 0 4 1000 1 [piece 2000, piece 500] 3
    ⟨2500, 3, 0, 0⟩ _ _ rfl rfl

/-- Two calls that repay one unit each seize two units of collateral, one call that repays
both seizes one. -/
theorem units_seize_more :
    ¬ ∀ (balances : ℕ → ℕ → ℤ) (es : List (Event ℕ 0 (Operation ℕ))) (env : Invocation ℕ 0)
      loanId liquidator price timestamp (pieces : List (Piece ℕ 0)) total one w₁ w₂,
      liquidatePieces loanId price pieces (run invoke (deployed balances) es) =
        .ok (total, w₁) →
      liquidate env loanId liquidator (totalRepayment pieces) (some ⟨price, timestamp⟩)
        (run invoke (deployed balances) es) = .ok (one, w₂) →
      total ≤ one.collateralSeized := by
  intro law
  have small := law funds dueLoan (openInvocation 1) 0 4 1000 1 [piece 1, piece 1] 2
    ⟨2, 1, 0, 0⟩ _ _ rfl rfl
  exact absurd small (by decide)

end Units

end MobileMoney.QuickLendX
