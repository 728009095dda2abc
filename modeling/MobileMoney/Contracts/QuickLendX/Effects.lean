import MobileMoney.Contracts.QuickLendX.Program

/-!
# What the calls of the lending contract do

A successful call initialises the contract, funds the pool, opens a loan, liquidates a
part of one, or changes nothing. Every stored loan is sound: its amounts are not negative,
an active loan has debt and collateral, a closed one has no debt and a liquidated one no
collateral.
-/

namespace MobileMoney.QuickLendX

open Soroban MachineInt

variable {A : Type} {contract : A}

/-! ## Amounts -/

/-- Rounded up division as the contract does it. -/
def exactDivCeil (value divisor : ℤ) : ℤ := (value + (divisor - 1)).tdiv divisor

def exactPartBps (value : ℤ) (bps : ℕ) : ℤ := (value * bps).tdiv bpsDenominator

theorem divCeil_eq_ok {value divisor r : ℤ} (h : divCeil value divisor = .ok r) :
    r = exactDivCeil value divisor := by
  simp only [divCeil, bind_eq_ok, orFail_eq_ok] at h
  obtain ⟨below, hsub, sum, hadd, hdiv⟩ := h
  obtain rfl := (IntType.checked_eq_some.1 hsub).1
  obtain rfl := (IntType.checked_eq_some.1 hadd).1
  unfold IntType.checkedDiv at hdiv
  split_ifs at hdiv
  exact (IntType.checked_eq_some.1 hdiv).1.symm

theorem partBps_eq_ok {value r : ℤ} {bps : ℕ} (h : partBps value bps = .ok r) :
    r = exactPartBps value bps := by
  simp only [partBps, bind_eq_ok, orFail_eq_ok] at h
  obtain ⟨scaled, hmul, hdiv⟩ := h
  obtain rfl := (IntType.checked_eq_some.1 hmul).1
  rw [IntType.checkedDiv, if_neg (by norm_num [bpsDenominator])] at hdiv
  exact (IntType.checked_eq_some.1 hdiv).1.symm

theorem exactDivCeil_nonneg {value divisor : ℤ} (hv : 0 ≤ value) (hd : 0 < divisor) :
    0 ≤ exactDivCeil value divisor :=
  Int.tdiv_nonneg (by omega) hd.le

theorem exactPartBps_nonneg {value : ℤ} (hv : 0 ≤ value) (bps : ℕ) :
    0 ≤ exactPartBps value bps :=
  Int.tdiv_nonneg (mul_nonneg hv (Int.natCast_nonneg bps)) (by norm_num [bpsDenominator])

theorem exactPartBps_le {value : ℤ} (hv : 0 ≤ value) {bps : ℕ} (h : bps ≤ 10000) :
    exactPartBps value bps ≤ value :=
  (tdiv_share_bounds hv (Int.natCast_nonneg bps) (by norm_num [bpsDenominator])
    (by unfold bpsDenominator; omega)).2

/-- The collateral that a repayment asks for: its value at the price, and the penalty. -/
def requestedSeizure (config : LendingConfig A) (price debtRepaid : ℤ) : ℤ :=
  exactDivCeil debtRepaid price +
    exactPartBps (exactDivCeil debtRepaid price) config.liquidationPenaltyBps

/-- What holds of the amounts of a liquidation. -/
structure Seized (config : LendingConfig A) (loan : Loan A) (price debtRepayment : ℤ)
    (liquidatorCollateral : ℤ) (result : LiquidationResult) : Prop where
  debtRepaid : result.debtRepaid = min debtRepayment loan.debtAmount
  seized : result.collateralSeized =
    min (requestedSeizure config price result.debtRepaid) loan.collateralAmount
  split : liquidatorCollateral + result.penalty = result.collateralSeized
  liquidator_nonneg : 0 ≤ liquidatorCollateral
  penalty_nonneg : 0 ≤ result.penalty

theorem seize_eq_ok {config : LendingConfig A} {loan : Loan A} {price debtRepayment : ℤ}
    {liquidatorCollateral : ℤ} {result : LiquidationResult} (hprice : 0 < price)
    (hrepayment : 0 < debtRepayment) (hdebt : 0 ≤ loan.debtAmount)
    (hcollateral : 0 ≤ loan.collateralAmount) (hreward : config.liquidatorRewardBps ≤ 10000)
    (h : seize config loan price debtRepayment = .ok (liquidatorCollateral, result)) :
    Seized config loan price debtRepayment liquidatorCollateral result := by
  simp only [seize, bind_eq_ok, orFail_eq_ok, pure_eq_ok, Prod.mk.injEq] at h
  obtain ⟨base, hbase, penalty, hpenalty, reward, hrewarded, requested, hadd, rewarded, hadd',
    rfl, rfl⟩ := h
  obtain rfl := divCeil_eq_ok hbase
  obtain rfl := partBps_eq_ok hpenalty
  obtain rfl := partBps_eq_ok hrewarded
  obtain ⟨rfl, -, hmax⟩ := IntType.checked_eq_some.1 hadd
  obtain rfl := (IntType.checked_eq_some.1 hadd').1
  have hvalue : 0 ≤ exactDivCeil (min debtRepayment loan.debtAmount) price :=
    exactDivCeil_nonneg (by omega) hprice
  have hpenalty_nonneg := exactPartBps_nonneg hvalue config.liquidationPenaltyBps
  have hreward_nonneg := exactPartBps_nonneg hpenalty_nonneg config.liquidatorRewardBps
  have hreward_le := exactPartBps_le hpenalty_nonneg hreward
  have hmin : i128.min ≤ 0 := by norm_num [i128]
  have hrest : i128.saturatingSub
      (min (requestedSeizure config price (min debtRepayment loan.debtAmount))
        loan.collateralAmount)
      (min (exactDivCeil (min debtRepayment loan.debtAmount) price + exactPartBps
        (exactPartBps (exactDivCeil (min debtRepayment loan.debtAmount) price)
          config.liquidationPenaltyBps) config.liquidatorRewardBps) loan.collateralAmount) = _ :=
    IntType.saturatingSub_of_mem (by unfold requestedSeizure; omega)
      (by unfold requestedSeizure; omega)
  unfold requestedSeizure at hrest
  refine ⟨rfl, rfl, ?_, by omega, ?_⟩
  · dsimp only
    omega
  · dsimp only
    omega

/-! ## Loans -/

structure Loan.Sound (loan : Loan A) : Prop where
  debt_nonneg : 0 ≤ loan.debtAmount
  collateral_nonneg : 0 ≤ loan.collateralAmount
  active : loan.status = .active → 0 < loan.debtAmount ∧ 0 < loan.collateralAmount
  closed : loan.status = .closed → loan.debtAmount = 0
  liquidated : loan.status = .liquidated → loan.collateralAmount = 0

/-- The loan that a liquidation leaves. -/
structure Reduced (loan loan' : Loan A) (result : LiquidationResult) : Prop where
  id : loan'.id = loan.id
  borrower : loan'.borrower = loan.borrower
  debt : loan'.debtAmount = loan.debtAmount - result.debtRepaid
  collateral : loan'.collateralAmount = loan.collateralAmount - result.collateralSeized
  status : loan'.status =
    if loan'.debtAmount = 0 then .closed
    else if loan'.collateralAmount = 0 then .liquidated else loan.status

theorem reduceLoan_eq_ok {loan loan' : Loan A} {result : LiquidationResult}
    (h : reduceLoan loan result = .ok loan') : Reduced loan loan' result := by
  simp only [reduceLoan, bind_eq_ok, orFail_eq_ok, pure_eq_ok] at h
  obtain ⟨debt, hdebt, collateral, hcollateral, rfl⟩ := h
  obtain rfl := (IntType.checked_eq_some.1 hdebt).1
  obtain rfl := (IntType.checked_eq_some.1 hcollateral).1
  exact ⟨rfl, rfl, rfl, rfl, rfl⟩

theorem Reduced.sound {loan loan' : Loan A} {result : LiquidationResult}
    (reduced : Reduced loan loan' result) (hactive : loan.status = .active)
    (hdebt : result.debtRepaid ≤ loan.debtAmount)
    (hcollateral : result.collateralSeized ≤ loan.collateralAmount) : loan'.Sound := by
  have hdebt' : 0 ≤ loan'.debtAmount := by
    rw [reduced.debt]
    omega
  have hcollateral' : 0 ≤ loan'.collateralAmount := by
    rw [reduced.collateral]
    omega
  have hstatus := reduced.status
  rw [hactive] at hstatus
  refine ⟨hdebt', hcollateral', ?_, ?_, ?_⟩ <;> intro h <;> rw [h] at hstatus <;>
    split_ifs at hstatus <;> omega

/-! ## Effects -/

variable [DecidableEq A]

/-- The transfers of a liquidation. -/
def liquidationPayments (contract : A) (config : LendingConfig A) (liquidator : A)
    (liquidatorCollateral : ℤ) (result : LiquidationResult) : List (Transfer A) :=
  [⟨config.debtToken, liquidator, contract, result.debtRepaid⟩,
    ⟨config.collateralToken, contract, liquidator, liquidatorCollateral⟩] ++
  if 0 < result.penalty then
    [⟨config.collateralToken, contract, config.feeRecipient, result.penalty⟩]
  else []

/-- A loan that was opened. -/
structure Opened (borrower : A) (debtAmount collateralAmount : ℤ) (loanId : ℕ)
    (w w' : QuickLendXWorld A) (contract : A) : Prop where
  configured : ∃ config, w.storage.config = some config ∧
    Paid w w' [⟨config.collateralToken, borrower, contract, collateralAmount⟩,
      ⟨config.debtToken, contract, borrower, debtAmount⟩]
  debt_pos : 0 < debtAmount
  collateral_pos : 0 < collateralAmount
  loanId_eq : loanId = w.storage.nextLoanId.getD 0
  storage : w'.storage = ⟨w.storage.config, Function.update w.storage.loans loanId
    (some ⟨loanId, borrower, debtAmount, collateralAmount, .active⟩), some (loanId + 1)⟩

theorem openLoan_eq_ok {env : Invocation A contract} {borrower : A}
    {debtAmount collateralAmount : ℤ} {loanId : ℕ} {w w' : QuickLendXWorld A}
    (h : openLoan env borrower debtAmount collateralAmount w = .ok (loanId, w')) :
    Opened borrower debtAmount collateralAmount loanId w w' contract := by
  simp only [openLoan, takeLoanId, loadConfig, bind_eq_ok, require_eq_ok, orFail_eq_ok,
    pure_eq_ok, exists_const, Prod.mk.injEq] at h
  obtain ⟨hpos, config, hconfig, _, -, ⟨_, w₁⟩, ⟨-, rfl, rfl⟩, w₂, hdeposit, w₃, hlend, rfl,
    rfl⟩ := h
  obtain ⟨-, rfl⟩ := Invocation.transfer_eq_ok.1 hdeposit
  obtain ⟨-, rfl⟩ := Invocation.transfer_eq_ok.1 hlend
  have stored : Paid w (setLoan (w.storage.nextLoanId.getD 0)
      ⟨w.storage.nextLoanId.getD 0, borrower, debtAmount, collateralAmount, .active⟩
      (w.store { w.storage with nextLoanId := some (w.storage.nextLoanId.getD 0 + 1) })) [] :=
    Paid.of_same rfl rfl
  exact ⟨⟨config, hconfig, (stored.pay _).pay _⟩, by omega, by omega, rfl, rfl⟩

/-- A liquidation that went through, with the checks that later results need. -/
structure Liquidated (loanId : ℕ) (liquidator : A) (debtRepayment : ℤ)
    (answer : Option OraclePrice) (result : LiquidationResult) (config : LendingConfig A)
    (loan loan' : Loan A) (oraclePrice : OraclePrice) (liquidatorCollateral : ℤ)
    (w w' : QuickLendXWorld A) (contract : A) : Prop where
  repayment_pos : 0 < debtRepayment
  configured : w.storage.config = some config
  found : w.storage.loans loanId = some loan
  active : loan.status = .active
  answered : answer = some oraclePrice
  price_pos : 0 < oraclePrice.price
  eligible : ∃ ltv, ltvBps loan oraclePrice.price = .ok ltv ∧ config.maxLtvBps ≤ ltv
  amounts : seize config loan oraclePrice.price debtRepayment =
    .ok (liquidatorCollateral, result)
  reduced : Reduced loan loan' result
  storage : w'.storage = { w.storage with
    loans := Function.update w.storage.loans loanId (some loan') }
  paid : Paid w w' (liquidationPayments contract config liquidator liquidatorCollateral result)

omit [DecidableEq A] in
theorem freshPrice_eq_ok {env : Invocation A contract} {config : LendingConfig A}
    {answer : Option OraclePrice} {oraclePrice : OraclePrice}
    (h : freshPrice env config answer = .ok oraclePrice) :
    answer = some oraclePrice ∧ 0 < oraclePrice.price := by
  simp only [freshPrice, bind_eq_ok, require_eq_ok, orFail_eq_ok, pure_eq_ok, exists_const] at h
  obtain ⟨answered, rfl, hpos, -, -, rfl⟩ := h
  exact ⟨rfl, not_le.1 hpos⟩

theorem liquidate_eq_ok {env : Invocation A contract} {loanId : ℕ} {liquidator : A}
    {debtRepayment : ℤ} {answer : Option OraclePrice} {result : LiquidationResult}
    {w w' : QuickLendXWorld A}
    (h : liquidate env loanId liquidator debtRepayment answer w = .ok (result, w')) :
    ∃ config loan loan' oraclePrice liquidatorCollateral,
      Liquidated loanId liquidator debtRepayment answer result config loan loan' oraclePrice
        liquidatorCollateral w w' contract := by
  simp only [liquidate, loadConfig, bind_eq_ok, require_eq_ok, orFail_eq_ok, pure_eq_ok,
    exists_const, Prod.mk.injEq] at h
  obtain ⟨hpos, _, -, config, hconfig, loan, hloan, hactive, oraclePrice, hprice, ltv, hltv,
    helig, ⟨liquidatorCollateral, _⟩, hseize, loan', hreduce, w₁, hrepay, w₂, hpay, w₃,
    hpenalty, rfl, rfl⟩ := h
  obtain ⟨hanswer, hprice_pos⟩ := freshPrice_eq_ok hprice
  obtain ⟨-, rfl⟩ := Invocation.transfer_eq_ok.1 hrepay
  obtain ⟨-, rfl⟩ := Invocation.transfer_eq_ok.1 hpay
  have stored : Paid w (setLoan loanId loan' w) [] := Paid.of_same rfl rfl
  refine ⟨config, loan, loan', oraclePrice, liquidatorCollateral, not_le.1 hpos, hconfig, hloan,
    hactive, hanswer, hprice_pos, ⟨ltv, hltv, not_lt.1 helig⟩, hseize, reduceLoan_eq_ok hreduce,
    ?_, ?_⟩
  · split_ifs at hpenalty
    · obtain ⟨-, rfl⟩ := Invocation.transfer_eq_ok.1 hpenalty
      rfl
    · cases hpenalty
      rfl
  · unfold liquidationPayments
    split_ifs at hpenalty ⊢
    · obtain ⟨-, rfl⟩ := Invocation.transfer_eq_ok.1 hpenalty
      exact (((stored.pay _).pay _).pay _).congr rfl rfl rfl rfl
    · cases hpenalty
      exact ((stored.pay _).pay _).congr rfl rfl rfl rfl

/-- What a successful call can have done to a world. -/
inductive Effect (env : Invocation A contract) (op : Operation A) (w w' : QuickLendXWorld A) :
    Prop where
  | initialised (args : InitializeArgs A) (isInit : op = .initializeLending args)
      (vacant : w.storage.config = none)
      (valid : args.maxLtvBps ≤ 10000 ∧ args.liquidationPenaltyBps ≤ 10000 ∧
        args.liquidatorRewardBps ≤ 10000)
      (same : w' = w.store ⟨some args.config, fun _ => none, some 0⟩)
  | funded (funder : A) (amount : ℤ) (isFund : op = .fundPool funder amount)
      (storage : w'.storage = w.storage) (paid : ∃ t, Paid w w' [t])
  | opened (borrower : A) (debtAmount collateralAmount : ℤ) (loanId : ℕ)
      (isOpen : op = .openLoan borrower debtAmount collateralAmount)
      (result : Opened borrower debtAmount collateralAmount loanId w w' contract)
  | liquidated (loanId : ℕ) (liquidator : A) (debtRepayment : ℤ) (answer : Option OraclePrice)
      (isLiquidate : op = .liquidate loanId liquidator debtRepayment answer)
      (result : LiquidationResult) (config : LendingConfig A) (loan loan' : Loan A)
      (oraclePrice : OraclePrice) (liquidatorCollateral : ℤ)
      (liquidated : Liquidated loanId liquidator debtRepayment answer result config loan loan'
        oraclePrice liquidatorCollateral w w' contract)
  | idle (same : w' = w) (isRead : ∀ loanId liquidator debtRepayment answer,
      op ≠ .liquidate loanId liquidator debtRepayment answer)

theorem invoke_cases {env : Invocation A contract} {op : Operation A} {w w' : QuickLendXWorld A}
    (h : invoke env op w = .ok w') : Effect env op w w' := by
  cases op with
  | initializeLending args =>
    simp only [invoke, initializeLending, bind_eq_ok, require_eq_ok, pure_eq_ok,
      exists_const] at h
    obtain ⟨hvacant, hvalid, _, -, rfl⟩ := h
    exact .initialised args rfl (by simpa using hvacant) (by omega) rfl
  | fundPool funder amount =>
    simp only [invoke, fundPool, bind_eq_ok] at h
    obtain ⟨_, -, config, -, _, -, hpay⟩ := h
    obtain ⟨-, rfl⟩ := Invocation.transfer_eq_ok.1 hpay
    exact .funded funder amount rfl rfl ⟨_, (Paid.of_same rfl rfl).pay _⟩
  | openLoan borrower debtAmount collateralAmount =>
    obtain ⟨⟨loanId, _⟩, hopen, rfl⟩ := map_eq_ok.1 h
    exact .opened borrower debtAmount collateralAmount loanId rfl (openLoan_eq_ok hopen)
  | liquidate loanId liquidator debtRepayment answer =>
    obtain ⟨⟨result, _⟩, hliquidate, rfl⟩ := map_eq_ok.1 h
    obtain ⟨config, loan, loan', oraclePrice, collateral, liquidated⟩ :=
      liquidate_eq_ok hliquidate
    exact .liquidated loanId liquidator debtRepayment answer rfl result config loan loan'
      oraclePrice collateral liquidated
  | getConfig =>
    obtain ⟨_, -, rfl⟩ := map_eq_ok.1 h
    exact .idle rfl (by simp)
  | getLoan loanId =>
    obtain ⟨_, -, rfl⟩ := map_eq_ok.1 h
    exact .idle rfl (by simp)
  | loanLtvBps loanId answer =>
    obtain ⟨_, -, rfl⟩ := map_eq_ok.1 h
    exact .idle rfl (by simp)
  | isLiquidatable loanId answer =>
    obtain ⟨_, -, rfl⟩ := map_eq_ok.1 h
    exact .idle rfl (by simp)

end MobileMoney.QuickLendX
