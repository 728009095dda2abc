import MobileMoney.Library.MachineInt
import MobileMoney.Soroban.Host
import Mathlib.Logic.Function.Basic

/-!
# The QuickLendX lending contract

`contracts/quicklendx-contracts`: a borrower deposits collateral and takes a loan from the
pool; once the loan-to-value ratio at the oracle's price reaches the limit, anybody can
repay debt against collateral. What the oracle answers is part of a call, `none` where the
oracle traps. The analytics and TTL extensions are left out.
-/

namespace MobileMoney.QuickLendX

open Soroban MachineInt

variable {A : Type}

def bpsDenominator : ℤ := 10000

inductive QuickLendXError where
  | alreadyInitialized
  | notInitialized
  | invalidAmount
  | invalidParameter
  | loanNotFound
  | loanNotActive
  | staleOraclePrice
  | invalidOraclePrice
  | loanNotLiquidatable
  | overflow
  deriving DecidableEq, Repr

structure LendingConfig (A : Type) where
  admin : A
  debtToken : A
  collateralToken : A
  oracle : A
  maxPriceStalenessSeconds : ℕ
  maxLtvBps : ℕ
  liquidationPenaltyBps : ℕ
  liquidatorRewardBps : ℕ
  feeRecipient : A
  deriving DecidableEq, Repr

structure OraclePrice where
  price : ℤ
  timestamp : ℕ
  deriving DecidableEq, Repr

inductive LoanStatus where
  | active
  | closed
  | liquidated
  deriving DecidableEq, Repr

structure Loan (A : Type) where
  id : ℕ
  borrower : A
  debtAmount : ℤ
  collateralAmount : ℤ
  status : LoanStatus
  deriving DecidableEq, Repr

structure LiquidationResult where
  debtRepaid : ℤ
  collateralSeized : ℤ
  penalty : ℤ
  liquidatorReward : ℤ
  deriving DecidableEq, Repr

inductive Published (A : Type) where
  | collateralLiquidated (loanId : ℕ) (borrower liquidator : A) (result : LiquidationResult)
  deriving DecidableEq, Repr

/-- Instance storage under `Config`, `Loans` and `NextLoanId`. An absent map of loans is read
as an empty one, and an absent next id as zero. -/
structure Storage (A : Type) where
  config : Option (LendingConfig A)
  loans : ℕ → Option (Loan A)
  nextLoanId : Option ℕ

abbrev QuickLendXWorld (A : Type) := World A (Storage A) (Published A)

abbrev Result (α : Type) := Outcome QuickLendXError α

variable {contract : A}

def loadConfig (w : QuickLendXWorld A) : Result (LendingConfig A) :=
  orFail w.storage.config (.error .notInitialized)

/-- The id of the next loan, with the successor already stored. -/
def takeLoanId (w : QuickLendXWorld A) : Result (ℕ × QuickLendXWorld A) := do
  let id := w.storage.nextLoanId.getD 0
  require ((id + 1 : ℕ) ≤ u64.max) .arithmetic
  return (id, w.store { w.storage with nextLoanId := some (id + 1) })

def setLoan (loanId : ℕ) (loan : Loan A) (w : QuickLendXWorld A) : QuickLendXWorld A :=
  w.store { w.storage with loans := Function.update w.storage.loans loanId (some loan) }

def ltvBps (loan : Loan A) (price : ℤ) : Result ℤ := do
  let collateralValue ← orFail (i128.checkedMul loan.collateralAmount price) (.error .overflow)
  if collateralValue ≤ 0 then
    return i128.max
  else
    let scaled ← orFail (i128.checkedMul loan.debtAmount bpsDenominator) (.error .overflow)
    orFail (i128.checkedDiv scaled collateralValue) (.error .overflow)

def divCeil (value divisor : ℤ) : Result ℤ := do
  let below ← orFail (i128.checkedSub divisor 1) .arithmetic
  let sum ← orFail (i128.checkedAdd value below) (.error .overflow)
  orFail (i128.checkedDiv sum divisor) (.error .overflow)

/-- `value.checked_mul(bps)?.checked_div(BPS_DENOMINATOR)?`. -/
def partBps (value : ℤ) (bps : ℕ) : Result ℤ := do
  let scaled ← orFail (i128.checkedMul value bps) (.error .overflow)
  orFail (i128.checkedDiv scaled bpsDenominator) (.error .overflow)

/-- `answer` is what `get_price` of the configured oracle returns. -/
def freshPrice (env : Invocation A contract) (config : LendingConfig A)
    (answer : Option OraclePrice) : Result OraclePrice := do
  let oraclePrice ← orFail answer (.panic "get_price")
  require (¬ oraclePrice.price ≤ 0) (.error .invalidOraclePrice)
  let now := env.timestamp
  require (¬ now < oraclePrice.timestamp) (.error .invalidOraclePrice)
  require (¬ config.maxPriceStalenessSeconds < now - oraclePrice.timestamp)
    (.error .staleOraclePrice)
  return oraclePrice

structure InitializeArgs (A : Type) where
  admin : A
  debtToken : A
  collateralToken : A
  oracle : A
  maxPriceStalenessSeconds : ℕ
  maxLtvBps : ℕ
  liquidationPenaltyBps : ℕ
  liquidatorRewardBps : ℕ
  feeRecipient : A
  deriving DecidableEq, Repr

def InitializeArgs.config (args : InitializeArgs A) : LendingConfig A where
  admin := args.admin
  debtToken := args.debtToken
  collateralToken := args.collateralToken
  oracle := args.oracle
  maxPriceStalenessSeconds := args.maxPriceStalenessSeconds
  maxLtvBps := args.maxLtvBps
  liquidationPenaltyBps := args.liquidationPenaltyBps
  liquidatorRewardBps := args.liquidatorRewardBps
  feeRecipient := args.feeRecipient

def initializeLending (env : Invocation A contract) (args : InitializeArgs A)
    (w : QuickLendXWorld A) : Result (QuickLendXWorld A) := do
  require (w.storage.config.isSome = false) (.error .alreadyInitialized)
  require (¬ (args.maxPriceStalenessSeconds = 0 ∨ args.maxLtvBps = 0 ∨ 10000 < args.maxLtvBps ∨
    10000 < args.liquidationPenaltyBps ∨ 10000 < args.liquidatorRewardBps))
    (.error .invalidParameter)
  env.requireAuth args.admin
  return w.store ⟨some args.config, fun _ => none, some 0⟩

variable [DecidableEq A]

def fundPool (env : Invocation A contract) (funder : A) (amount : ℤ) (w : QuickLendXWorld A) :
    Result (QuickLendXWorld A) := do
  require (¬ amount ≤ 0) (.error .invalidAmount)
  let config ← loadConfig w
  env.requireAuth funder
  env.transfer ⟨config.debtToken, funder, contract, amount⟩ w

def openLoan (env : Invocation A contract) (borrower : A) (debtAmount collateralAmount : ℤ)
    (w : QuickLendXWorld A) : Result (ℕ × QuickLendXWorld A) := do
  require (¬ (debtAmount ≤ 0 ∨ collateralAmount ≤ 0)) (.error .invalidAmount)
  let config ← loadConfig w
  env.requireAuth borrower
  let (loanId, w) ← takeLoanId w
  let w := setLoan loanId ⟨loanId, borrower, debtAmount, collateralAmount, .active⟩ w
  let w ← env.transfer ⟨config.collateralToken, borrower, contract, collateralAmount⟩ w
  let w ← env.transfer ⟨config.debtToken, contract, borrower, debtAmount⟩ w
  return (loanId, w)

/-- What a liquidation at `price` takes from the loan, in the order of the source: the debt
repaid, the collateral for the liquidator, the collateral seized and the result. -/
def seize (config : LendingConfig A) (loan : Loan A) (price debtRepayment : ℤ) :
    Result (ℤ × LiquidationResult) := do
  let debtRepaid := min debtRepayment loan.debtAmount
  let baseCollateral ← divCeil debtRepaid price
  let requestedPenalty ← partBps baseCollateral config.liquidationPenaltyBps
  let requestedReward ← partBps requestedPenalty config.liquidatorRewardBps
  let requestedSeized ← orFail (i128.checkedAdd baseCollateral requestedPenalty)
    (.error .overflow)
  let rewarded ← orFail (i128.checkedAdd baseCollateral requestedReward) (.error .overflow)
  let liquidatorCollateral := min rewarded loan.collateralAmount
  let collateralSeized := min requestedSeized loan.collateralAmount
  let protocolPenalty := i128.saturatingSub collateralSeized liquidatorCollateral
  let liquidatorReward := i128.saturatingSub liquidatorCollateral baseCollateral
  return (liquidatorCollateral,
    ⟨debtRepaid, collateralSeized, protocolPenalty, liquidatorReward⟩)

/-- The loan after a liquidation. -/
def reduceLoan (loan : Loan A) (result : LiquidationResult) : Result (Loan A) := do
  let debtAmount ← orFail (i128.checkedSub loan.debtAmount result.debtRepaid) (.error .overflow)
  let collateralAmount ← orFail
    (i128.checkedSub loan.collateralAmount result.collateralSeized) (.error .overflow)
  let status :=
    if debtAmount = 0 then .closed
    else if collateralAmount = 0 then .liquidated
    else loan.status
  return { loan with
    debtAmount := debtAmount, collateralAmount := collateralAmount, status := status }

def liquidate (env : Invocation A contract) (loanId : ℕ) (liquidator : A) (debtRepayment : ℤ)
    (answer : Option OraclePrice) (w : QuickLendXWorld A) :
    Result (LiquidationResult × QuickLendXWorld A) := do
  require (¬ debtRepayment ≤ 0) (.error .invalidAmount)
  env.requireAuth liquidator
  let config ← loadConfig w
  let loan ← orFail (w.storage.loans loanId) (.error .loanNotFound)
  require (loan.status = .active) (.error .loanNotActive)
  let oraclePrice ← freshPrice env config answer
  let ltv ← ltvBps loan oraclePrice.price
  require (¬ ltv < config.maxLtvBps) (.error .loanNotLiquidatable)
  let (liquidatorCollateral, result) ← seize config loan oraclePrice.price debtRepayment
  let loan ← reduceLoan loan result
  let w := setLoan loanId loan w
  let w ← env.transfer ⟨config.debtToken, liquidator, contract, result.debtRepaid⟩ w
  let w ← env.transfer ⟨config.collateralToken, contract, liquidator, liquidatorCollateral⟩ w
  let w ← (if 0 < result.penalty then
      env.transfer ⟨config.collateralToken, contract, config.feeRecipient, result.penalty⟩ w
    else .ok w)
  return (result, w.publish (.collateralLiquidated loanId loan.borrower liquidator result))

/-! ## Reads -/

omit [DecidableEq A] in
def getLoan (loanId : ℕ) (w : QuickLendXWorld A) : Result (Loan A) :=
  orFail (w.storage.loans loanId) (.error .loanNotFound)

omit [DecidableEq A] in
def loanLtvBps (env : Invocation A contract) (loanId : ℕ) (answer : Option OraclePrice)
    (w : QuickLendXWorld A) : Result ℤ := do
  let config ← loadConfig w
  let loan ← getLoan loanId w
  let oraclePrice ← freshPrice env config answer
  ltvBps loan oraclePrice.price

omit [DecidableEq A] in
def isLiquidatable (env : Invocation A contract) (loanId : ℕ) (answer : Option OraclePrice)
    (w : QuickLendXWorld A) : Result Bool := do
  let config ← loadConfig w
  let loan ← getLoan loanId w
  if loan.status ≠ .active then
    return false
  else
    let oraclePrice ← freshPrice env config answer
    let ltv ← ltvBps loan oraclePrice.price
    return decide ((config.maxLtvBps : ℤ) ≤ ltv)

inductive Operation (A : Type) where
  | initializeLending (args : InitializeArgs A)
  | fundPool (funder : A) (amount : ℤ)
  | openLoan (borrower : A) (debtAmount collateralAmount : ℤ)
  | liquidate (loanId : ℕ) (liquidator : A) (debtRepayment : ℤ) (answer : Option OraclePrice)
  | getConfig
  | getLoan (loanId : ℕ)
  | loanLtvBps (loanId : ℕ) (answer : Option OraclePrice)
  | isLiquidatable (loanId : ℕ) (answer : Option OraclePrice)
  deriving DecidableEq, Repr

def invoke (env : Invocation A contract) (op : Operation A) (w : QuickLendXWorld A) :
    Result (QuickLendXWorld A) :=
  match op with
  | .initializeLending args => initializeLending env args w
  | .fundPool funder amount => fundPool env funder amount w
  | .openLoan borrower debtAmount collateralAmount =>
    (openLoan env borrower debtAmount collateralAmount w).map Prod.snd
  | .liquidate loanId liquidator debtRepayment answer =>
    (liquidate env loanId liquidator debtRepayment answer w).map Prod.snd
  | .getConfig => (loadConfig w).map fun _ => w
  | .getLoan loanId => (getLoan loanId w).map fun _ => w
  | .loanLtvBps loanId answer => (loanLtvBps env loanId answer w).map fun _ => w
  | .isLiquidatable loanId answer => (isLiquidatable env loanId answer w).map fun _ => w

/-- A deployed contract that has not been initialised. -/
def deployed (balances : A → A → ℤ) : QuickLendXWorld A where
  storage := ⟨none, fun _ => none, none⟩
  balances := balances
  transfers := []
  events := []

end MobileMoney.QuickLendX
