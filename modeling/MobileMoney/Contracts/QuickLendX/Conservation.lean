import MobileMoney.Contracts.QuickLendX.Effects
import MobileMoney.Library.Runs
import MobileMoney.Library.Tally

/-!
# Conservation of collateral

What borrowers have deposited as collateral and liquidations have not paid out is held by
the stored loans. A loan that is no longer active never changes.

`open_loan` asks no oracle and compares debt and collateral with nothing. Whether a new
loan is below the limit at the price of the moment is up to the amounts the borrower
chose.
-/

namespace MobileMoney.QuickLendX

open Soroban MachineInt

section Conservation

variable {A : Type} [DecidableEq A] {contract : A}

/-! ## The invariant -/

/-- The rates are those `initialize` admits, the loans are those with an id below the next
one, and all of them are sound. -/
structure Lending (w : QuickLendXWorld A) : Prop where
  rates : ∀ config, w.storage.config = some config → config.maxLtvBps ≤ 10000 ∧
    config.liquidationPenaltyBps ≤ 10000 ∧ config.liquidatorRewardBps ≤ 10000
  vacant : w.storage.config = none →
    (∀ id, w.storage.loans id = none) ∧ w.storage.nextLoanId = none
  ids : ∀ id, w.storage.loans id ≠ none ↔ id < w.storage.nextLoanId.getD 0
  sound : ∀ id loan, w.storage.loans id = some loan → loan.id = id ∧ loan.Sound

omit [DecidableEq A] in
theorem deployed_lending (balances : A → A → ℤ) : Lending (deployed balances) where
  rates _ h := by cases h
  vacant _ := ⟨fun _ => rfl, rfl⟩
  ids id := by simp [deployed]
  sound _ _ h := by cases h

omit [DecidableEq A] in
/-- Only the storage counts. -/
theorem Lending.congr {w w' : QuickLendXWorld A} (hw : Lending w)
    (same : w'.storage = w.storage) : Lending w' := by
  obtain ⟨rates, vacant, ids, sound⟩ := hw
  rw [← same] at rates vacant ids sound
  exact ⟨rates, vacant, ids, sound⟩

variable {env : Invocation A contract} {op : Operation A} {w w' : QuickLendXWorld A}

theorem Liquidated.seized {loanId : ℕ} {liquidator : A} {debtRepayment : ℤ}
    {answer : Option OraclePrice} {result : LiquidationResult} {config : LendingConfig A}
    {loan loan' : Loan A} {oraclePrice : OraclePrice} {liquidatorCollateral : ℤ}
    (hw : Lending w)
    (liquidated : Liquidated loanId liquidator debtRepayment answer result config loan loan'
      oraclePrice liquidatorCollateral w w' contract) :
    Seized config loan oraclePrice.price debtRepayment liquidatorCollateral result := by
  have sound := (hw.sound loanId loan liquidated.found).2
  exact seize_eq_ok liquidated.price_pos liquidated.repayment_pos sound.debt_nonneg
    sound.collateral_nonneg (hw.rates config liquidated.configured).2.2 liquidated.amounts

theorem Effect.lending (hw : Lending w) (h : Effect env op w w') : Lending w' := by
  cases h with
  | initialised args isInit vacant valid same =>
    subst same
    refine ⟨?_, fun hnone => ?_, fun id => by simp, fun _ _ h => by cases h⟩
    · rintro config ⟨⟩
      exact valid
    · cases hnone
  | funded funder amount isFund storage paid => exact hw.congr storage
  | opened borrower debtAmount collateralAmount loanId isOpen result =>
    obtain ⟨⟨config, hconfig, -⟩, hdebt, hcollateral, hid, storage⟩ := result
    refine ⟨?_, ?_, ?_, ?_⟩
    · rw [storage]
      exact hw.rates
    · rw [storage]
      simp [hconfig]
    · intro id
      have := hw.ids id
      rw [storage]
      simp only [Function.update_apply, Option.getD_some]
      split_ifs with heq
      · simp [heq]
      · rw [this]
        omega
    · intro id loan
      rw [storage]
      simp only [Function.update_apply]
      split_ifs with heq
      · rintro ⟨⟩
        exact ⟨heq.symm, hdebt.le, hcollateral.le, fun _ => ⟨hdebt, hcollateral⟩, by simp,
          by simp⟩
      · exact hw.sound id loan
  | liquidated loanId liquidator debtRepayment answer isLiquidate result config loan loan'
      oraclePrice liquidatorCollateral liquidated =>
    have seized := liquidated.seized hw
    have storage := liquidated.storage
    refine ⟨?_, ?_, ?_, ?_⟩
    · rw [storage]
      exact hw.rates
    · rw [storage]
      simp [liquidated.configured]
    · intro id
      rw [storage]
      simp only [Function.update_apply]
      split_ifs with heq
      · rw [← hw.ids id, heq, liquidated.found]
        simp
      · exact hw.ids id
    · intro id other
      rw [storage]
      simp only [Function.update_apply]
      split_ifs with heq
      · rintro ⟨⟩
        refine ⟨?_, liquidated.reduced.sound liquidated.active ?_ ?_⟩
        · rw [liquidated.reduced.id, heq]
          exact (hw.sound loanId loan liquidated.found).1
        · rw [seized.debtRepaid]
          exact min_le_right _ _
        · rw [seized.seized]
          exact min_le_right _ _
      · exact hw.sound id other
  | idle same isRead => exact same ▸ hw

theorem lending_invariant : Invariant (@invoke A contract _) Lending where
  outside _ hw _ := hw.congr rfl
  call _ _ _ _ hw h := (invoke_cases h).lending hw

/-! ## Collateral in and out -/

/-- The collateral of an entry of the map of loans. -/
def entryCollateral (entry : Option (Loan A)) : ℤ := entry.elim 0 Loan.collateralAmount

/-- The collateral of all stored loans. -/
def heldCollateral (w : QuickLendXWorld A) : ℤ :=
  ∑ id ∈ Finset.range (w.storage.nextLoanId.getD 0), entryCollateral (w.storage.loans id)

/-- The transfers that one event adds. -/
def newTransfers (w : QuickLendXWorld A) (e : Event A contract (Operation A)) :
    List (Transfer A) :=
  (step invoke w e).transfers.drop w.transfers.length

/-- The collateral deposited: the first transfer of `open_loan`. -/
def collateralIn (w : QuickLendXWorld A) (e : Event A contract (Operation A)) : List ℤ :=
  match e with
  | .call _ (.openLoan _ _ _) => ((newTransfers w e).take 1).map (·.amount)
  | _ => []

/-- The collateral paid out: what `liquidate` transfers after the repayment. -/
def collateralOut (w : QuickLendXWorld A) (e : Event A contract (Operation A)) : List ℤ :=
  match e with
  | .call _ (.liquidate _ _ _ _) => ((newTransfers w e).drop 1).map (·.amount)
  | _ => []

def deposited (w : QuickLendXWorld A) (es : List (Event A contract (Operation A))) : ℤ :=
  (Runs.collect (step invoke) collateralIn w es).sum

def paidOut (w : QuickLendXWorld A) (es : List (Event A contract (Operation A))) : ℤ :=
  (Runs.collect (step invoke) collateralOut w es).sum

theorem newTransfers_of_ok (h : invoke env op w = .ok w') {ts : List (Transfer A)}
    (paid : Paid w w' ts) : newTransfers w (.call env op) = ts := by
  rw [newTransfers, step, h]
  dsimp only
  rw [paid.transfers, List.drop_left]

theorem newTransfers_of_error {failure : Failure QuickLendXError}
    (h : invoke env op w = .error failure) : newTransfers w (.call env op) = [] := by
  rw [newTransfers, step, h]
  exact List.drop_length

/-- Without transfers no collateral moves. -/
theorem no_flow {e : Event A contract (Operation A)} (h : newTransfers w e = []) :
    (collateralIn w e).sum = 0 ∧ (collateralOut w e).sum = 0 := by
  unfold collateralIn collateralOut
  constructor
  · split <;> simp [h]
  · split <;> simp [h]

omit [DecidableEq A] in
/-- The amounts paid out by a liquidation are the collateral seized. -/
theorem sum_liquidationPayments {config : LendingConfig A} {loan : Loan A}
    {price debtRepayment : ℤ} {liquidatorCollateral : ℤ} {result : LiquidationResult}
    (seized : Seized config loan price debtRepayment liquidatorCollateral result)
    (liquidator : A) :
    (((liquidationPayments contract config liquidator liquidatorCollateral result).drop 1).map
      (·.amount)).sum = result.collateralSeized := by
  have hsplit := seized.split
  have hpenalty := seized.penalty_nonneg
  unfold liquidationPayments
  split_ifs
  · simpa using hsplit
  · have hzero : result.penalty = 0 := by omega
    simpa [hzero] using hsplit

theorem heldCollateral_call (hw : Lending w) (h : invoke env op w = .ok w') :
    heldCollateral w' = heldCollateral w + (collateralIn w (.call env op)).sum -
      (collateralOut w (.call env op)).sum := by
  cases invoke_cases h with
  | initialised args isInit vacant valid same =>
    obtain ⟨-, hnext⟩ := hw.vacant vacant
    subst isInit same
    simp [heldCollateral, hnext, collateralIn, collateralOut]
  | funded funder amount isFund storage paid =>
    subst isFund
    simp [heldCollateral, storage, collateralIn, collateralOut]
  | opened borrower debtAmount collateralAmount loanId isOpen result =>
    obtain ⟨⟨config, hconfig, paid⟩, hdebt, hcollateral, rfl, storage⟩ := result
    subst isOpen
    have hin : (collateralIn w (.call env (.openLoan borrower debtAmount collateralAmount))).sum =
        collateralAmount := by
      simp [collateralIn, newTransfers_of_ok h paid]
    rw [hin, heldCollateral, storage]
    simp only [Option.getD_some, collateralOut, List.sum_nil, sub_zero]
    exact Tally.sum_range_succ_update _ entryCollateral _ _
  | liquidated loanId liquidator debtRepayment answer isLiquidate result config loan loan'
      oraclePrice liquidatorCollateral liquidated =>
    have seized := liquidated.seized hw
    have hout : (collateralOut w
        (.call env (.liquidate loanId liquidator debtRepayment answer))).sum =
        result.collateralSeized := by
      rw [collateralOut, newTransfers_of_ok (isLiquidate ▸ h) liquidated.paid,
        sum_liquidationPayments seized]
    have hid : loanId ∈ Finset.range (w.storage.nextLoanId.getD 0) := by
      rw [Finset.mem_range, ← hw.ids, liquidated.found]
      simp
    have hsum := Tally.sum_update _ entryCollateral w.storage.loans hid (some loan')
    have hcollateral := liquidated.reduced.collateral
    rw [liquidated.found] at hsum
    simp only [entryCollateral, Option.elim_some] at hsum
    rw [isLiquidate, hout, heldCollateral, heldCollateral, liquidated.storage]
    simp only [entryCollateral, collateralIn, List.sum_nil]
    omega
  | idle same isRead =>
    subst same
    obtain ⟨hin, hout⟩ := no_flow (newTransfers_of_ok h (Paid.of_same rfl rfl))
    omega

theorem heldCollateral_step (hw : Lending w) (e : Event A contract (Operation A)) :
    heldCollateral (step invoke w e) = heldCollateral w + (collateralIn w e).sum -
      (collateralOut w e).sum := by
  cases e with
  | outside move => simp [heldCollateral, step, collateralIn, collateralOut]
  | call env op =>
    cases h : invoke env op w with
    | ok w' =>
      rw [step_of_ok h]
      exact heldCollateral_call hw h
    | error failure =>
      obtain ⟨hin, hout⟩ := no_flow (newTransfers_of_error h)
      rw [step_of_error h]
      omega

theorem heldCollateral_run (hw : Lending w) (es : List (Event A contract (Operation A))) :
    heldCollateral (run invoke w es) = heldCollateral w + deposited w es - paidOut w es := by
  induction es generalizing w with
  | nil => simp [deposited, paidOut]
  | cons e es ih =>
    have hstep := heldCollateral_step hw e
    have hrest := ih (lending_invariant.step hw e)
    unfold deposited paidOut at hrest ⊢
    rw [run_cons, hrest, hstep, Runs.collect_cons, Runs.collect_cons, List.sum_append,
      List.sum_append]
    ring

/-! ## Finality -/

/-- Only an active loan is ever written again. -/
theorem Effect.final (hw : Lending w) (h : Effect env op w w') {id : ℕ} {loan : Loan A}
    (found : w.storage.loans id = some loan) (inactive : loan.status ≠ .active) :
    w'.storage.loans id = some loan := by
  cases h with
  | initialised args isInit vacant valid same =>
    simp [(hw.vacant vacant).1 id] at found
  | funded funder amount isFund storage paid =>
    rw [storage]
    exact found
  | opened borrower debtAmount collateralAmount loanId isOpen result =>
    have hlt : id < loanId := by
      rw [result.loanId_eq, ← hw.ids, found]
      simp
    rw [result.storage]
    exact (Function.update_of_ne hlt.ne _ _).trans found
  | liquidated loanId liquidator debtRepayment answer isLiquidate result config loan' loan''
      oraclePrice liquidatorCollateral liquidated =>
    have hne : id ≠ loanId := by
      rintro rfl
      obtain rfl := Option.some.inj (found.symm.trans liquidated.found)
      exact inactive liquidated.active
    rw [liquidated.storage]
    exact (Function.update_of_ne hne _ _).trans found
  | idle same isRead => exact same ▸ found

theorem final_run (hw : Lending w) {id : ℕ} {loan : Loan A}
    (found : w.storage.loans id = some loan) (inactive : loan.status ≠ .active)
    (es : List (Event A contract (Operation A))) :
    (run invoke w es).storage.loans id = some loan := by
  have kept : Invariant (@invoke A contract _)
      fun w : QuickLendXWorld A => Lending w ∧ w.storage.loans id = some loan :=
    ⟨fun _ hw _ => ⟨hw.1.congr rfl, hw.2⟩, fun _ _ _ _ hw h =>
      ⟨(invoke_cases h).lending hw.1, (invoke_cases h).final hw.1 hw.2 inactive⟩⟩
  exact (kept.run ⟨hw, found⟩ es).2

/-! ## The law -/

/-- What a liquidation takes from its loan, and whom it pays. -/
def SeizureLaw (contract : A) (loanId : ℕ) (liquidator : A) (result : LiquidationResult)
    (w w' : QuickLendXWorld A) : Prop :=
  ∃ config loan loan' liquidatorCollateral,
    w.storage.config = some config ∧ w.storage.loans loanId = some loan ∧
    w'.storage.loans = Function.update w.storage.loans loanId (some loan') ∧
    Paid w w' (liquidationPayments contract config liquidator liquidatorCollateral result) ∧
    0 ≤ liquidatorCollateral ∧ 0 ≤ result.penalty ∧
    liquidatorCollateral + result.penalty = result.collateralSeized ∧
    result.collateralSeized = loan.collateralAmount - loan'.collateralAmount ∧
    result.collateralSeized ≤ loan.collateralAmount ∧
    result.debtRepaid = loan.debtAmount - loan'.debtAmount ∧
    0 < result.debtRepaid ∧ result.debtRepaid ≤ loan.debtAmount

theorem liquidate_seizes {loanId : ℕ} {liquidator : A} {debtRepayment : ℤ}
    {answer : Option OraclePrice} {result : LiquidationResult} (hw : Lending w)
    (h : liquidate env loanId liquidator debtRepayment answer w = .ok (result, w')) :
    SeizureLaw contract loanId liquidator result w w' := by
  obtain ⟨config, loan, loan', oraclePrice, liquidatorCollateral, liquidated⟩ :=
    liquidate_eq_ok h
  have seized := liquidated.seized hw
  have hdebt := liquidated.reduced.debt
  have hcollateral := liquidated.reduced.collateral
  have hrepaid := seized.debtRepaid
  have hseized := seized.seized
  have hpos := liquidated.repayment_pos
  have owed := ((hw.sound loanId loan liquidated.found).2.active liquidated.active).1
  refine ⟨config, loan, loan', liquidatorCollateral, liquidated.configured, liquidated.found,
    by rw [liquidated.storage], liquidated.paid, seized.liquidator_nonneg,
    seized.penalty_nonneg, seized.split, ?_, ?_, ?_, ?_, ?_⟩ <;> omega

/-- Over every run: the collateral deposited and not paid out is held by the stored loans,
each liquidation pays out exactly what its loan loses, and a loan that is not active never
changes again. -/
theorem quicklendx_conserves (balances : A → A → ℤ)
    (es : List (Event A contract (Operation A))) :
    let w := run invoke (deployed balances) es
    deposited (deployed balances) es - paidOut (deployed balances) es = heldCollateral w ∧
    (∀ id, w.storage.loans id ≠ none ↔ id < w.storage.nextLoanId.getD 0) ∧
    (∀ (env : Invocation A contract) borrower debtAmount collateralAmount loanId w',
      openLoan env borrower debtAmount collateralAmount w = .ok (loanId, w') →
      Opened borrower debtAmount collateralAmount loanId w w' contract) ∧
    (∀ (env : Invocation A contract) loanId liquidator debtRepayment answer result w',
      liquidate env loanId liquidator debtRepayment answer w = .ok (result, w') →
      SeizureLaw contract loanId liquidator result w w') ∧
    ∀ id loan, w.storage.loans id = some loan → loan.status ≠ .active →
      ∀ fs : List (Event A contract (Operation A)),
        (run invoke w fs).storage.loans id = some loan := by
  intro w
  have start : Lending (deployed balances) := deployed_lending balances
  have kept : Lending w := lending_invariant.run start es
  refine ⟨?_, kept.ids, fun _ _ _ _ _ _ h => openLoan_eq_ok h,
    fun _ _ _ _ _ _ _ h => liquidate_seizes kept h,
    fun _ _ found inactive fs => final_run kept found inactive fs⟩
  have hrun := heldCollateral_run start es
  have hzero : heldCollateral (deployed balances) = 0 := rfl
  change _ = heldCollateral (run invoke (deployed balances) es)
  omega

end Conservation

/-! ## Loans at their origination -/

variable {A : Type} {contract : A}

/-- The ratio can be computed in `i128` and is below the limit. -/
structure WithinLimit (config : LendingConfig A) (price debtAmount collateralAmount : ℤ) :
    Prop where
  value_fits : collateralAmount * price ≤ i128.max
  debt_fits : debtAmount * bpsDenominator ≤ i128.max
  covered : debtAmount * bpsDenominator < config.maxLtvBps * (collateralAmount * price)

/-- The loan's ratio at `price` is strictly below the limit. -/
def Healthy (w : QuickLendXWorld A) (loanId : ℕ) (price : ℤ) : Prop :=
  ∃ config loan ltv, w.storage.config = some config ∧ w.storage.loans loanId = some loan ∧
    ltvBps loan price = .ok ltv ∧ ltv < config.maxLtvBps

theorem ltvBps_lt_iff {config : LendingConfig A} (loan : Loan A) (price : ℤ)
    (hlimit : config.maxLtvBps ≤ 10000) (hdebt : 0 < loan.debtAmount) :
    (∃ ltv, ltvBps loan price = .ok ltv ∧ ltv < config.maxLtvBps) ↔
      WithinLimit config price loan.debtAmount loan.collateralAmount := by
  have hscaled : 0 < loan.debtAmount * bpsDenominator :=
    mul_pos hdebt (by norm_num [bpsDenominator])
  have hmin : i128.min ≤ 0 := by norm_num [i128]
  constructor
  · rintro ⟨ltv, hltv, hlt⟩
    simp only [ltvBps, bind_eq_ok, orFail_eq_ok] at hltv
    obtain ⟨value, hvalue, hrest⟩ := hltv
    obtain ⟨rfl, -, hvalue_max⟩ := IntType.checked_eq_some.1 hvalue
    split_ifs at hrest with hpos
    · -- Worthless collateral is reported as the greatest ratio there is.
      obtain rfl := pure_eq_ok.1 hrest
      norm_num [i128] at hlt
      omega
    · simp only [bind_eq_ok, orFail_eq_ok] at hrest
      obtain ⟨scaled, hmul, hdiv⟩ := hrest
      obtain ⟨rfl, -, hscaled_max⟩ := IntType.checked_eq_some.1 hmul
      rw [IntType.checkedDiv, if_neg (by omega)] at hdiv
      obtain rfl := (IntType.checked_eq_some.1 hdiv).1
      rw [Int.tdiv_eq_ediv_of_nonneg hscaled.le] at hlt
      exact ⟨hvalue_max, hscaled_max, (Int.ediv_lt_iff_lt_mul (not_le.1 hpos)).1 hlt⟩
  · rintro ⟨hvalue_max, hscaled_max, hcovered⟩
    have hvalue : 0 < loan.collateralAmount * price :=
      pos_of_mul_pos_right (hscaled.trans hcovered) (Int.natCast_nonneg _)
    have hratio : 0 ≤ (loan.debtAmount * bpsDenominator).tdiv (loan.collateralAmount * price) :=
      Int.tdiv_nonneg hscaled.le hvalue.le
    have hratio_lt : (loan.debtAmount * bpsDenominator).tdiv (loan.collateralAmount * price) <
        config.maxLtvBps := by
      rw [Int.tdiv_eq_ediv_of_nonneg hscaled.le]
      exact (Int.ediv_lt_iff_lt_mul hvalue).2 hcovered
    have hmax : (config.maxLtvBps : ℤ) ≤ i128.max := by
      norm_num [i128]
      omega
    refine ⟨_, ?_, hratio_lt⟩
    simp only [ltvBps, bind_eq_ok, orFail_eq_ok]
    refine ⟨_, IntType.checked_of_mem (by omega) hvalue_max, ?_⟩
    rw [if_neg (by omega)]
    simp only [bind_eq_ok, orFail_eq_ok]
    refine ⟨_, IntType.checked_of_mem (by omega) hscaled_max, ?_⟩
    rw [IntType.checkedDiv, if_neg (by omega)]
    exact IntType.checked_of_mem (by omega) (by omega)

variable [DecidableEq A]

/-- A healthy loan is not liquidated at that price. -/
theorem Healthy.not_liquidatable {w : QuickLendXWorld A} {loanId : ℕ} {price : ℤ}
    (healthy : Healthy w loanId price) (env : Invocation A contract) (liquidator : A)
    (debtRepayment : ℤ) (timestamp : ℕ) (r : LiquidationResult × QuickLendXWorld A) :
    liquidate env loanId liquidator debtRepayment (some ⟨price, timestamp⟩) w ≠ .ok r := by
  intro h
  obtain ⟨config, loan, ltv, hconfig, hloan, hltv, hlt⟩ := healthy
  obtain ⟨config', loan', _, oraclePrice, _, liquidated⟩ := liquidate_eq_ok h
  obtain rfl := Option.some.inj (hconfig.symm.trans liquidated.configured)
  obtain rfl := Option.some.inj (hloan.symm.trans liquidated.found)
  obtain rfl := Option.some.inj liquidated.answered
  obtain ⟨ltv', hltv', hle⟩ := liquidated.eligible
  obtain rfl := Except.ok.inj (hltv.symm.trans hltv')
  omega

/-- A loan accepted in a reachable state is below the limit at a price exactly when the
amounts say so, and then it is not liquidatable at that price. -/
theorem open_loan_healthy_iff (balances : A → A → ℤ)
    (es : List (Event A contract (Operation A))) (env : Invocation A contract) (borrower : A)
    (debtAmount collateralAmount price : ℤ) (loanId : ℕ) (w' : QuickLendXWorld A)
    (opened : openLoan env borrower debtAmount collateralAmount
      (run invoke (deployed balances) es) = .ok (loanId, w')) :
    (Healthy w' loanId price ↔ ∃ config,
      (run invoke (deployed balances) es).storage.config = some config ∧
      WithinLimit config price debtAmount collateralAmount) ∧
    (Healthy w' loanId price → ∀ (env' : Invocation A contract) liquidator debtRepayment
      timestamp r, liquidate env' loanId liquidator debtRepayment
        (some ⟨price, timestamp⟩) w' ≠ .ok r) := by
  have kept : Lending (run invoke (deployed balances) es) :=
    lending_invariant.run (deployed_lending balances) es
  obtain ⟨⟨config, hconfig, -⟩, hdebt, -, -, storage⟩ := openLoan_eq_ok opened
  have hlimit := (kept.rates config hconfig).1
  refine ⟨?_, fun healthy env' => healthy.not_liquidatable env'⟩
  have iff_limit := ltvBps_lt_iff ⟨loanId, borrower, debtAmount, collateralAmount, .active⟩ price
    hlimit hdebt
  unfold Healthy
  rw [storage, hconfig]
  simp only [Function.update_self, Option.some.injEq]
  constructor
  · rintro ⟨_, _, ltv, rfl, rfl, hltv, hlt⟩
    exact ⟨config, rfl, iff_limit.1 ⟨ltv, hltv, hlt⟩⟩
  · rintro ⟨_, rfl, within⟩
    obtain ⟨ltv, hltv, hlt⟩ := iff_limit.2 within
    exact ⟨config, _, ltv, rfl, rfl, hltv, hlt⟩

/-! ## An unhealthy loan -/

section Unhealthy

/-- Debt in token 8, collateral in token 9, a limit of 80 %, a penalty of 10 % and half of it
as a reward. -/
def configured : List (Event ℕ 0 (Operation ℕ)) :=
  [.call (openInvocation 1) (.initializeLending ⟨1, 8, 9, 7, 3600, 8000, 1000, 5000, 2⟩)]

def funds (_token _holder : ℕ) : ℤ := 10000

/-- At price 2 a debt of 1000 on a collateral of 1000 is healthy. -/
theorem healthy_loan : ∃ w', openLoan (openInvocation 1) 3 1000 1000
    (run invoke (deployed funds) configured) = .ok (0, w') ∧ Healthy w' 0 2 := by
  obtain ⟨w', opened⟩ : ∃ w', openLoan (openInvocation 1) 3 1000 1000
      (run invoke (deployed funds) configured) = .ok (0, w') := ⟨_, rfl⟩
  have within : WithinLimit (InitializeArgs.config (⟨1, 8, 9, 7, 3600, 8000, 1000, 5000, 2⟩ :
      InitializeArgs ℕ)) 2 1000 1000 := ⟨by decide, by decide, by decide⟩
  exact ⟨w', opened, (open_loan_healthy_iff funds configured (openInvocation 1) 3 1000 1000 2 0 w'
    opened).1.2 ⟨_, rfl, within⟩⟩

/-- A single unit of collateral buys a loan of 1000. -/
theorem open_loan_unhealthy : ¬ ∀ (balances : ℕ → ℕ → ℤ) (es : List (Event ℕ 0 (Operation ℕ)))
    (env : Invocation ℕ 0) (borrower : ℕ) (debtAmount collateralAmount price : ℤ) (loanId : ℕ)
    (w' : QuickLendXWorld ℕ), 0 < price →
    openLoan env borrower debtAmount collateralAmount (run invoke (deployed balances) es) =
      .ok (loanId, w') → Healthy w' loanId price := by
  intro law
  obtain ⟨config, loan, ltv, hconfig, hloan, hltv, hlt⟩ :=
    law funds configured (openInvocation 1) 3 1000 1 1 0 _ (by decide) rfl
  cases hconfig
  cases hloan
  obtain rfl : 10000000 = ltv := Except.ok.inj hltv
  exact absurd hlt (by decide)

end Unhealthy

end MobileMoney.QuickLendX
