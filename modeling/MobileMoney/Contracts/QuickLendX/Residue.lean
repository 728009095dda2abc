import MobileMoney.Contracts.QuickLendX.Conservation

/-!
# Collateral left in closed loans

A liquidation that repays the whole debt closes the loan. What the seizure has not taken
of its collateral stays in the loan, and nothing ever pays it out: a closed loan never
changes again. This module says which liquidations leave nothing behind.
-/

namespace MobileMoney.QuickLendX

open Soroban MachineInt

variable {A : Type} [DecidableEq A]

/-- A closed loan with collateral that no sequence of calls ever touches. -/
def Stranded (contract : A) (w : QuickLendXWorld A) (loanId : ℕ) : Prop :=
  ∃ loan, w.storage.loans loanId = some loan ∧ loan.status = .closed ∧
    0 < loan.collateralAmount ∧ ∀ fs : List (Event A contract (Operation A)),
      (run invoke w fs).storage.loans loanId = some loan

/-- No closed loan has collateral. -/
def Cleared (w : QuickLendXWorld A) : Prop :=
  ∀ id loan, w.storage.loans id = some loan → loan.status = .closed → loan.collateralAmount = 0

variable {contract : A}

theorem not_stranded_iff {w : QuickLendXWorld A} (hw : Lending w) :
    (∀ id, ¬ Stranded contract w id) ↔ Cleared w := by
  constructor
  · intro none_stranded id loan found closed
    by_contra hne
    have hnonneg := (hw.sound id loan found).2.collateral_nonneg
    exact none_stranded id ⟨loan, found, closed, by omega,
      fun fs => final_run hw found (by simp [closed]) fs⟩
  · rintro cleared id ⟨loan, found, closed, hpos, -⟩
    have := cleared id loan found closed
    omega

/-- A liquidation that goes through and repays the whole debt asks for all the collateral. -/
def CoversResidue (w : QuickLendXWorld A) : Event A contract (Operation A) → Prop
  | .call env (.liquidate loanId liquidator debtRepayment answer) =>
    ∀ config loan oraclePrice, w.storage.config = some config →
      w.storage.loans loanId = some loan → answer = some oraclePrice →
      (∃ w', invoke env (.liquidate loanId liquidator debtRepayment answer) w = .ok w') →
      loan.debtAmount ≤ debtRepayment →
      loan.collateralAmount ≤ requestedSeizure config oraclePrice.price loan.debtAmount
  | _ => True

theorem liquidated_cleared_iff {w w' : QuickLendXWorld A} {loanId : ℕ} {liquidator : A}
    {debtRepayment : ℤ} {answer : Option OraclePrice} {result : LiquidationResult}
    {config : LendingConfig A} {loan loan' : Loan A} {oraclePrice : OraclePrice}
    {liquidatorCollateral : ℤ} (hw : Lending w) (cleared : Cleared w)
    (liquidated : Liquidated loanId liquidator debtRepayment answer result config loan loan'
      oraclePrice liquidatorCollateral w w' contract) :
    Cleared w' ↔ (loan.debtAmount ≤ debtRepayment →
      loan.collateralAmount ≤ requestedSeizure config oraclePrice.price loan.debtAmount) := by
  have seized := liquidated.seized hw
  have hrepaid := seized.debtRepaid
  have hseized := seized.seized
  have hdebt := liquidated.reduced.debt
  have hcollateral := liquidated.reduced.collateral
  have hstatus := liquidated.reduced.status
  have owed := ((hw.sound loanId loan liquidated.found).2.active liquidated.active).1
  rw [liquidated.active] at hstatus
  have only : Cleared w' ↔ (loan'.status = .closed → loan'.collateralAmount = 0) := by
    unfold Cleared
    rw [liquidated.storage]
    constructor
    · intro h
      exact h loanId loan' (Function.update_self ..)
    · intro h id other found closed
      by_cases heq : id = loanId
      · subst heq
        obtain rfl : loan' = other := by simpa using found
        exact h closed
      · exact cleared id other (by simpa [Function.update_of_ne heq] using found) closed
  have closes : loan'.status = .closed ↔ loan.debtAmount ≤ debtRepayment := by
    rw [hstatus]
    split_ifs with hzero hempty
    · simp only [true_iff]
      omega
    · simp only [false_iff]
      omega
    · simp only [false_iff]
      omega
  rw [only, closes]
  refine imp_congr_right fun hle => ?_
  rw [hrepaid, min_eq_right hle] at hseized
  omega

theorem cleared_step_iff {w : QuickLendXWorld A} (hw : Lending w) (cleared : Cleared w)
    (e : Event A contract (Operation A)) : Cleared (step invoke w e) ↔ CoversResidue w e := by
  cases e with
  | outside move => exact iff_of_true cleared trivial
  | call env op =>
    cases h : invoke env op w with
    | error failure =>
      rw [step_of_error h]
      refine iff_of_true cleared ?_
      cases op with
      | liquidate loanId liquidator debtRepayment answer =>
        rintro - - - - - - ⟨w', hw'⟩
        simp [h] at hw'
      | _ => trivial
    | ok w' =>
      rw [step_of_ok h]
      cases invoke_cases h with
      | initialised args isInit vacant valid same =>
        subst isInit same
        exact iff_of_true (fun id loan found => by cases found) trivial
      | funded funder amount isFund storage paid =>
        subst isFund
        refine iff_of_true ?_ trivial
        unfold Cleared
        rw [storage]
        exact cleared
      | opened borrower debtAmount collateralAmount loanId isOpen result =>
        subst isOpen
        refine iff_of_true ?_ trivial
        intro id loan found closed
        rw [result.storage] at found
        simp only [Function.update_apply] at found
        split_ifs at found
        · cases found
          cases closed
        · exact cleared id loan found closed
      | liquidated loanId liquidator debtRepayment answer isLiquidate result config loan loan'
          oraclePrice liquidatorCollateral liquidated =>
        subst isLiquidate
        rw [liquidated_cleared_iff hw cleared liquidated]
        constructor
        · intro covers config₁ loan₁ oraclePrice₁ hconfig hloan hanswer _
          obtain rfl := Option.some.inj (liquidated.configured.symm.trans hconfig)
          obtain rfl := Option.some.inj (liquidated.found.symm.trans hloan)
          obtain rfl := Option.some.inj (liquidated.answered.symm.trans hanswer)
          exact covers
        · intro covers
          exact covers config loan oraclePrice liquidated.configured liquidated.found
            liquidated.answered ⟨w', h⟩
      | idle same isRead =>
        subst same
        refine iff_of_true cleared ?_
        cases op with
        | liquidate loanId liquidator debtRepayment answer => exact absurd rfl (isRead _ _ _ _)
        | _ => trivial

/-- Along every run: no state reached has a closed loan with collateral that nothing ever
pays out, exactly when every liquidation that repays a whole debt asks for all the
collateral of its loan. -/
theorem no_stranded_collateral_iff (balances : A → A → ℤ)
    (es : List (Event A contract (Operation A))) :
    (∀ pre, pre <+: es → ∀ id, ¬ Stranded contract (run invoke (deployed balances) pre) id) ↔
      Runs.Every (step invoke) CoversResidue (deployed balances) es := by
  have start : Lending (deployed balances) := deployed_lending balances
  have cleared : Cleared (deployed balances) := fun _ _ found => by cases found
  rw [← Runs.forall_prefix_iff_every Lending Cleared (fun _ e h => lending_invariant.step h e)
    (fun _ e hw h => cleared_step_iff hw h e) start cleared]
  refine forall₂_congr fun pre _ => ?_
  exact not_stranded_iff (lending_invariant.run start pre)

/-! ## A closed loan with collateral -/

/-- A debt of 850 on a collateral of 1000, all of it repaid at price 1: 935 are seized. -/
def closingRun : List (Event ℕ 0 (Operation ℕ)) :=
  configured ++ [.call (openInvocation 1) (.openLoan 3 850 1000),
    .call (openInvocation 1) (.liquidate 0 4 850 (some ⟨1, 1⟩))]

theorem closing_strands_collateral :
    ¬ ∀ (balances : ℕ → ℕ → ℤ) (es : List (Event ℕ 0 (Operation ℕ))) (id : ℕ),
      ¬ Stranded 0 (run invoke (deployed balances) es) id := by
  intro law
  have kept : Lending (run invoke (deployed funds) closingRun) :=
    lending_invariant.run (deployed_lending funds) closingRun
  have found : (run invoke (deployed funds) closingRun).storage.loans 0 =
      some ⟨0, 3, 0, 65, .closed⟩ := rfl
  exact law funds closingRun 0 ⟨_, found, rfl, by decide,
    fun fs => final_run kept found (by simp) fs⟩

end MobileMoney.QuickLendX
