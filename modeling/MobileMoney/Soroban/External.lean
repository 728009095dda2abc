import MobileMoney.Soroban.Host

/-!
# Answers of other contracts

A contract that calls another contract learns a value and knows nothing about what the
callee has done with its own tokens meanwhile. An answer is such a value together with the
token movements of the call: they can add to the caller's balances, and take nothing from
them, since the caller has authorised nothing.
-/

namespace MobileMoney.Soroban

/-- What a call of another contract returns, and the tokens it moves. -/
structure Answer (A : Type) (contract : A) where
  value : ℤ
  moved : OutsideMove A contract

variable {A σ E : Type} {contract : A}

def World.deliver (w : World A σ E) (move : OutsideMove A contract) : World A σ E :=
  { w with balances := fun token holder => w.balances token holder + move.change token holder }

@[simp] theorem World.deliver_storage (w : World A σ E) (move : OutsideMove A contract) :
    (w.deliver move).storage = w.storage := rfl
@[simp] theorem World.deliver_transfers (w : World A σ E) (move : OutsideMove A contract) :
    (w.deliver move).transfers = w.transfers := rfl
@[simp] theorem World.deliver_events (w : World A σ E) (move : OutsideMove A contract) :
    (w.deliver move).events = w.events := rfl
@[simp] theorem World.deliver_balances (w : World A σ E) (move : OutsideMove A contract)
    (token holder : A) : (w.deliver move).balances token holder =
      w.balances token holder + move.change token holder := rfl

/-- What the answers have added to the balance of the calling contract. -/
def delivered (answers : List (Answer A contract)) (token : A) : ℤ :=
  (answers.map fun answer => answer.moved.change token contract).sum

@[simp] theorem delivered_nil (token : A) : delivered ([] : List (Answer A contract)) token = 0 :=
  rfl

@[simp] theorem delivered_cons (answer : Answer A contract) (answers : List (Answer A contract))
    (token : A) : delivered (answer :: answers) token =
      answer.moved.change token contract + delivered answers token := rfl

theorem delivered_nonneg (answers : List (Answer A contract)) (token : A) :
    0 ≤ delivered answers token := by
  apply List.sum_nonneg
  intro change hchange
  obtain ⟨answer, -, rfl⟩ := List.mem_map.1 hchange
  exact answer.moved.contract_nonneg token

/-- The token movements of several answers, one after the other. -/
def World.deliverAll (w : World A σ E) (answers : List (Answer A contract)) : World A σ E :=
  answers.foldl (fun w answer => w.deliver answer.moved) w

@[simp] theorem World.deliverAll_nil (w : World A σ E) :
    w.deliverAll ([] : List (Answer A contract)) = w := rfl

@[simp] theorem World.deliverAll_cons (w : World A σ E) (answer : Answer A contract)
    (answers : List (Answer A contract)) :
    w.deliverAll (answer :: answers) = (w.deliver answer.moved).deliverAll answers := rfl

@[simp] theorem World.deliverAll_storage (w : World A σ E) (answers : List (Answer A contract)) :
    (w.deliverAll answers).storage = w.storage := by
  induction answers generalizing w with
  | nil => rfl
  | cons answer answers ih => exact ih _

@[simp] theorem World.deliverAll_transfers (w : World A σ E)
    (answers : List (Answer A contract)) :
    (w.deliverAll answers).transfers = w.transfers := by
  induction answers generalizing w with
  | nil => rfl
  | cons answer answers ih => exact ih _

theorem World.deliverAll_balances (w : World A σ E) (answers : List (Answer A contract))
    (token : A) : (w.deliverAll answers).balances token contract =
      w.balances token contract + delivered answers token := by
  induction answers generalizing w with
  | nil => simp
  | cons answer answers ih =>
    rw [World.deliverAll_cons, ih, World.deliver_balances, delivered_cons]
    ring

/-- The value that the last call returned. -/
def lastValue (first : ℤ) (answers : List (Answer A contract)) : ℤ :=
  answers.foldl (fun _ answer => answer.value) first

/-! ## Reserves -/

/-- The contract has of every token at least what it had before. -/
def KeepsReserves (contract : A) (w w' : World A σ E) : Prop :=
  ∀ token, w.balances token contract ≤ w'.balances token contract

/-- An exchange as the calling contract sees it: it takes an input, lets others move tokens,
and pays an output. -/
def World.exchange [DecidableEq A] (w : World A σ E) (input output : Transfer A)
    (answers : List (Answer A contract)) : World A σ E :=
  ((w.pay input).deliverAll answers).pay output

theorem World.exchange_storage [DecidableEq A] (w : World A σ E) (input output : Transfer A)
    (answers : List (Answer A contract)) :
    (w.exchange input output answers).storage = w.storage := by
  simp [exchange]

theorem World.exchange_transfers [DecidableEq A] (w : World A σ E) (input output : Transfer A)
    (answers : List (Answer A contract)) :
    (w.exchange input output answers).transfers = w.transfers ++ [input, output] := by
  simp [exchange]

/-- The reserves are kept exactly when the output has been delivered, or come in as input, or
goes to the contract itself. -/
theorem exchange_keeps_iff [DecidableEq A] {w : World A σ E} {tokenIn tokenOut payer payee : A}
    {amountIn amountOut : ℤ} {answers : List (Answer A contract)} (outsider : payer ≠ contract)
    (hin : 0 ≤ amountIn) :
    KeepsReserves contract w (w.exchange ⟨tokenIn, payer, contract, amountIn⟩
      ⟨tokenOut, contract, payee, amountOut⟩ answers) ↔
      payee = contract ∨ amountOut ≤ delivered answers tokenOut +
        if tokenIn = tokenOut then amountIn else 0 := by
  have hbalance : ∀ token, (w.exchange ⟨tokenIn, payer, contract, amountIn⟩
      ⟨tokenOut, contract, payee, amountOut⟩ answers).balances token contract =
      w.balances token contract + (if tokenIn = token then amountIn else 0) +
        delivered answers token + if tokenOut = token then
          (if payee = contract then amountOut else 0) - amountOut else 0 := by
    intro token
    simp [World.exchange, World.deliverAll_balances, Transfer.effect, outsider]
  unfold KeepsReserves
  simp only [hbalance]
  by_cases hpayee : payee = contract
  · simp only [hpayee, if_true, sub_self, ite_self, add_zero, true_or, iff_true]
    intro token
    have := delivered_nonneg answers token
    split_ifs <;> omega
  · simp only [hpayee, if_false, false_or]
    constructor
    · intro keeps
      have := keeps tokenOut
      rw [if_pos rfl] at this
      omega
    · intro covered token
      have := delivered_nonneg answers token
      by_cases htoken : tokenOut = token
      · subst htoken
        rw [if_pos rfl]
        omega
      · rw [if_neg htoken]
        split_ifs <;> omega

end MobileMoney.Soroban
