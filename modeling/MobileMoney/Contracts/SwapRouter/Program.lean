import MobileMoney.Contracts.Router.Program
import MobileMoney.Library.MachineInt
import MobileMoney.Soroban.External

/-!
# The swap router contract

`contracts/swap_router`: a swap along pools that the caller names. Every hop first asks the
pool for a quote and then lets it swap; what the pools answer, in the order of the calls,
is part of a call, and the answers end before one that traps. The contract stores nothing.
The simulation `quote` is beside the pools it asks, in `Quotes`.

Both routers pay out what the last pool says it has delivered, and neither looks whether
it has. What is missing comes out of the balance the router had before.
-/

namespace MobileMoney.SwapRouter

open Soroban MachineInt

variable {A : Type}

def bps : ℤ := 10000

def maxHopSlippageBps : ℤ := 100

inductive SwapError where
  | deadlineExceeded
  | invalidDeadline
  | emptyPath
  | invalidAmount
  | slippageExceeded
  deriving DecidableEq, Repr

structure SwapStep (A : Type) where
  pool : A
  assetIn : A
  assetOut : A
  deriving DecidableEq, Repr

structure SwapParams (A : Type) where
  path : List (SwapStep A)
  amountIn : ℤ
  minAmountOut : ℤ
  recipient : A
  deadline : ℕ
  deriving DecidableEq, Repr

inductive Published (A : Type) where
  | swapExecuted (caller : A) (amountIn amountOut : ℤ)
  deriving DecidableEq, Repr

abbrev SwapWorld (A : Type) := World A Unit (Published A)

abbrev Result (α : Type) := Outcome SwapError α

variable {contract : A}

/-- The quote less the slippage that one hop may have, and never zero. -/
def hopMinimum (amountIn : ℤ) (answer : Option (Answer A contract)) (w : SwapWorld A) :
    Result (ℤ × SwapWorld A) := do
  require (¬ amountIn ≤ 0) (.error .invalidAmount)
  let answer ← orFail answer (.panic "get_quote")
  let expected := answer.value
  let w := w.deliver answer.moved
  require (¬ expected ≤ 0) (.error .invalidAmount)
  let keep ← orFail (i128.checkedSub bps maxHopSlippageBps) (.error .invalidAmount)
  let floor ← orFail ((i128.checkedMul expected keep).bind
    fun value => i128.checkedDiv value bps) (.error .invalidAmount)
  return (if 0 < floor then floor else 1, w)

/-- Execute each hop with per-hop slippage protection. -/
def swapHops : List (SwapStep A) → List (Answer A contract) → ℤ → SwapWorld A →
    Result (ℤ × SwapWorld A)
  | [], _, currentAmount, w => .ok (currentAmount, w)
  | _ :: path, answers, currentAmount, w => do
    let (hopMin, w) ← hopMinimum currentAmount answers.head? w
    let answer ← orFail answers.tail.head? (.panic "swap")
    let w := w.deliver answer.moved
    require (¬ answer.value < hopMin) (.error .slippageExceeded)
    swapHops path answers.tail.tail answer.value w

def swap [DecidableEq A] (env : Invocation A contract) (caller : A) (params : SwapParams A)
    (answers : List (Answer A contract)) (w : SwapWorld A) : Result (ℤ × SwapWorld A) := do
  env.requireAuth caller
  require (¬ params.deadline = 0) (.error .invalidDeadline)
  require (¬ params.deadline ≤ env.sequence) (.error .deadlineExceeded)
  let firstStep ← orFail params.path.head? (.error .emptyPath)
  require (¬ params.amountIn ≤ 0) (.error .invalidAmount)
  require (¬ params.minAmountOut ≤ 0) (.error .invalidAmount)
  let w ← env.transfer ⟨firstStep.assetIn, caller, contract, params.amountIn⟩ w
  let (currentAmount, w) ← swapHops params.path answers params.amountIn w
  require (¬ currentAmount < params.minAmountOut) (.error .slippageExceeded)
  let lastStep ← orFail params.path.getLast? (.error .emptyPath)
  let w ← env.transfer ⟨lastStep.assetOut, contract, params.recipient, currentAmount⟩ w
  return (currentAmount, w.publish (.swapExecuted caller params.amountIn currentAmount))

/-- A deployed contract. -/
def deployed (balances : A → A → ℤ) : SwapWorld A where
  storage := ()
  balances := balances
  transfers := []
  events := []

/-! ## What the routers keep -/

theorem hopMinimum_eq_ok {amountIn hopMin : ℤ} {answer : Option (Answer A contract)}
    {w w' : SwapWorld A} (h : hopMinimum amountIn answer w = .ok (hopMin, w')) :
    ∃ quote, answer = some quote ∧ w' = w.deliver quote.moved := by
  simp only [hopMinimum, bind_eq_ok, orFail_eq_ok, pure_eq_ok, Prod.mk.injEq] at h
  obtain ⟨_, -, quote, hquote, _, -, _, -, _, -, -, rfl⟩ := h
  exact ⟨quote, hquote, rfl⟩

/-- Each hop makes two calls. -/
theorem swapHops_eq_ok {path : List (SwapStep A)} {answers : List (Answer A contract)}
    {amount out : ℤ} {w w' : SwapWorld A}
    (h : swapHops path answers amount w = .ok (out, w')) :
    w' = w.deliverAll (answers.take (2 * path.length)) ∧
      out = lastValue amount (answers.take (2 * path.length)) := by
  induction path generalizing answers amount w with
  | nil =>
    cases h
    exact ⟨rfl, rfl⟩
  | cons step path ih =>
    simp only [swapHops, bind_eq_ok, orFail_eq_ok] at h
    obtain ⟨⟨hopMin, w₁⟩, hmin, answer, hanswer, _, -, hrest⟩ := h
    obtain ⟨quote, hquote, rfl⟩ := hopMinimum_eq_ok hmin
    obtain _ | ⟨first, _ | ⟨second, answers⟩⟩ := answers
    · cases hquote
    · cases hanswer
    · cases hquote
      cases hanswer
      exact ih hrest

variable [DecidableEq A] {env : Invocation A contract}

theorem swap_eq_ok {caller : A} {params : SwapParams A} {answers : List (Answer A contract)}
    {out : ℤ} {w w' : SwapWorld A} (h : swap env caller params answers w = .ok (out, w')) :
    ∃ firstStep lastStep, (caller ≠ contract ∧ 0 < params.amountIn) ∧
      (params.path.head? = some firstStep ∧ params.path.getLast? = some lastStep) ∧
      (out = lastValue params.amountIn (answers.take (2 * params.path.length)) ∧
        params.minAmountOut ≤ out) ∧
      w' = (w.exchange ⟨firstStep.assetIn, caller, contract, params.amountIn⟩
        ⟨lastStep.assetOut, contract, params.recipient, out⟩
        (answers.take (2 * params.path.length))).publish
          (.swapExecuted caller params.amountIn out) := by
  simp only [swap, bind_eq_ok, orFail_eq_ok, require_eq_ok, pure_eq_ok,
    Invocation.requireAuth_eq_ok, exists_const, Prod.mk.injEq] at h
  obtain ⟨hauth, -, -, firstStep, hfirst, hpos, -, w₁, hin, ⟨amount, w₂⟩, hhops, hmin, lastStep,
    hlast, w₃, hout, rfl, rfl⟩ := h
  obtain ⟨-, rfl⟩ := Invocation.transfer_eq_ok.1 hin
  obtain ⟨-, rfl⟩ := Invocation.transfer_eq_ok.1 hout
  obtain ⟨rfl, rfl⟩ := swapHops_eq_ok hhops
  exact ⟨firstStep, lastStep, ⟨env.ne_contract_of_authorised hauth, not_le.1 hpos⟩,
    ⟨hfirst, hlast⟩, ⟨rfl, not_lt.1 hmin⟩, rfl⟩

/-! ## The law -/

/-- The last of the used answers claims no more than they have delivered of the output, or
than has come in where input and output are the same. -/
def HonestAnswers (tokenIn tokenOut : A) (amountIn : ℤ) (used : List (Answer A contract)) :
    Prop :=
  lastValue amountIn used ≤ delivered used tokenOut + if tokenIn = tokenOut then amountIn else 0

/-- For every successful swap of the router, and of the swap router: at least the stated
minimum is transferred to the caller or recipient, and the contract keeps what it had of
every token exactly when the answers are honest, or the output goes to the contract. -/
theorem reserves_kept_iff :
    (∀ (env : Invocation A contract) caller args answers out (w w' : Router.RouterWorld A),
      Router.executeSwap env caller args answers w = .ok (out, w') →
      (args.minAmountOut ≤ out ∧ w'.transfers = w.transfers ++
        [⟨args.assetIn, caller, contract, args.amountIn⟩,
          ⟨args.assetOut, contract, caller, out⟩]) ∧
      (KeepsReserves contract w w' ↔
        HonestAnswers args.assetIn args.assetOut args.amountIn
          (answers.take args.path.length))) ∧
    ∀ (env : Invocation A contract) caller params answers out (w w' : SwapWorld A),
      swap env caller params answers w = .ok (out, w') →
      ∃ firstStep lastStep,
        (params.path.head? = some firstStep ∧ params.path.getLast? = some lastStep) ∧
        (params.minAmountOut ≤ out ∧ w'.transfers = w.transfers ++
          [⟨firstStep.assetIn, caller, contract, params.amountIn⟩,
            ⟨lastStep.assetOut, contract, params.recipient, out⟩]) ∧
        (KeepsReserves contract w w' ↔ params.recipient = contract ∨
          HonestAnswers firstStep.assetIn lastStep.assetOut params.amountIn
            (answers.take (2 * params.path.length))) := by
  constructor
  · intro env caller args answers out w w' h
    obtain ⟨state, resolved, ⟨outsider, hpos⟩, ⟨-, hresolve⟩, ⟨rfl, hmin⟩, rfl⟩ :=
      Router.executeSwap_eq_ok h
    refine ⟨⟨hmin, World.exchange_transfers _ _ _ _⟩, ?_⟩
    rw [← Router.length_resolvePools hresolve]
    refine (exchange_keeps_iff outsider hpos.le).trans ?_
    rw [or_iff_right outsider]
    rfl
  · intro env caller params answers out w w' h
    obtain ⟨firstStep, lastStep, ⟨outsider, hpos⟩, ends, ⟨rfl, hmin⟩, rfl⟩ := swap_eq_ok h
    exact ⟨firstStep, lastStep, ends, ⟨hmin, World.exchange_transfers _ _ _ _⟩,
      exchange_keeps_iff outsider hpos.le⟩

/-! ## A pool that delivers nothing -/

section Lying

/-- A claim of 831 units without any token movement. -/
def lyingAnswer : Answer ℕ 0 := ⟨831, .still⟩

def funds (_token _holder : ℕ) : ℤ := 10000

/-- A router with one pool, for asset 10 and asset 11. -/
def onePool : Router.RouterWorld ℕ :=
  run Router.invoke (Router.deployed funds)
    [.call (openInvocation 1) (.initializeRouter 1 100 1000),
      .call (openInvocation 1) (.addPool 1 ⟨20, 10, 11, 5000⟩)]

/-- The router pays 831 units of asset 11 out of its own balance, and so does the swap
router. -/
theorem lying_pool_drains_reserves :
    (¬ ∀ (env : Invocation ℕ 0) caller args answers out (w w' : Router.RouterWorld ℕ),
      Router.executeSwap env caller args answers w = .ok (out, w') → KeepsReserves 0 w w') ∧
    ¬ ∀ (env : Invocation ℕ 0) caller params answers out (w w' : SwapWorld ℕ),
      swap env caller params answers w = .ok (out, w') → KeepsReserves 0 w w' := by
  constructor
  · intro law
    have kept := law (openInvocation 1) 3 ⟨[20], 10, 11, 1000, 800, 5⟩ [lyingAnswer] 831
      onePool _ rfl
    exact absurd (kept 11) (by decide)
  · intro law
    have kept := law (openInvocation 1) 3 ⟨[⟨20, 10, 11⟩], 1000, 800, 3, 5⟩
      [lyingAnswer, lyingAnswer] 831 (deployed funds) _ rfl
    exact absurd (kept 11) (by decide)

end Lying

end MobileMoney.SwapRouter
