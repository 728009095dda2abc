import MobileMoney.Library.MachineInt
import MobileMoney.Soroban.External

/-!
# The router contract

`contracts/router`: the owner registers liquidity pools, anybody may search a route over
them and execute swaps along a route, and the emergency admin can pause both. What the
pools answer is part of a call; the answers end before a call that traps. TTL extensions
and the getters that only read one entry are left out.

A swap takes the input from the caller, lets the pools move what they like, and pays the
caller what the last pool claims to have delivered.
-/

namespace MobileMoney.Router

open Soroban MachineInt

section Calls

variable {A : Type}

inductive RouterError where
  | insufficientLiquidity
  | slippageExceeded
  | routeNotFound
  | emptyPath
  | invalidAmount
  | deadlineReached
  | poolNotFound
  | contractPaused
  | notEmergencyAdmin
  deriving DecidableEq, Repr

structure LiquidityPool (A : Type) where
  poolAddress : A
  assetIn : A
  assetOut : A
  depth : ℤ
  deriving DecidableEq, Repr

structure RouterState (A : Type) where
  pools : List (LiquidityPool A)
  owner : A
  maxSlippageBps : ℕ
  minLiquidityDepth : ℤ
  deriving DecidableEq, Repr

structure PauseState (A : Type) where
  paused : Bool
  emergencyAdmin : A
  deriving DecidableEq, Repr

inductive Published (A : Type) where
  | contractPaused (admin : A)
  | contractUnpaused (admin : A)
  | swapExecuted (caller : A) (amountIn amountOut : ℤ)
  deriving DecidableEq, Repr

/-- Instance storage under `ROUTER_STATE` and `PAUSE_STATE`. -/
structure Storage (A : Type) where
  state : Option (RouterState A)
  pauseState : Option (PauseState A)
  deriving DecidableEq, Repr

abbrev RouterWorld (A : Type) := World A (Storage A) (Published A)

abbrev Result (α : Type) := Outcome RouterError α

variable {contract : A}

def loadState (w : RouterWorld A) : Result (RouterState A) :=
  orFail w.storage.state (.panic "not initialized")

def setState (state : RouterState A) (w : RouterWorld A) : RouterWorld A :=
  w.store { w.storage with state := some state }

def setPauseState (pauseState : PauseState A) (w : RouterWorld A) : RouterWorld A :=
  w.store { w.storage with pauseState := some pauseState }

/-! ## Administration -/

def initializeRouter (env : Invocation A contract) (owner : A) (maxSlippageBps : ℕ)
    (minLiquidityDepth : ℤ) (w : RouterWorld A) : Result (RouterWorld A) := do
  env.requireAuth owner
  require (0 < maxSlippageBps ∧ maxSlippageBps ≤ 10000)
    (.panic "max_slippage_bps must be in (0, 10000]")
  require (0 < minLiquidityDepth) (.panic "min_liquidity_depth must be positive")
  return setPauseState ⟨false, owner⟩
    (setState ⟨[], owner, maxSlippageBps, minLiquidityDepth⟩ w)

/-- Contracts initialised before pause control was added have no pause state. -/
def loadPauseState (w : RouterWorld A) : Result (PauseState A) :=
  match w.storage.pauseState with
  | some pauseState => .ok pauseState
  | none => do
    let state ← loadState w
    return ⟨false, state.owner⟩

def ensureNotPaused (w : RouterWorld A) : Result Unit := do
  let pauseState ← loadPauseState w
  require (¬ pauseState.paused = true) (.error .contractPaused)

variable [DecidableEq A]

def setEmergencyAdmin (env : Invocation A contract) (caller newAdmin : A) (w : RouterWorld A) :
    Result (RouterWorld A) := do
  env.requireAuth caller
  let state ← loadState w
  require (caller = state.owner) (.panic "only owner can set emergency admin")
  let pauseState ← loadPauseState w
  return setPauseState { pauseState with emergencyAdmin := newAdmin } w

def pause (env : Invocation A contract) (caller : A) (w : RouterWorld A) :
    Result (RouterWorld A) := do
  env.requireAuth caller
  let pauseState ← loadPauseState w
  require (¬ caller ≠ pauseState.emergencyAdmin) (.error .notEmergencyAdmin)
  return (setPauseState { pauseState with paused := true } w).publish (.contractPaused caller)

def unpause (env : Invocation A contract) (caller : A) (w : RouterWorld A) :
    Result (RouterWorld A) := do
  env.requireAuth caller
  let pauseState ← loadPauseState w
  require (¬ caller ≠ pauseState.emergencyAdmin) (.error .notEmergencyAdmin)
  return (setPauseState { pauseState with paused := false } w).publish (.contractUnpaused caller)

def addPool (env : Invocation A contract) (caller : A) (pool : LiquidityPool A)
    (w : RouterWorld A) : Result (RouterWorld A) := do
  env.requireAuth caller
  let state ← loadState w
  require (caller = state.owner) (.panic "only owner can add pools")
  require (state.minLiquidityDepth ≤ pool.depth) (.panic "pool depth below minimum")
  return setState { state with pools := state.pools ++ [pool] } w

def removePool (env : Invocation A contract) (caller poolAddress : A) (w : RouterWorld A) :
    Result (RouterWorld A) := do
  env.requireAuth caller
  let state ← loadState w
  require (caller = state.owner) (.panic "only owner can remove pools")
  let newPools := state.pools.filter fun p => p.poolAddress ≠ poolAddress
  require (¬ newPools.length = state.pools.length) (.error .poolNotFound)
  return setState { state with pools := newPools } w

/-! ## Route search -/

/-- The pools of the recursive case: the full amount fits and the pool is not on the path. -/
def usable (assetIn : A) (amountIn : ℤ) (visited : List A) (pool : LiquidityPool A) : Prop :=
  pool.assetIn = assetIn ∧ amountIn ≤ pool.depth ∧ pool.poolAddress ∉ visited

instance (assetIn : A) (amountIn : ℤ) (visited : List A) :
    DecidablePred (usable assetIn amountIn visited) := fun pool =>
  inferInstanceAs (Decidable
    (pool.assetIn = assetIn ∧ amountIn ≤ pool.depth ∧ pool.poolAddress ∉ visited))

/-- The base case: the first pool that goes directly and covers the full amount. -/
def directPool (pools : List (LiquidityPool A)) (assetIn assetOut : A) (amountIn : ℤ) :
    Option (LiquidityPool A) :=
  pools.find? fun pool =>
    pool.assetIn = assetIn ∧ pool.assetOut = assetOut ∧ amountIn ≤ pool.depth

/-- `path` and `visited` come back unchanged from a branch without a route, so they are
passed down only. -/
def findRouteRecursive (pools : List (LiquidityPool A)) (assetOut : A) (amountIn : ℤ) :
    ℕ → A → List A → List A → Option (List A)
  | remaining, assetIn, path, visited =>
    match directPool pools assetIn assetOut amountIn with
    | some pool => some (path ++ [pool.poolAddress])
    | none =>
      match remaining with
      | 0 => none
      | 1 => none
      | n + 2 =>
        pools.findSome? fun pool =>
          if usable assetIn amountIn visited pool then
            findRouteRecursive pools assetOut amountIn (n + 1) pool.assetOut
              (path ++ [pool.poolAddress]) (visited ++ [pool.poolAddress])
          else none

def findOptimalRoute (assetIn assetOut : A) (amountIn : ℤ) (maxHops : ℕ) (w : RouterWorld A) :
    Result (List A) := do
  ensureNotPaused w
  require (0 < amountIn) (.error .invalidAmount)
  require (0 < maxHops) (.error .routeNotFound)
  let state ← loadState w
  orFail (findRouteRecursive state.pools assetOut amountIn maxHops assetIn [] [])
    (.error .routeNotFound)

/-! ## Swaps -/

/-- Resolve each hop to its concrete pool, verifying continuity. -/
def resolvePools (pools : List (LiquidityPool A)) : List A → A → Result (List (LiquidityPool A) × A)
  | [], currentAsset => .ok ([], currentAsset)
  | poolAddr :: path, currentAsset => do
    let pool ← orFail
      (pools.find? fun p => p.poolAddress = poolAddr ∧ p.assetIn = currentAsset)
      (.error .poolNotFound)
    let (resolved, lastAsset) ← resolvePools pools path pool.assetOut
    return (pool :: resolved, lastAsset)

/-- The checks of `check_slippage` before the pool is called, and the least output it will
accept. -/
def minExpected (pool : LiquidityPool A) (amountIn : ℤ) (state : RouterState A) : Result ℤ := do
  require (¬ pool.depth ≤ 0) (.error .invalidAmount)
  require (¬ pool.depth < amountIn) (.error .insufficientLiquidity)
  let feeMultiplier ← orFail (i128.checkedSub 10000 30) (.error .invalidAmount)
  let amountWithFee ← orFail ((i128.checkedMul amountIn feeMultiplier).bind
    fun value => i128.checkedDiv value 10000) (.error .invalidAmount)
  require (¬ amountWithFee ≤ 0) (.error .invalidAmount)
  let denominator ← orFail (i128.checkedAdd pool.depth amountWithFee) (.error .invalidAmount)
  require (¬ denominator ≤ 0) (.error .invalidAmount)
  let expectedOut ← orFail ((i128.checkedMul amountWithFee pool.depth).bind
    fun value => i128.checkedDiv value denominator) (.error .invalidAmount)
  require (¬ expectedOut ≤ 0) (.error .invalidAmount)
  let slippageMultiplier ← orFail (i128.checkedSub 10000 state.maxSlippageBps)
    (.error .invalidAmount)
  orFail ((i128.checkedMul expectedOut slippageMultiplier).bind
    fun value => i128.checkedDiv value 10000) (.error .invalidAmount)

omit [DecidableEq A] in
def checkSlippage (pool : LiquidityPool A) (amountIn : ℤ) (state : RouterState A)
    (answer : Option (Answer A contract)) (w : RouterWorld A) : Result (ℤ × RouterWorld A) := do
  let minExpected ← minExpected pool amountIn state
  let answer ← orFail answer (.panic "swap")
  let w := w.deliver answer.moved
  require (¬ answer.value < minExpected) (.error .slippageExceeded)
  return (answer.value, w)

omit [DecidableEq A] in
/-- Execute each hop atomically through the pool contracts. -/
def swapHops (state : RouterState A) : List (LiquidityPool A) → List (Answer A contract) → ℤ →
    RouterWorld A → Result (ℤ × RouterWorld A)
  | [], _, currentAmount, w => .ok (currentAmount, w)
  | pool :: pools, answers, currentAmount, w => do
    let (outputAmount, w) ← checkSlippage pool currentAmount state answers.head? w
    swapHops state pools answers.tail outputAmount w

structure SwapArgs (A : Type) where
  path : List A
  assetIn : A
  assetOut : A
  amountIn : ℤ
  minAmountOut : ℤ
  deadline : ℕ
  deriving DecidableEq, Repr

def executeSwap (env : Invocation A contract) (caller : A) (args : SwapArgs A)
    (answers : List (Answer A contract)) (w : RouterWorld A) : Result (ℤ × RouterWorld A) := do
  env.requireAuth caller
  ensureNotPaused w
  require (0 < args.amountIn) (.error .invalidAmount)
  require (0 < args.minAmountOut) (.error .invalidAmount)
  require (env.sequence < args.deadline) (.error .deadlineReached)
  let state ← loadState w
  require (args.path ≠ []) (.error .emptyPath)
  let (resolved, lastAsset) ← resolvePools state.pools args.path args.assetIn
  require (lastAsset = args.assetOut) (.error .routeNotFound)
  let w ← env.transfer ⟨args.assetIn, caller, contract, args.amountIn⟩ w
  let (currentAmount, w) ← swapHops state resolved answers args.amountIn w
  require (¬ currentAmount < args.minAmountOut) (.error .slippageExceeded)
  let w ← env.transfer ⟨args.assetOut, contract, caller, currentAmount⟩ w
  return (currentAmount, w.publish (.swapExecuted caller args.amountIn currentAmount))

/-- `reserve` is what `get_reserve` of the pool returns. -/
def queryPoolDepth (poolAddress : A) (reserve : Option ℤ) (w : RouterWorld A) : Result ℤ := do
  let state ← loadState w
  require (∃ p ∈ state.pools, p.poolAddress = poolAddress) (.error .poolNotFound)
  orFail reserve (.panic "get_reserve")

inductive Operation (A : Type) (contract : A) where
  | initializeRouter (owner : A) (maxSlippageBps : ℕ) (minLiquidityDepth : ℤ)
  | setEmergencyAdmin (caller newAdmin : A)
  | pause (caller : A)
  | unpause (caller : A)
  | addPool (caller : A) (pool : LiquidityPool A)
  | removePool (caller poolAddress : A)
  | findOptimalRoute (assetIn assetOut : A) (amountIn : ℤ) (maxHops : ℕ)
  | executeSwap (caller : A) (args : SwapArgs A) (answers : List (Answer A contract))
  | queryPoolDepth (poolAddress : A) (reserve : Option ℤ)

def invoke (env : Invocation A contract) (op : Operation A contract) (w : RouterWorld A) :
    Result (RouterWorld A) :=
  match op with
  | .initializeRouter owner maxSlippageBps minLiquidityDepth =>
    initializeRouter env owner maxSlippageBps minLiquidityDepth w
  | .setEmergencyAdmin caller newAdmin => setEmergencyAdmin env caller newAdmin w
  | .pause caller => pause env caller w
  | .unpause caller => unpause env caller w
  | .addPool caller pool => addPool env caller pool w
  | .removePool caller poolAddress => removePool env caller poolAddress w
  | .findOptimalRoute assetIn assetOut amountIn maxHops =>
    (findOptimalRoute assetIn assetOut amountIn maxHops w).map fun _ => w
  | .executeSwap caller args answers => (executeSwap env caller args answers w).map Prod.snd
  | .queryPoolDepth poolAddress reserve => (queryPoolDepth poolAddress reserve w).map fun _ => w

/-- A deployed contract that has not been initialised. -/
def deployed (balances : A → A → ℤ) : RouterWorld A where
  storage := ⟨none, none⟩
  balances := balances
  transfers := []
  events := []

end Calls

/-! ## What a swap does -/

variable {A : Type} {contract : A}

theorem swapHops_eq_ok {state : RouterState A} {pools : List (LiquidityPool A)}
    {answers : List (Answer A contract)} {amount out : ℤ} {w w' : RouterWorld A}
    (h : swapHops state pools answers amount w = .ok (out, w')) :
    w' = w.deliverAll (answers.take pools.length) ∧
      out = lastValue amount (answers.take pools.length) := by
  induction pools generalizing answers amount w with
  | nil =>
    cases h
    exact ⟨rfl, rfl⟩
  | cons pool pools ih =>
    simp only [swapHops, checkSlippage, bind_eq_ok, orFail_eq_ok, pure_eq_ok] at h
    obtain ⟨⟨_, _⟩, ⟨_, -, answer, hanswer, _, -, ⟨⟩⟩, hrest⟩ := h
    cases answers with
    | nil => cases hanswer
    | cons first answers =>
      cases hanswer
      exact ih hrest

variable [DecidableEq A] {env : Invocation A contract}

/-- A swap that went through, with the answers of the pools on its path. -/
theorem executeSwap_eq_ok {caller : A} {args : SwapArgs A} {answers : List (Answer A contract)}
    {out : ℤ} {w w' : RouterWorld A}
    (h : executeSwap env caller args answers w = .ok (out, w')) :
    ∃ state resolved, (caller ≠ contract ∧ 0 < args.amountIn) ∧
      (w.storage.state = some state ∧
        resolvePools state.pools args.path args.assetIn = .ok (resolved, args.assetOut)) ∧
      (out = lastValue args.amountIn (answers.take resolved.length) ∧
        args.minAmountOut ≤ out) ∧
      w' = (w.exchange ⟨args.assetIn, caller, contract, args.amountIn⟩
        ⟨args.assetOut, contract, caller, out⟩ (answers.take resolved.length)).publish
          (.swapExecuted caller args.amountIn out) := by
  simp only [executeSwap, loadState, bind_eq_ok, orFail_eq_ok, require_eq_ok, pure_eq_ok,
    Invocation.requireAuth_eq_ok, exists_const, Prod.mk.injEq] at h
  obtain ⟨hauth, _, -, hpos, -, -, state, hstate, -, ⟨resolved, lastAsset⟩, hresolve, hlast, w₁,
    hin, ⟨amount, w₂⟩, hhops, hmin, w₃, hout, rfl, rfl⟩ := h
  obtain ⟨-, rfl⟩ := Invocation.transfer_eq_ok.1 hin
  obtain ⟨-, rfl⟩ := Invocation.transfer_eq_ok.1 hout
  obtain ⟨rfl, rfl⟩ := swapHops_eq_ok hhops
  cases hlast
  exact ⟨state, resolved, ⟨env.ne_contract_of_authorised hauth, hpos⟩, ⟨hstate, hresolve⟩,
    ⟨rfl, not_lt.1 hmin⟩, rfl⟩

theorem length_resolvePools {pools : List (LiquidityPool A)} {path : List A} {assetIn last : A}
    {resolved : List (LiquidityPool A)}
    (h : resolvePools pools path assetIn = .ok (resolved, last)) :
    resolved.length = path.length := by
  induction path generalizing assetIn resolved with
  | nil =>
    cases h
    rfl
  | cons poolAddr path ih =>
    simp only [resolvePools, bind_eq_ok, pure_eq_ok] at h
    obtain ⟨pool, -, ⟨rest, last'⟩, hrest, heq⟩ := h
    cases heq
    rw [List.length_cons, List.length_cons, ih hrest]

end MobileMoney.Router
