import MobileMoney.Contracts.SwapRouter.Program

/-!
# Quotes and swaps

A swap asks every pool for a quote right before it lets the pool swap; the simulation
`quote` asks all of them and lets none swap. The pools are a machine of their own here, of
which nothing is assumed: a call finds them in a state, returns an answer or traps, and
leaves them in another state.
-/

namespace MobileMoney.SwapRouter

open Soroban MachineInt

variable {σ A : Type} {contract : A}

/-- The entry points `get_quote` and `swap` of all pools together. -/
structure Pools (σ A : Type) (contract : A) where
  getQuote : σ → SwapStep A → ℤ → Option (Answer A contract × σ)
  swap : σ → SwapStep A → (amountIn minAmountOut : ℤ) → Option (Answer A contract × σ)

/-- Simulate a swap without executing it. -/
def quote (pools : Pools σ A contract) : List (SwapStep A) → ℤ → σ → Result (ℤ × σ)
  | [], current, s => .ok (current, s)
  | step :: path, current, s => do
    let (answer, s) ← orFail (pools.getQuote s step current) (.panic "get_quote")
    quote pools path answer.value s

/-- What `hop_minimum` makes of a quote, when it does not overflow. -/
def leastOutput (expected : ℤ) : ℤ :=
  let floor := expected * (bps - maxHopSlippageBps) / bps
  if 0 < floor then floor else 1

namespace Pools

variable (pools : Pools σ A contract)

/-- The answers in a swap along the path: a quote and an output at every hop, each asked for
with the amount that has come out of the hop before. -/
def answers : List (SwapStep A) → ℤ → σ → List (Answer A contract)
  | [], _, _ => []
  | step :: path, amount, s =>
    match pools.getQuote s step amount with
    | none => []
    | some (quoted, s₁) =>
      match pools.swap s₁ step amount (leastOutput quoted.value) with
      | none => [quoted]
      | some (paid, s₂) => quoted :: paid :: answers path paid.value s₂

/-- At every hop the output is at least 99 % of the quote for the amount that reaches the
hop, rounded down, and at least one; the last output is `out`. -/
def WithinTolerance : List (SwapStep A) → ℤ → σ → ℤ → Prop
  | [], amount, _, out => out = amount
  | step :: path, amount, s, out =>
    ∃ quoted s₁ paid s₂, pools.getQuote s step amount = some (quoted, s₁) ∧
      pools.swap s₁ step amount (leastOutput quoted.value) = some (paid, s₂) ∧
      max 1 (99 * quoted.value / 100) ≤ paid.value ∧
      WithinTolerance path paid.value s₂ out

/-- Every pool of the swap pays out exactly what it has quoted right before. -/
def AtQuote : List (SwapStep A) → ℤ → σ → Prop
  | [], _, _ => True
  | step :: path, amount, s =>
    ∀ quoted s₁ paid s₂, pools.getQuote s step amount = some (quoted, s₁) →
      pools.swap s₁ step amount (leastOutput quoted.value) = some (paid, s₂) →
      paid.value = quoted.value ∧ AtQuote path paid.value s₂

/-- The hops of the swap, from `s` on, get the quotes that a simulation gets which asks the
pools from `t` on and lets none swap. -/
def Unmoved : List (SwapStep A) → ℤ → σ → σ → Prop
  | [], _, _, _ => True
  | step :: path, amount, s, t =>
    ∀ quoted s₁ paid s₂, pools.getQuote s step amount = some (quoted, s₁) →
      pools.swap s₁ step amount (leastOutput quoted.value) = some (paid, s₂) →
      ∃ simulated t₁, pools.getQuote t step amount = some (simulated, t₁) ∧
        simulated.value = quoted.value ∧ Unmoved path paid.value s₂ t₁

end Pools

/-! ## One hop -/

theorem leastOutput_eq (expected : ℤ) : leastOutput expected = max 1 (99 * expected / 100) := by
  simp only [leastOutput, bps, maxHopSlippageBps]
  split_ifs <;> omega

theorem hopMinimum_value {amountIn hopMin : ℤ} {quoted : Answer A contract}
    {w w' : SwapWorld A} (h : hopMinimum amountIn (some quoted) w = .ok (hopMin, w')) :
    hopMin = leastOutput quoted.value := by
  simp only [hopMinimum, bind_eq_ok, orFail_eq_ok, require_eq_ok, pure_eq_ok,
    Option.some.injEq, Prod.mk.injEq] at h
  obtain ⟨_, -, _, rfl, _, hpos, keep, hkeep, floor, hfloor, rfl, -⟩ := h
  obtain ⟨product, hproduct, hfloor⟩ := Option.bind_eq_some_iff.1 hfloor
  obtain ⟨rfl, -⟩ := IntType.checked_eq_some.1 hkeep
  obtain ⟨rfl, -⟩ := IntType.checked_eq_some.1 hproduct
  rw [IntType.checkedDiv, if_neg (by decide)] at hfloor
  obtain ⟨rfl, -⟩ := IntType.checked_eq_some.1 hfloor
  have hproduct : 0 ≤ quoted.value * (bps - maxHopSlippageBps) :=
    mul_nonneg (not_le.1 hpos).le (by decide)
  rw [leastOutput, Int.tdiv_eq_ediv_of_nonneg hproduct]

variable {pools : Pools σ A contract}

/-- A hop that is passed has got a quote and an output of at least its minimum, and the
rest of the path goes on from this output. -/
theorem swapHops_cons {step : SwapStep A} {path : List (SwapStep A)} {amount out : ℤ} {s : σ}
    {w w' : SwapWorld A}
    (h : swapHops (step :: path) (pools.answers (step :: path) amount s) amount w =
      .ok (out, w')) :
    ∃ quoted s₁ paid s₂, pools.getQuote s step amount = some (quoted, s₁) ∧
      pools.swap s₁ step amount (leastOutput quoted.value) = some (paid, s₂) ∧
      leastOutput quoted.value ≤ paid.value ∧
      ∃ w₁, swapHops path (pools.answers path paid.value s₂) paid.value w₁ = .ok (out, w') := by
  unfold Pools.answers swapHops at h
  cases hquote : pools.getQuote s step amount with
  | none => simp [hquote, hopMinimum, bind_eq_ok] at h
  | some first =>
    obtain ⟨quoted, s₁⟩ := first
    simp only [hquote] at h
    cases hswap : pools.swap s₁ step amount (leastOutput quoted.value) with
    | none => simp [hswap, bind_eq_ok] at h
    | some second =>
      obtain ⟨paid, s₂⟩ := second
      simp only [hswap, List.head?_cons, List.tail_cons, bind_eq_ok, orFail_eq_ok,
        require_eq_ok, Option.some.injEq] at h
      obtain ⟨⟨hopMin, w₁⟩, hmin, _, rfl, _, henough, hrest⟩ := h
      obtain rfl := hopMinimum_value hmin
      exact ⟨quoted, s₁, paid, s₂, rfl, hswap, not_lt.1 henough, _, hrest⟩

/-! ## All hops -/

theorem swapHops_tolerance {path : List (SwapStep A)} {amount out : ℤ} {s : σ}
    {w w' : SwapWorld A}
    (h : swapHops path (pools.answers path amount s) amount w = .ok (out, w')) :
    pools.WithinTolerance path amount s out := by
  induction path generalizing amount s w with
  | nil =>
    cases h
    rfl
  | cons step path ih =>
    obtain ⟨quoted, s₁, paid, s₂, hquote, hswap, henough, w₁, hrest⟩ := swapHops_cons h
    rw [leastOutput_eq] at henough
    exact ⟨quoted, s₁, paid, s₂, hquote, hswap, henough, ih hrest⟩

theorem quote_of_swapHops {path : List (SwapStep A)} {amount out : ℤ} {s t : σ}
    {w w' : SwapWorld A}
    (h : swapHops path (pools.answers path amount s) amount w = .ok (out, w'))
    (atQuote : pools.AtQuote path amount s) (unmoved : pools.Unmoved path amount s t) :
    ∃ t', quote pools path amount t = .ok (out, t') := by
  induction path generalizing amount s t w with
  | nil =>
    cases h
    exact ⟨t, rfl⟩
  | cons step path ih =>
    obtain ⟨quoted, s₁, paid, s₂, hquote, hswap, -, w₁, hrest⟩ := swapHops_cons h
    obtain ⟨hpaid, atQuote⟩ := atQuote quoted s₁ paid s₂ hquote hswap
    obtain ⟨simulated, t₁, hsimulated, hsame, unmoved⟩ := unmoved quoted s₁ paid s₂ hquote hswap
    obtain ⟨t', ht'⟩ := ih hrest atQuote unmoved
    refine ⟨t', ?_⟩
    rw [quote, hsimulated, ← ht', hpaid, ← hsame]
    rfl

/-! ## Pools that do not know each other -/

/-- A pool answers from its own part of the state, and changes no other. -/
structure Pools.Independent {ρ : Type} (pools : Pools (A → ρ) A contract) : Prop where
  own : ∀ s t step amount quoted s₁, s step.pool = t step.pool →
    pools.getQuote s step amount = some (quoted, s₁) →
    ∃ t₁, pools.getQuote t step amount = some (quoted, t₁)
  quote_frame : ∀ s step amount quoted s₁, pools.getQuote s step amount = some (quoted, s₁) →
    ∀ pool, pool ≠ step.pool → s₁ pool = s pool
  swap_frame : ∀ s step amount least paid s₁, pools.swap s step amount least = some (paid, s₁) →
    ∀ pool, pool ≠ step.pool → s₁ pool = s pool

/-- A path that comes to no pool twice changes none of its own quotes. -/
theorem unmoved_of_distinct {ρ : Type} {pools : Pools (A → ρ) A contract}
    (independent : pools.Independent) {path : List (SwapStep A)}
    (distinct : (path.map (·.pool)).Nodup) {amount : ℤ} {s t : A → ρ}
    (same : ∀ step ∈ path, s step.pool = t step.pool) : pools.Unmoved path amount s t := by
  induction path generalizing amount s t with
  | nil => trivial
  | cons step path ih =>
    obtain ⟨fresh, distinct⟩ := List.nodup_cons.1 distinct
    intro quoted s₁ paid s₂ hquote hswap
    obtain ⟨t₁, hsimulated⟩ := independent.own s t step amount quoted s₁
      (same step List.mem_cons_self) hquote
    refine ⟨quoted, t₁, hsimulated, rfl, ih distinct fun later hlater => ?_⟩
    have apart : later.pool ≠ step.pool := fun heq =>
      fresh (List.mem_map.2 ⟨later, hlater, heq⟩)
    calc s₂ later.pool = s₁ later.pool := independent.swap_frame _ _ _ _ _ _ hswap _ apart
      _ = s later.pool := independent.quote_frame _ _ _ _ _ hquote _ apart
      _ = t later.pool := same later (List.mem_cons_of_mem _ hlater)
      _ = t₁ later.pool := (independent.quote_frame _ _ _ _ _ hsimulated _ apart).symm

/-! ## The law -/

theorem swap_hops [DecidableEq A] {env : Invocation A contract} {caller : A}
    {params : SwapParams A} {answers : List (Answer A contract)} {out : ℤ} {w w' : SwapWorld A}
    (h : swap env caller params answers w = .ok (out, w')) :
    params.minAmountOut ≤ out ∧
      ∃ w₁ w₂, swapHops params.path answers params.amountIn w₁ = .ok (out, w₂) := by
  simp only [swap, bind_eq_ok, require_eq_ok, pure_eq_ok, Prod.mk.injEq] at h
  obtain ⟨_, -, _, -, _, -, _, -, _, -, _, -, w₁, -, ⟨amount, w₂⟩, hhops, _, hmin, _, -, _, -,
    rfl, -⟩ := h
  exact ⟨not_lt.1 hmin, w₁, w₂, hhops⟩

/-- For all pools, whatever they answer and however their answers change them, and for every
swap along any path that succeeds: no hop pays out less than its tolerance allows, and the
last one at least the caller's minimum. If every pool swaps at its quote and no quote has
been moved by the hops before it, the swap returns what the simulation returns. -/
theorem swap_slippage [DecidableEq A] (pools : Pools σ A contract) (s : σ)
    (env : Invocation A contract) (caller : A) (params : SwapParams A) (out : ℤ)
    (w w' : SwapWorld A)
    (swapped : swap env caller params (pools.answers params.path params.amountIn s) w =
      .ok (out, w')) :
    pools.WithinTolerance params.path params.amountIn s out ∧ params.minAmountOut ≤ out ∧
      (pools.AtQuote params.path params.amountIn s →
        pools.Unmoved params.path params.amountIn s s →
        ∃ t, quote pools params.path params.amountIn s = .ok (out, t)) := by
  obtain ⟨hmin, w₁, w₂, hhops⟩ := swap_hops swapped
  exact ⟨swapHops_tolerance hhops, hmin, quote_of_swapHops hhops⟩

/-! ## A pool that is visited twice -/

section ConstantProduct

/-- What a pool has of the asset that comes in and of the one that goes out; its assets are
in the order of their addresses. -/
def sides (s : ℕ → ℤ × ℤ) (step : SwapStep ℕ) : ℤ × ℤ :=
  if step.assetIn < step.assetOut then s step.pool else (s step.pool).swap

def productOutput (s : ℕ → ℤ × ℤ) (step : SwapStep ℕ) (amountIn : ℤ) : ℤ :=
  amountIn * (sides s step).2 / ((sides s step).1 + amountIn)

/-- The reserves after an exchange. -/
def exchanged (s : ℕ → ℤ × ℤ) (step : SwapStep ℕ) (amountIn : ℤ) : ℤ × ℤ :=
  let after := ((sides s step).1 + amountIn, (sides s step).2 - productOutput s step amountIn)
  if step.assetIn < step.assetOut then after else after.swap

/-- Pools without a fee that keep the product of their reserves. -/
def constantProduct : Pools (ℕ → ℤ × ℤ) ℕ 0 where
  getQuote s step amountIn := some (⟨productOutput s step amountIn, .still⟩, s)
  swap s step amountIn minAmountOut :=
    if productOutput s step amountIn < minAmountOut then none
    else some (⟨productOutput s step amountIn, .still⟩,
      Function.update s step.pool (exchanged s step amountIn))

theorem constantProduct_atQuote (path : List (SwapStep ℕ)) (amount : ℤ) (s : ℕ → ℤ × ℤ) :
    constantProduct.AtQuote path amount s := by
  induction path generalizing amount s with
  | nil => trivial
  | cons step path ih =>
    intro quoted s₁ paid s₂ hquote hswap
    cases hquote
    simp only [constantProduct, Option.ite_none_left_eq_some, Option.some.injEq,
      Prod.mk.injEq] at hswap
    obtain ⟨-, rfl, rfl⟩ := hswap
    exact ⟨rfl, ih _ _⟩

theorem constantProduct_independent : constantProduct.Independent where
  own s t step amount quoted s₁ same hquote := by
    cases hquote
    refine ⟨t, ?_⟩
    simp only [constantProduct, productOutput, sides, same]
  quote_frame s step amount quoted s₁ hquote pool apart := by
    cases hquote
    rfl
  swap_frame s step amount least paid s₁ hswap pool apart := by
    simp only [constantProduct, Option.ite_none_left_eq_some, Option.some.injEq,
      Prod.mk.injEq] at hswap
    obtain ⟨-, -, rfl⟩ := hswap
    exact Function.update_of_ne apart _ _

/-- Every pool has 1000 of both assets. -/
def balanced (_pool : ℕ) : ℤ × ℤ := (1000, 1000)

def rich : SwapWorld ℕ := deployed fun _ _ => 10000

/-- From asset 10 to 11 and on to 12, over two pools. -/
def onward : SwapParams ℕ := ⟨[⟨20, 10, 11⟩, ⟨21, 11, 12⟩], 1000, 1, 4, 5⟩

/-- From asset 10 to 11 and back, over one pool. -/
def thereAndBack : SwapParams ℕ := ⟨[⟨20, 10, 11⟩, ⟨20, 11, 10⟩], 1000, 1, 4, 5⟩

theorem onward_quoted :
    (constantProduct.WithinTolerance onward.path 1000 balanced 333 ∧ onward.minAmountOut ≤ 333) ∧
      ∃ t, quote constantProduct onward.path 1000 balanced = .ok (333, t) := by
  obtain ⟨tolerance, enough, simulated⟩ := swap_slippage constantProduct balanced
    (openInvocation 1) 3 onward 333 rich _ rfl
  exact ⟨⟨tolerance, enough⟩, simulated (constantProduct_atQuote _ _ _)
    (unmoved_of_distinct constantProduct_independent (by decide) fun _ _ => rfl)⟩

/-- The way back is quoted 333 before the first hop and 1000 after it. -/
theorem way_back_moved :
    ¬ ∀ (pools : Pools (ℕ → ℤ × ℤ) ℕ 0) s (env : Invocation ℕ 0) caller params out
      (w w' : SwapWorld ℕ),
      swap env caller params (pools.answers params.path params.amountIn s) w = .ok (out, w') →
      pools.WithinTolerance params.path params.amountIn s out ∧ params.minAmountOut ≤ out ∧
        (pools.AtQuote params.path params.amountIn s →
          ∃ t, quote pools params.path params.amountIn s = .ok (out, t)) := by
  intro law
  obtain ⟨-, -, simulated⟩ := law constantProduct balanced (openInvocation 1) 3 thereAndBack 1000
    rich _ rfl
  obtain ⟨t, ht⟩ := simulated (constantProduct_atQuote _ _ _)
  have moved : quote constantProduct thereAndBack.path 1000 balanced = .ok (333, balanced) := rfl
  have hvalue := (Prod.mk.inj (Except.ok.inj (moved.symm.trans ht))).1
  exact absurd hvalue (by decide)

end ConstantProduct

end MobileMoney.SwapRouter
