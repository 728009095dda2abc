import MobileMoney.Contracts.Router.Access

/-!
# Routes and their execution

The search walks over pool records; a route is the list of their addresses. The execution
looks every address up again, by address and input asset, and takes the first record it
finds; and it hands every pool what the one before has paid out, while the search compares
the depth of all of them with the first amount. This module says when both agree.
-/

namespace MobileMoney.Router

open Soroban MachineInt

variable {A : Type} [DecidableEq A]

/-! ## The pools behind a route -/

/-- The search of `find_route_recursive`, returning the records it has used instead of
their addresses. -/
def searchRoute (pools : List (LiquidityPool A)) (assetOut : A) (amountIn : ℤ) :
    ℕ → A → List A → Option (List (LiquidityPool A))
  | remaining, assetIn, visited =>
    match directPool pools assetIn assetOut amountIn with
    | some pool => some [pool]
    | none =>
      match remaining with
      | 0 => none
      | 1 => none
      | n + 2 =>
        pools.findSome? fun pool =>
          if usable assetIn amountIn visited pool then
            (searchRoute pools assetOut amountIn (n + 1) pool.assetOut
              (visited ++ [pool.poolAddress])).map (pool :: ·)
          else none

variable {pools : List (LiquidityPool A)} {assetOut : A} {amountIn : ℤ}

/-- The source's search finds the addresses of these records. -/
theorem findRouteRecursive_eq (remaining : ℕ) (assetIn : A) (path visited : List A) :
    findRouteRecursive pools assetOut amountIn remaining assetIn path visited =
      (searchRoute pools assetOut amountIn remaining assetIn visited).map
        fun used => path ++ used.map (·.poolAddress) := by
  induction remaining using Nat.strong_induction_on generalizing assetIn path visited with
  | _ remaining ih =>
    unfold findRouteRecursive searchRoute
    cases directPool pools assetIn assetOut amountIn with
    | some pool => rfl
    | none =>
      match remaining with
      | 0 => rfl
      | 1 => rfl
      | n + 2 =>
        dsimp only
        rw [List.map_findSome?]
        congr 1
        funext pool
        simp only [Function.comp_apply]
        split_ifs
        · rw [ih (n + 1) (by omega)]
          cases searchRoute pools assetOut amountIn (n + 1) pool.assetOut
              (visited ++ [pool.poolAddress]) with
          | none => rfl
          | some used => simp
        · rfl

/-- Registered pools, each taking what the one before gives out, all deep enough for the
first amount. -/
inductive Chain (pools : List (LiquidityPool A)) (assetOut : A) (amountIn : ℤ) :
    A → List (LiquidityPool A) → Prop where
  | direct (pool : LiquidityPool A) (mem : pool ∈ pools) (out : pool.assetOut = assetOut)
      (depth : amountIn ≤ pool.depth) : Chain pools assetOut amountIn pool.assetIn [pool]
  | hop (pool : LiquidityPool A) (rest : List (LiquidityPool A)) (mem : pool ∈ pools)
      (depth : amountIn ≤ pool.depth)
      (chain : Chain pools assetOut amountIn pool.assetOut rest) :
      Chain pools assetOut amountIn pool.assetIn (pool :: rest)

theorem searchRoute_chain {remaining : ℕ} {assetIn : A} {visited : List A}
    {used : List (LiquidityPool A)}
    (h : searchRoute pools assetOut amountIn remaining assetIn visited = some used) :
    Chain pools assetOut amountIn assetIn used := by
  induction remaining using Nat.strong_induction_on generalizing assetIn visited used with
  | _ remaining ih =>
    unfold searchRoute at h
    cases hdirect : directPool pools assetIn assetOut amountIn with
    | some pool =>
      rw [hdirect] at h
      cases h
      have hmem := List.mem_of_find?_eq_some hdirect
      have hpool := List.find?_some hdirect
      simp only [decide_eq_true_eq] at hpool
      obtain ⟨rfl, hout, hdepth⟩ := hpool
      exact .direct pool hmem hout hdepth
    | none =>
      rw [hdirect] at h
      match remaining with
      | 0 => cases h
      | 1 => cases h
      | n + 2 =>
        dsimp only at h
        obtain ⟨pool, hmem, hpool⟩ := List.exists_of_findSome?_eq_some h
        split_ifs at hpool with husable
        obtain ⟨rest, hrest, rfl⟩ := Option.map_eq_some_iff.1 hpool
        obtain ⟨rfl, hdepth, -⟩ := husable
        exact .hop pool rest hmem hdepth (ih (n + 1) (by omega) hrest)

/-! ## Resolution -/

/-- The execution finds this very record under its address and input asset. -/
def FirstRecord (pools : List (LiquidityPool A)) (pool : LiquidityPool A) : Prop :=
  pools.find? (fun p => p.poolAddress = pool.poolAddress ∧ p.assetIn = pool.assetIn) = some pool

theorem resolvePools_iff {assetIn : A} {used : List (LiquidityPool A)}
    (chain : Chain pools assetOut amountIn assetIn used) :
    resolvePools pools (used.map (·.poolAddress)) assetIn = .ok (used, assetOut) ↔
      ∀ pool ∈ used, FirstRecord pools pool := by
  induction chain with
  | direct pool mem out depth =>
    simp only [List.map_cons, List.map_nil, resolvePools, bind_eq_ok, orFail_eq_ok, pure_eq_ok,
      List.mem_singleton, forall_eq]
    constructor
    · rintro ⟨found, hfound, _, ⟨⟩, heq⟩
      obtain ⟨⟨rfl, -⟩, -⟩ : (found = pool ∧ True) ∧ found.assetOut = assetOut := by simpa using heq
      exact hfound
    · intro first
      exact ⟨pool, first, _, rfl, by rw [out]⟩
  | hop pool rest mem depth chain ih =>
    simp only [List.map_cons, resolvePools, bind_eq_ok, orFail_eq_ok, pure_eq_ok,
      List.forall_mem_cons, ← ih]
    constructor
    · rintro ⟨found, hfound, ⟨resolved, last⟩, hrest, heq⟩
      cases heq
      exact ⟨hfound, hrest⟩
    · rintro ⟨first, hrest⟩
      exact ⟨pool, first, _, hrest, rfl⟩

omit [DecidableEq A] in
theorem Chain.mem {assetIn : A} {used : List (LiquidityPool A)}
    (chain : Chain pools assetOut amountIn assetIn used) : ∀ pool ∈ used, pool ∈ pools := by
  induction chain with
  | direct pool mem out depth => simpa using mem
  | hop pool rest mem depth chain ih => exact List.forall_mem_cons.2 ⟨mem, ih⟩

/-- Without two different records under one address and input asset every record is the
first. -/
theorem firstRecord_of_unique (unique : ∀ p ∈ pools, ∀ q ∈ pools,
    p.poolAddress = q.poolAddress → p.assetIn = q.assetIn → p = q) {pool : LiquidityPool A}
    (mem : pool ∈ pools) : FirstRecord pools pool := by
  have found : (pools.find? fun p => p.poolAddress = pool.poolAddress ∧
      p.assetIn = pool.assetIn).isSome = true :=
    List.find?_isSome.2 ⟨pool, mem, decide_eq_true ⟨rfl, rfl⟩⟩
  obtain ⟨p, hp⟩ := Option.isSome_iff_exists.1 found
  have hsame := List.find?_some hp
  simp only [decide_eq_true_eq] at hsame
  obtain rfl := unique p (List.mem_of_find?_eq_some hp) pool mem hsame.1 hsame.2
  exact hp

/-! ## Depths -/

variable {contract : A}

omit [DecidableEq A] in
/-- The hops that an execution reaches, with the amounts that reach them. -/
def reached (state : RouterState A) : List (LiquidityPool A) → List (Answer A contract) → ℤ →
    List (LiquidityPool A × ℤ)
  | [], _, _ => []
  | pool :: rest, answers, amount =>
    (pool, amount) ::
      match minExpected pool amount state, answers with
      | .ok least, answer :: answers =>
        if answer.value < least then [] else reached state rest answers answer.value
      | _, _ => []

omit [DecidableEq A] in
/-- No pool that lets the swap go on pays out more than the next one is deep. -/
def AnswersFit (state : RouterState A) : List (LiquidityPool A) → List (Answer A contract) → ℤ →
    Prop
  | pool :: next :: rest, answer :: answers, amount =>
    ∀ least, minExpected pool amount state = .ok least → least ≤ answer.value →
      answer.value ≤ next.depth ∧ AnswersFit state (next :: rest) answers answer.value
  | _, _, _ => True

omit [DecidableEq A] in
theorem reached_fit_iff {state : RouterState A} {pool : LiquidityPool A}
    {rest : List (LiquidityPool A)} {answers : List (Answer A contract)} {amount : ℤ}
    (first : amount ≤ pool.depth) :
    (∀ hop ∈ reached state (pool :: rest) answers amount, hop.2 ≤ hop.1.depth) ↔
      AnswersFit state (pool :: rest) answers amount := by
  induction rest generalizing pool answers amount with
  | nil =>
    unfold AnswersFit reached
    rw [List.forall_mem_cons]
    simp only [first, true_and, iff_true]
    split
    · split_ifs <;> simp [reached]
    · simp
  | cons next rest ih =>
    unfold reached
    rw [List.forall_mem_cons]
    simp only [first, true_and]
    cases answers with
    | nil =>
      simp only [AnswersFit, iff_true]
      split <;> simp_all
    | cons answer answers =>
      unfold AnswersFit
      cases hleast : minExpected pool amount state with
      | error failure => simp
      | ok least =>
        simp only [Except.ok.injEq, forall_eq']
        split_ifs with hlow
        · simp [hlow]
        · rw [forall_prop_of_true (not_lt.1 hlow)]
          constructor
          · intro deep
            have hnext := deep (next, answer.value) (by unfold reached; exact List.mem_cons_self)
            exact ⟨hnext, (ih hnext).1 deep⟩
          · rintro ⟨hnext, fits⟩
            exact (ih hnext).2 fits

omit [DecidableEq A] in
theorem minExpected_insufficient_iff {state : RouterState A} {pool : LiquidityPool A}
    {amount : ℤ} (positive : 0 < pool.depth) :
    minExpected pool amount state = .error (.error .insufficientLiquidity) ↔
      pool.depth < amount := by
  simp [minExpected, bind_eq_error, positive]

omit [DecidableEq A] in
/-- Every hop reached is deep enough exactly when the execution never runs out of
liquidity. -/
theorem reached_iff_sufficient {state : RouterState A} {used : List (LiquidityPool A)}
    {answers : List (Answer A contract)} {amount : ℤ}
    (positive : ∀ pool ∈ used, 0 < pool.depth) (w : RouterWorld A) :
    (∀ hop ∈ reached state used answers amount, hop.2 ≤ hop.1.depth) ↔
      swapHops state used answers amount w ≠ .error (.error .insufficientLiquidity) := by
  induction used generalizing answers amount w with
  | nil => simp [reached, swapHops]
  | cons pool rest ih =>
    obtain ⟨hpos, positive_rest⟩ := List.forall_mem_cons.1 positive
    have shallow : minExpected pool amount state = .error (.error .insufficientLiquidity) ↔
        pool.depth < amount := minExpected_insufficient_iff hpos
    unfold reached swapHops checkSlippage
    rw [List.forall_mem_cons]
    cases hleast : minExpected pool amount state with
    | error failure =>
      rw [hleast, Except.error.injEq] at shallow
      simp [bind_eq_error, shallow]
    | ok least =>
      have deep : amount ≤ pool.depth := by simpa [hleast] using shallow
      cases answers with
      | nil => simp [bind_eq_error, deep]
      | cons answer answers =>
        by_cases hlow : answer.value < least
        · simp [bind_eq_error, deep, hlow, not_le.2 hlow]
        · simpa [bind_eq_error, deep, hlow, not_lt.1 hlow] using
            ih positive_rest (w.deliver answer.moved)

/-! ## The law -/

omit [DecidableEq A] in
theorem Chain.deep {assetIn : A} {used : List (LiquidityPool A)}
    (chain : Chain pools assetOut amountIn assetIn used) :
    ∀ pool ∈ used, amountIn ≤ pool.depth := by
  induction chain with
  | direct pool mem out depth => simpa using depth
  | hop pool rest mem depth chain ih => exact List.forall_mem_cons.2 ⟨depth, ih⟩

/-- The execution of a route accepts it, uses the pools of the search, and finds each of them
deep enough for the amount that reaches it. -/
def Executable (state : RouterState A) (assetIn assetOut : A) (amountIn : ℤ) (route : List A)
    (used : List (LiquidityPool A)) (answers : List (Answer A contract)) : Prop :=
  resolvePools state.pools route assetIn = .ok (used, assetOut) ∧
    ∀ hop ∈ reached state used answers amountIn, hop.2 ≤ hop.1.depth

/-- For every route that is returned, with the pools that the search has used, and for all
answers of these pools: the route is executable exactly when each pool is the first record
under its address and input asset and no answer exceeds the depth of the next pool. Then
and only then resolution and liquidity are no reason for the execution to fail. -/
theorem route_executable_iff (assetIn assetOut : A) (amountIn : ℤ) (maxHops : ℕ)
    (w : RouterWorld A) (route : List A)
    (found : findOptimalRoute assetIn assetOut amountIn maxHops w = .ok route) :
    ∃ state used, w.storage.state = some state ∧
      searchRoute state.pools assetOut amountIn maxHops assetIn [] = some used ∧
      route = used.map (·.poolAddress) ∧ Chain state.pools assetOut amountIn assetIn used ∧
      (∀ answers : List (Answer A contract),
        (Executable state assetIn assetOut amountIn route used answers ↔
          (∀ pool ∈ used, FirstRecord state.pools pool) ∧
            AnswersFit state used answers amountIn) ∧
        ((∀ hop ∈ reached state used answers amountIn, hop.2 ≤ hop.1.depth) ↔ ∀ w',
          swapHops state used answers amountIn w' ≠ .error (.error .insufficientLiquidity))) ∧
      ((∀ p ∈ state.pools, ∀ q ∈ state.pools,
        p.poolAddress = q.poolAddress → p.assetIn = q.assetIn → p = q) →
          ∀ pool ∈ used, FirstRecord state.pools pool) := by
  simp only [findOptimalRoute, loadState, bind_eq_ok, require_eq_ok, orFail_eq_ok,
    exists_const] at found
  obtain ⟨_, -, hpos, -, state, hstate, hroute⟩ := found
  rw [findRouteRecursive_eq] at hroute
  obtain ⟨used, hsearch, rfl⟩ := Option.map_eq_some_iff.1 hroute
  have chain := searchRoute_chain hsearch
  refine ⟨state, used, hstate, hsearch, rfl, chain, ?_, fun unique pool hmem =>
    firstRecord_of_unique unique (chain.mem pool hmem)⟩
  intro answers
  constructor
  · refine and_congr (resolvePools_iff chain) ?_
    cases chain with
    | direct pool mem out depth => exact reached_fit_iff depth
    | hop pool rest mem depth chain => exact reached_fit_iff depth
  · have positive : ∀ pool ∈ used, 0 < pool.depth := fun pool hmem =>
      lt_of_lt_of_le hpos (chain.deep pool hmem)
    constructor
    · exact fun deep w' => (reached_iff_sufficient positive w').1 deep
    · exact fun sufficient => (reached_iff_sufficient positive w).2 (sufficient w)

/-! ## Two pools under one address -/

section Shared

/-- One contract, at address 20, serves two pairs: asset 10 for 11 and asset 10 for 12. -/
def sharedAddress : List (Event ℕ 0 (Operation ℕ 0)) :=
  [.call (aloneInvocation 1) (.initializeRouter 1 100 1000),
    .call (aloneInvocation 1) (.addPool 1 ⟨20, 10, 11, 5000⟩),
    .call (aloneInvocation 1) (.addPool 1 ⟨20, 10, 12, 5000⟩)]

/-- Two pools one after the other, the second as deep as the first. -/
def twoPools : List (Event ℕ 0 (Operation ℕ 0)) :=
  [.call (aloneInvocation 1) (.initializeRouter 1 100 1000),
    .call (aloneInvocation 1) (.addPool 1 ⟨20, 10, 11, 5000⟩),
    .call (aloneInvocation 1) (.addPool 1 ⟨21, 11, 12, 5000⟩)]

/-- The first pool pays out 6000 for 5000. -/
def generousAnswer : List (Answer ℕ 0) := [⟨6000, .still⟩]

def start : RouterWorld ℕ := deployed fun _ _ => 0

theorem route_of_two_pools : ∃ state used, (run invoke start twoPools).storage.state = some state ∧
    [20, 21] = used.map (·.poolAddress) ∧ Chain state.pools 12 5000 10 used ∧
    ∀ pool ∈ used, FirstRecord state.pools pool := by
  obtain ⟨state, used, hstate, -, hroute, chain, -, first⟩ :=
    @route_executable_iff ℕ _ 0 10 12 5000 2 (run invoke start twoPools) [20, 21] rfl
  cases hstate
  exact ⟨_, used, rfl, hroute, chain, first (by decide)⟩

/-- Searched for asset 12, the route is resolved to the pool for asset 11; and a pool that
pays out more than it took in leaves the next one too shallow. -/
theorem route_not_executable :
    (¬ ∀ (es : List (Event ℕ 0 (Operation ℕ 0))) assetIn assetOut amountIn maxHops route,
      findOptimalRoute assetIn assetOut amountIn maxHops (run invoke start es) = .ok route →
      ∃ state used, (run invoke start es).storage.state = some state ∧
        resolvePools state.pools route assetIn = .ok (used, assetOut)) ∧
    ¬ ∀ (es : List (Event ℕ 0 (Operation ℕ 0))) assetIn assetOut amountIn maxHops route
      (answers : List (Answer ℕ 0)),
      findOptimalRoute assetIn assetOut amountIn maxHops (run invoke start es) = .ok route →
      ∃ state used, (run invoke start es).storage.state = some state ∧
        resolvePools state.pools route assetIn = .ok (used, assetOut) ∧
        ∀ hop ∈ reached state used answers amountIn, hop.2 ≤ hop.1.depth := by
  constructor
  · intro law
    obtain ⟨state, used, hstate, hresolve⟩ := law sharedAddress 10 12 5000 1 [20] rfl
    cases hstate
    cases hresolve
  · intro law
    obtain ⟨state, used, hstate, hresolve, deep⟩ := law twoPools 10 12 5000 2 [20, 21]
      generousAnswer rfl
    cases hstate
    cases hresolve
    exact absurd (deep (⟨21, 11, 12, 5000⟩, 6000) (by decide +kernel)) (by decide)

end Shared

end MobileMoney.Router
