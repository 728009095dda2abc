import MobileMoney.Contracts.Router.Routes

/-!
# What the search finds

The search goes depth first: it tries the pools in the order of their registration, and a
pool that is on the path already is skipped unless it ends the route. This module says for
which pools a route is found at all, when it passes every address once, and when it is the
shortest one.
-/

namespace MobileMoney.Router

open Soroban

variable {A : Type} [DecidableEq A]
variable {pools : List (LiquidityPool A)} {assetOut : A} {amountIn : ℤ}

/-! ## When a route is found -/

theorem exists_directPool {pool : LiquidityPool A} (mem : pool ∈ pools)
    (out : pool.assetOut = assetOut) (depth : amountIn ≤ pool.depth) :
    ∃ first, directPool pools pool.assetIn assetOut amountIn = some first := by
  apply Option.isSome_iff_exists.1
  exact List.find?_isSome.2 ⟨pool, mem, decide_eq_true ⟨rfl, out, depth⟩⟩

/-- Within the hops that are left a route goes on from `assetIn`. Only its last pool may
have an address that is on the path already. -/
inductive Reaches (pools : List (LiquidityPool A)) (assetOut : A) (amountIn : ℤ) :
    ℕ → A → List A → Prop where
  | direct {remaining : ℕ} {assetIn : A} {visited : List A} {pool : LiquidityPool A}
      (found : directPool pools assetIn assetOut amountIn = some pool) :
      Reaches pools assetOut amountIn remaining assetIn visited
  | hop {remaining : ℕ} {assetIn : A} {visited : List A} {pool : LiquidityPool A}
      (mem : pool ∈ pools) (fits : usable assetIn amountIn visited pool)
      (rest : Reaches pools assetOut amountIn (remaining + 1) pool.assetOut
        (visited ++ [pool.poolAddress])) :
      Reaches pools assetOut amountIn (remaining + 2) assetIn visited

/-- The recursive case tries this pool and succeeds with it. -/
def LeadsOn (pools : List (LiquidityPool A)) (assetOut : A) (amountIn : ℤ) (remaining : ℕ)
    (assetIn : A) (visited : List A) (pool : LiquidityPool A) : Prop :=
  usable assetIn amountIn visited pool ∧
    Reaches pools assetOut amountIn (remaining + 1) pool.assetOut (visited ++ [pool.poolAddress])

/-- The first registered pool that leads on. -/
def FirstOnward (pools : List (LiquidityPool A)) (assetOut : A) (amountIn : ℤ) (remaining : ℕ)
    (assetIn : A) (visited : List A) (pool : LiquidityPool A) : Prop :=
  ∃ before after, pools = before ++ pool :: after ∧
    LeadsOn pools assetOut amountIn remaining assetIn visited pool ∧
    ∀ p ∈ before, ¬ LeadsOn pools assetOut amountIn remaining assetIn visited p

theorem FirstOnward.mem {remaining : ℕ} {assetIn : A} {visited : List A}
    {pool : LiquidityPool A}
    (first : FirstOnward pools assetOut amountIn remaining assetIn visited pool) :
    pool ∈ pools := by
  obtain ⟨before, after, rfl, -⟩ := first
  simp

theorem FirstOnward.unique {remaining : ℕ} {assetIn : A} {visited : List A}
    {p q : LiquidityPool A}
    (hp : FirstOnward pools assetOut amountIn remaining assetIn visited p)
    (hq : FirstOnward pools assetOut amountIn remaining assetIn visited q) : p = q := by
  obtain ⟨before, after, hsplit, leads, earlier⟩ := hp
  obtain ⟨before', after', hsplit', leads', earlier'⟩ := hq
  rw [hsplit] at hsplit'
  obtain ⟨between, rfl, hrest⟩ | ⟨between, rfl, hrest⟩ := List.append_eq_append_iff.1 hsplit'
  · cases between with
    | nil => exact (List.cons.inj hrest).1
    | cons b between =>
      obtain ⟨rfl, -⟩ := List.cons.inj hrest
      exact absurd leads (earlier' p (by simp))
  · cases between with
    | nil => exact (List.cons.inj hrest).1.symm
    | cons b between =>
      obtain ⟨rfl, -⟩ := List.cons.inj hrest
      exact absurd leads' (earlier q (by simp))

theorem searchRoute_of_direct {remaining : ℕ} {assetIn : A} {visited : List A}
    {pool : LiquidityPool A} (direct : directPool pools assetIn assetOut amountIn = some pool) :
    searchRoute pools assetOut amountIn remaining assetIn visited = some [pool] := by
  unfold searchRoute
  rw [direct]

theorem searchRoute_isSome_iff (remaining : ℕ) (assetIn : A) (visited : List A) :
    (searchRoute pools assetOut amountIn remaining assetIn visited).isSome ↔
      Reaches pools assetOut amountIn remaining assetIn visited := by
  induction remaining using Nat.strong_induction_on generalizing assetIn visited with
  | _ remaining ih =>
    constructor
    · intro found
      unfold searchRoute at found
      cases hdirect : directPool pools assetIn assetOut amountIn with
      | some pool => exact .direct hdirect
      | none =>
        rw [hdirect] at found
        rcases remaining with _ | _ | n
        · cases found
        · cases found
        · obtain ⟨pool, hmem, hpool⟩ := List.findSome?_isSome_iff.1 found
          split_ifs at hpool with fits
          · rw [Option.isSome_map, ih (n + 1) (by omega)] at hpool
            exact .hop hmem fits hpool
          · cases hpool
    · intro reaches
      cases reaches with
      | direct found => rw [searchRoute_of_direct found]; rfl
      | @hop n _ _ pool mem fits rest =>
        cases hdirect : directPool pools assetIn assetOut amountIn with
        | some direct => rw [searchRoute_of_direct hdirect]; rfl
        | none =>
          unfold searchRoute
          rw [hdirect]
          refine List.findSome?_isSome_iff.2 ⟨pool, mem, ?_⟩
          rw [if_pos fits, Option.isSome_map, ih (n + 1) (by omega)]
          exact rest

/-- Without a direct pool the search follows the first pool that leads on. -/
theorem searchRoute_eq_some {remaining : ℕ} {assetIn : A} {visited : List A}
    {used : List (LiquidityPool A)}
    (indirect : directPool pools assetIn assetOut amountIn = none)
    (found : searchRoute pools assetOut amountIn (remaining + 2) assetIn visited = some used) :
    ∃ pool rest, used = pool :: rest ∧
      FirstOnward pools assetOut amountIn remaining assetIn visited pool ∧
      searchRoute pools assetOut amountIn (remaining + 1) pool.assetOut
        (visited ++ [pool.poolAddress]) = some rest := by
  unfold searchRoute at found
  rw [indirect] at found
  obtain ⟨before, pool, after, hsplit, hpool, hbefore⟩ := List.findSome?_eq_some_iff.1 found
  split_ifs at hpool with fits
  obtain ⟨rest, hrest, rfl⟩ := Option.map_eq_some_iff.1 hpool
  refine ⟨pool, rest, rfl, ⟨before, after, hsplit, ⟨fits, ?_⟩, ?_⟩, hrest⟩
  · rw [← searchRoute_isSome_iff, hrest]
    rfl
  · rintro p hp ⟨fits', leads⟩
    have hnone := hbefore p hp
    rw [if_pos fits', Option.map_eq_none_iff] at hnone
    rw [← searchRoute_isSome_iff, hnone] at leads
    cases leads

/-- How the search has come to the pools that it returns. -/
inductive Found (pools : List (LiquidityPool A)) (assetOut : A) (amountIn : ℤ) :
    ℕ → A → List A → List (LiquidityPool A) → Prop where
  | last {remaining : ℕ} {assetIn : A} {visited : List A} {pool : LiquidityPool A}
      (direct : directPool pools assetIn assetOut amountIn = some pool) :
      Found pools assetOut amountIn remaining assetIn visited [pool]
  | hop {remaining : ℕ} {assetIn : A} {visited : List A} {pool : LiquidityPool A}
      {rest : List (LiquidityPool A)}
      (indirect : directPool pools assetIn assetOut amountIn = none)
      (first : FirstOnward pools assetOut amountIn remaining assetIn visited pool)
      (onward : Found pools assetOut amountIn (remaining + 1) pool.assetOut
        (visited ++ [pool.poolAddress]) rest) :
      Found pools assetOut amountIn (remaining + 2) assetIn visited (pool :: rest)

theorem searchRoute_found {remaining : ℕ} {assetIn : A} {visited : List A}
    {used : List (LiquidityPool A)}
    (found : searchRoute pools assetOut amountIn remaining assetIn visited = some used) :
    Found pools assetOut amountIn remaining assetIn visited used := by
  induction remaining using Nat.strong_induction_on generalizing assetIn visited used with
  | _ remaining ih =>
    cases hdirect : directPool pools assetIn assetOut amountIn with
    | some pool =>
      rw [searchRoute_of_direct hdirect] at found
      cases found
      exact .last hdirect
    | none =>
      rcases remaining with _ | _ | n
      · simp [searchRoute, hdirect] at found
      · simp [searchRoute, hdirect] at found
      · obtain ⟨pool, rest, rfl, first, hrest⟩ := searchRoute_eq_some hdirect found
        exact .hop hdirect first (ih (n + 1) (by omega) hrest)

theorem Found.length_le {remaining : ℕ} {assetIn : A} {visited : List A}
    {used : List (LiquidityPool A)} (hops : 0 < remaining)
    (found : Found pools assetOut amountIn remaining assetIn visited used) :
    used.length ≤ remaining := by
  induction found with
  | last direct => exact hops
  | hop indirect first onward ih => exact Nat.succ_le_succ (ih (by omega))

omit [DecidableEq A] in
theorem Chain.length_pos {assetIn : A} {used : List (LiquidityPool A)}
    (chain : Chain pools assetOut amountIn assetIn used) : 0 < used.length := by
  cases chain <;> simp

omit [DecidableEq A] in
theorem nodup_push_iff {visited : List A} {address : A} :
    (visited ++ [address]).Nodup ↔ address ∉ visited ∧ visited.Nodup := by
  rw [← List.concat_eq_append, List.nodup_concat]

/-- Every chain without a repeated address is open to the search. -/
theorem Chain.reaches {assetIn : A} {used : List (LiquidityPool A)}
    (chain : Chain pools assetOut amountIn assetIn used) {remaining : ℕ} {visited : List A}
    (hops : used.length ≤ remaining)
    (distinct : (visited ++ used.map (·.poolAddress)).Nodup) :
    Reaches pools assetOut amountIn remaining assetIn visited := by
  induction chain generalizing remaining visited with
  | direct pool mem out depth =>
    obtain ⟨first, hfirst⟩ := exists_directPool mem out depth
    exact .direct hfirst
  | hop pool rest mem depth chain ih =>
    have hrest := chain.length_pos
    simp only [List.length_cons] at hops
    obtain ⟨n, rfl⟩ : ∃ n, remaining = n + 2 := ⟨remaining - 2, by omega⟩
    have hsplit : visited ++ (pool :: rest).map (·.poolAddress) =
        (visited ++ [pool.poolAddress]) ++ rest.map (·.poolAddress) := by simp
    rw [hsplit] at distinct
    have fresh : pool.poolAddress ∉ visited := (nodup_push_iff.1 distinct.of_append_left).1
    exact .hop mem ⟨rfl, depth, fresh⟩ (ih (by omega) distinct)

/-! ## Routes that double back -/

/-- The pools that the search follows end in one whose address it has passed before. -/
inductive DoublesBack (pools : List (LiquidityPool A)) (assetOut : A) (amountIn : ℤ) :
    ℕ → A → List A → Prop where
  | last {remaining : ℕ} {assetIn : A} {visited : List A} {pool : LiquidityPool A}
      (direct : directPool pools assetIn assetOut amountIn = some pool)
      (seen : pool.poolAddress ∈ visited) :
      DoublesBack pools assetOut amountIn remaining assetIn visited
  | hop {remaining : ℕ} {assetIn : A} {visited : List A} {pool : LiquidityPool A}
      (indirect : directPool pools assetIn assetOut amountIn = none)
      (first : FirstOnward pools assetOut amountIn remaining assetIn visited pool)
      (rest : DoublesBack pools assetOut amountIn (remaining + 1) pool.assetOut
        (visited ++ [pool.poolAddress])) :
      DoublesBack pools assetOut amountIn (remaining + 2) assetIn visited

theorem DoublesBack.reaches {remaining : ℕ} {assetIn : A} {visited : List A}
    (back : DoublesBack pools assetOut amountIn remaining assetIn visited) :
    Reaches pools assetOut amountIn remaining assetIn visited := by
  cases back with
  | last direct seen => exact .direct direct
  | hop indirect first rest =>
    obtain ⟨before, after, rfl, ⟨fits, reaches⟩, -⟩ := first
    exact .hop (by simp) fits reaches

theorem Found.nodup_iff {remaining : ℕ} {assetIn : A} {visited : List A}
    {used : List (LiquidityPool A)} (distinct : visited.Nodup)
    (found : Found pools assetOut amountIn remaining assetIn visited used) :
    (visited ++ used.map (·.poolAddress)).Nodup ↔
      ¬ DoublesBack pools assetOut amountIn remaining assetIn visited := by
  induction found with
  | @last remaining assetIn visited pool direct =>
    have seen_iff : DoublesBack pools assetOut amountIn remaining assetIn visited ↔
        pool.poolAddress ∈ visited := by
      constructor
      · intro back
        cases back with
        | last direct' seen =>
          rw [direct] at direct'
          cases direct'
          exact seen
        | hop indirect => simp [direct] at indirect
      · exact .last direct
    rw [seen_iff, List.map_singleton, nodup_push_iff]
    exact and_iff_left distinct
  | @hop n assetIn visited pool rest indirect first onward ih =>
    obtain ⟨-, -, -, ⟨⟨-, -, fresh⟩, -⟩, -⟩ := id first
    have hdistinct : (visited ++ [pool.poolAddress]).Nodup := nodup_push_iff.2 ⟨fresh, distinct⟩
    have back_iff : DoublesBack pools assetOut amountIn (n + 2) assetIn visited ↔
        DoublesBack pools assetOut amountIn (n + 1) pool.assetOut
          (visited ++ [pool.poolAddress]) := by
      constructor
      · intro back
        cases back with
        | last direct => simp [indirect] at direct
        | hop _ first' back =>
          obtain rfl := first.unique first'
          exact back
      · exact .hop indirect first
    rw [back_iff, ← ih hdistinct]
    simp

/-- The search answers; it returns a route exactly when there is a chain of at most `maxHops`
deep enough pools with different addresses; and what it returns is such a chain. -/
def SimpleSearch (pools : List (LiquidityPool A)) (assetIn assetOut : A) (amountIn : ℤ)
    (maxHops : ℕ) (answer : Result (List A)) : Prop :=
  ((∃ route, answer = .ok route) ∨ answer = .error (.error .routeNotFound)) ∧
  ((∃ route, answer = .ok route) ↔
    ∃ used, Chain pools assetOut amountIn assetIn used ∧ (used.map (·.poolAddress)).Nodup ∧
      used.length ≤ maxHops) ∧
  ∀ route, answer = .ok route →
    ∃ used, Chain pools assetOut amountIn assetIn used ∧ (used.map (·.poolAddress)).Nodup ∧
      used.length ≤ maxHops ∧ route = used.map (·.poolAddress)

/-- What `find_optimal_route` returns once the contract is not paused, the amount is positive
and at least one hop is allowed. -/
theorem findOptimalRoute_eq {assetIn : A} {maxHops : ℕ} {w : RouterWorld A}
    {state : RouterState A} (running : ensureNotPaused w = .ok ()) (amount : 0 < amountIn)
    (initialized : w.storage.state = some state) :
    findOptimalRoute assetIn assetOut amountIn maxHops w =
      if maxHops = 0 then .error (.error .routeNotFound)
      else orFail ((searchRoute state.pools assetOut amountIn maxHops assetIn []).map
        (·.map (·.poolAddress))) (.error .routeNotFound) := by
  unfold findOptimalRoute loadState
  rw [running, (require_eq_ok (u := ())).2 amount, initialized]
  split_ifs with hops
  · subst hops
    rfl
  · rw [(require_eq_ok (u := ())).2 (Nat.pos_of_ne_zero hops)]
    simp only [findRouteRecursive_eq, List.nil_append]
    rfl

omit [DecidableEq A] in
theorem simpleSearch_of_none {assetIn : A} {maxHops : ℕ}
    (none : ¬ ∃ used, Chain pools assetOut amountIn assetIn used ∧
      (used.map (·.poolAddress)).Nodup ∧ used.length ≤ maxHops) :
    SimpleSearch pools assetIn assetOut amountIn maxHops (.error (.error .routeNotFound)) := by
  refine ⟨.inr rfl, ⟨?_, fun valid => absurd valid none⟩, ?_⟩
  · rintro ⟨route, hroute⟩
    cases hroute
  · intro route hroute
    cases hroute

/-- While the contract is not paused, for all registered pools, assets and hop limits and every
positive amount: the search returns a route exactly when there is one, and one that passes
no address twice, if and only if the pools it follows do not double back. -/
theorem findOptimalRoute_simple_iff (assetIn assetOut : A) (amountIn : ℤ) (maxHops : ℕ)
    (w : RouterWorld A) (state : RouterState A) (running : ensureNotPaused w = .ok ())
    (amount : 0 < amountIn) (initialized : w.storage.state = some state) :
    SimpleSearch state.pools assetIn assetOut amountIn maxHops
        (findOptimalRoute assetIn assetOut amountIn maxHops w) ↔
      ¬ DoublesBack state.pools assetOut amountIn maxHops assetIn [] := by
  rw [findOptimalRoute_eq running amount initialized]
  split_ifs with hops
  · subst hops
    refine iff_of_true (simpleSearch_of_none ?_) ?_
    · rintro ⟨used, chain, -, short⟩
      exact absurd chain.length_pos (by omega)
    · intro back
      cases back with
      | last direct seen => cases seen
  cases hsearch : searchRoute state.pools assetOut amountIn maxHops assetIn [] with
  | none =>
    have closed : ¬ Reaches state.pools assetOut amountIn maxHops assetIn [] := by
      rw [← searchRoute_isSome_iff, hsearch]
      simp
    refine iff_of_true (simpleSearch_of_none ?_) fun back => closed back.reaches
    rintro ⟨used, chain, distinct, short⟩
    exact closed (chain.reaches short distinct)
  | some used =>
    rw [← (searchRoute_found hsearch).nodup_iff List.nodup_nil]
    constructor
    · rintro ⟨-, -, sound⟩
      obtain ⟨used', -, distinct, -, hsame⟩ := sound _ rfl
      replace hsame : used.map (·.poolAddress) = used'.map (·.poolAddress) := hsame
      rwa [List.nil_append, hsame]
    · intro distinct
      have valid : Chain state.pools assetOut amountIn assetIn used ∧
          (used.map (·.poolAddress)).Nodup ∧ used.length ≤ maxHops :=
        ⟨searchRoute_chain hsearch, distinct,
          (searchRoute_found hsearch).length_le (Nat.pos_of_ne_zero hops)⟩
      refine ⟨.inl ⟨_, rfl⟩, iff_of_true ⟨_, rfl⟩ ⟨used, valid⟩, ?_⟩
      intro route hroute
      cases hroute
      exact ⟨used, valid.1, valid.2.1, valid.2.2, rfl⟩

section Doubled

/-- One contract, at address 20, serves two pairs in a row: asset 10 for 11 and 11 for 12. -/
def pairsInARow : List (Event ℕ 0 (Operation ℕ 0)) :=
  [.call (aloneInvocation 1) (.initializeRouter 1 100 1000),
    .call (aloneInvocation 1) (.addPool 1 ⟨20, 10, 11, 5000⟩),
    .call (aloneInvocation 1) (.addPool 1 ⟨20, 11, 12, 5000⟩)]

/-- Over two contracts the search does what it should, and over the one it doubles back. -/
theorem two_pools_simple :
    SimpleSearch [⟨20, 10, 11, 5000⟩, ⟨21, 11, 12, 5000⟩] 10 12 5000 2
        (findOptimalRoute 10 12 5000 2 (run invoke start twoPools)) ∧
      DoublesBack [⟨20, 10, 11, 5000⟩, ⟨20, 11, 12, 5000⟩] 12 5000 2 10 [] := by
  have apart := findOptimalRoute_simple_iff 10 12 5000 2 (run invoke start twoPools)
    ⟨[⟨20, 10, 11, 5000⟩, ⟨21, 11, 12, 5000⟩], 1, 100, 1000⟩ rfl (by decide) rfl
  have shared := findOptimalRoute_simple_iff 10 12 5000 2 (run invoke start pairsInARow)
    ⟨[⟨20, 10, 11, 5000⟩, ⟨20, 11, 12, 5000⟩], 1, 100, 1000⟩ rfl (by decide) rfl
  constructor
  · refine apart.2 fun back => ?_
    cases back with
    | last _ seen => cases seen
    | hop _ first rest =>
      cases rest with
      | last direct seen =>
        have firstHop := first.mem
        obtain ⟨-, -, -, ⟨fits, -⟩, -⟩ := first
        simp only [List.mem_cons, List.not_mem_nil, or_false] at firstHop
        rcases firstHop with rfl | rfl
        · obtain rfl := Option.some.inj (direct.symm.trans (by decide :
            directPool _ _ _ _ = some (⟨21, 11, 12, 5000⟩ : LiquidityPool ℕ)))
          simp at seen
        · exact absurd fits.1 (by decide)
  · by_contra straight
    obtain ⟨-, -, sound⟩ := shared.2 straight
    obtain ⟨used, -, distinct, -, hroute⟩ := sound [20, 20] rfl
    rw [← hroute] at distinct
    exact absurd distinct (by decide)

/-- The search for asset 12 passes the contract at address 20 twice. -/
theorem route_doubles_back :
    ¬ ∀ (es : List (Event ℕ 0 (Operation ℕ 0))) state assetIn assetOut amountIn maxHops,
      (run invoke start es).storage.state = some state →
      ensureNotPaused (run invoke start es) = .ok () → 0 < amountIn →
      SimpleSearch state.pools assetIn assetOut amountIn maxHops
        (findOptimalRoute assetIn assetOut amountIn maxHops (run invoke start es)) := by
  intro law
  obtain ⟨-, -, sound⟩ := law pairsInARow _ 10 12 5000 2 rfl rfl (by decide)
  obtain ⟨used, -, distinct, -, hroute⟩ := sound [20, 20] rfl
  rw [← hroute] at distinct
  exact absurd distinct (by decide)

end Doubled

/-! ## Shortest routes -/

/-- A route is returned, and no chain of at most `maxHops` deep enough pools is shorter. -/
def Shortest (pools : List (LiquidityPool A)) (assetIn assetOut : A) (amountIn : ℤ)
    (maxHops : ℕ) (answer : Result (List A)) : Prop :=
  ∃ route, answer = .ok route ∧ ∀ used, Chain pools assetOut amountIn assetIn used →
    used.length ≤ maxHops → route.length ≤ used.length

/-- Wherever the search takes the first pool that leads on, `assetOut` comes strictly
nearer. -/
inductive Straight (pools : List (LiquidityPool A)) (assetOut : A) (amountIn : ℤ) :
    ℕ → A → List A → Prop where
  | direct {remaining : ℕ} {assetIn : A} {visited : List A} {pool : LiquidityPool A}
      (found : directPool pools assetIn assetOut amountIn = some pool) :
      Straight pools assetOut amountIn remaining assetIn visited
  | hop {remaining : ℕ} {assetIn : A} {visited : List A} {pool : LiquidityPool A}
      (indirect : directPool pools assetIn assetOut amountIn = none)
      (first : FirstOnward pools assetOut amountIn remaining assetIn visited pool)
      (nearer : ∀ used, Chain pools assetOut amountIn assetIn used →
        used.length ≤ remaining + 2 →
        ∃ rest, Chain pools assetOut amountIn pool.assetOut rest ∧ rest.length < used.length)
      (rest : Straight pools assetOut amountIn (remaining + 1) pool.assetOut
        (visited ++ [pool.poolAddress])) :
      Straight pools assetOut amountIn (remaining + 2) assetIn visited

theorem searchRoute_shortest_iff (remaining : ℕ) (assetIn : A) (visited : List A) :
    (∃ found, searchRoute pools assetOut amountIn remaining assetIn visited = some found ∧
      ∀ used, Chain pools assetOut amountIn assetIn used → used.length ≤ remaining →
        found.length ≤ used.length) ↔
      Straight pools assetOut amountIn remaining assetIn visited := by
  induction remaining using Nat.strong_induction_on generalizing assetIn visited with
  | _ remaining ih =>
    constructor
    · rintro ⟨found, hfound, least⟩
      cases hdirect : directPool pools assetIn assetOut amountIn with
      | some pool => exact .direct hdirect
      | none =>
        rcases remaining with _ | _ | n
        · simp [searchRoute, hdirect] at hfound
        · simp [searchRoute, hdirect] at hfound
        · obtain ⟨pool, rest, rfl, first, hrest⟩ := searchRoute_eq_some hdirect hfound
          have chain := searchRoute_chain hrest
          refine .hop hdirect first (fun used hused short => ⟨rest, chain, ?_⟩) ?_
          · exact least used hused short
          · refine (ih (n + 1) (by omega) _ _).1 ⟨rest, hrest, fun used hused short => ?_⟩
            obtain ⟨-, -, -, ⟨⟨rfl, depth, -⟩, -⟩, -⟩ := id first
            have := least (pool :: used) (.hop pool used first.mem depth hused)
              (Nat.succ_le_succ short)
            simpa using this
    · intro straight
      cases straight with
      | @direct _ _ _ pool found =>
        exact ⟨[pool], searchRoute_of_direct found, fun used chain _ => chain.length_pos⟩
      | @hop n _ _ pool indirect first nearer rest =>
        obtain ⟨found, hfound, least⟩ := (ih (n + 1) (by omega) _ _).2 rest
        have reaches : Reaches pools assetOut amountIn (n + 2) assetIn visited := by
          obtain ⟨-, -, -, ⟨fits, reaches⟩, -⟩ := id first
          exact .hop first.mem fits reaches
        obtain ⟨route, hroute⟩ :=
          Option.isSome_iff_exists.1 ((searchRoute_isSome_iff _ _ _).2 reaches)
        obtain ⟨pool', found', rfl, first', hfound'⟩ := searchRoute_eq_some indirect hroute
        obtain rfl := first.unique first'
        rw [hfound] at hfound'
        cases hfound'
        refine ⟨pool :: found, hroute, fun used chain short => ?_⟩
        obtain ⟨closer, hcloser, hless⟩ := nearer used chain short
        have := least closer hcloser (by omega)
        simp only [List.length_cons]
        omega

/-- While the contract is not paused, for all registered pools and every request for which
there is a chain of at most `maxHops` deep enough pools: the search returns a shortest one
if and only if every pool it follows brings the asset that is asked for nearer. -/
theorem findOptimalRoute_shortest_iff (assetIn assetOut : A) (amountIn : ℤ) (maxHops : ℕ)
    (w : RouterWorld A) (state : RouterState A) (running : ensureNotPaused w = .ok ())
    (amount : 0 < amountIn) (initialized : w.storage.state = some state)
    (valid : ∃ used, Chain state.pools assetOut amountIn assetIn used ∧
      used.length ≤ maxHops) :
    Shortest state.pools assetIn assetOut amountIn maxHops
        (findOptimalRoute assetIn assetOut amountIn maxHops w) ↔
      Straight state.pools assetOut amountIn maxHops assetIn [] := by
  have hops : maxHops ≠ 0 := by
    obtain ⟨used, chain, short⟩ := valid
    have := chain.length_pos
    omega
  rw [findOptimalRoute_eq running amount initialized, if_neg hops, ← searchRoute_shortest_iff]
  constructor
  · rintro ⟨route, hroute, least⟩
    obtain ⟨found, hfound, rfl⟩ := Option.map_eq_some_iff.1 (orFail_eq_ok.1 hroute)
    exact ⟨found, hfound, by simpa using least⟩
  · rintro ⟨found, hfound, least⟩
    exact ⟨found.map (·.poolAddress), by rw [hfound]; rfl, by simpa using least⟩

section Detour

/-- Three pools lead from asset 10 to 13, and so do the two that are registered later. -/
def detour : List (Event ℕ 0 (Operation ℕ 0)) :=
  [.call (aloneInvocation 1) (.initializeRouter 1 100 1000),
    .call (aloneInvocation 1) (.addPool 1 ⟨20, 10, 11, 5000⟩),
    .call (aloneInvocation 1) (.addPool 1 ⟨21, 11, 12, 5000⟩),
    .call (aloneInvocation 1) (.addPool 1 ⟨22, 12, 13, 5000⟩),
    .call (aloneInvocation 1) (.addPool 1 ⟨23, 10, 14, 5000⟩),
    .call (aloneInvocation 1) (.addPool 1 ⟨24, 14, 13, 5000⟩)]

def fivePools : List (LiquidityPool ℕ) :=
  [⟨20, 10, 11, 5000⟩, ⟨21, 11, 12, 5000⟩, ⟨22, 12, 13, 5000⟩, ⟨23, 10, 14, 5000⟩,
    ⟨24, 14, 13, 5000⟩]

theorem short_chain : Chain fivePools 13 5000 10 [⟨23, 10, 14, 5000⟩, ⟨24, 14, 13, 5000⟩] :=
  .hop ⟨23, 10, 14, 5000⟩ [⟨24, 14, 13, 5000⟩] (by decide) (by decide)
    (.direct ⟨24, 14, 13, 5000⟩ (by decide) rfl (by decide))

theorem two_le_length {assetIn : ℕ} (start : assetIn = 10) {used : List (LiquidityPool ℕ)}
    (chain : Chain [⟨20, 10, 11, 5000⟩, ⟨21, 11, 12, 5000⟩] 12 5000 assetIn used) :
    2 ≤ used.length := by
  cases chain with
  | direct pool mem out depth =>
    simp only [List.mem_cons, List.not_mem_nil, or_false] at mem
    rcases mem with rfl | rfl
    · cases out
    · cases start
  | hop pool rest mem depth chain => exact Nat.succ_le_succ chain.length_pos

/-- The search goes straight over two pools, and not over five. -/
theorem five_pools_not_straight :
    Straight [⟨20, 10, 11, 5000⟩, ⟨21, 11, 12, 5000⟩] 12 5000 2 10 [] ∧
      ¬ Straight fivePools 13 5000 3 10 [] := by
  constructor
  · refine (findOptimalRoute_shortest_iff 10 12 5000 2 (run invoke start twoPools)
      ⟨[⟨20, 10, 11, 5000⟩, ⟨21, 11, 12, 5000⟩], 1, 100, 1000⟩ rfl (by decide) rfl
      ⟨[⟨20, 10, 11, 5000⟩, ⟨21, 11, 12, 5000⟩], ?_, by decide⟩).1 ?_
    · exact .hop ⟨20, 10, 11, 5000⟩ [⟨21, 11, 12, 5000⟩] (by decide) (by decide)
        (.direct ⟨21, 11, 12, 5000⟩ (by decide) rfl (by decide))
    · exact ⟨[20, 21], rfl, fun used chain _ => two_le_length rfl chain⟩
  · intro straight
    obtain ⟨route, hroute, least⟩ := (findOptimalRoute_shortest_iff 10 13 5000 3
      (run invoke start detour) ⟨fivePools, 1, 100, 1000⟩ rfl (by decide) rfl
      ⟨_, short_chain, by decide⟩).2 straight
    obtain rfl : [20, 21, 22] = route := Except.ok.inj hroute
    exact absurd (least _ short_chain (by decide)) (by decide)

/-- The pools that are registered first win, though they need a hop more. -/
theorem detour_returned :
    ¬ ∀ (es : List (Event ℕ 0 (Operation ℕ 0))) state assetIn assetOut amountIn maxHops,
      (run invoke start es).storage.state = some state →
      ensureNotPaused (run invoke start es) = .ok () → 0 < amountIn →
      (∃ used, Chain state.pools assetOut amountIn assetIn used ∧ used.length ≤ maxHops) →
      Shortest state.pools assetIn assetOut amountIn maxHops
        (findOptimalRoute assetIn assetOut amountIn maxHops (run invoke start es)) := by
  intro law
  obtain ⟨route, hroute, least⟩ := law detour ⟨fivePools, 1, 100, 1000⟩ 10 13 5000 3 rfl rfl
    (by decide) ⟨_, short_chain, by decide⟩
  obtain rfl : [20, 21, 22] = route := Except.ok.inj hroute
  exact absurd (least _ short_chain (by decide)) (by decide)

end Detour

end MobileMoney.Router
