import MobileMoney.Library.MachineInt
import MobileMoney.Soroban.Host

/-!
# The oracle contract

`contracts/oracle`: a persistent list of pools that quote asset pairs. The rate of a pair is
the best of the quotes of its pools. What the pools answer is a parameter; a pool that gives
no answer traps.
-/

namespace MobileMoney.Oracle

open Soroban MachineInt

variable {A : Type}

inductive OracleError where
  | unauthorized
  | invalidAmount
  | noRegisteredPools
  | poolQueryFailed
  | spreadTooHigh
  deriving DecidableEq, Repr

structure OraclePool (A : Type) where
  contract : A
  assetIn : A
  assetOut : A
  maxSpreadBps : ℕ
  deriving DecidableEq, Repr

/-- Persistent storage under `ORACLE_POOLS`. The contract publishes nothing. -/
abbrev OracleWorld (A : Type) := World A (Option (List (OraclePool A))) Empty

abbrev Result (α : Type) := Outcome OracleError α

/-- What `get_quote` of each contract answers for a pair and an amount. -/
abbrev Quotes (A : Type) := A → A → A → ℤ → Option ℤ

variable {contract : A}

def loadPools (w : OracleWorld A) : List (OraclePool A) := w.storage.getD []

/-- Whoever calls is the `admin`, and nothing is checked against earlier registrations. -/
def registerPool (env : Invocation A contract) (admin : A) (pool : OraclePool A)
    (w : OracleWorld A) : Result (OracleWorld A) := do
  env.requireAuth admin
  require (0 < pool.maxSpreadBps) (.panic "Oracle: max_spread_bps must be positive")
  return w.store (some (loadPools w ++ [pool]))

/-! ## Rates -/

structure RateRange where
  best : ℤ
  worst : ℤ
  found : Bool
  deriving DecidableEq, Repr

def RateRange.start : RateRange := ⟨i128.min, i128.max, false⟩

def RateRange.add (range : RateRange) (quote : ℤ) : RateRange where
  best := if range.best < quote then quote else range.best
  worst := if quote < range.worst then quote else range.worst
  found := true

variable [DecidableEq A]

/-- The loop of `fetch_rate_range`. -/
def fetchQuotes (quotes : Quotes A) (assetIn assetOut : A) (amountIn : ℤ) :
    List (OraclePool A) → RateRange → Result RateRange
  | [], range => .ok range
  | pool :: pools, range =>
    if pool.assetIn ≠ assetIn ∨ pool.assetOut ≠ assetOut then
      fetchQuotes quotes assetIn assetOut amountIn pools range
    else do
      let quote ← orFail (quotes pool.contract pool.assetIn pool.assetOut amountIn)
        (.panic "get_quote")
      require (0 < quote) (.panic "Oracle: pool quote must be positive")
      fetchQuotes quotes assetIn assetOut amountIn pools (range.add quote)

def fetchRateRange (quotes : Quotes A) (assetIn assetOut : A) (amountIn : ℤ)
    (w : OracleWorld A) : Result (ℤ × ℤ) := do
  require (0 < amountIn) (.panic "Oracle: amount_in must be positive")
  let range ← fetchQuotes quotes assetIn assetOut amountIn (loadPools w) .start
  require (range.found = true) (.panic "Oracle: no registered pools for requested asset pair")
  return (range.best, range.worst)

def getRate (quotes : Quotes A) (assetIn assetOut : A) (amountIn : ℤ) (w : OracleWorld A) :
    Result ℤ := do
  let range ← fetchRateRange quotes assetIn assetOut amountIn w
  return range.1

def computeSpreadBps (best worst : ℤ) : Result ℤ :=
  if best ≤ 0 ∨ worst ≤ 0 ∨ best < worst then .error (.error .poolQueryFailed)
  else .ok ((i128.saturatingMul (best - worst) 10000).tdiv best)

def getRateWithSpread (quotes : Quotes A) (assetIn assetOut : A) (amountIn : ℤ)
    (maxSpreadBps : ℕ) (w : OracleWorld A) : Result ℤ := do
  require (0 < maxSpreadBps) (.panic "Oracle: max_spread_bps must be positive")
  let range ← fetchRateRange quotes assetIn assetOut amountIn w
  let spreadBps ← computeSpreadBps range.1 range.2
  require (¬ (maxSpreadBps : ℤ) < spreadBps) (.error .spreadTooHigh)
  return range.1

/-- A spread that cannot be computed counts as none. -/
def validateSpread (quotes : Quotes A) (assetIn assetOut : A) (amountIn : ℤ)
    (maxSpreadBps : ℕ) (w : OracleWorld A) : Result Bool := do
  let range ← fetchRateRange quotes assetIn assetOut amountIn w
  let spreadBps := (computeSpreadBps range.1 range.2).toOption.getD 0
  return decide (spreadBps ≤ maxSpreadBps)

/-- The pools registered for a pair. -/
def ofPair (assetIn assetOut : A) (pools : List (OraclePool A)) : List (OraclePool A) :=
  pools.filter fun pool => pool.assetIn = assetIn ∧ pool.assetOut = assetOut

def listPools (assetIn assetOut : A) (w : OracleWorld A) : List (OraclePool A) :=
  ofPair assetIn assetOut (loadPools w)

/-- The pools may answer each call differently. -/
inductive Operation (A : Type) where
  | registerPool (admin : A) (pool : OraclePool A)
  | getRate (quotes : Quotes A) (assetIn assetOut : A) (amountIn : ℤ)
  | getRateWithSpread (quotes : Quotes A) (assetIn assetOut : A) (amountIn : ℤ)
    (maxSpreadBps : ℕ)
  | validateSpread (quotes : Quotes A) (assetIn assetOut : A) (amountIn : ℤ) (maxSpreadBps : ℕ)
  | listPools (assetIn assetOut : A)

def invoke (env : Invocation A contract) (op : Operation A) (w : OracleWorld A) :
    Result (OracleWorld A) :=
  match op with
  | .registerPool admin pool => registerPool env admin pool w
  | .getRate quotes assetIn assetOut amountIn =>
    (getRate quotes assetIn assetOut amountIn w).map fun _ => w
  | .getRateWithSpread quotes assetIn assetOut amountIn maxSpreadBps =>
    (getRateWithSpread quotes assetIn assetOut amountIn maxSpreadBps w).map fun _ => w
  | .validateSpread quotes assetIn assetOut amountIn maxSpreadBps =>
    (validateSpread quotes assetIn assetOut amountIn maxSpreadBps w).map fun _ => w
  | .listPools _ _ => .ok w

def deployed (balances : A → A → ℤ) : OracleWorld A where
  storage := none
  balances := balances
  transfers := []
  events := []

/-! ## What the rate is -/

section Rates

omit [DecidableEq A]

def OraclePool.answer (pool : OraclePool A) (quotes : Quotes A) (amountIn : ℤ) : Option ℤ :=
  quotes pool.contract pool.assetIn pool.assetOut amountIn

/-- A pool answers with a positive amount. -/
def Quoted (quotes : Quotes A) (amountIn : ℤ) (pool : OraclePool A) (quote : ℤ) : Prop :=
  pool.answer quotes amountIn = some quote ∧ 0 < quote

/-- The best quote of a list of pools that all answer. -/
structure IsBest (quotes : Quotes A) (amountIn : ℤ) (pools : List (OraclePool A)) (rate : ℤ) :
    Prop where
  attained : ∃ pool ∈ pools, Quoted quotes amountIn pool rate
  bound : ∀ pool ∈ pools, ∃ quote, Quoted quotes amountIn pool quote ∧ quote ≤ rate

theorem best_foldl_add (answers : List ℤ) (range : RateRange) :
    (answers.foldl RateRange.add range).best = answers.foldl max range.best := by
  induction answers generalizing range with
  | nil => rfl
  | cons quote answers ih =>
    rw [List.foldl_cons, ih, List.foldl_cons]
    congr 1
    simp only [RateRange.add, max_def]
    split_ifs <;> omega

theorem found_foldl_add (answers : List ℤ) (range : RateRange) :
    (answers.foldl RateRange.add range).found = (range.found || !answers.isEmpty) := by
  induction answers generalizing range with
  | nil => simp
  | cons quote answers ih => simp [ih, RateRange.add]

/-- Over positive quotes the running maximum, which starts below zero, is the greatest. -/
theorem foldl_max_eq_iff {answers : List ℤ} (hpos : ∀ quote ∈ answers, 0 < quote)
    (hne : answers ≠ []) {rate : ℤ} : answers.foldl max i128.min = rate ↔
      rate ∈ answers ∧ ∀ quote ∈ answers, quote ≤ rate := by
  have hmin : i128.min < 0 := by decide
  have greatest : answers.foldl max i128.min = rate ↔
      (i128.min :: answers).max? = some rate := by
    rw [List.max?_cons', Option.some.injEq]
  rw [greatest, List.max?_eq_some_iff]
  obtain ⟨first, rest, rfl⟩ := List.exists_cons_of_ne_nil hne
  have hfirst := hpos first List.mem_cons_self
  constructor
  · rintro ⟨hmem, hle⟩
    have hrate := hle first (by simp)
    refine ⟨(List.mem_cons.1 hmem).resolve_left (by omega), ?_⟩
    intro quote hquote
    exact hle quote (List.mem_cons_of_mem _ hquote)
  · rintro ⟨hmem, hle⟩
    refine ⟨List.mem_cons_of_mem _ hmem, ?_⟩
    intro quote hquote
    rcases List.mem_cons.1 hquote with rfl | hquote
    · have := hpos rate hmem
      omega
    · exact hle quote hquote

theorem isBest_iff {quotes : Quotes A} {amountIn : ℤ} {pools : List (OraclePool A)}
    (quoted : ∀ pool ∈ pools, ∃ quote, Quoted quotes amountIn pool quote) {rate : ℤ} :
    IsBest quotes amountIn pools rate ↔
      rate ∈ pools.filterMap (·.answer quotes amountIn) ∧
        ∀ quote ∈ pools.filterMap (·.answer quotes amountIn), quote ≤ rate := by
  simp only [List.mem_filterMap]
  constructor
  · rintro ⟨⟨pool, hpool, hrate, -⟩, bound⟩
    refine ⟨⟨pool, hpool, hrate⟩, ?_⟩
    rintro quote ⟨pool, hpool, hquote⟩
    obtain ⟨_, ⟨hsame, -⟩, hle⟩ := bound pool hpool
    obtain rfl := Option.some.inj (hquote.symm.trans hsame)
    exact hle
  · rintro ⟨⟨pool, hpool, hrate⟩, bound⟩
    refine ⟨⟨pool, hpool, ?_⟩, ?_⟩
    · obtain ⟨_, hsame, hpos⟩ := quoted pool hpool
      obtain rfl := Option.some.inj (hrate.symm.trans hsame)
      exact ⟨hrate, hpos⟩
    · intro pool hpool
      obtain ⟨quote, hquote⟩ := quoted pool hpool
      exact ⟨quote, hquote, bound quote ⟨pool, hpool, hquote.1⟩⟩

theorem pos_of_mem_answers {quotes : Quotes A} {amountIn : ℤ} {pools : List (OraclePool A)}
    (quoted : ∀ pool ∈ pools, ∃ quote, Quoted quotes amountIn pool quote) :
    ∀ quote ∈ pools.filterMap (·.answer quotes amountIn), 0 < quote := by
  intro quote hquote
  obtain ⟨pool, hpool, hanswer⟩ := List.mem_filterMap.1 hquote
  obtain ⟨_, hsame, hpos⟩ := quoted pool hpool
  exact Option.some.inj (hanswer.symm.trans hsame) ▸ hpos

/-- Pools that all answer have a best one among them. -/
theorem exists_isBest {quotes : Quotes A} {amountIn : ℤ} {pools : List (OraclePool A)}
    (hne : pools ≠ [])
    (quoted : ∀ pool ∈ pools, ∃ quote, Quoted quotes amountIn pool quote) :
    ∃ rate, IsBest quotes amountIn pools rate := by
  obtain ⟨pool, hpool⟩ := List.exists_mem_of_ne_nil pools hne
  obtain ⟨quote, hquote, -⟩ := quoted pool hpool
  have answered : pools.filterMap (·.answer quotes amountIn) ≠ [] :=
    List.ne_nil_of_mem (List.mem_filterMap.2 ⟨pool, hpool, hquote⟩)
  exact ⟨_, (isBest_iff quoted).2
    ((foldl_max_eq_iff (pos_of_mem_answers quoted) answered).1 rfl)⟩

end Rates

theorem fetchQuotes_eq_ok {quotes : Quotes A} {assetIn assetOut : A} {amountIn : ℤ}
    {pools : List (OraclePool A)} {range range' : RateRange} :
    fetchQuotes quotes assetIn assetOut amountIn pools range = .ok range' ↔
      (∀ pool ∈ ofPair assetIn assetOut pools, ∃ quote, Quoted quotes amountIn pool quote) ∧
        ((ofPair assetIn assetOut pools).filterMap (·.answer quotes amountIn)).foldl
          RateRange.add range = range' := by
  induction pools generalizing range with
  | nil => simp [fetchQuotes, ofPair]
  | cons pool pools ih =>
    unfold fetchQuotes
    split_ifs with hother
    · have skipped : ofPair assetIn assetOut (pool :: pools) = ofPair assetIn assetOut pools :=
        List.filter_cons_of_neg (by simpa [imp_iff_not_or] using hother)
      rw [skipped, ih]
    · have asked : ofPair assetIn assetOut (pool :: pools) =
          pool :: ofPair assetIn assetOut pools :=
        List.filter_cons_of_pos (by simpa [not_or] using hother)
      simp only [bind_eq_ok, orFail_eq_ok, require_eq_ok, exists_const, asked, ih,
        List.forall_mem_cons]
      constructor
      · rintro ⟨quote, hquote, hpos, hrest, rfl⟩
        have hanswer : pool.answer quotes amountIn = some quote := hquote
        exact ⟨⟨⟨quote, hanswer, hpos⟩, hrest⟩, by simp [hanswer]⟩
      · rintro ⟨⟨⟨quote, hanswer, hpos⟩, hrest⟩, rfl⟩
        exact ⟨quote, hanswer, hpos, hrest, by simp [hanswer]⟩

/-- The rate of a pair is the best quote of its pools, and there is none when a pool of the
pair gives no positive quote or no pool has been registered. -/
theorem getRate_eq_ok {quotes : Quotes A} {assetIn assetOut : A} {amountIn : ℤ}
    {w : OracleWorld A} {rate : ℤ} : getRate quotes assetIn assetOut amountIn w = .ok rate ↔
      0 < amountIn ∧ IsBest quotes amountIn (listPools assetIn assetOut w) rate := by
  simp only [getRate, fetchRateRange, bind_eq_ok, require_eq_ok, pure_eq_ok, exists_const,
    fetchQuotes_eq_ok, listPools]
  generalize hpools : ofPair assetIn assetOut (loadPools w) = pools
  set answers := pools.filterMap (·.answer quotes amountIn) with hanswers
  constructor
  · rintro ⟨_, ⟨hamount, _, ⟨quoted, rfl⟩, hfound, rfl⟩, rfl⟩
    have hne : answers ≠ [] := by simpa [found_foldl_add, RateRange.start] using hfound
    refine ⟨hamount, (isBest_iff quoted).2 ?_⟩
    rw [best_foldl_add]
    exact (foldl_max_eq_iff (pos_of_mem_answers quoted) hne).1 rfl
  · rintro ⟨hamount, best⟩
    have quoted : ∀ pool ∈ pools, ∃ quote, Quoted quotes amountIn pool quote := by
      intro pool hpool
      obtain ⟨quote, hquote, -⟩ := best.bound pool hpool
      exact ⟨quote, hquote⟩
    have greatest := (isBest_iff quoted).1 best
    have hne : answers ≠ [] := List.ne_nil_of_mem greatest.1
    refine ⟨_, ⟨hamount, _, ⟨quoted, rfl⟩, ?_, rfl⟩, ?_⟩
    · simpa [found_foldl_add, RateRange.start] using hne
    · rw [best_foldl_add]
      exact (foldl_max_eq_iff (pos_of_mem_answers quoted) hne).2 greatest

end MobileMoney.Oracle
