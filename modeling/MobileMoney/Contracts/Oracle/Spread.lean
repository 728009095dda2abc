import MobileMoney.Contracts.Oracle.Program

/-!
# The spread of the quotes

The spread is what the worst quote falls short of the best one, in basis points of the best.
The product with 10000 stops at the end of `i128` instead of leaving it, and from there on
the spread comes out too small.
-/

namespace MobileMoney.Oracle

open Soroban MachineInt

variable {A : Type} {contract : A}

/-! ## The worst quote -/

structure IsWorst (quotes : Quotes A) (amountIn : ℤ) (pools : List (OraclePool A)) (rate : ℤ) :
    Prop where
  attained : ∃ pool ∈ pools, pool.answer quotes amountIn = some rate
  bound : ∀ pool ∈ pools, ∀ quote, pool.answer quotes amountIn = some quote → rate ≤ quote

theorem isWorst_iff {quotes : Quotes A} {amountIn : ℤ} {pools : List (OraclePool A)} {rate : ℤ} :
    IsWorst quotes amountIn pools rate ↔
      rate ∈ pools.filterMap (·.answer quotes amountIn) ∧
        ∀ quote ∈ pools.filterMap (·.answer quotes amountIn), rate ≤ quote := by
  simp only [List.mem_filterMap]
  constructor
  · rintro ⟨attained, bound⟩
    refine ⟨attained, ?_⟩
    rintro quote ⟨pool, hpool, hquote⟩
    exact bound pool hpool quote hquote
  · rintro ⟨attained, bound⟩
    exact ⟨attained, fun pool hpool quote hquote => bound quote ⟨pool, hpool, hquote⟩⟩

theorem worst_foldl_add (answers : List ℤ) (range : RateRange) :
    (answers.foldl RateRange.add range).worst = answers.foldl min range.worst := by
  induction answers generalizing range with
  | nil => rfl
  | cons quote answers ih =>
    rw [List.foldl_cons, ih, List.foldl_cons]
    congr 1
    simp only [RateRange.add, min_def]
    split_ifs <;> omega

/-- Over quotes of type `i128` the running minimum, which starts at the end of the type, is
the least. -/
theorem foldl_min_eq_iff {answers : List ℤ} (fits : ∀ quote ∈ answers, quote ≤ i128.max)
    (hne : answers ≠ []) {rate : ℤ} : answers.foldl min i128.max = rate ↔
      rate ∈ answers ∧ ∀ quote ∈ answers, rate ≤ quote := by
  have least : answers.foldl min i128.max = rate ↔
      (i128.max :: answers).min? = some rate := by
    rw [List.min?_cons', Option.some.injEq]
  rw [least, List.min?_eq_some_iff]
  obtain ⟨first, rest, rfl⟩ := List.exists_cons_of_ne_nil hne
  have hfirst := fits first List.mem_cons_self
  constructor
  · rintro ⟨hmem, hle⟩
    refine ⟨?_, fun quote hquote => hle quote (List.mem_cons_of_mem _ hquote)⟩
    rcases List.mem_cons.1 hmem with rfl | hmem
    · obtain rfl := le_antisymm hfirst (hle first (by simp))
      exact List.mem_cons_self
    · exact hmem
  · rintro ⟨hmem, hle⟩
    refine ⟨List.mem_cons_of_mem _ hmem, ?_⟩
    intro quote hquote
    rcases List.mem_cons.1 hquote with rfl | hquote
    · exact fits rate hmem
    · exact hle quote hquote

variable [DecidableEq A]

theorem fetchRateRange_eq {quotes : Quotes A} {assetIn assetOut : A} {amountIn best worst : ℤ}
    {w : OracleWorld A} (amount : 0 < amountIn)
    (hbest : IsBest quotes amountIn (listPools assetIn assetOut w) best)
    (hworst : IsWorst quotes amountIn (listPools assetIn assetOut w) worst)
    (fits : best ≤ i128.max) :
    fetchRateRange quotes assetIn assetOut amountIn w = .ok (best, worst) := by
  have quoted : ∀ pool ∈ listPools assetIn assetOut w,
      ∃ quote, Quoted quotes amountIn pool quote := by
    intro pool hpool
    obtain ⟨quote, hquote, -⟩ := hbest.bound pool hpool
    exact ⟨quote, hquote⟩
  have greatest := (isBest_iff quoted).1 hbest
  have least := isWorst_iff.1 hworst
  have hne := List.ne_nil_of_mem greatest.1
  simp only [fetchRateRange, bind_eq_ok, require_eq_ok, pure_eq_ok, exists_const,
    fetchQuotes_eq_ok, Prod.mk.injEq]
  refine ⟨amount, _, ⟨quoted, rfl⟩, ?_, ?_, ?_⟩
  · simpa [found_foldl_add, RateRange.start, listPools] using hne
  · rw [best_foldl_add]
    exact (foldl_max_eq_iff (pos_of_mem_answers quoted) hne).2 greatest
  · rw [worst_foldl_add]
    exact (foldl_min_eq_iff (fun quote hquote => (greatest.2 quote hquote).trans fits) hne).2 least

/-! ## The spread -/

/-- The spread in basis points, without a limit on the numbers. -/
def exactSpreadBps (best worst : ℤ) : ℤ := (best - worst) * 10000 / best

omit [DecidableEq A] in
theorem computeSpreadBps_eq {best worst : ℤ} (hworst : 0 < worst) (hle : worst ≤ best) :
    computeSpreadBps best worst = .ok (min ((best - worst) * 10000) i128.max / best) := by
  have hmin : i128.min ≤ 0 := by decide
  have hmax : 0 ≤ i128.max := by decide
  have hproduct : 0 ≤ (best - worst) * 10000 := by omega
  rw [computeSpreadBps, if_neg (by omega), IntType.saturatingMul,
    max_eq_right (le_min (by omega) (by omega)),
    Int.tdiv_eq_ediv_of_nonneg (le_min hproduct hmax)]

/-- The computed spread respects the limit exactly when the exact one does, except where the
product is cut off, the exact spread is beyond the limit and the cut-off one is not. -/
theorem cutOff_le_iff {best worst : ℤ} (maxSpreadBps : ℕ) (hpos : 0 < best) :
    (min ((best - worst) * 10000) i128.max / best ≤ maxSpreadBps ↔
        exactSpreadBps best worst ≤ maxSpreadBps) ↔
      (best - worst) * 10000 ≤ i128.max ∨ exactSpreadBps best worst ≤ maxSpreadBps ∨
        maxSpreadBps < i128.max / best := by
  unfold exactSpreadBps
  rcases le_total ((best - worst) * 10000) i128.max with hle | hle
  · rw [min_eq_left hle]
    exact iff_of_true Iff.rfl (.inl hle)
  · rw [min_eq_right hle]
    have hcut : i128.max / best ≤ (best - worst) * 10000 / best := Int.ediv_le_ediv hpos hle
    constructor
    · intro same
      rcases lt_or_ge (maxSpreadBps : ℤ) (i128.max / best) with hlow | hhigh
      · exact .inr (.inr hlow)
      · exact .inr (.inl (same.1 hhigh))
    · rintro (hfits | hexact | hlow)
      · obtain heq := le_antisymm hfits hle
        rw [heq]
      · exact iff_of_true (hcut.trans hexact) hexact
      · exact iff_of_false (not_le.2 hlow) (not_le.2 (hlow.trans_le hcut))

/-! ## The law -/

/-- The rate is given exactly when the exact spread is within the limit, and the validation
says the same. -/
def SpreadLaw (quotes : Quotes A) (assetIn assetOut : A) (amountIn : ℤ) (maxSpreadBps : ℕ)
    (w : OracleWorld A) (best worst : ℤ) : Prop :=
  ((∃ rate, getRateWithSpread quotes assetIn assetOut amountIn maxSpreadBps w = .ok rate) ↔
    exactSpreadBps best worst ≤ maxSpreadBps) ∧
  ∃ verdict, validateSpread quotes assetIn assetOut amountIn maxSpreadBps w = .ok verdict ∧
    (verdict = true ↔
      ∃ rate, getRateWithSpread quotes assetIn assetOut amountIn maxSpreadBps w = .ok rate)

/-- For all pools of a pair that give positive quotes of type `i128`, of which `best` is the
greatest and `worst` the least, and every limit: the spread is checked exactly, unless the
product is cut off and what is left of it is within a limit that the exact spread exceeds. -/
theorem spread_exact_iff (quotes : Quotes A) (assetIn assetOut : A) (amountIn : ℤ)
    (maxSpreadBps : ℕ) (w : OracleWorld A) (best worst : ℤ) (amount : 0 < amountIn)
    (positive : 0 < maxSpreadBps)
    (hbest : IsBest quotes amountIn (listPools assetIn assetOut w) best)
    (hworst : IsWorst quotes amountIn (listPools assetIn assetOut w) worst)
    (fits : best ≤ i128.max) :
    SpreadLaw quotes assetIn assetOut amountIn maxSpreadBps w best worst ↔
      (best - worst) * 10000 ≤ i128.max ∨ exactSpreadBps best worst ≤ maxSpreadBps ∨
        maxSpreadBps < i128.max / best := by
  have hrange := fetchRateRange_eq amount hbest hworst fits
  obtain ⟨pool, hpool, hattained⟩ := hworst.attained
  obtain ⟨quote, ⟨hquote, hpos⟩, hle⟩ := hbest.bound pool hpool
  obtain rfl := Option.some.inj (hattained.symm.trans hquote)
  have hspread := computeSpreadBps_eq hpos hle
  have hrate : (∃ rate, getRateWithSpread quotes assetIn assetOut amountIn maxSpreadBps w =
      .ok rate) ↔ min ((best - worst) * 10000) i128.max / best ≤ maxSpreadBps := by
    constructor
    · rintro ⟨rate, hrate⟩
      simp only [getRateWithSpread, bind_eq_ok, require_eq_ok, hrange, Except.ok.injEq,
        exists_eq_left', hspread, exists_const] at hrate
      exact not_lt.1 hrate.2.1
    · intro hle
      refine ⟨best, bind_eq_ok.2 ⟨(), require_eq_ok.2 positive, bind_eq_ok.2 ⟨_, hrange, ?_⟩⟩⟩
      refine bind_eq_ok.2 ⟨_, hspread, bind_eq_ok.2 ⟨(), require_eq_ok.2 (not_lt.2 hle), rfl⟩⟩
  have hverdict : validateSpread quotes assetIn assetOut amountIn maxSpreadBps w =
      .ok (decide (min ((best - worst) * 10000) i128.max / best ≤ maxSpreadBps)) := by
    refine bind_eq_ok.2 ⟨_, hrange, ?_⟩
    dsimp only
    rw [hspread]
    rfl
  rw [← cutOff_le_iff maxSpreadBps (hpos.trans_le hle), SpreadLaw, hrate]
  refine and_iff_left ⟨_, hverdict, ?_⟩
  rw [decide_eq_true_iff]

/-! ## Quotes at the end of the type -/

section Huge

/-- Two pools for assets 10 and 11. -/
def twoQuoting : OracleWorld ℕ :=
  run invoke (deployed fun _ _ => 0)
    [.call (openInvocation 1) (.registerPool 1 ⟨20, 10, 11, 500⟩),
      .call (openInvocation 1) (.registerPool 1 ⟨21, 10, 11, 500⟩)]

/-- The first pool answers `first`, every other one `second`. -/
def pairOfQuotes (first second : ℤ) : Quotes ℕ :=
  fun pool _ _ _ => if pool = 20 then some first else some second

theorem listPools_twoQuoting :
    listPools 10 11 twoQuoting = [⟨20, 10, 11, 500⟩, ⟨21, 10, 11, 500⟩] := rfl

theorem pairOfQuotes_best {first second : ℤ} (hpos : 0 < second) (hle : second ≤ first) :
    IsBest (pairOfQuotes first second) 1000 (listPools 10 11 twoQuoting) first := by
  rw [listPools_twoQuoting]
  refine ⟨⟨⟨20, 10, 11, 500⟩, by decide, rfl, by omega⟩, ?_⟩
  intro pool hpool
  obtain rfl | rfl : pool = ⟨20, 10, 11, 500⟩ ∨ pool = ⟨21, 10, 11, 500⟩ := by
    simpa using hpool
  · exact ⟨first, ⟨rfl, by omega⟩, le_refl _⟩
  · exact ⟨second, ⟨rfl, hpos⟩, hle⟩

theorem pairOfQuotes_worst {first second : ℤ} (hle : second ≤ first) :
    IsWorst (pairOfQuotes first second) 1000 (listPools 10 11 twoQuoting) second := by
  rw [listPools_twoQuoting]
  refine ⟨⟨⟨21, 10, 11, 500⟩, by decide, rfl⟩, ?_⟩
  intro pool hpool quote hquote
  obtain rfl | rfl : pool = ⟨20, 10, 11, 500⟩ ∨ pool = ⟨21, 10, 11, 500⟩ := by
    simpa using hpool
  · obtain rfl : first = quote := Option.some.inj hquote
    exact hle
  · obtain rfl : second = quote := Option.some.inj hquote
    exact le_refl _

/-- Quotes of 1000 and 990 are checked exactly. -/
theorem moderate_quotes :
    SpreadLaw (pairOfQuotes 1000 990) 10 11 1000 200 twoQuoting 1000 990 ↔
      ((1000 - 990) * 10000 ≤ i128.max ∨ exactSpreadBps 1000 990 ≤ (200 : ℕ) ∨
        (200 : ℕ) < i128.max / 1000) :=
  spread_exact_iff (pairOfQuotes 1000 990) 10 11 1000 200 twoQuoting 1000 990 (by decide)
    (by decide) (pairOfQuotes_best (by decide) (by decide)) (pairOfQuotes_worst (by decide))
    (by decide)

/-- The greatest quote of the type and a quote of one: the spread comes out as a single basis
point. -/
theorem huge_spread_passes :
    ¬ ∀ (quotes : Quotes ℕ) assetIn assetOut amountIn maxSpreadBps (w : OracleWorld ℕ) best worst,
      0 < amountIn → 0 < maxSpreadBps →
      IsBest quotes amountIn (listPools assetIn assetOut w) best →
      IsWorst quotes amountIn (listPools assetIn assetOut w) worst → best ≤ i128.max →
      SpreadLaw quotes assetIn assetOut amountIn maxSpreadBps w best worst := by
  intro law
  have sound := law (pairOfQuotes i128.max 1) 10 11 1000 200 twoQuoting i128.max 1 (by decide)
    (by decide) (pairOfQuotes_best (by decide) (by decide)) (pairOfQuotes_worst (by decide))
    (by decide)
  exact absurd (sound.1.1 ⟨i128.max, rfl⟩) (by decide)

end Huge

end MobileMoney.Oracle
