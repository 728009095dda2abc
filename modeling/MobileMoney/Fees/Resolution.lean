import MobileMoney.Fees.Strategies

/-!
# The order of the fee strategies

The candidates come by scope and then by priority, whatever their kind, and the first one whose
condition is met is applied. The documented order puts the time-based strategies of a scope in
front of its others, so that the two agree just when no strategy of another kind gets in before
one of them.
-/

namespace MobileMoney.Fees

open Precedence (Best best_of_find? best_grouped_iff)

/-- Only the time-based strategies have a condition. -/
def FeeStrategy.Applicable (strategy : FeeStrategy) (time : UtcTime) : Prop :=
  strategy.strategyType = .timeBased → strategy.InTime time

instance (strategy : FeeStrategy) (time : UtcTime) : Decidable (strategy.Applicable time) :=
  inferInstanceAs (Decidable (_ → _))

/-! ## The documented order -/

/-- The time-based strategies of a scope come first. -/
def FeeStrategyType.group : FeeStrategyType → ℕ
  | .timeBased => 0
  | _ => 1

/-- User before provider before global, then time-based ones first, then by priority. -/
def documentedKey : FeeStrategy → ℕ ×ₗ ℕ ×ₗ ℤ :=
  Precedence.grouped (fun strategy => strategy.scope.rank)
    (fun strategy => strategy.strategyType.group) fun strategy => strategy.priority

/-- The result is that of this strategy. -/
def AppliedBy (ctx : FeeCalculationContext) (result : FeeCalculationResult)
    (strategy : FeeStrategy) : Prop :=
  ∃ fee applied, result = feeOf ctx strategy fee applied

/-- The strategy applied is the first applicable one in the documented order, and there is no fee
just when none is applicable. -/
def Documented (ctx : FeeCalculationContext) (candidates : List FeeStrategy)
    (result : FeeCalculationResult) : Prop :=
  (∃ strategy, Best documentedKey (·.Applicable ctx.evaluationTime) candidates strategy ∧
      AppliedBy ctx result strategy) ∨
    (∀ strategy ∈ candidates, ¬ strategy.Applicable ctx.evaluationTime) ∧ result = zeroFee ctx

/-- Where a strategy of another kind comes before an applicable time-based one of its scope,
something applicable comes before both. -/
def TimeBasedFirst (time : UtcTime) (candidates : List FeeStrategy) : Prop :=
  ∀ before strategy after, candidates = before ++ strategy :: after →
    strategy.strategyType ≠ .timeBased →
    (∃ override ∈ after, override.strategyType = .timeBased ∧ override.InTime time ∧
      override.scope = strategy.scope) →
    ∃ earlier ∈ before, earlier.Applicable time

/-! ## What is applied -/

section Applied

variable {services : Services} {ctx : FeeCalculationContext} {strategy : FeeStrategy}
  {candidates : List FeeStrategy}

theorem applicable_of_applyStrategy {amount : Binary64.Number} {time : UtcTime}
    {result : Option StrategyApplyResult}
    (h : applyStrategy services strategy amount time = .ok result) :
    strategy.Applicable time ↔ result.isSome = true := by
  unfold applyStrategy at h
  unfold FeeStrategy.Applicable
  cases htype : strategy.strategyType with
  | timeBased =>
    simp only [htype, applyTimeBasedFee] at h
    cases h
    by_cases hin : strategy.InTime time <;> simp [hin]
  | flat | percentage | volumeBased =>
    simp only [htype] at h
    cases h
    simp
  | volatilityBased =>
    simp only [htype] at h
    cases happly : applyVolatilityBasedFee services strategy amount with
    | error e =>
      rw [happly] at h
      cases h
    | ok applied =>
      rw [happly] at h
      cases h
      simp

/-- The strategy with a result is the first applicable candidate. -/
theorem find?_of_firstResult {result : Option (FeeStrategy × StrategyApplyResult)}
    (h : firstResult services ctx candidates = .ok result) :
    candidates.find? (fun strategy => strategy.Applicable ctx.evaluationTime) =
      result.map (·.1) := by
  induction candidates with
  | nil =>
    cases h
    rfl
  | cons strategy candidates ih =>
    unfold firstResult at h
    cases happly : applyStrategy services strategy ctx.amount ctx.evaluationTime with
    | error e =>
      rw [happly] at h
      cases h
    | ok applied =>
      rw [happly] at h
      have happlicable := applicable_of_applyStrategy happly
      cases applied with
      | some applied =>
        cases h
        rw [List.find?_cons_of_pos (by simpa using happlicable)]
        rfl
      | none =>
        rw [List.find?_cons_of_neg (by simpa using happlicable)]
        exact ih h

/-- The fee is that of the first applicable candidate, or zero where there is none. -/
theorem calculateFee_cases {result : FeeCalculationResult}
    (h : calculateFee services ctx candidates = .ok result) :
    (∃ strategy, candidates.find? (fun strategy => strategy.Applicable ctx.evaluationTime) =
        some strategy ∧ AppliedBy ctx result strategy) ∨
      candidates.find? (fun strategy => strategy.Applicable ctx.evaluationTime) = none ∧
        result = zeroFee ctx := by
  unfold calculateFee at h
  cases hfirst : firstResult services ctx candidates with
  | error e =>
    rw [hfirst] at h
    cases h
  | ok first =>
    rw [hfirst] at h
    have hfind := find?_of_firstResult hfirst
    cases first with
    | none =>
      cases h
      exact .inr ⟨hfind, rfl⟩
    | some applied =>
      obtain ⟨strategy, applied⟩ := applied
      cases hvip : vipDiscount services ctx applied with
      | error e =>
        simp [Except.bind, bind, hvip] at h
      | ok discounted =>
        simp [Except.bind, bind, hvip, pure, Except.pure] at h
        exact .inl ⟨strategy, hfind, discounted.1, discounted.2, h.symm⟩

end Applied

/-! ## When the orders agree -/

section Order

variable {time : UtcTime} {candidates : List FeeStrategy} {strategy : FeeStrategy}

theorem FeeStrategyScope.rank_injective : Function.Injective FeeStrategyScope.rank := by
  intro scope scope' h
  cases scope <;> cases scope' <;> first | rfl | cases h

theorem FeeStrategyType.group_eq_zero {kind : FeeStrategyType} :
    kind.group = 0 ↔ kind = .timeBased := by
  cases kind <;> decide

theorem applicable_of_ne (h : strategy.strategyType ≠ .timeBased) : strategy.Applicable time :=
  fun htype => absurd htype h

/-- The first applicable candidate has the least group of its scope just when no strategy of
another kind comes before a time-based one. -/
theorem group_le_iff_timeBasedFirst
    (hfirst : candidates.find? (fun strategy => strategy.Applicable time) = some strategy) :
    (∀ other ∈ candidates, other.Applicable time → other.scope.rank = strategy.scope.rank →
        strategy.strategyType.group ≤ other.strategyType.group) ↔
      TimeBasedFirst time candidates := by
  obtain ⟨happlicable, before, after, rfl, hbefore⟩ := List.find?_eq_some_iff_append.1 hfirst
  have hnone : ∀ earlier ∈ before, ¬ earlier.Applicable time := by
    intro earlier hearlier
    simpa using hbefore earlier hearlier
  constructor
  · rintro hgroup before' strategy' after' heq hkind ⟨override, hmem, htimeBased, hin, hscope⟩
    by_contra hearlier
    have hfirst' : (before' ++ strategy' :: after').find?
        (fun strategy => strategy.Applicable time) = some strategy' := by
      refine List.find?_eq_some_iff_append.2
        ⟨decide_eq_true (applicable_of_ne hkind), before', after', rfl, ?_⟩
      intro earlier hmem
      simpa using fun h => hearlier ⟨earlier, hmem, h⟩
    rw [← heq, hfirst] at hfirst'
    obtain rfl := Option.some_injective _ hfirst'
    have hle := hgroup override (by rw [heq]; simp [hmem]) (fun _ => hin) (by rw [hscope])
    rw [FeeStrategyType.group_eq_zero.2 htimeBased] at hle
    exact hkind (FeeStrategyType.group_eq_zero.1 (Nat.le_zero.1 hle))
  · intro hfirstly other hother happlies hrank
    by_cases hkind : strategy.strategyType = .timeBased
    · rw [FeeStrategyType.group_eq_zero.2 hkind]
      exact Nat.zero_le _
    · have hother' : other.strategyType ≠ .timeBased := by
        intro htimeBased
        rcases List.mem_append.1 hother with hmem | hmem
        · exact hnone other hmem happlies
        · rcases List.mem_cons.1 hmem with rfl | hmem
          · exact hkind htimeBased
          · obtain ⟨earlier, hearlier, happlicable'⟩ := hfirstly before strategy after rfl hkind
              ⟨other, hmem, htimeBased, happlies htimeBased,
                FeeStrategyScope.rank_injective hrank⟩
            exact hnone earlier hearlier happlicable'
      cases htype : strategy.strategyType <;> cases htype' : other.strategyType <;>
        first | exact absurd htype hkind | exact absurd htype' hother' | decide

theorem timeBasedFirst_of_find?_eq_none
    (h : candidates.find? (fun strategy => strategy.Applicable time) = none) :
    TimeBasedFirst time candidates := by
  rintro before strategy after rfl - ⟨override, hmem, -, hin, -⟩
  have hnot := List.find?_eq_none.1 h override (by simp [hmem])
  exact absurd (decide_eq_true fun _ => hin) hnot

end Order

/-! ## The law -/

section Law

variable {services : Services} {ctx : FeeCalculationContext} {strategies : Strategies}
  {candidates : List FeeStrategy} {result : FeeCalculationResult}

/-- No two strategies of the table have the same result. -/
theorem AppliedBy.unique {strategy strategy' : FeeStrategy} (h : AppliedBy ctx result strategy)
    (h' : AppliedBy ctx result strategy') (hmem : strategy ∈ strategies.rows)
    (hmem' : strategy' ∈ strategies.rows) : strategy = strategy' := by
  obtain ⟨fee, applied, rfl⟩ := h
  obtain ⟨fee', applied', heq⟩ := h'
  exact strategies.eq_of_mem hmem hmem' (congrArg (·.breakdown.strategyId) heq)

theorem documented_candidates_iff (h : Resolves strategies ctx candidates)
    (hfee : calculateFee services ctx candidates = .ok result) :
    Documented ctx candidates result ↔ TimeBasedFirst ctx.evaluationTime candidates := by
  have hrows : ∀ strategy ∈ candidates, strategy ∈ strategies.rows := fun strategy hmem =>
    (List.mem_filter.1 (h.perm.mem_iff.1 hmem)).1
  rcases calculateFee_cases hfee with ⟨strategy, hfirst, hresult⟩ | ⟨hnone, hresult⟩
  · have hbest := best_of_find? h.sorted hfirst
    have hdocumented : Best documentedKey (·.Applicable ctx.evaluationTime) candidates strategy ↔
        ∀ other ∈ candidates, other.Applicable ctx.evaluationTime →
          other.scope.rank = strategy.scope.rank →
          strategy.strategyType.group ≤ other.strategyType.group :=
      best_grouped_iff hbest
    rw [← group_le_iff_timeBasedFirst hfirst, ← hdocumented]
    constructor
    · rintro (⟨strategy', hbest', hresult'⟩ | ⟨hnone, -⟩)
      · rw [hresult.unique hresult' (hrows _ hbest.mem) (hrows _ hbest'.mem)]
        exact hbest'
      · exact absurd hbest.applicable (hnone strategy hbest.mem)
    · intro hdocumented
      exact .inl ⟨strategy, hdocumented, hresult⟩
  · refine iff_of_true (.inr ⟨?_, hresult⟩) (timeBasedFirst_of_find?_eq_none hnone)
    intro strategy hmem happlicable
    exact absurd (decide_eq_true happlicable) (List.find?_eq_none.1 hnone strategy hmem)

theorem Documented.of_mem_iff {candidates' : List FeeStrategy}
    (h : Documented ctx candidates result)
    (hmem : ∀ strategy, strategy ∈ candidates ↔ strategy ∈ candidates') :
    Documented ctx candidates' result := by
  rcases h with ⟨strategy, hbest, hresult⟩ | ⟨hnone, hresult⟩
  · refine .inl ⟨strategy, ⟨(hmem strategy).1 hbest.mem, hbest.applicable, ?_⟩, hresult⟩
    intro other hother happlies
    exact hbest.le other ((hmem other).2 hother) happlies
  · exact .inr ⟨fun strategy hstrategy => hnone strategy ((hmem strategy).2 hstrategy), hresult⟩

/-- The strategy that `calculateFee` applies is the first applicable one in the documented order,
and its fee is zero for want of a strategy only when none is applicable, just when no strategy of
another kind gets in before a time-based one. -/
theorem calculateFee_documented_iff (services : Services) (ctx : FeeCalculationContext)
    (strategies : Strategies) (candidates : List FeeStrategy) (result : FeeCalculationResult)
    (h : Resolves strategies ctx candidates)
    (hfee : calculateFee services ctx candidates = .ok result) :
    Documented ctx
        (strategies.rows.filter fun strategy => strategy.Candidate ctx.userId ctx.provider)
        result ↔
      TimeBasedFirst ctx.evaluationTime candidates := by
  rw [← documented_candidates_iff h hfee]
  constructor
  · intro hdocumented
    exact hdocumented.of_mem_iff fun _ => h.perm.mem_iff.symm
  · intro hdocumented
    exact hdocumented.of_mem_iff fun _ => h.perm.mem_iff

end Law

/-! ## Particular strategies -/

def globalStrategy (id : String) (strategyType : FeeStrategyType) (priority : ℤ) : FeeStrategy where
  id := id
  name := id
  strategyType := strategyType
  scope := .global
  userId := none
  provider := none
  priority := priority
  isActive := true
  flatAmount := some .zero
  feePercentage := none
  feeMinimum := none
  feeMaximum := none
  daysOfWeek := some [5]
  timeStart := none
  timeEnd := none
  overridePercentage := none
  overrideFlatAmount := none
  volumeTiers := none
  volatilityBaseCurrency := none
  volatilityQuoteCurrency := none
  volatilityMultiplier := none
  volatilityWindowHours := none

def standard : FeeStrategy := globalStrategy "standard" .flat 10

def feeFreeFriday (priority : ℤ) : FeeStrategy := globalStrategy "friday" .timeBased priority

def onFriday : FeeCalculationContext := ⟨.zero, none, none, ⟨5, 12, 0⟩⟩

def noServices : Services := ⟨fun _ _ _ => .ok none, fun _ => .ok .zero⟩

def twoStrategies (priority : ℤ) : Strategies where
  rows := [standard, feeFreeFriday priority]
  nodup := by simp [standard, feeFreeFriday, globalStrategy]

theorem resolves_early_friday :
    Resolves (twoStrategies 5) onFriday [feeFreeFriday 5, standard] where
  perm := List.Perm.swap _ _ _
  sorted := by decide

theorem resolves_late_friday :
    Resolves (twoStrategies 20) onFriday [standard, feeFreeFriday 20] where
  perm := List.Perm.refl _
  sorted := by decide

/-- A free Friday has a better priority than the standard fee. -/
theorem early_friday_documented :
    ∃ result, calculateFee noServices onFriday [feeFreeFriday 5, standard] = .ok result ∧
      Documented onFriday ((twoStrategies 5).rows.filter
        fun strategy => strategy.Candidate onFriday.userId onFriday.provider) result := by
  have hfirst : [feeFreeFriday 5, standard].find?
      (fun strategy => strategy.Applicable onFriday.evaluationTime) = some (feeFreeFriday 5) := rfl
  refine ⟨_, rfl, (calculateFee_documented_iff noServices onFriday (twoStrategies 5) _ _
    resolves_early_friday rfl).2 ?_⟩
  exact (group_le_iff_timeBasedFirst hfirst).1 fun _ _ _ _ => Nat.zero_le _

/-- The standard fee is applied on a Friday that should have been free, because its priority
is better. -/
theorem late_friday_not_documented :
    Resolves (twoStrategies 20) onFriday [standard, feeFreeFriday 20] ∧
      ∃ result, calculateFee noServices onFriday [standard, feeFreeFriday 20] = .ok result ∧
        result.strategyUsed = "standard" ∧
        ¬ Documented onFriday [standard, feeFreeFriday 20] result := by
  refine ⟨resolves_late_friday, _, rfl, rfl, ?_⟩
  have hfee : calculateFee noServices onFriday [standard, feeFreeFriday 20] = .ok _ := rfl
  intro hdocumented
  have hfirst := (documented_candidates_iff resolves_late_friday hfee).1 hdocumented
  obtain ⟨earlier, hearlier, -⟩ := hfirst [] standard [feeFreeFriday 20] rfl (by decide)
    ⟨feeFreeFriday 20, by simp, rfl, by decide, rfl⟩
  cases hearlier

end MobileMoney.Fees
