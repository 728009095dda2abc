import Mathlib.Algebra.BigOperators.Group.List.Basic
import Mathlib.Algebra.Order.BigOperators.Group.List
import Mathlib.Data.List.Perm.Subperm
import Mathlib.Data.Rat.Defs
import Mathlib.Data.Rat.Lemmas
import Mathlib.Tactic.Linarith
import MobileMoney.Library.Checked

/-!
# The rules of the AML monitor

`evaluateTransaction` of `services/aml.ts` in exact arithmetic: a new transaction is looked at
together with the recent ones of its user, and every rule that it hits is reported in one alert.
Times are in milliseconds. What `toUpperCase` does, the texts of numbers and the conversion to US
dollars, which fails without a rate, are parameters; recording and logging the alert never fail and
are left out.

A rule looks at the recent transactions through counts, a sum and the presence of a kind only. None
of these depends on the order, and none falls when transactions are added.
-/

namespace MobileMoney.Aml.Rules

inductive AMLTransactionType where
  | deposit | withdraw
  deriving DecidableEq, Repr

inductive AMLRule where
  | singleTransactionThreshold
  | dailyTotalThreshold
  | rapidStructuring
  | thresholdStructuring
  deriving DecidableEq, Repr

inductive AMLAlertSeverity where
  | medium | high
  deriving DecidableEq, Repr

inductive AMLRecommendedAction where
  | allow | review
  deriving DecidableEq, Repr

structure AMLTransactionRecord where
  id : String
  userId : String
  type : AMLTransactionType
  amount : ℚ
  createdAt : ℤ
  currency : Option String
  originalAmount : Option ℚ
  convertedAmount : Option ℚ
  deriving DecidableEq

structure AMLRuleHit where
  rule : AMLRule
  message : String
  observed : ℚ
  threshold : ℚ
  deriving DecidableEq

/-- Its id and times, which are new, are left out. -/
structure AMLAlert where
  transactionId : String
  userId : String
  severity : AMLAlertSeverity
  ruleHits : List AMLRuleHit
  reasons : List String
  deriving DecidableEq

structure AMLMonitoringResult where
  flagged : Bool
  alert : Option AMLAlert
  ruleHits : List AMLRuleHit
  riskScore : ℚ
  scoreThreshold : ℚ
  recommendedAction : AMLRecommendedAction
  reasons : List String
  deriving DecidableEq

structure AMLConfig where
  singleTransactionThresholdXaf : ℚ
  dailyTotalThresholdXaf : ℚ
  rollingWindowHours : ℚ
  rapidWindowMinutes : ℚ
  rapidTransactionCount : ℚ
  structuringFloorXaf : ℚ
  structuringThresholdRatio : ℚ
  structuringFrequencyLimit : ℚ
  profileScoreThreshold : ℚ
  highValueReportThresholdUsd : ℚ

/-- Unless the environment says otherwise. -/
def defaultConfig : AMLConfig where
  singleTransactionThresholdXaf := 1000000
  dailyTotalThresholdXaf := 5000000
  rollingWindowHours := 24
  rapidWindowMinutes := 15
  rapidTransactionCount := 3
  structuringFloorXaf := 100000
  structuringThresholdRatio := 4 / 5
  structuringFrequencyLimit := 3
  profileScoreThreshold := 50
  highValueReportThresholdUsd := 10000

/-- The language and the services around the monitor. -/
structure Services where
  toUpperCase : String → String
  text : ℚ → String
  toFixed2 : ℚ → String
  convertToBase : ℚ → String → Except String ℚ

/-! ## Windows of time -/

/-- The time value of `new Date(ms)`, which has no fraction. -/
def dateOf (ms : ℚ) : ℤ := ms.num.tdiv ms.den

def getLookbackWindowStart (config : AMLConfig) (now : ℤ) : ℤ :=
  dateOf (now - config.rollingWindowHours * 60 * 60 * 1000)

def getRapidWindowStart (config : AMLConfig) (now : ℤ) : ℤ :=
  dateOf (now - config.rapidWindowMinutes * 60 * 1000)

def since (start : ℤ) (txs : List AMLTransactionRecord) : List AMLTransactionRecord :=
  txs.filter fun tx => start ≤ tx.createdAt

/-! ## High values -/

structure AMLHighValueAssessment where
  qualifies : Bool
  thresholdUsd : ℚ
  usdEquivalent : ℚ
  originalCurrency : String
  sourceAmount : ℚ

def supportedCurrencies : List String :=
  ["USD", "XAF", "NGN", "KES", "GHS", "TZS", "ZMW", "RWF", "GNF", "MGA"]

section Evaluation

variable (services : Services) (config : AMLConfig)

def normalizeSupportedCurrency (value : Option String) : String :=
  ((value.map services.toUpperCase).filter (· ∈ supportedCurrencies)).getD "USD"

/-- A stored equivalent is taken unless it is negative. -/
def usdEquivalent (sourceAmount : ℚ) (originalCurrency : String) (stored : Option ℚ) :
    Except String ℚ :=
  match stored.filter fun stored => 0 ≤ stored with
  | some stored => .ok (if originalCurrency = "USD" then sourceAmount else stored)
  | none =>
    if originalCurrency ≠ "USD" then services.convertToBase sourceAmount originalCurrency
    else .ok sourceAmount

def assessHighValueTransaction (transaction : AMLTransactionRecord) :
    Except String AMLHighValueAssessment := do
  let originalCurrency := normalizeSupportedCurrency services transaction.currency
  let sourceAmount := transaction.originalAmount.getD transaction.amount
  let equivalent ← usdEquivalent services sourceAmount originalCurrency transaction.convertedAmount
  return ⟨config.highValueReportThresholdUsd < equivalent, config.highValueReportThresholdUsd,
    equivalent, originalCurrency, sourceAmount⟩

/-! ## The rules -/

def singleTransactionHit (current : AMLTransactionRecord) (assessment : AMLHighValueAssessment) :
    Option AMLRuleHit :=
  if config.singleTransactionThresholdXaf < current.amount then
    some ⟨.singleTransactionThreshold,
      "Single transaction amount " ++ services.text current.amount ++ " XAF exceeds " ++
        services.text config.singleTransactionThresholdXaf ++ " XAF",
      current.amount, config.singleTransactionThresholdXaf⟩
  else if assessment.qualifies then
    some ⟨.singleTransactionThreshold,
      "Single transaction USD-equivalent amount " ++ services.toFixed2 assessment.usdEquivalent ++
        " USD exceeds " ++ services.text assessment.thresholdUsd ++
        " USD high-value reporting threshold",
      assessment.usdEquivalent, assessment.thresholdUsd⟩
  else none

def rollingTotal (current : AMLTransactionRecord) (windowTxs : List AMLTransactionRecord) : ℚ :=
  windowTxs.foldl (fun sum tx => sum + tx.amount) 0 + current.amount

def dailyTotalHit (current : AMLTransactionRecord) (windowTxs : List AMLTransactionRecord) :
    Option AMLRuleHit :=
  let total := rollingTotal current windowTxs
  if config.dailyTotalThresholdXaf < total then
    some ⟨.dailyTotalThreshold,
      "Rolling 24h total " ++ services.text total ++ " XAF exceeds " ++
        services.text config.dailyTotalThresholdXaf ++ " XAF",
      total, config.dailyTotalThresholdXaf⟩
  else none

/-- From the floor on, and below the threshold of a single transaction. -/
def Structuring (floor : ℚ) (tx : AMLTransactionRecord) : Prop :=
  floor ≤ tx.amount ∧ tx.amount < config.singleTransactionThresholdXaf

instance (floor : ℚ) (tx : AMLTransactionRecord) : Decidable (Structuring config floor tx) :=
  inferInstanceAs (Decidable (_ ∧ _))

/-- Enough transactions in both directions, and as many of them large. -/
def RapidStructuring (rapidSet : List AMLTransactionRecord) : Prop :=
  config.rapidTransactionCount ≤ rapidSet.length ∧
    (∃ tx ∈ rapidSet, tx.type = .deposit) ∧ (∃ tx ∈ rapidSet, tx.type = .withdraw) ∧
    config.rapidTransactionCount ≤
      (rapidSet.filter fun tx => Structuring config config.structuringFloorXaf tx).length

instance (rapidSet : List AMLTransactionRecord) : Decidable (RapidStructuring config rapidSet) :=
  inferInstanceAs (Decidable (_ ∧ (∃ tx ∈ rapidSet, _) ∧ (∃ tx ∈ rapidSet, _) ∧ _))

def rapidStructuringHit (current : AMLTransactionRecord)
    (windowTxs : List AMLTransactionRecord) : Option AMLRuleHit :=
  let rapidSet := since (getRapidWindowStart config current.createdAt) windowTxs ++ [current]
  if RapidStructuring config rapidSet then
    some ⟨.rapidStructuring,
      "Rapid in/out pattern detected (" ++ toString rapidSet.length ++ " tx in " ++
        services.text config.rapidWindowMinutes ++ "m)",
      rapidSet.length, config.rapidTransactionCount⟩
  else none

def structuringLowerBound : ℚ :=
  config.singleTransactionThresholdXaf * config.structuringThresholdRatio

def totalStructuringCount (current : AMLTransactionRecord)
    (windowTxs : List AMLTransactionRecord) : ℕ :=
  (windowTxs.filter fun tx => Structuring config (structuringLowerBound config) tx).length +
    if Structuring config (structuringLowerBound config) current then 1 else 0

def thresholdStructuringHit (current : AMLTransactionRecord)
    (windowTxs : List AMLTransactionRecord) : Option AMLRuleHit :=
  let count := totalStructuringCount config current windowTxs
  if config.structuringFrequencyLimit ≤ count then
    some ⟨.thresholdStructuring,
      "Structuring attempt detected: user submitted " ++ toString count ++
        " transaction requests just below KYC threshold (" ++
        services.text config.singleTransactionThresholdXaf ++ " XAF)",
      count, config.structuringFrequencyLimit⟩
  else none

/-- The hits of all rules, in the order in which they are tried. -/
def ruleHits (current : AMLTransactionRecord) (assessment : AMLHighValueAssessment)
    (windowTxs : List AMLTransactionRecord) : List AMLRuleHit :=
  (singleTransactionHit services config current assessment).toList ++
    (dailyTotalHit services config current windowTxs).toList ++
    (rapidStructuringHit services config current windowTxs).toList ++
    (thresholdStructuringHit services config current windowTxs).toList

def AMLRule.Grave : AMLRule → Prop
  | .rapidStructuring => False
  | _ => True

instance (rule : AMLRule) : Decidable rule.Grave :=
  match rule with
  | .singleTransactionThreshold | .dailyTotalThreshold | .thresholdStructuring =>
    inferInstanceAs (Decidable True)
  | .rapidStructuring => inferInstanceAs (Decidable False)

def alertOf (current : AMLTransactionRecord) (hits : List AMLRuleHit) : AMLAlert where
  transactionId := current.id
  userId := current.userId
  severity := if ∃ hit ∈ hits, hit.rule.Grave then .high else .medium
  ruleHits := hits
  reasons := hits.map (·.message)

def evaluateTransaction (current : AMLTransactionRecord)
    (recentTransactions : List AMLTransactionRecord) : Except String AMLMonitoringResult := do
  let windowTxs := since (getLookbackWindowStart config current.createdAt) recentTransactions
  let assessment ← assessHighValueTransaction services config current
  let hits := ruleHits services config current assessment windowTxs
  if hits = [] then
    return ⟨false, none, [], 0, config.profileScoreThreshold, .allow, []⟩
  else
    let alert := alertOf current hits
    return ⟨true, some alert, hits, config.profileScoreThreshold, config.profileScoreThreshold,
      .review, alert.reasons⟩

end Evaluation

/-! ## What the rules look at -/

open Checked

variable {services : Services} {config : AMLConfig} {current : AMLTransactionRecord}
  {txs txs' : List AMLTransactionRecord}

/-! ### The hits of one rule -/

/-- The conditions of the rules, without their messages. -/
def Hits (config : AMLConfig) (current : AMLTransactionRecord)
    (assessment : AMLHighValueAssessment) (windowTxs : List AMLTransactionRecord) :
    AMLRule → Prop
  | .singleTransactionThreshold =>
    config.singleTransactionThresholdXaf < current.amount ∨ assessment.qualifies = true
  | .dailyTotalThreshold => config.dailyTotalThresholdXaf < rollingTotal current windowTxs
  | .rapidStructuring =>
    RapidStructuring config (since (getRapidWindowStart config current.createdAt) windowTxs ++
      [current])
  | .thresholdStructuring =>
    config.structuringFrequencyLimit ≤ totalStructuringCount config current windowTxs

/-- A hit under a condition. -/
theorem exists_mem_ite_iff {c : Prop} [Decidable c] {hit : AMLRuleHit} {other : Option AMLRuleHit}
    {rule : AMLRule} :
    (∃ found ∈ (if c then some hit else other).toList, found.rule = rule) ↔
      c ∧ hit.rule = rule ∨ ¬ c ∧ ∃ found ∈ other.toList, found.rule = rule := by
  split_ifs with h <;> simp [h]

theorem mem_ruleHits_iff (services : Services) (assessment : AMLHighValueAssessment)
    (rule : AMLRule) :
    (∃ hit ∈ ruleHits services config current assessment txs, hit.rule = rule) ↔
      Hits config current assessment txs rule := by
  simp only [ruleHits, List.mem_append, or_and_right, exists_or, singleTransactionHit,
    dailyTotalHit, rapidStructuringHit, thresholdStructuringHit, exists_mem_ite_iff,
    Option.toList_none, List.not_mem_nil, false_and, exists_false, and_false, or_false]
  cases rule with
  | singleTransactionThreshold =>
    by_cases above : config.singleTransactionThresholdXaf < current.amount <;> simp [Hits, above]
  | dailyTotalThreshold => simp [Hits]
  | rapidStructuring => simp [Hits]
  | thresholdStructuring => simp [Hits]

/-! ### One rule on two lists -/

theorem since_subperm (start : ℤ) (h : txs.Subperm txs') :
    (since start txs).Subperm (since start txs') := h.filter _

theorem rollingTotal_eq_sum (current : AMLTransactionRecord) (txs : List AMLTransactionRecord) :
    rollingTotal current txs = (txs.map fun tx => tx.amount).sum + current.amount := by
  rw [rollingTotal, List.sum_eq_foldl, List.foldl_map]

theorem rollingTotal_perm (h : txs.Perm txs') :
    rollingTotal current txs = rollingTotal current txs' := by
  rw [rollingTotal_eq_sum, rollingTotal_eq_sum, (h.map _).sum_eq]

theorem rollingTotal_mono (h : txs.Subperm txs') (nonneg : ∀ tx ∈ txs', 0 ≤ tx.amount) :
    rollingTotal current txs ≤ rollingTotal current txs' := by
  obtain ⟨same, perm, sub⟩ := h
  rw [← rollingTotal_perm perm, rollingTotal_eq_sum, rollingTotal_eq_sum]
  refine add_le_add_left ((sub.map _).sum_le_sum fun amount hamount => ?_) _
  obtain ⟨tx, htx, rfl⟩ := List.mem_map.1 hamount
  exact nonneg tx htx

theorem rapidStructuring_mono (h : txs.Subperm txs') (hits : RapidStructuring config txs) :
    RapidStructuring config txs' := by
  obtain ⟨count, ⟨deposit, hdeposit, isDeposit⟩, ⟨withdraw, hwithdraw, isWithdraw⟩, large⟩ := hits
  have length : (txs.length : ℚ) ≤ txs'.length := by exact_mod_cast h.length_le
  have filtered : ((txs.filter fun tx =>
      Structuring config config.structuringFloorXaf tx).length : ℚ) ≤
        (txs'.filter fun tx => Structuring config config.structuringFloorXaf tx).length := by
    exact_mod_cast (h.filter _).length_le
  exact ⟨count.trans length, ⟨deposit, h.subset hdeposit, isDeposit⟩,
    ⟨withdraw, h.subset hwithdraw, isWithdraw⟩, large.trans filtered⟩

theorem totalStructuringCount_mono (h : txs.Subperm txs') :
    totalStructuringCount config current txs ≤ totalStructuringCount config current txs' :=
  Nat.add_le_add_right (h.filter _).length_le _

/-- More transactions hit every rule that fewer do. -/
theorem Hits.mono {assessment : AMLHighValueAssessment} {rule : AMLRule} (h : txs.Subperm txs')
    (nonneg : ∀ tx ∈ txs', 0 ≤ tx.amount) (hits : Hits config current assessment txs rule) :
    Hits config current assessment txs' rule := by
  cases rule with
  | singleTransactionThreshold => exact hits
  | dailyTotalThreshold => exact lt_of_lt_of_le hits (rollingTotal_mono h nonneg)
  | rapidStructuring =>
    exact rapidStructuring_mono ((List.subperm_append_right _).2 (since_subperm _ h)) hits
  | thresholdStructuring =>
    have count : (totalStructuringCount config current txs : ℚ) ≤
        totalStructuringCount config current txs' := by
      exact_mod_cast totalStructuringCount_mono h
    exact le_trans hits count

/-- The order makes no difference, whatever the amounts are. -/
theorem Hits.perm {assessment : AMLHighValueAssessment} {rule : AMLRule} (h : txs.Perm txs')
    (hits : Hits config current assessment txs rule) :
    Hits config current assessment txs' rule := by
  cases rule with
  | singleTransactionThreshold => exact hits
  | dailyTotalThreshold =>
    rw [Hits, ← rollingTotal_perm h]
    exact hits
  | rapidStructuring =>
    exact rapidStructuring_mono
      ((List.subperm_append_right _).2 (since_subperm _ h.subperm)) hits
  | thresholdStructuring =>
    have count : (totalStructuringCount config current txs : ℚ) ≤
        totalStructuringCount config current txs' := by
      exact_mod_cast totalStructuringCount_mono h.subperm
    exact le_trans hits count

/-! ### The report -/

/-- The rule is among those that `evaluateTransaction` reports. -/
def Reports (services : Services) (config : AMLConfig) (current : AMLTransactionRecord)
    (recentTransactions : List AMLTransactionRecord) (rule : AMLRule) : Prop :=
  ∃ result, evaluateTransaction services config current recentTransactions = .ok result ∧
    ∃ hit ∈ result.ruleHits, hit.rule = rule

theorem reports_iff (rule : AMLRule) : Reports services config current txs rule ↔
    ∃ assessment, assessHighValueTransaction services config current = .ok assessment ∧
      Hits config current assessment
        (since (getLookbackWindowStart config current.createdAt) txs) rule := by
  simp only [Reports, evaluateTransaction, bind_eq_ok, ← mem_ruleHits_iff services]
  constructor
  · rintro ⟨result, ⟨assessment, hassessment, hresult⟩, hit, hmem, hrule⟩
    refine ⟨assessment, hassessment, hit, ?_, hrule⟩
    split_ifs at hresult with h
    · obtain rfl := pure_eq_ok.1 hresult
      cases hmem
    · obtain rfl := pure_eq_ok.1 hresult
      exact hmem
  · rintro ⟨assessment, hassessment, hit, hmem, hrule⟩
    exact ⟨_, ⟨assessment, hassessment, if_neg (List.ne_nil_of_mem hmem)⟩, hit, hmem, hrule⟩

/-- Dollars are worth 600 francs. -/
def dollarServices : Services where
  toUpperCase := String.toUpper
  text amount := toString amount
  toFixed2 amount := toString amount
  convertToBase amount currency :=
    if currency = "XAF" then .ok (amount / 600) else .error "Exchange rate unavailable"

/-- A transaction in francs, some minutes into the day. -/
def francs (id : String) (type : AMLTransactionType) (amount : ℚ) (minute : ℤ) :
    AMLTransactionRecord where
  id := id
  userId := "user"
  type := type
  amount := amount
  createdAt := minute * 60000
  currency := some "XAF"
  originalAmount := none
  convertedAmount := none

/-- The rules reported do not depend on the order of the recent transactions, and more of them,
with amounts that are not negative, report no rule less. -/
theorem reports_stable (services : Services) (config : AMLConfig)
    (current : AMLTransactionRecord) (recent more : List AMLTransactionRecord)
    (nonneg : ∀ tx ∈ more, 0 ≤ tx.amount) :
    (recent.Perm more → ∀ rule, Reports services config current recent rule ↔
        Reports services config current more rule) ∧
      (recent.Subperm more → ∀ rule, Reports services config current recent rule →
        Reports services config current more rule) := by
  have window : ∀ tx ∈ since (getLookbackWindowStart config current.createdAt) more,
      0 ≤ tx.amount := fun tx htx => nonneg tx (List.mem_of_mem_filter htx)
  refine ⟨fun perm rule => ?_, fun sub rule => ?_⟩
  · rw [reports_iff, reports_iff]
    exact exists_congr fun _ => and_congr_right fun _ =>
      ⟨Hits.perm (perm.filter _), Hits.perm (perm.symm.filter _)⟩
  · rw [reports_iff, reports_iff]
    rintro ⟨assessment, hassessment, hits⟩
    exact ⟨assessment, hassessment, hits.mono (since_subperm _ sub) window⟩

/-- Two transactions in the other order, and one more between them. -/
theorem reports_stable_of_swap :
    let current := francs "third" .deposit 900000 10
    let recent := [francs "first" .deposit 900000 0, francs "second" .withdraw 850000 5]
    let swapped := [francs "second" .withdraw 850000 5, francs "first" .deposit 900000 0]
    let more := [francs "second" .withdraw 850000 5, francs "between" .deposit 40000 2,
      francs "first" .deposit 900000 0]
    (∀ rule, Reports dollarServices defaultConfig current recent rule ↔
        Reports dollarServices defaultConfig current swapped rule) ∧
      ∀ rule, Reports dollarServices defaultConfig current recent rule →
        Reports dollarServices defaultConfig current more rule := by
  intro current recent swapped more
  have perm : recent.Perm swapped := List.Perm.swap _ _ _
  have grows : swapped.Sublist more := ((List.Sublist.refl _).cons _).cons_cons _
  constructor
  · exact (reports_stable dollarServices defaultConfig current recent swapped
      (by simp [swapped, francs])).1 perm
  · exact (reports_stable dollarServices defaultConfig current recent more
      (by simp [more, francs])).2 (perm.subperm.trans grows.subperm)

end MobileMoney.Aml.Rules
