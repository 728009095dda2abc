import Mathlib.Algebra.BigOperators.Group.List.Basic
import Mathlib.Algebra.Order.BigOperators.Group.List
import Mathlib.Data.Rat.Floor
import Mathlib.Tactic.FieldSimp
import Mathlib.Tactic.Linarith
import MobileMoney.Library.Checked

/-!
# Distributing a fee

`services/feeDistributionEngine.ts` in exact arithmetic: a fee is split among the recipients of a
rule, every part is rounded down to a unit of so many decimals, and what is missing is added to the
largest part. The unit of the parts is that of the sum, so a fee that is not a whole number of
units is not distributed exactly; the percentages of a rule may exceed 100 by the tolerance, so
that with very many recipients the largest part does not cover the excess.
-/

namespace MobileMoney.Fees.Distribution

open Checked

inductive FeeDistributionRecipientType where
  | platformTreasury | referralProgram | providerRebate | liquidityPool | charity
  deriving DecidableEq, Repr

def FeeDistributionRecipientType.text : FeeDistributionRecipientType → String
  | .platformTreasury => "platform_treasury"
  | .referralProgram => "referral_program"
  | .providerRebate => "provider_rebate"
  | .liquidityPool => "liquidity_pool"
  | .charity => "charity"

structure FeeDistributionShare where
  recipientType : FeeDistributionRecipientType
  percentage : ℚ
  recipientId : Option String
  deriving DecidableEq

structure FeeDistributionRule where
  id : String
  name : String
  shares : List FeeDistributionShare
  deriving DecidableEq

structure FeeDistributionShareResult where
  recipientType : FeeDistributionRecipientType
  recipientId : Option String
  amount : ℚ
  percentage : ℚ
  deriving DecidableEq

structure FeeDistributionResult where
  ruleId : String
  ruleName : String
  totalFee : ℚ
  shares : List FeeDistributionShareResult
  roundingRemainderAppliedTo : Option FeeDistributionRecipientType
  deriving DecidableEq

def percentageTolerance : ℚ := 1 / 10000

/-! ## The validator -/

-- The texts of numbers in messages.
variable (text : ℚ → String)

structure RuleValidationResult where
  isValid : Bool
  errors : List String

def FeeDistributionShare.InRange (share : FeeDistributionShare) : Prop :=
  0 < share.percentage ∧ share.percentage ≤ 100

instance (share : FeeDistributionShare) : Decidable share.InRange :=
  inferInstanceAs (Decidable (_ ∧ _))

def percentageErrors (share : FeeDistributionShare) : List String :=
  if ¬ 0 < share.percentage ∨ 100 < share.percentage then
    ["Invalid percentage " ++ text share.percentage ++ " for recipient " ++
      share.recipientType.text ++ " — must be > 0 and <= 100"]
  else []

def totalPercentage (shares : List FeeDistributionShare) : ℚ :=
  shares.foldl (fun sum share => sum + share.percentage) 0

def totalErrors (total : ℚ) : List String :=
  if percentageTolerance < |total - 100| then
    ["Distribution shares must sum to 100, got " ++ text total]
  else []

def validateFeeDistributionShares (shares : List FeeDistributionShare) : RuleValidationResult :=
  if shares = [] then ⟨false, ["At least one distribution share is required"]⟩
  else
    let errors :=
      shares.flatMap (percentageErrors text) ++ totalErrors text (totalPercentage shares)
    ⟨errors.isEmpty, errors⟩

/-! ## The parts -/

/-- `Math.round`. -/
def round (x : ℚ) : ℤ := ⌊x + 1 / 2⌋

/-- A part in units, rounded down. -/
def FeeDistributionShare.units (share : FeeDistributionShare) (totalFee : ℚ) (precision : ℕ) : ℤ :=
  ⌊totalFee * share.percentage / 100 * 10 ^ precision⌋

def FeeDistributionShare.part (share : FeeDistributionShare) (totalFee : ℚ) (precision : ℕ) :
    FeeDistributionShareResult where
  recipientType := share.recipientType
  recipientId := share.recipientId
  amount := share.units totalFee precision / 10 ^ precision
  percentage := share.percentage

def distributed (shares : List FeeDistributionShareResult) : ℚ :=
  shares.foldl (fun sum share => sum + share.amount) 0

/-- The first of the largest parts with its place, after `max` at place 0. -/
def largest (max : FeeDistributionShareResult) (shares : List FeeDistributionShareResult) :
    FeeDistributionShareResult × ℕ :=
  shares.zipIdx.foldl (fun max share => if max.1.amount < share.1.amount then share else max)
    (max, 0)

/-- The parts with the remainder added to the largest, and whose that is. -/
def applyRemainder (remainder : ℚ) (precision : ℕ) :
    List FeeDistributionShareResult →
      List FeeDistributionShareResult × Option FeeDistributionRecipientType
  | [] => ([], none)
  | first :: rest =>
    if remainder ≠ 0 then
      let (max, place) := largest first (first :: rest)
      let amount : ℚ := round ((max.amount + remainder) * 10 ^ precision) / 10 ^ precision
      ((first :: rest).modify place ({ · with amount := amount }), some max.recipientType)
    else (first :: rest, none)

def distributeFee (rule : FeeDistributionRule) (totalFee : ℚ) (precision : ℕ) :
    Except String FeeDistributionResult := do
  let validation := validateFeeDistributionShares text rule.shares
  require (validation.isValid = true)
    ("Cannot distribute fee: invalid rule \"" ++ rule.name ++ "\" — " ++
      "; ".intercalate validation.errors)
  require (¬ totalFee < 0) ("Cannot distribute a negative fee amount: " ++ text totalFee)
  let shares := rule.shares.map fun share => share.part totalFee precision
  let remainder : ℚ := round ((totalFee - distributed shares) * 10 ^ precision) / 10 ^ precision
  let (shares, roundingRemainderAppliedTo) := applyRemainder remainder precision shares
  return ⟨rule.id, rule.name, totalFee, shares, roundingRemainderAppliedTo⟩

/-! ## The rules that are accepted -/

variable {text : ℚ → String}

theorem percentageErrors_eq_nil_iff {share : FeeDistributionShare} :
    percentageErrors text share = [] ↔ share.InRange := by
  unfold percentageErrors
  split_ifs with h
  · simp only [false_iff]
    rintro ⟨positive, most⟩
    exact h.elim (absurd positive) most.not_gt
  · rw [not_or, not_not, not_lt] at h
    exact iff_of_true rfl h

theorem totalErrors_eq_nil_iff {total : ℚ} :
    totalErrors text total = [] ↔ |total - 100| ≤ percentageTolerance := by
  unfold totalErrors
  split_ifs with h <;> simpa using h

/-- There are shares, of percentages in range that make up a hundred. -/
structure Accepted (shares : List FeeDistributionShare) : Prop where
  ne_nil : shares ≠ []
  inRange : ∀ share ∈ shares, share.InRange
  total : |totalPercentage shares - 100| ≤ percentageTolerance

theorem isValid_iff {shares : List FeeDistributionShare} :
    (validateFeeDistributionShares text shares).isValid = true ↔ Accepted shares := by
  unfold validateFeeDistributionShares
  split_ifs with h
  · exact iff_of_false (by simp) fun accepted => accepted.ne_nil h
  · dsimp only
    rw [List.isEmpty_iff, List.append_eq_nil_iff, List.flatMap_eq_nil_iff, totalErrors_eq_nil_iff]
    simp only [percentageErrors_eq_nil_iff]
    exact ⟨fun ⟨inRange, total⟩ => ⟨h, inRange, total⟩, fun ⟨_, inRange, total⟩ => ⟨inRange, total⟩⟩

/-! ## The largest part -/

theorem foldl_add_eq_sum {α : Type} (f : α → ℚ) (xs : List α) :
    xs.foldl (fun sum x => sum + f x) 0 = (xs.map f).sum := by
  rw [List.sum_eq_foldl, List.foldl_map]

/-- The greatest of the parts in a scan, and where it comes from. -/
theorem foldl_largest (parts : List (FeeDistributionShareResult × ℕ))
    (max : FeeDistributionShareResult × ℕ) :
    let found := parts.foldl
      (fun max share => if max.1.amount < share.1.amount then share else max) max
    (found = max ∨ found ∈ parts) ∧ max.1.amount ≤ found.1.amount ∧
      ∀ part ∈ parts, part.1.amount ≤ found.1.amount := by
  induction parts generalizing max with
  | nil => simp
  | cons part parts ih =>
    simp only [List.foldl_cons, List.mem_cons, forall_eq_or_imp]
    by_cases h : max.1.amount < part.1.amount
    · rw [if_pos h]
      obtain ⟨source, least, rest⟩ := ih part
      exact ⟨.inr source, h.le.trans least, least, rest⟩
    · rw [if_neg h]
      obtain ⟨source, least, rest⟩ := ih max
      exact ⟨source.imp_right .inr, least, (not_lt.1 h).trans least, rest⟩

theorem largest_spec (first : FeeDistributionShareResult)
    (rest : List FeeDistributionShareResult) :
    let found := largest first (first :: rest)
    (first :: rest)[found.2]? = some found.1 ∧
      ∀ part ∈ first :: rest, part.amount ≤ found.1.amount := by
  obtain ⟨source, -, all⟩ := foldl_largest (first :: rest).zipIdx (first, 0)
  refine ⟨?_, fun part hpart => ?_⟩
  · rcases source with h | h
    · rw [largest, h]
      rfl
    · exact List.mem_zipIdx_iff_getElem?.1 h
  · obtain ⟨place, hplace⟩ := List.mem_iff_getElem?.1 hpart
    exact all (part, place) (List.mem_zipIdx_iff_getElem?.2 hplace)

/-- A part that none exceeds takes the remainder, the others stay as they are. -/
theorem applyRemainder_spec {remainder : ℚ} (h : remainder ≠ 0) (precision : ℕ)
    {parts : List FeeDistributionShareResult} (hne : parts ≠ []) :
    ∃ before max after, parts = before ++ max :: after ∧
      (∀ part ∈ parts, part.amount ≤ max.amount) ∧
      (applyRemainder remainder precision parts).1 = before ++ { max with
        amount := round ((max.amount + remainder) * 10 ^ precision) / 10 ^ precision } ::
        after := by
  obtain ⟨first, rest, rfl⟩ := List.exists_cons_of_ne_nil hne
  obtain ⟨hplace, all⟩ := largest_spec first rest
  obtain ⟨hlt, hget⟩ := List.getElem?_eq_some_iff.1 hplace
  rw [applyRemainder, if_pos h]
  refine ⟨(first :: rest).take (largest first (first :: rest)).2,
    (largest first (first :: rest)).1,
    (first :: rest).drop ((largest first (first :: rest)).2 + 1), ?_, all, ?_⟩
  · rw [← hget, List.cons_getElem_drop_succ, List.take_append_drop]
  · dsimp only
    rw [List.modify_eq_take_cons_drop hlt, hget]

/-! ## Conservation -/

theorem round_intCast (n : ℤ) : round n = n := by
  rw [round, Int.floor_eq_iff]
  constructor <;> linarith

theorem round_sub_intCast (x : ℚ) (n : ℤ) : round (x - n) = round x - n := by
  rw [round, round, sub_add_eq_add_sub, Int.floor_sub_intCast]

/-- All parts in units. -/
def sumUnits (shares : List FeeDistributionShare) (totalFee : ℚ) (precision : ℕ) : ℤ :=
  (shares.map fun share => share.units totalFee precision).sum

theorem distributed_parts (shares : List FeeDistributionShare) (totalFee : ℚ) (precision : ℕ) :
    distributed (shares.map fun share => share.part totalFee precision) =
      sumUnits shares totalFee precision / 10 ^ precision := by
  rw [distributed, foldl_add_eq_sum, sumUnits]
  induction shares with
  | nil => simp
  | cons share shares ih =>
    simp only [List.map_cons, List.sum_cons] at ih ⊢
    rw [ih, FeeDistributionShare.part]
    push_cast
    ring

theorem units_nonneg {share : FeeDistributionShare} (inRange : share.InRange) {totalFee : ℚ}
    (nonneg : 0 ≤ totalFee) (precision : ℕ) : 0 ≤ share.units totalFee precision := by
  have := inRange.1
  exact Int.floor_nonneg.2 (by positivity)

/-- The parts are not negative and make up the fee. -/
def Conserved (totalFee : ℚ) (result : FeeDistributionResult) : Prop :=
  (∀ share ∈ result.shares, 0 ≤ share.amount) ∧
    (result.shares.map fun share => share.amount).sum = totalFee

/-- Some part covers what the parts exceed the fee by. -/
def Covered (shares : List FeeDistributionShare) (totalFee : ℚ) (precision : ℕ) : Prop :=
  ∃ share ∈ shares, (sumUnits shares totalFee precision : ℚ) ≤
    totalFee * 10 ^ precision + share.units totalFee precision

theorem applyRemainder_zero (precision : ℕ) (parts : List FeeDistributionShareResult) :
    (applyRemainder 0 precision parts).1 = parts := by
  cases parts with
  | nil => rfl
  | cons first rest => rw [applyRemainder, if_neg (not_not.2 rfl)]

section Parts

variable {shares : List FeeDistributionShare} {totalFee : ℚ} {precision : ℕ}

theorem part_amount_nonneg (precision : ℕ) (accepted : Accepted shares)
    (nonneg : 0 ≤ totalFee) :
    ∀ part ∈ shares.map fun share => share.part totalFee precision, 0 ≤ part.amount := by
  intro part hpart
  obtain ⟨share, hshare, rfl⟩ := List.mem_map.1 hpart
  have hunits := units_nonneg (accepted.inRange share hshare) nonneg precision
  have : (0 : ℚ) ≤ share.units totalFee precision := by exact_mod_cast hunits
  exact div_nonneg this (by positivity)

theorem amount_le_amount_iff {share share' : FeeDistributionShare} :
    (share.part totalFee precision).amount ≤ (share'.part totalFee precision).amount ↔
      share.units totalFee precision ≤ share'.units totalFee precision := by
  have unit : (0 : ℚ) < 10 ^ precision := by positivity
  rw [FeeDistributionShare.part, FeeDistributionShare.part, div_le_div_iff_of_pos_right unit,
    Int.cast_le]

/-- The others were not negative before. -/
theorem amounts_nonneg_iff (precision : ℕ) {before after : List FeeDistributionShareResult}
    {part : FeeDistributionShareResult} {units : ℤ}
    (old : ∀ p ∈ before ++ part :: after, 0 ≤ p.amount) :
    (∀ p ∈ before ++ { part with amount := units / 10 ^ precision } :: after, 0 ≤ p.amount) ↔
      0 ≤ units := by
  have unit : (0 : ℚ) < 10 ^ precision := by positivity
  simp only [List.mem_append, List.mem_cons] at old ⊢
  constructor
  · intro h
    have := mul_nonneg (h _ (.inr (.inl rfl))) unit.le
    rw [div_mul_cancel₀ _ unit.ne'] at this
    exact_mod_cast this
  · rintro h p (hp | rfl | hp)
    · exact old p (.inl hp)
    · exact div_nonneg (by exact_mod_cast h) unit.le
    · exact old p (.inr (.inr hp))

/-- A missing number of units is added to the sum, and leaves no negative part exactly when some
part covers it. -/
theorem applyRemainder_units (precision : ℕ) (accepted : Accepted shares)
    (nonneg : 0 ≤ totalFee) (missing : ℤ) :
    let parts := (applyRemainder (missing / 10 ^ precision) precision
      (shares.map fun share => share.part totalFee precision)).1
    (parts.map fun part => part.amount).sum =
        (sumUnits shares totalFee precision + missing : ℤ) / 10 ^ precision ∧
      ((∀ part ∈ parts, 0 ≤ part.amount) ↔
        ∃ share ∈ shares, 0 ≤ missing + share.units totalFee precision) := by
  have unit : (0 : ℚ) < 10 ^ precision := by positivity
  have old := part_amount_nonneg precision accepted nonneg
  have whole := distributed_parts shares totalFee precision
  rw [distributed, foldl_add_eq_sum] at whole
  by_cases hzero : missing = 0
  · subst hzero
    rw [Int.cast_zero, zero_div, applyRemainder_zero, Int.add_zero]
    obtain ⟨share, rest, hshares⟩ := List.exists_cons_of_ne_nil accepted.ne_nil
    have hshare : share ∈ shares := by simp [hshares]
    refine ⟨whole, iff_of_true old ⟨share, hshare, ?_⟩⟩
    have := units_nonneg (accepted.inRange share hshare) nonneg precision
    omega
  · have hne : (missing : ℚ) / 10 ^ precision ≠ 0 :=
      div_ne_zero (Int.cast_ne_zero.2 hzero) unit.ne'
    obtain ⟨before, max, after, hparts, most, happlied⟩ := applyRemainder_spec hne precision
      (show shares.map (fun share => share.part totalFee precision) ≠ [] by
        simpa using accepted.ne_nil)
    have hmax : max ∈ shares.map fun share => share.part totalFee precision := by
      rw [hparts]
      simp
    obtain ⟨share, hshare, rfl⟩ := List.mem_map.1 hmax
    have amount : (round (((share.part totalFee precision).amount + missing / 10 ^ precision) *
        10 ^ precision) : ℚ) / 10 ^ precision =
          (share.units totalFee precision + missing : ℤ) / 10 ^ precision := by
      rw [FeeDistributionShare.part, ← add_div, div_mul_cancel₀ _ unit.ne', ← Int.cast_add,
        round_intCast]
    rw [happlied, amount]
    rw [hparts] at old whole
    constructor
    · simp only [List.map_append, List.map_cons, List.sum_append, List.sum_cons] at whole ⊢
      rw [Int.cast_add, Int.cast_add, add_div, add_div, ← whole]
      simp only [FeeDistributionShare.part]
      ring
    · rw [amounts_nonneg_iff precision old]
      constructor
      · intro h
        exact ⟨share, hshare, by omega⟩
      · rintro ⟨share', hshare', h⟩
        have := amount_le_amount_iff.1 (most _ (List.mem_map.2 ⟨share', hshare', rfl⟩))
        omega

end Parts

/-- The parts make up the fee rounded to the unit; none is negative exactly when some part covers
what they exceed it by. -/
theorem distributeFee_spec (text : ℚ → String) {rule : FeeDistributionRule} {totalFee : ℚ}
    (precision : ℕ) (accepted : Accepted rule.shares) (nonneg : 0 ≤ totalFee) :
    ∃ result, distributeFee text rule totalFee precision = .ok result ∧
      (result.shares.map fun share => share.amount).sum =
        round (totalFee * 10 ^ precision) / 10 ^ precision ∧
      ((∀ share ∈ result.shares, 0 ≤ share.amount) ↔ ∃ share ∈ rule.shares,
        sumUnits rule.shares totalFee precision ≤
          round (totalFee * 10 ^ precision) + share.units totalFee precision) := by
  set parts := rule.shares.map fun share => share.part totalFee precision with hparts
  set sum := sumUnits rule.shares totalFee precision with hsum
  set whole := round (totalFee * 10 ^ precision) with hwhole
  have unit : (0 : ℚ) < 10 ^ precision := by positivity
  have remainder : (round ((totalFee - distributed parts) * 10 ^ precision) : ℚ) /
      10 ^ precision = (whole - sum : ℤ) / 10 ^ precision := by
    rw [hparts, distributed_parts, ← hsum, sub_mul, div_mul_cancel₀ _ unit.ne',
      round_sub_intCast]
  have runs : distributeFee text rule totalFee precision = .ok ⟨rule.id, rule.name, totalFee,
      (applyRemainder ((whole - sum : ℤ) / 10 ^ precision) precision parts).1,
      (applyRemainder ((whole - sum : ℤ) / 10 ^ precision) precision parts).2⟩ := by
    simp only [distributeFee, bind_eq_ok, require_eq_ok, pure_eq_ok, isValid_iff, exists_const]
    refine ⟨accepted, not_lt.2 nonneg, ?_⟩
    rw [← remainder]
  obtain ⟨hamounts, hnonneg⟩ := applyRemainder_units precision accepted nonneg (whole - sum)
  rw [← hsum, add_sub_cancel] at hamounts
  refine ⟨_, runs, hamounts, hnonneg.trans ?_⟩
  refine exists_congr fun share => and_congr_right fun _ => ?_
  omega

/-- A fee is distributed exactly when it is a whole number of units and some part covers what the
parts exceed it by. -/
theorem distributeFee_conserved_iff (text : ℚ → String) {rule : FeeDistributionRule}
    {totalFee : ℚ} (precision : ℕ)
    (accepted : (validateFeeDistributionShares text rule.shares).isValid = true)
    (nonneg : 0 ≤ totalFee) :
    (∃ result, distributeFee text rule totalFee precision = .ok result ∧
        Conserved totalFee result) ↔
      (∃ units : ℤ, totalFee * 10 ^ precision = units) ∧
        Covered rule.shares totalFee precision := by
  have unit : (0 : ℚ) < 10 ^ precision := by positivity
  obtain ⟨result, hresult, hsum, hnonneg⟩ :=
    distributeFee_spec text precision (isValid_iff.1 accepted) nonneg
  have exact_iff : (result.shares.map fun share => share.amount).sum = totalFee ↔
      ∃ units : ℤ, totalFee * 10 ^ precision = units := by
    rw [hsum, div_eq_iff unit.ne']
    constructor
    · intro h
      exact ⟨_, h.symm⟩
    · rintro ⟨units, h⟩
      rw [h, round_intCast]
  have covered_iff (h : ∃ units : ℤ, totalFee * 10 ^ precision = units) :
      (∀ share ∈ result.shares, 0 ≤ share.amount) ↔ Covered rule.shares totalFee precision := by
    obtain ⟨units, h⟩ := h
    rw [hnonneg, Covered, h, round_intCast]
    exact exists_congr fun share => and_congr_right fun _ => by exact_mod_cast Iff.rfl
  constructor
  · rintro ⟨result', hresult', hparts, htotal⟩
    obtain rfl := Except.ok.inj (hresult.symm.trans hresult')
    have whole := exact_iff.1 htotal
    exact ⟨whole, (covered_iff whole).1 hparts⟩
  · rintro ⟨whole, covered⟩
    exact ⟨result, hresult, (covered_iff whole).2 covered, exact_iff.2 whole⟩

/-! ## Rules that are always covered -/

theorem sumUnits_le (shares : List FeeDistributionShare) (totalFee : ℚ) (precision : ℕ) :
    (sumUnits shares totalFee precision : ℚ) ≤
      totalFee * 10 ^ precision * ((shares.map fun share => share.percentage).sum / 100) := by
  induction shares with
  | nil => simp [sumUnits]
  | cons share shares ih =>
    have floor := Int.floor_le (totalFee * share.percentage / 100 * 10 ^ precision)
    simp only [sumUnits, List.map_cons, List.sum_cons] at ih ⊢
    rw [Int.cast_add]
    calc (share.units totalFee precision : ℚ) +
          ((shares.map fun share => share.units totalFee precision).sum : ℤ)
        ≤ totalFee * share.percentage / 100 * 10 ^ precision + totalFee * 10 ^ precision *
          ((shares.map fun share => share.percentage).sum / 100) := add_le_add floor ih
      _ = _ := by ring

/-- Without one of them, the shares are at most the whole fee. -/
theorem covered_of_others_le {shares : List FeeDistributionShare} {share : FeeDistributionShare}
    (mem : share ∈ shares) (others : totalPercentage shares - share.percentage ≤ 100)
    {totalFee : ℚ} (nonneg : 0 ≤ totalFee) (precision : ℕ) :
    Covered shares totalFee precision := by
  obtain ⟨before, after, rfl⟩ := List.append_of_mem mem
  refine ⟨share, mem, ?_⟩
  have rest := sumUnits_le (before ++ after) totalFee precision
  have bound : ((before ++ after).map fun share => share.percentage).sum / 100 ≤ 1 := by
    rw [totalPercentage, foldl_add_eq_sum] at others
    simp only [List.map_append, List.map_cons, List.sum_append, List.sum_cons] at others ⊢
    linarith
  have scaled : totalFee * 10 ^ precision *
      (((before ++ after).map fun share => share.percentage).sum / 100) ≤
        totalFee * 10 ^ precision := mul_le_of_le_one_right (by positivity) bound
  have split : sumUnits (before ++ share :: after) totalFee precision =
      sumUnits (before ++ after) totalFee precision + share.units totalFee precision := by
    simp only [sumUnits, List.map_append, List.map_cons, List.sum_append, List.sum_cons]
    ring
  rw [split, Int.cast_add]
  linarith

/-- The tolerance is less than the largest of up to a million shares. -/
theorem exists_others_le {shares : List FeeDistributionShare} (accepted : Accepted shares)
    (few : shares.length ≤ 1000000) :
    ∃ share ∈ shares, totalPercentage shares - share.percentage ≤ 100 := by
  by_contra! h
  have excess : totalPercentage shares - 100 ≤ 1 / 10000 := (abs_le.1 accepted.total).2
  have each : ∀ percentage ∈ shares.map fun share => share.percentage,
      percentage ≤ 1 / 10000 := by
    intro percentage hpercentage
    obtain ⟨share, hshare, rfl⟩ := List.mem_map.1 hpercentage
    have := h share hshare
    linarith
  have total := List.sum_le_card_nsmul _ _ each
  rw [List.length_map, nsmul_eq_mul] at total
  have count : (shares.length : ℚ) ≤ 1000000 := by exact_mod_cast few
  obtain ⟨share, rest, hshares⟩ := List.exists_cons_of_ne_nil accepted.ne_nil
  have hshare : share ∈ shares := by simp [hshares]
  have positive := (accepted.inRange share hshare).1
  have less := h share hshare
  rw [totalPercentage, foldl_add_eq_sum] at less
  linarith

/-- With at most a million recipients, a fee is distributed exactly when it is a whole number of
units. -/
theorem distributeFee_conserved_of_few {rule : FeeDistributionRule} {totalFee : ℚ}
    (precision : ℕ) (accepted : Accepted rule.shares) (nonneg : 0 ≤ totalFee)
    (few : rule.shares.length ≤ 1000000) :
    (∃ result, distributeFee text rule totalFee precision = .ok result ∧
        Conserved totalFee result) ↔ ∃ units : ℤ, totalFee * 10 ^ precision = units := by
  obtain ⟨share, mem, others⟩ := exists_others_le accepted few
  rw [distributeFee_conserved_iff text precision (isValid_iff.2 accepted) nonneg]
  exact and_iff_left (covered_of_others_le mem others nonneg precision)

/-! ## A fee in seven decimals and one in eight -/

def toTreasury : FeeDistributionRule where
  id := "1"
  name := "default"
  shares := [⟨.platformTreasury, 70, none⟩, ⟨.referralProgram, 30, some "2"⟩]

theorem toTreasury_accepted :
    (validateFeeDistributionShares (fun _ => "") toTreasury.shares).isValid = true := by
  rw [isValid_iff]
  refine ⟨by decide, by decide, ?_⟩
  norm_num [toTreasury, totalPercentage, percentageTolerance]

theorem one_stroop_conserved :
    ∃ result, distributeFee (fun _ => "") toTreasury (1 / 10000000) 7 = .ok result ∧
      Conserved (1 / 10000000) result :=
  (distributeFee_conserved_iff (fun _ => "") 7 toTreasury_accepted (by norm_num)).2
    ⟨⟨1, by norm_num⟩, ⟨.platformTreasury, 70, none⟩, by simp [toTreasury], by
      norm_num [toTreasury, sumUnits, FeeDistributionShare.units]⟩

/-- A tenth of a stroop is lost. -/
theorem tenth_of_stroop_lost :
    (validateFeeDistributionShares (fun _ => "") toTreasury.shares).isValid = true ∧
      ¬ ∃ result, distributeFee (fun _ => "") toTreasury (1 / 100000000) 7 = .ok result ∧
        Conserved (1 / 100000000) result := by
  refine ⟨toTreasury_accepted, ?_⟩
  rw [distributeFee_conserved_of_few 7 (isValid_iff.1 toTreasury_accepted) (by norm_num)
    (by decide)]
  rintro ⟨units, h⟩
  have lower : (0 : ℚ) < units := by rw [← h]; norm_num
  have upper : (units : ℚ) < 1 := by rw [← h]; norm_num
  have : 0 < units := by exact_mod_cast lower
  have : units < 1 := by exact_mod_cast upper
  omega

end MobileMoney.Fees.Distribution
