import MobileMoney.Contracts.FeeTier

/-!
# Tier tables in force

Every table that `setTiers` accepts, and the one of `initializeFeeTier`, rises strictly in its
stakes and its discounts. The scan of `tierForStake` stops at the first stake that is not met, and
in such a table none after it is.
-/

namespace MobileMoney.FeeTier

open Soroban

/-- A tier above another, in both columns. -/
def Tier.Above (tier tier' : Tier) : Prop :=
  tier.minStake < tier'.minStake ∧ tier.discountBps < tier'.discountBps

theorem Tier.Above.trans {a b c : Tier} (h : a.Above b) (h' : b.Above c) : a.Above c :=
  ⟨h.1.trans h'.1, h.2.trans h'.2⟩

abbrev Rising (tiers : List Tier) : Prop := tiers.Pairwise Tier.Above

theorem rising_of_validateTiersFrom {prev : Option Tier} {tiers : List Tier}
    (h : validateTiersFrom prev tiers = .ok ()) :
    Rising tiers ∧ ∀ p ∈ prev, ∀ tier ∈ tiers, p.Above tier := by
  induction tiers generalizing prev with
  | nil => simp
  | cons tier rest ih =>
    obtain ⟨-, order, hrest⟩ := validateTiersFrom_cons_eq_ok.1 h
    obtain ⟨rising, above⟩ := ih hrest
    have next := above tier rfl
    refine ⟨List.pairwise_cons.2 ⟨next, rising⟩, fun p hp t ht => ?_⟩
    rcases List.mem_cons.1 ht with rfl | ht
    · exact order p hp
    · exact Tier.Above.trans (order p hp) (next t ht)

theorem rising_of_validateTiers {tiers : List Tier} (h : validateTiers tiers = .ok ()) :
    Rising tiers := by
  simp only [validateTiers, bind_eq_ok, require_eq_ok, exists_const] at h
  exact (rising_of_validateTiersFrom h.2).1

/-! ## The scan -/

/-- The tiers whose stake is met before one is not. -/
def met (staked : ℤ) (tiers : List Tier) : List Tier :=
  tiers.takeWhile fun tier => tier.minStake ≤ staked

theorem tierForStakeFrom_eq (staked : ℤ) (i : ℕ) (result : ℕ × ℕ) (tiers : List Tier) :
    tierForStakeFrom staked i result tiers =
      match (met staked tiers).getLast? with
      | none => result
      | some tier => (i + (met staked tiers).length, tier.discountBps) := by
  induction tiers generalizing i result with
  | nil => rfl
  | cons tier rest ih =>
    unfold tierForStakeFrom met
    by_cases h : tier.minStake ≤ staked
    · rw [if_pos h, ih, List.takeWhile_cons_of_pos (by simpa using h), met]
      cases hlast : (rest.takeWhile fun tier => tier.minStake ≤ staked).getLast? with
      | none =>
        rw [List.getLast?_eq_none_iff] at hlast
        simp [hlast]
      | some last =>
        simp only [List.getLast?_cons, hlast, Option.getD_some, List.length_cons]
        congr 1
        omega
    · rw [if_neg h, List.takeWhile_cons_of_neg (by simpa using h)]
      rfl

/-- In a rising table no tier after the first one that is not met is met. -/
theorem mem_met_iff {tiers : List Tier} (rising : Rising tiers) {staked : ℤ} {tier : Tier} :
    tier ∈ met staked tiers ↔ tier ∈ tiers ∧ tier.minStake ≤ staked := by
  induction tiers with
  | nil => simp [met]
  | cons first rest ih =>
    obtain ⟨above, hrest⟩ := List.pairwise_cons.1 rising
    unfold met at ih ⊢
    by_cases h : first.minStake ≤ staked
    · rw [List.takeWhile_cons_of_pos (by simpa using h), List.mem_cons, ih hrest, List.mem_cons]
      constructor
      · rintro (rfl | ⟨mem, le⟩)
        · exact ⟨.inl rfl, h⟩
        · exact ⟨.inr mem, le⟩
      · rintro ⟨rfl | mem, le⟩
        · exact .inl rfl
        · exact .inr ⟨mem, le⟩
    · rw [List.takeWhile_cons_of_neg (by simpa using h)]
      simp only [List.not_mem_nil, List.mem_cons, false_iff]
      rintro ⟨rfl | mem, le⟩
      · exact h le
      · have := (above tier mem).1
        omega

/-- The tier of a stake: the number of the one with the greatest stake that is met, with its
discount, or nothing where none is met. -/
inductive IsTier (tiers : List Tier) (staked : ℤ) : ℕ × ℕ → Prop
  | none (h : ∀ tier ∈ tiers, staked < tier.minStake) : IsTier tiers staked (0, 0)
  | tier {i : ℕ} {tier : Tier} (at_i : tiers[i]? = some tier) (le : tier.minStake ≤ staked)
      (greatest : ∀ other ∈ tiers, other.minStake ≤ staked → other.minStake ≤ tier.minStake) :
      IsTier tiers staked (i + 1, tier.discountBps)

theorem isTier_tierForStake {tiers : List Tier} (rising : Rising tiers) (staked : ℤ) :
    IsTier tiers staked (tierForStake tiers staked) := by
  rw [tierForStake, tierForStakeFrom_eq]
  rcases List.eq_nil_or_concat (met staked tiers) with hnil | ⟨before, last, hmet⟩
  · rw [hnil]
    refine .none fun tier mem => not_le.1 fun le => ?_
    have := (mem_met_iff rising).2 ⟨mem, le⟩
    simp [hnil] at this
  · have hlast : (met staked tiers).getLast? = some last := by simp [hmet]
    have hlength : (met staked tiers).length = before.length + 1 := by simp [hmet]
    have mem : last ∈ met staked tiers := by simp [hmet]
    have place : tiers[before.length]? = some last := by
      have pre : met staked tiers <+: tiers := List.takeWhile_prefix _
      rw [hmet] at pre
      obtain ⟨after, rfl⟩ := pre
      simp
    rw [hlast]
    dsimp only
    rw [hlength, Nat.zero_add]
    refine .tier place ((mem_met_iff rising).1 mem).2 fun other hother le => ?_
    have hother' := (mem_met_iff rising).2 ⟨hother, le⟩
    rw [hmet, List.concat_eq_append] at hother'
    have sorted : Rising (met staked tiers) := rising.sublist (List.takeWhile_sublist _)
    rw [hmet, List.concat_eq_append] at sorted
    rcases List.mem_append.1 hother' with h | h
    · exact ((List.pairwise_append.1 sorted).2.2 other h last (by simp)).1.le
    · rw [List.mem_singleton.1 h]

theorem discountBps_le_of_minStake_le {tiers : List Tier} (rising : Rising tiers) {i j : ℕ}
    {tier tier' : Tier} (at_i : tiers[i]? = some tier) (at_j : tiers[j]? = some tier')
    (h : tier.minStake ≤ tier'.minStake) : tier.discountBps ≤ tier'.discountBps := by
  obtain ⟨hi, rfl⟩ := List.getElem?_eq_some_iff.1 at_i
  obtain ⟨hj, rfl⟩ := List.getElem?_eq_some_iff.1 at_j
  rcases Nat.lt_trichotomy i j with lt | rfl | lt
  · exact (List.pairwise_iff_getElem.1 rising i j hi hj lt).2.le
  · exact le_rfl
  · have := (List.pairwise_iff_getElem.1 rising j i hj hi lt).1
    omega

/-- A greater stake has no smaller discount. -/
theorem tierForStake_mono {tiers : List Tier} (rising : Rising tiers) {staked staked' : ℤ}
    (h : staked ≤ staked') : (tierForStake tiers staked).2 ≤ (tierForStake tiers staked').2 := by
  have first := isTier_tierForStake rising staked
  have second := isTier_tierForStake rising staked'
  revert first second
  generalize tierForStake tiers staked = result
  generalize tierForStake tiers staked' = result'
  rintro (none | @⟨i, tier, at_i, le, -⟩) (none' | @⟨j, tier', at_j, -, greatest⟩)
  · exact le_rfl
  · exact Nat.zero_le _
  · have := none' tier (List.mem_of_getElem? at_i)
    omega
  · exact discountBps_le_of_minStake_le rising at_i at_j
      (greatest tier (List.mem_of_getElem? at_i) (le.trans h))

/-! ## Every table in force -/

/-- The lookups of a table: the best tier, discounts that do not fall as stakes rise, and none
above half of a fee. -/
structure Lookups (tiers : List Tier) : Prop where
  best : ∀ staked, IsTier tiers staked (tierForStake tiers staked)
  mono : ∀ staked staked', staked ≤ staked' →
    (tierForStake tiers staked).2 ≤ (tierForStake tiers staked').2
  capped : ∀ staked, (tierForStake tiers staked).2 ≤ maxDiscountBps

theorem lookups_of_validateTiers {tiers : List Tier} (h : validateTiers tiers = .ok ()) :
    Lookups tiers where
  best := isTier_tierForStake (rising_of_validateTiers h)
  mono _ _ := tierForStake_mono (rising_of_validateTiers h)
  capped := discount_le (valid_of_validateTiers h)

variable {A : Type} {contract : A}

/-- In every run the table in force has these lookups. A table that is not valid is rejected, a
call that is rejected leaves the table before in force, and one that is accepted puts its own in
force. -/
theorem tables_in_force (balances : A → A → ℤ) (es : List (Event A contract (Operation A))) :
    let w := run invoke (deployed balances) es
    (∀ tiers, w.storage.tiers = some tiers → Lookups tiers) ∧
      ∀ (env : Invocation A contract) (tiers : List Tier),
        (validateTiers tiers ≠ .ok () →
          ∃ failure, invoke env (.setTiers tiers) w = .error failure) ∧
        (∀ failure, invoke env (.setTiers tiers) w = .error failure →
          (step invoke w (.call env (.setTiers tiers))).storage.tiers = w.storage.tiers) ∧
        ∀ w', invoke env (.setTiers tiers) w = .ok w' → w'.storage.tiers = some tiers := by
  intro w
  have validated : Validated w := validated_invariant.run (by rintro tiers ⟨⟩) es
  refine ⟨fun tiers stored => lookups_of_validateTiers (validated tiers stored), ?_⟩
  intro env tiers
  refine ⟨fun invalid => ?_, fun failure h => by rw [step_of_error h], fun w' h => ?_⟩
  · cases hcall : invoke env (.setTiers tiers) w with
    | error failure => exact ⟨failure, rfl⟩
    | ok w' =>
      simp only [invoke, setTiers, bind_eq_ok] at hcall
      obtain ⟨_, -, _, valid, -⟩ := hcall
      exact absurd valid invalid
  · simp only [invoke, setTiers, bind_eq_ok, pure_eq_ok] at h
    obtain ⟨_, -, _, -, rfl⟩ := h
    rfl

end MobileMoney.FeeTier
