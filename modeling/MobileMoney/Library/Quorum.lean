import Mathlib.Data.Finset.Card
import Mathlib.Data.Finset.Dedup

/-!
# Quorums and ballots

A rule "at least `k` members of the roster agree" counts members, so two votes of one
member are one vote. A ballot is a list of names and may repeat them; what it proves
about the rule is the number of its distinct names (`entries_sound_iff`).
-/

namespace Quorum

variable {α : Type*} {p : α → Prop} {roster ballot : List α} {k : ℕ}

/-- At least `k` pairwise distinct members of the roster satisfy `p`. -/
def Reached (p : α → Prop) (roster : List α) (k : ℕ) : Prop :=
  ∃ s : Finset α, k ≤ s.card ∧ ∀ a ∈ s, a ∈ roster ∧ p a

theorem reached_zero (p : α → Prop) (roster : List α) : Reached p roster 0 :=
  ⟨∅, by simp⟩

theorem Reached.mono {q : α → Prop} {m : ℕ} (h : Reached p roster k) (hm : m ≤ k)
    (hpq : ∀ a, p a → q a) : Reached q roster m := by
  obtain ⟨s, hs, hmem⟩ := h
  exact ⟨s, hm.trans hs, fun a ha => ⟨(hmem a ha).1, hpq a (hmem a ha).2⟩⟩

/-- What agrees with one rule agrees with another. -/
theorem Reached.imp {q : α → Prop} {roster' : List α} (h : Reached p roster k)
    (imp : ∀ a, a ∈ roster → p a → a ∈ roster' ∧ q a) : Reached q roster' k := by
  obtain ⟨s, hs, hmem⟩ := h
  exact ⟨s, hs, fun a ha => imp a (hmem a ha).1 (hmem a ha).2⟩

theorem reached_nil_iff : Reached p [] k ↔ k = 0 := by
  constructor
  · rintro ⟨s, hs, hmem⟩
    have hempty : s = ∅ := by
      rw [Finset.eq_empty_iff_forall_notMem]
      intro a ha
      exact List.not_mem_nil (hmem a ha).1
    simpa [hempty] using hs
  · rintro rfl
    exact reached_zero p []

variable [DecidableEq α]

/-- A ballot of roster members who all agree reaches as many members as it has distinct
names. -/
theorem reached_of_ballot (h : ∀ a ∈ ballot, a ∈ roster ∧ p a)
    (hk : k ≤ ballot.toFinset.card) : Reached p roster k :=
  ⟨ballot.toFinset, hk, fun a ha => h a (List.mem_toFinset.1 ha)⟩

theorem Reached.le_card (h : Reached p roster k) (only : ∀ a, p a → a ∈ ballot) :
    k ≤ ballot.toFinset.card := by
  obtain ⟨s, hs, hmem⟩ := h
  refine hs.trans (Finset.card_le_card ?_)
  intro a ha
  exact List.mem_toFinset.2 (only a (hmem a ha).2)

/-- Checking every entry of a ballot and counting entries enforces the rule, whoever
agrees, exactly when some entry is bound to be refused, the ballot is too short, or it
has enough distinct names. -/
theorem entries_sound_iff (possible : α → Prop) :
    (∀ p : α → Prop, (∀ a, p a → possible a) → (∀ a ∈ ballot, a ∈ roster ∧ p a) →
        k ≤ ballot.length → Reached p roster k) ↔
      (∃ a ∈ ballot, a ∉ roster ∨ ¬ possible a) ∨ ballot.length < k ∨
        k ≤ ballot.toFinset.card := by
  constructor
  · intro sound
    by_contra hcon
    push Not at hcon
    obtain ⟨valid, long, few⟩ := hcon
    -- The agreement of exactly the names on the ballot is the least that passes.
    have reached := sound (· ∈ ballot) (fun a ha => (valid a ha).2)
      (fun a ha => ⟨(valid a ha).1, ha⟩) long
    have enough := reached.le_card fun _ ha => ha
    omega
  · rintro (⟨a, ha, hbad⟩ | short | distinct) p hp valid long
    · obtain ⟨hroster, hpa⟩ := valid a ha
      rcases hbad with hbad | hbad
      · exact absurd hroster hbad
      · exact absurd (hp a hpa) hbad
    · omega
    · exact reached_of_ballot valid distinct

end Quorum
