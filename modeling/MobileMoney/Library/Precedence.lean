import Mathlib.Data.Prod.Lex

/-!
# Choosing by precedence

Of a list of candidates the first applicable one is chosen. In a sorted list nothing applicable
has a smaller key. Where the keys are refined by a group between two of their components, the
choice is still a best one just when its group is the first of those that apply at its rank.
-/

namespace Precedence

variable {α κ γ π : Type*}

/-- Nothing that applies comes before it. -/
structure Best [LE κ] (key : α → κ) (applies : α → Prop) (candidates : List α) (a : α) :
    Prop where
  mem : a ∈ candidates
  applicable : applies a
  le : ∀ b ∈ candidates, applies b → key a ≤ key b

theorem best_of_find? [Preorder κ] {key : α → κ} {applies : α → Prop} [DecidablePred applies]
    {candidates : List α} (sorted : candidates.Pairwise fun a b => key a ≤ key b) {a : α}
    (h : candidates.find? (fun b => applies b) = some a) : Best key applies candidates a := by
  obtain ⟨happlies, before, after, rfl, hbefore⟩ := List.find?_eq_some_iff_append.1 h
  refine ⟨by simp, of_decide_eq_true happlies, ?_⟩
  intro b hb happlies
  rcases List.mem_append.1 hb with hb | hb
  · have hnot := hbefore b hb
    simp [happlies] at hnot
  · rcases List.mem_cons.1 hb with rfl | hb
    · exact le_refl _
    · exact (List.pairwise_cons.1 (List.pairwise_append.1 sorted).2.1).1 b hb

section Groups

variable [LinearOrder κ] [LinearOrder γ] [LinearOrder π]

/-- The order by rank, then by group, then by priority. -/
def grouped (rank : α → κ) (group : α → γ) (priority : α → π) (a : α) : κ ×ₗ γ ×ₗ π :=
  toLex (rank a, toLex (group a, priority a))

def ungrouped (rank : α → κ) (priority : α → π) (a : α) : κ ×ₗ π := toLex (rank a, priority a)

theorem best_grouped_iff {rank : α → κ} {group : α → γ} {priority : α → π} {applies : α → Prop}
    {candidates : List α} {a : α} (h : Best (ungrouped rank priority) applies candidates a) :
    Best (grouped rank group priority) applies candidates a ↔
      ∀ b ∈ candidates, applies b → rank b = rank a → group a ≤ group b := by
  constructor
  · intro hbest b hb happlies hrank
    rcases Prod.Lex.le_iff.1 (hbest.le b hb happlies) with hlt | ⟨-, hle⟩
    · exact absurd hlt (not_lt_of_ge (le_of_eq hrank))
    · rcases Prod.Lex.le_iff.1 hle with hlt | ⟨heq, -⟩
      · exact le_of_lt hlt
      · exact le_of_eq heq
  · intro hgroup
    refine ⟨h.mem, h.applicable, ?_⟩
    intro b hb happlies
    refine Prod.Lex.le_iff.2 ?_
    rcases Prod.Lex.le_iff.1 (h.le b hb happlies) with hlt | ⟨hrank, hpriority⟩
    · exact .inl hlt
    · refine .inr ⟨hrank, Prod.Lex.le_iff.2 ?_⟩
      rcases lt_or_eq_of_le (hgroup b hb happlies hrank.symm) with hlt | heq
      · exact .inl hlt
      · exact .inr ⟨heq, hpriority⟩

end Groups

end Precedence
