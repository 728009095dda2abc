import Mathlib.Data.List.Induction
import Mathlib.Tactic.Common

/-!
# What happens along a run

A deterministic machine runs through a list of events by folding its step. This module
collects what the single steps produce and counts the steps with a property, and gives
the rules by which facts about steps become facts about runs.
-/

namespace Runs

variable {σ ε β : Type*} {step : σ → ε → σ}

theorem inv_foldl (I : σ → Prop) (preserves : ∀ s e, I s → I (step s e)) {s : σ} (hs : I s)
    (es : List ε) : I (es.foldl step s) := by
  induction es generalizing s with
  | nil => exact hs
  | cons e es ih => exact ih (preserves s e hs)

/-- Every step of a run is taken under a condition on the state before it. -/
def Every (step : σ → ε → σ) (C : σ → ε → Prop) : σ → List ε → Prop
  | _, [] => True
  | s, e :: es => C s e ∧ Every step C (step s e) es

theorem inv_foldl_of_every (I : σ → Prop) {C : σ → ε → Prop}
    (preserves : ∀ s e, I s → C s e → I (step s e)) {s : σ} (hs : I s) (es : List ε)
    (every : Every step C s es) : I (es.foldl step s) := by
  induction es generalizing s with
  | nil => exact hs
  | cons e es ih => exact ih (preserves s e hs every.1) every.2

/-- A condition that follows from an invariant is met by every step of a run. -/
theorem Every.of_inv (I : σ → Prop) {C : σ → ε → Prop}
    (preserves : ∀ s e, I s → I (step s e)) (imp : ∀ s e, I s → C s e) {s : σ} (hs : I s)
    (es : List ε) : Every step C s es := by
  induction es generalizing s with
  | nil => trivial
  | cons e es ih => exact ⟨imp s e hs, ih (preserves s e hs)⟩

instance Every.decidable (step : σ → ε → σ) (C : σ → ε → Prop) [∀ s e, Decidable (C s e)] :
    ∀ s es, Decidable (Every step C s es)
  | _, [] => isTrue trivial
  | s, e :: es =>
    haveI := Every.decidable step C (step s e) es
    inferInstanceAs (Decidable (C s e ∧ Every step C (step s e) es))

/-- What every step of a run meets, the step after any beginning of the run meets. -/
theorem Every.of_append {C : σ → ε → Prop} {s : σ} (pre : List ε) {e : ε} {post : List ε}
    (every : Every step C s (pre ++ e :: post)) : C (pre.foldl step s) e := by
  induction pre generalizing s with
  | nil => exact every.1
  | cons e' pre ih => exact ih every.2

/-- The rest of a run after any beginning of it. -/
theorem Every.drop {C : σ → ε → Prop} {s : σ} (pre : List ε) {post : List ε}
    (every : Every step C s (pre ++ post)) : Every step C (pre.foldl step s) post := by
  induction pre generalizing s with
  | nil => exact every
  | cons e pre ih => exact ih every.2

theorem Every.of_prefix {C : σ → ε → Prop} {s : σ} {pre es : List ε} (h : pre <+: es)
    (every : Every step C s es) : Every step C s pre := by
  obtain ⟨post, rfl⟩ := h
  induction pre generalizing s with
  | nil => trivial
  | cons e pre ih => exact ⟨every.1, ih every.2⟩

/-- Along a run, one condition on the steps can be exchanged for another that it implies
under an invariant. -/
theorem Every.imp_of_inv (I : σ → Prop) {C D : σ → ε → Prop}
    (preserves : ∀ s e, I s → C s e → I (step s e)) (imp : ∀ s e, I s → C s e → D s e) {s : σ}
    (hs : I s) (es : List ε) (every : Every step C s es) : Every step D s es := by
  induction es generalizing s with
  | nil => exact trivial
  | cons e es ih => exact ⟨imp s e hs every.1, ih (preserves s e hs every.1) every.2⟩

/-- Where an invariant `I` implies `P`, a step under a condition keeps `I` and any other step
breaks `P`, a run stays in `P` exactly when all its steps meet the condition. -/
theorem forall_prefix_iff_every_of_inv (P I : σ → Prop) {C : σ → ε → Prop}
    (sound : ∀ s, I s → P s) (keeps : ∀ s e, I s → C s e → I (step s e))
    (breaks : ∀ s e, I s → P (step s e) → C s e) {s : σ} (hI : I s) (es : List ε) :
    (∀ pre, pre <+: es → P (pre.foldl step s)) ↔ Every step C s es := by
  induction es generalizing s with
  | nil => exact ⟨fun _ => trivial, fun _ pre h => (List.prefix_nil.1 h).symm ▸ sound s hI⟩
  | cons e es ih =>
    constructor
    · intro stays
      have head : C s e := breaks s e hI (stays [e] (List.prefix_append [e] es))
      refine ⟨head, (ih (keeps s e hI head)).1 ?_⟩
      intro pre hpre
      exact stays (e :: pre) (List.cons_prefix_cons.2 ⟨rfl, hpre⟩)
    · rintro ⟨head, tail⟩ pre hpre
      have rest := (ih (keeps s e hI head)).2 tail
      cases pre with
      | nil => exact sound s hI
      | cons e' pre =>
        obtain ⟨rfl, hprefix⟩ := List.cons_prefix_cons.1 hpre
        exact rest pre hprefix

/-- Where a condition on a step decides whether the step keeps `I`, a run stays in `I` exactly
when all its steps meet the condition. -/
theorem forall_prefix_iff_every (K I : σ → Prop) {C : σ → ε → Prop}
    (preserves : ∀ s e, K s → K (step s e))
    (decides : ∀ s e, K s → I s → (I (step s e) ↔ C s e)) {s : σ} (hK : K s) (hI : I s)
    (es : List ε) : (∀ pre, pre <+: es → I (pre.foldl step s)) ↔ Every step C s es :=
  forall_prefix_iff_every_of_inv I (fun s => K s ∧ I s) (fun _ h => h.2)
    (fun s e h hC => ⟨preserves s e h.1, (decides s e h.1 h.2).2 hC⟩)
    (fun s e h hnext => (decides s e h.1 h.2).1 hnext) ⟨hK, hI⟩ es

/-- What the steps of a run produce, in order. -/
def collect (step : σ → ε → σ) (f : σ → ε → List β) : σ → List ε → List β
  | _, [] => []
  | s, e :: es => f s e ++ collect step f (step s e) es

@[simp] theorem collect_nil (f : σ → ε → List β) (s : σ) : collect step f s [] = [] := rfl

@[simp] theorem collect_cons (f : σ → ε → List β) (s : σ) (e : ε) (es : List ε) :
    collect step f s (e :: es) = f s e ++ collect step f (step s e) es := rfl

theorem collect_append (f : σ → ε → List β) (s : σ) (es fs : List ε) :
    collect step f s (es ++ fs) = collect step f s es ++ collect step f (es.foldl step s) fs := by
  induction es generalizing s with
  | nil => rfl
  | cons e es ih => simp [ih]

theorem collect_concat (f : σ → ε → List β) (s : σ) (es : List ε) (e : ε) :
    collect step f s (es ++ [e]) = collect step f s es ++ f (es.foldl step s) e := by
  simp [collect_append]

/-- An invariant that ties the state to what has been collected so far. -/
theorem inv_collect (I : σ → List β → Prop) {f : σ → ε → List β}
    (preserves : ∀ s bs e, I s bs → I (step s e) (bs ++ f s e)) {s : σ} (hs : I s [])
    (es : List ε) : I (es.foldl step s) (collect step f s es) := by
  induction es using List.reverseRecOn with
  | nil => exact hs
  | append_singleton es e ih =>
    rw [List.foldl_append, collect_concat]
    exact preserves _ _ e ih

/-- The number of steps of a run with a property. -/
def count (step : σ → ε → σ) (q : σ → ε → Bool) : σ → List ε → ℕ
  | _, [] => 0
  | s, e :: es => (if q s e then 1 else 0) + count step q (step s e) es

theorem count_eq_zero {q : σ → ε → Bool} (I : σ → Prop)
    (preserves : ∀ s e, I s → I (step s e)) (never : ∀ s e, I s → q s e = false)
    {s : σ} (hs : I s) (es : List ε) : count step q s es = 0 := by
  induction es generalizing s with
  | nil => rfl
  | cons e es ih => simp [count, never s e hs, ih (preserves s e hs)]

/-- A rarer property has fewer steps, as long as an invariant justifies the comparison. -/
theorem count_le_count {q r : σ → ε → Bool} (I : σ → Prop)
    (preserves : ∀ s e, I s → I (step s e)) (imp : ∀ s e, I s → q s e = true → r s e = true)
    {s : σ} (hs : I s) (es : List ε) : count step q s es ≤ count step r s es := by
  induction es generalizing s with
  | nil => exact Nat.le_refl 0
  | cons e es ih =>
    have htail := ih (preserves s e hs)
    have hhead := imp s e hs
    simp only [count]
    split_ifs with hq hr hr
    · omega
    · exact absurd (hhead hq) hr
    · omega
    · omega

/-- Something that holds at the end and not at the start became true in one of the steps. -/
theorem exists_first (P : σ → Prop) {s : σ} (es : List ε) (hs : ¬ P s)
    (h : P (es.foldl step s)) : ∃ pre e post, es = pre ++ e :: post ∧
      ¬ P (pre.foldl step s) ∧ P (step (pre.foldl step s) e) := by
  classical
  induction es generalizing s with
  | nil => exact absurd h hs
  | cons e es ih =>
    by_cases hnext : P (step s e)
    · exact ⟨[], e, es, rfl, hs, hnext⟩
    · obtain ⟨pre, e', post, rfl, hbefore, hafter⟩ := ih hnext h
      exact ⟨e :: pre, e', post, rfl, hbefore, hafter⟩

/-- Something that holds at the end and not at the start has held since one of the steps. -/
theorem exists_since (P : σ → Prop) {s : σ} (es : List ε) (hs : ¬ P s)
    (h : P (es.foldl step s)) : ∃ pre e mid, es = pre ++ e :: mid ∧
      ¬ P (pre.foldl step s) ∧
      ∀ mid₁, mid₁ <+: mid → P ((pre ++ e :: mid₁).foldl step s) := by
  induction es using List.reverseRecOn with
  | nil => exact absurd h hs
  | append_singleton es e ih =>
    by_cases hbefore : P (es.foldl step s)
    · obtain ⟨pre, e', mid, rfl, hpre, hmid⟩ := ih hbefore
      refine ⟨pre, e', mid ++ [e], by simp, hpre, ?_⟩
      intro mid₁ hprefix
      rcases List.prefix_concat_iff.1 hprefix with rfl | hprefix
      · simpa using h
      · exact hmid mid₁ hprefix
    · refine ⟨es, e, [], rfl, hbefore, ?_⟩
      intro mid₁ hprefix
      obtain rfl := List.prefix_nil.1 hprefix
      exact h

/-- Something that holds at the end and not at the start, and that only events of a kind make
true, has held since the last event of that kind. -/
theorem exists_last (P : σ → Prop) (q : σ → ε → Prop)
    (only : ∀ s e, P (step s e) → ¬ P s → q s e) {s : σ} (es : List ε) (hs : ¬ P s)
    (h : P (es.foldl step s)) : ∃ pre e mid, es = pre ++ e :: mid ∧ q (pre.foldl step s) e ∧
      (∀ mid₁, mid₁ <+: mid → P ((pre ++ e :: mid₁).foldl step s)) ∧
      ∀ mid₁ e' mid₂, mid = mid₁ ++ e' :: mid₂ → ¬ q ((pre ++ e :: mid₁).foldl step s) e' := by
  induction es using List.reverseRecOn with
  | nil => exact absurd h hs
  | append_singleton es e ih =>
    by_cases hlast : q (es.foldl step s) e
    · refine ⟨es, e, [], rfl, hlast, ?_, by simp⟩
      intro mid₁ hprefix
      obtain rfl := List.prefix_nil.1 hprefix
      exact h
    · have before : P (es.foldl step s) := by
        by_contra hnot
        rw [List.foldl_append] at h
        exact hlast (only _ _ h hnot)
      obtain ⟨pre, e₀, mid, rfl, hq, hsince, hnone⟩ := ih before
      refine ⟨pre, e₀, mid ++ [e], by simp, hq, ?_, ?_⟩
      · intro mid₁ hprefix
        rcases List.prefix_concat_iff.1 hprefix with rfl | hprefix
        · simpa using h
        · exact hsince mid₁ hprefix
      · intro mid₁ e' mid₂ heq
        rcases List.eq_nil_or_concat mid₂ with rfl | ⟨mid₂, e'', rfl⟩
        · obtain ⟨rfl, rfl⟩ : mid = mid₁ ∧ e = e' := by simpa using heq
          exact hlast
        · rw [List.concat_eq_append, ← List.cons_append, ← List.append_assoc] at heq
          obtain ⟨rfl, -⟩ := List.append_inj' heq rfl
          exact hnone mid₁ e' mid₂ rfl

end Runs
