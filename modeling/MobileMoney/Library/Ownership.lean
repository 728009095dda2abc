import MobileMoney.Library.Interleaving

/-!
# Exclusive ownership

Processes take an object, work on it and let it go. Nobody has to know who owns it: the
invariant is that the object is free and untouched, or that one process is in step with it
and no other touches it. The rule asks of one turn what it does to a free object, to the
mover's own object and to the object of another.
-/

namespace Interleaving

variable {σ τ ι ε : Type*}

/-- The object in the shared state is free, or it belongs to exactly one process. -/
def Exclusive (touches : τ → Prop) (Free : σ → Prop) (Owned : σ → τ → Prop)
    (w : World σ ι τ) : Prop :=
  (Free w.shared ∧ ∀ i, ¬ touches (w.locals i)) ∨
    ∃ i, Owned w.shared (w.locals i) ∧ ∀ j, j ≠ i → ¬ touches (w.locals j)

variable {touches : τ → Prop} {Free : σ → Prop} {Owned : σ → τ → Prop}

theorem Exclusive.owner {w : World σ ι τ} (h : Exclusive touches Free Owned w) {k : ι}
    (hk : touches (w.locals k)) :
    Owned w.shared (w.locals k) ∧ ∀ j, j ≠ k → ¬ touches (w.locals j) := by
  rcases h with ⟨-, hnone⟩ | ⟨i, howned, hrest⟩
  · exact absurd hk (hnone k)
  · by_cases hki : k = i
    · subst hki
      exact ⟨howned, hrest⟩
    · exact absurd hk (hrest k hki)

variable [DecidableEq ι] {step : ε → σ → τ → σ × τ}

/-- What a turn does to a free object may depend on nobody touching it. -/
theorem exclusive_advance_of_untouched {w : World σ ι τ} {k : ι} {e : ε}
    (h : Exclusive touches Free Owned w)
    (spare : Free w.shared → (∀ i, ¬ touches (w.locals i)) →
      ¬ touches (step e w.shared (w.locals k)).2 → Free (step e w.shared (w.locals k)).1)
    (take : Free w.shared → (∀ i, ¬ touches (w.locals i)) →
      touches (step e w.shared (w.locals k)).2 →
      Owned (step e w.shared (w.locals k)).1 (step e w.shared (w.locals k)).2)
    (keep : Owned w.shared (w.locals k) →
      Owned (step e w.shared (w.locals k)).1 (step e w.shared (w.locals k)).2 ∨
        Free (step e w.shared (w.locals k)).1 ∧ ¬ touches (step e w.shared (w.locals k)).2)
    (others : ∀ i, i ≠ k → Owned w.shared (w.locals i) → ¬ touches (w.locals k) →
      Owned (step e w.shared (w.locals k)).1 (w.locals i) ∧
        ¬ touches (step e w.shared (w.locals k)).2) :
    Exclusive touches Free Owned (advance step w (k, e)) := by
  have hself := advance_self step w k e
  have hother : ∀ j, j ≠ k → (advance step w (k, e)).locals j = w.locals j :=
    fun j hj => advance_other step w e hj
  rcases h with ⟨hfree, hnone⟩ | ⟨i, howned, hrest⟩
  · by_cases htouches : touches (step e w.shared (w.locals k)).2
    · right
      refine ⟨k, ?_, ?_⟩
      · rw [hself]
        exact take hfree hnone htouches
      · intro j hj
        rw [hother j hj]
        exact hnone j
    · left
      refine ⟨spare hfree hnone htouches, ?_⟩
      exact locals_advance step (fun t => ¬ touches t) htouches fun j _ => hnone j
  · by_cases hk : k = i
    · subst hk
      rcases keep howned with hkept | ⟨hfree, hnot⟩
      · right
        refine ⟨k, ?_, ?_⟩
        · rw [hself]
          exact hkept
        · intro j hj
          rw [hother j hj]
          exact hrest j hj
      · left
        exact ⟨hfree, locals_advance step (fun t => ¬ touches t) hnot hrest⟩
    · obtain ⟨hkept, hnot⟩ := others i (Ne.symm hk) howned (hrest k hk)
      right
      refine ⟨i, ?_, ?_⟩
      · rw [hother i (Ne.symm hk)]
        exact hkept
      · intro j hj
        by_cases hjk : j = k
        · rw [hjk, hself]
          exact hnot
        · rw [hother j hjk]
          exact hrest j hj

theorem exclusive_advance {w : World σ ι τ} {k : ι} {e : ε}
    (h : Exclusive touches Free Owned w)
    (spare : Free w.shared → ¬ touches (w.locals k) →
      ¬ touches (step e w.shared (w.locals k)).2 → Free (step e w.shared (w.locals k)).1)
    (take : Free w.shared → ¬ touches (w.locals k) → touches (step e w.shared (w.locals k)).2 →
      Owned (step e w.shared (w.locals k)).1 (step e w.shared (w.locals k)).2)
    (keep : Owned w.shared (w.locals k) →
      Owned (step e w.shared (w.locals k)).1 (step e w.shared (w.locals k)).2 ∨
        Free (step e w.shared (w.locals k)).1 ∧ ¬ touches (step e w.shared (w.locals k)).2)
    (others : ∀ i, i ≠ k → Owned w.shared (w.locals i) → ¬ touches (w.locals k) →
      Owned (step e w.shared (w.locals k)).1 (w.locals i) ∧
        ¬ touches (step e w.shared (w.locals k)).2) :
    Exclusive touches Free Owned (advance step w (k, e)) :=
  exclusive_advance_of_untouched h (fun hfree hnone => spare hfree (hnone k))
    (fun hfree hnone => take hfree (hnone k)) keep others

/-- The object exists once at most. A turn accounts for it when what the mover holds of it and where
else it is change only as the object comes into existence. -/
theorem exclusive_advance_of_balance [DecidablePred touches] {place total : σ → ℕ} {w : World σ ι τ}
    {k : ι} {e : ε}
    (h : Exclusive touches (fun s => place s = total s)
      (fun s t => touches t ∧ place s = 0 ∧ total s = 1) w)
    (once : total (step e w.shared (w.locals k)).1 ≤ 1)
    (grows : total w.shared ≤ total (step e w.shared (w.locals k)).1)
    (balance : (if touches (step e w.shared (w.locals k)).2 then 1 else 0) +
        place (step e w.shared (w.locals k)).1 + total w.shared =
      (if touches (w.locals k) then 1 else 0) + place w.shared +
        total (step e w.shared (w.locals k)).1) :
    Exclusive touches (fun s => place s = total s)
      (fun s t => touches t ∧ place s = 0 ∧ total s = 1) (advance step w (k, e)) := by
  apply exclusive_advance h
  · intro hfree hbefore hafter
    rw [if_neg hbefore, if_neg hafter] at balance
    omega
  · intro hfree hbefore hafter
    rw [if_neg hbefore, if_pos hafter] at balance
    refine ⟨hafter, ?_, ?_⟩ <;> omega
  · rintro ⟨htouches, hplace, htotal⟩
    rw [if_pos htouches] at balance
    by_cases hafter : touches (step e w.shared (w.locals k)).2
    · rw [if_pos hafter] at balance
      refine Or.inl ⟨hafter, ?_, ?_⟩ <;> omega
    · rw [if_neg hafter] at balance
      refine Or.inr ⟨?_, hafter⟩
      omega
  · rintro i - ⟨htouches, hplace, htotal⟩ hbefore
    rw [if_neg hbefore] at balance
    by_cases hafter : touches (step e w.shared (w.locals k)).2
    · rw [if_pos hafter] at balance
      omega
    · rw [if_neg hafter] at balance
      refine ⟨⟨htouches, ?_, ?_⟩, hafter⟩ <;> omega

end Interleaving
