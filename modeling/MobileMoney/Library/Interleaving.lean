import Mathlib.Algebra.BigOperators.Fin
import Mathlib.Algebra.BigOperators.Group.Finset.Basic
import Mathlib.Algebra.Group.Basic
import Mathlib.Tactic.Abel
import MobileMoney.Library.Runs
import MobileMoney.Library.Tally

/-!
# Processes over a shared state

Any number of processes, each with a local state, take turns in any order. A turn is one
atomic access to the shared state, and its outcome may depend on an input from outside.
An invariant of the shared state with one of each local state carries over whole runs when
a process keeps its own and does not disturb the others'.
-/

namespace Interleaving

variable {σ τ ι ε : Type*}

structure World (σ ι τ : Type*) where
  shared : σ
  locals : ι → τ

variable [DecidableEq ι] (step : ε → σ → τ → σ × τ)

/-- One turn: who moves, and on which input. -/
def advance (w : World σ ι τ) (turn : ι × ε) : World σ ι τ :=
  let result := step turn.2 w.shared (w.locals turn.1)
  ⟨result.1, Function.update w.locals turn.1 result.2⟩

def run (w : World σ ι τ) (schedule : List (ι × ε)) : World σ ι τ :=
  schedule.foldl (advance step) w

@[simp] theorem run_nil (w : World σ ι τ) : run step w [] = w := rfl

@[simp] theorem run_cons (w : World σ ι τ) (turn : ι × ε) (schedule : List (ι × ε)) :
    run step w (turn :: schedule) = run step (advance step w turn) schedule := rfl

theorem run_append (w : World σ ι τ) (schedule schedule' : List (ι × ε)) :
    run step w (schedule ++ schedule') = run step (run step w schedule) schedule' :=
  List.foldl_append

@[simp] theorem advance_shared (w : World σ ι τ) (turn : ι × ε) :
    (advance step w turn).shared = (step turn.2 w.shared (w.locals turn.1)).1 := rfl

@[simp] theorem advance_self (w : World σ ι τ) (i : ι) (e : ε) :
    (advance step w (i, e)).locals i = (step e w.shared (w.locals i)).2 :=
  Function.update_self _ _ _

theorem advance_other (w : World σ ι τ) {i j : ι} (e : ε) (h : j ≠ i) :
    (advance step w (i, e)).locals j = w.locals j :=
  Function.update_of_ne h _ _

theorem locals_advance (P : τ → Prop) {w : World σ ι τ} {i : ι} {e : ε}
    (own : P (step e w.shared (w.locals i)).2) (others : ∀ j, j ≠ i → P (w.locals j)) (j : ι) :
    P ((advance step w (i, e)).locals j) := by
  by_cases hj : j = i
  · rw [hj, advance_self]
    exact own
  · rw [advance_other step w e hj]
    exact others j hj

variable {step} in
/-- A run all whose turns are taken under a condition. -/
theorem inv_run_of_every (I : World σ ι τ → Prop) {C : World σ ι τ → ι × ε → Prop}
    (preserves : ∀ w turn, I w → C w turn → I (advance step w turn)) {w : World σ ι τ} (h : I w)
    {schedule : List (ι × ε)} (every : Runs.Every (advance step) C w schedule) :
    I (run step w schedule) :=
  Runs.inv_foldl_of_every I preserves h schedule every

/-- Every local state satisfies the invariant that ties it to the shared one. -/
def Holds (S : σ → Prop) (L : σ → τ → Prop) (w : World σ ι τ) : Prop :=
  S w.shared ∧ ∀ i, L w.shared (w.locals i)

variable {step} in
theorem holds_advance {S : σ → Prop} {L : σ → τ → Prop} {w : World σ ι τ} {turn : ι × ε}
    (h : Holds S L w)
    (own : S (step turn.2 w.shared (w.locals turn.1)).1 ∧
      L (step turn.2 w.shared (w.locals turn.1)).1 (step turn.2 w.shared (w.locals turn.1)).2)
    (others : ∀ u, L w.shared u → L (step turn.2 w.shared (w.locals turn.1)).1 u) :
    Holds S L (advance step w turn) := by
  exact ⟨own.1, locals_advance step _ own.2 fun j _ => others _ (h.2 j)⟩

/-- The rule of interference freedom. -/
theorem holds_run (S : σ → Prop) (L : σ → τ → Prop)
    (own : ∀ e s t, S s → L s t → S (step e s t).1 ∧ L (step e s t).1 (step e s t).2)
    (others : ∀ e s t u, S s → L s t → L s u → L (step e s t).1 u)
    {w : World σ ι τ} (h : Holds S L w) (schedule : List (ι × ε)) :
    Holds S L (run step w schedule) :=
  Runs.inv_foldl (Holds S L)
    (fun _ _ h => holds_advance h (own _ _ _ h.1 (h.2 _)) fun _ => others _ _ _ _ h.1 (h.2 _))
    h schedule

/-- A property of the shared state that every turn keeps. -/
theorem shared_run (S : σ → Prop) (keeps : ∀ e s t, S s → S (step e s t).1)
    {w : World σ ι τ} (h : S w.shared) (schedule : List (ι × ε)) :
    S (run step w schedule).shared :=
  Runs.inv_foldl (fun w : World σ ι τ => S w.shared) (fun _ _ h => keeps _ _ _ h) h schedule

/-- A property that a process keeps, once it has it, whatever the shared state. -/
theorem locals_run (P : τ → Prop) (keeps : ∀ e s t, P t → P (step e s t).2)
    {w : World σ ι τ} {i : ι} (h : P (w.locals i)) (schedule : List (ι × ε)) :
    P ((run step w schedule).locals i) := by
  induction schedule generalizing w with
  | nil => exact h
  | cons turn schedule ih =>
    apply ih
    by_cases hi : i = turn.1
    · rw [hi, advance_self step w turn.1 turn.2]
      exact keeps _ _ _ (hi ▸ h)
    · rw [advance_other step w turn.2 hi]
      exact h

section Claims

/-- What the processes hold, on top of what is spent, is within the total. Only finitely many
processes are looked at together, so there may be infinitely many. -/
def Covered (part : τ → ℕ) (spent total : σ → ℕ) (w : World σ ι τ) : Prop :=
  ∀ processes : Finset ι,
    spent w.shared + ∑ i ∈ processes, part (w.locals i) ≤ total w.shared

variable {part : τ → ℕ} {spent total : σ → ℕ}

variable {step} in
/-- What a turn spends or takes hold of was held by the process before, or it is new. -/
theorem covered_advance {w : World σ ι τ} {i : ι} {e : ε} (h : Covered part spent total w)
    (accounts : spent (step e w.shared (w.locals i)).1 + part (step e w.shared (w.locals i)).2 +
        total w.shared ≤
      total (step e w.shared (w.locals i)).1 + (spent w.shared + part (w.locals i))) :
    Covered part spent total (advance step w (i, e)) := by
  intro processes
  have before := h (insert i processes)
  have moved := Tally.sum_update (insert i processes) part w.locals
    (Finset.mem_insert_self i processes) (step e w.shared (w.locals i)).2
  have fewer : ∑ j ∈ processes, part ((advance step w (i, e)).locals j) ≤
      ∑ j ∈ insert i processes, part ((advance step w (i, e)).locals j) := by
    by_cases hi : i ∈ processes
    · rw [Finset.insert_eq_of_mem hi]
    · rw [Finset.sum_insert hi]
      exact Nat.le_add_left _ _
  simp only [advance] at fewer ⊢
  omega

variable {step} in
theorem covered_run (accounts : ∀ e s t, spent (step e s t).1 + part (step e s t).2 + total s ≤
      total (step e s t).1 + (spent s + part t))
    {w : World σ ι τ} (h : Covered part spent total w) (schedule : List (ι × ε)) :
    Covered part spent total (run step w schedule) :=
  Runs.inv_foldl (Covered part spent total) (fun _ _ h => covered_advance h (accounts _ _ _))
    h schedule

end Claims

section Sums

variable [Fintype ι]

theorem sum_advance {M : Type*} [AddCommMonoid M] (part : τ → M) (w : World σ ι τ) (i : ι)
    (e : ε) :
    ∑ j, part ((advance step w (i, e)).locals j) + part (w.locals i) =
      ∑ j, part (w.locals j) + part (step e w.shared (w.locals i)).2 :=
  Tally.sum_update Finset.univ part w.locals (Finset.mem_univ i) _

variable {M : Type*} [AddCommGroup M]

/-- What each turn adds to a measure of the shared state is accounted for by the process
that takes it. -/
theorem sum_run (I : World σ ι τ → Prop) (preserves : ∀ w turn, I w → I (advance step w turn))
    (total : σ → M) (part : τ → M)
    (accounts : ∀ (w : World σ ι τ) i e, I w →
      total (step e w.shared (w.locals i)).1 + part (w.locals i) =
        total w.shared + part (step e w.shared (w.locals i)).2)
    {w : World σ ι τ} (h : I w) (schedule : List (ι × ε)) :
    total (run step w schedule).shared + ∑ i, part (w.locals i) =
      total w.shared + ∑ i, part ((run step w schedule).locals i) := by
  induction schedule generalizing w with
  | nil => rfl
  | cons turn schedule ih =>
    obtain ⟨i, e⟩ := turn
    have hrest := eq_sub_of_add_eq (ih (preserves w (i, e) h))
    have hturn := eq_sub_of_add_eq (accounts w i e h)
    have hsum := eq_sub_of_add_eq (sum_advance step part w i e).symm
    rw [advance_shared, hturn] at hrest
    rw [run_cons, hrest, hsum]
    abel

end Sums

end Interleaving
