import Mathlib.Algebra.BigOperators.Group.List.Basic
import Mathlib.Algebra.GroupWithZero.Nat
import Mathlib.Algebra.Order.BigOperators.Group.List
import Mathlib.Algebra.Order.Ring.Int
import Mathlib.Algebra.Order.Group.Nat
import Mathlib.Data.List.Count
import Mathlib.Tactic.Common

/-!
# Amounts under a budget

Of a list of items those of a kind count, each with its amount. What counts grows when an item is
admitted or becomes one of the kind, and only then.
-/

namespace Budget

variable {α : Type*}

def total (amount : α → ℕ) (p : α → Prop) [DecidablePred p] (items : List α) : ℕ :=
  (items.map fun a => if p a then amount a else 0).sum

variable {amount : α → ℕ} {p q : α → Prop} [DecidablePred p] [DecidablePred q] {items : List α}

theorem total_concat (a : α) :
    total amount p (items ++ [a]) = total amount p items + if p a then amount a else 0 := by
  simp [total]

/-- A kind that is wider counts more. -/
theorem total_mono (h : ∀ a ∈ items, p a → q a) : total amount p items ≤ total amount q items := by
  apply List.sum_le_sum
  intro a ha
  split_ifs with hp hq
  · exact Nat.le_refl _
  · exact absurd (h a ha hp) hq
  · exact Nat.zero_le _
  · exact Nat.le_refl _

/-- Items that change without becoming ones of the kind. -/
theorem total_map_le {f : α → α} (same : ∀ a, amount (f a) = amount a)
    (h : ∀ a ∈ items, p (f a) → p a) : total amount p (items.map f) ≤ total amount p items := by
  rw [total, List.map_map]
  apply List.sum_le_sum
  intro a ha
  simp only [Function.comp_apply, same]
  split_ifs with hf hp
  · exact Nat.le_refl _
  · exact absurd (h a ha hf) hp
  · exact Nat.zero_le _
  · exact Nat.le_refl _

end Budget

/-!
## Events in a sliding window

Events are given by their times. When an event finds few enough others within a width before it,
no window of this width ever holds too many.
-/

namespace Sliding

/-- The events in the window that begins at `start`. -/
def within (width start : ℕ) (times : List ℕ) : ℕ :=
  times.countP fun t => start ≤ t ∧ t < start + width

/-- The events that are not older than the width. -/
def recent (width now : ℕ) (times : List ℕ) : ℕ :=
  times.countP fun t => now < t + width

def Bounded (width max : ℕ) (times : List ℕ) : Prop :=
  ∀ start, within width start times ≤ max

variable {width max now : ℕ} {times : List ℕ}

theorem bounded_nil : Bounded width max [] := fun _ => Nat.zero_le max

theorem within_concat (start : ℕ) : within width start (times ++ [now]) =
    within width start times + if start ≤ now ∧ now < start + width then 1 else 0 := by
  simp [within]

/-- A window with the present in it holds only recent events. -/
theorem within_le_of_now_lt {start : ℕ} (h : now < start + width) :
    within width start times ≤ recent width now times := by
  apply List.countP_mono_left
  intro t _ ht
  simp only [decide_eq_true_eq] at ht ⊢
  omega

theorem bounded_concat (few : recent width now times < max) (h : Bounded width max times) :
    Bounded width max (times ++ [now]) := by
  intro start
  rw [within_concat]
  split_ifs with hwindow
  · have hpast : within width start times ≤ recent width now times :=
      within_le_of_now_lt hwindow.2
    omega
  · exact h start

end Sliding

/-!
## Events that are spaced

Events are given by their times and amounts. When each is a gap or more behind the one before, an
interval holds one for each gap begun in it.
-/

namespace Spaced

/-- What the events from `first` to `last` amount to. -/
def amountIn (first last : ℕ) (events : List (ℕ × ℤ)) : ℤ :=
  ((events.filter fun e => first ≤ e.1 ∧ e.1 ≤ last).map (·.2)).sum

variable {gap first last : ℕ} {max : ℤ} {events : List (ℕ × ℤ)}

theorem length_mul_le (e : ℕ × ℤ) (spaced : (e :: events).Pairwise fun e e' => e.1 + gap ≤ e'.1)
    (past : ∀ e' ∈ e :: events, e'.1 ≤ last) : e.1 + events.length * gap ≤ last := by
  induction events generalizing e with
  | nil => simpa using past e List.mem_cons_self
  | cons e' events ih =>
    obtain ⟨next, spaced⟩ := List.pairwise_cons.1 spaced
    have rest := ih e' spaced (fun e he => past e (List.mem_cons_of_mem _ he))
    have := next e' List.mem_cons_self
    rw [List.length_cons, Nat.add_one_mul]
    omega

theorem length_le (hgap : 0 < gap) (spaced : events.Pairwise fun e e' => e.1 + gap ≤ e'.1)
    (within : ∀ e ∈ events, first ≤ e.1 ∧ e.1 ≤ last) :
    events.length ≤ (last - first) / gap + 1 := by
  cases events with
  | nil => simp
  | cons e events =>
    have covered := length_mul_le e spaced fun e' he' => (within e' he').2
    have := (within e List.mem_cons_self).1
    rw [List.length_cons, Nat.add_le_add_iff_right, Nat.le_div_iff_mul_le hgap]
    omega

theorem amountIn_le (hgap : 0 < gap) (hmax : 0 ≤ max)
    (spaced : events.Pairwise fun e e' => e.1 + gap ≤ e'.1) (bounded : ∀ e ∈ events, e.2 ≤ max)
    (first last : ℕ) : amountIn first last events ≤ max * ((last - first) / gap + 1 : ℕ) := by
  have few : (events.filter fun e => first ≤ e.1 ∧ e.1 ≤ last).length ≤
      (last - first) / gap + 1 := by
    apply length_le hgap (spaced.filter _)
    intro e he
    simpa using (List.mem_filter.1 he).2
  have each : amountIn first last events ≤
      ((events.filter fun e => first ≤ e.1 ∧ e.1 ≤ last).map (·.2)).length • max := by
    apply List.sum_le_card_nsmul
    intro amount hamount
    obtain ⟨e, he, rfl⟩ := List.mem_map.1 hamount
    exact bounded e (List.mem_of_mem_filter he)
  rw [List.length_map, nsmul_eq_mul, mul_comm] at each
  exact each.trans (mul_le_mul_of_nonneg_left (by exact_mod_cast few) hmax)

end Spaced
