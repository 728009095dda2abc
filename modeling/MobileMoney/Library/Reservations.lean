import Mathlib.Algebra.BigOperators.Group.Multiset.Basic
import Mathlib.Algebra.Order.BigOperators.Group.Multiset
import Mathlib.Data.Multiset.UnionInter
import Mathlib.Data.Nat.Cast.Basic
import Mathlib.Tactic.Abel
import Mathlib.Tactic.Common

/-!
# Reservations against a counter

Reservations are opened, closed and released, and a counter keeps their sum. The counter lags:
what is opened is added later, and what is closed is released later. As long as no reservation
is closed before it has been added, the counter is what is open and what is still to be
released, less what is still to be added, so it never runs short.
-/

namespace Reservations

variable {ρ : Type*}

structure Book (ρ : Type*) where
  counter : ℤ
  created : Multiset ρ
  /-- Open reservations that have not been added to the counter. -/
  unreserved : Multiset ρ
  live : Multiset ρ
  /-- Closed reservations that have not been released. -/
  closed : Multiset ρ
  released : Multiset ρ

def total (amount : ρ → ℕ) (rs : Multiset ρ) : ℕ := (rs.map amount).sum

variable {amount : ρ → ℕ} {b b' : Book ρ}

@[simp] theorem total_cons (r : ρ) (rs : Multiset ρ) :
    total amount (r ::ₘ rs) = amount r + total amount rs := by simp [total]

@[simp] theorem total_add (rs rs' : Multiset ρ) :
    total amount (rs + rs') = total amount rs + total amount rs' := by simp [total]

theorem total_le {rs rs' : Multiset ρ} (h : rs ≤ rs') : total amount rs ≤ total amount rs' := by
  obtain ⟨rest, rfl⟩ := Multiset.le_iff_exists_add.1 h
  simp

theorem le_of_le_add_of_disjoint {rs rest rs' : Multiset ρ} (h : rs' ≤ rs + rest)
    (disjoint : Disjoint rs rs') : rs' ≤ rest := by
  classical
  rw [Multiset.le_iff_count] at h ⊢
  intro r
  by_cases hr : r ∈ rs'
  · have hnot : r ∉ rs := fun hmem => Multiset.disjoint_left.1 disjoint hmem hr
    simpa [Multiset.count_eq_zero_of_notMem hnot] using h r
  · simp [Multiset.count_eq_zero_of_notMem hr]

/-- What one step does to the book. -/
inductive Step (amount : ρ → ℕ) (b b' : Book ρ) : Prop where
  | idle (same : b' = b)
  | opens (r : ρ) (fresh : r ∉ b.created)
      (eq : b' = { b with
        created := r ::ₘ b.created
        unreserved := r ::ₘ b.unreserved
        live := r ::ₘ b.live })
  | reserves (r : ρ) (rest : Multiset ρ) (unreserved : b.unreserved = r ::ₘ rest)
      (eq : b' = { b with counter := b.counter + amount r, unreserved := rest })
  | closes (rs rest : Multiset ρ) (live : b.live = rs + rest)
      (reserved : Disjoint rs b.unreserved)
      (eq : b' = { b with live := rest, closed := b.closed + rs })
  | releases (r : ρ) (rest : Multiset ρ) (closed : b.closed = r ::ₘ rest)
      (eq : b' = { b with
        counter := b.counter - amount r
        closed := rest
        released := r ::ₘ b.released })

/-- Every reservation is in one place, and the counter is up to what it lags behind. -/
structure Lawful (amount : ρ → ℕ) (b : Book ρ) : Prop where
  nodup : b.created.Nodup
  places : b.live + b.closed + b.released = b.created
  unreserved : b.unreserved ≤ b.live
  counter : b.counter + total amount b.unreserved = total amount b.live + total amount b.closed

theorem Lawful.start : Lawful amount ⟨0, 0, 0, 0, 0, 0⟩ :=
  ⟨Multiset.nodup_zero, rfl, le_rfl, rfl⟩

theorem Lawful.step (h : Lawful amount b) (step : Step amount b b') : Lawful amount b' := by
  have hcounter := h.counter
  have hplaces := h.places
  have hle := h.unreserved
  cases step with
  | idle same => exact same ▸ h
  | opens r fresh eq =>
    subst eq
    refine ⟨Multiset.nodup_cons.2 ⟨fresh, h.nodup⟩, ?_, Multiset.cons_le_cons r hle, ?_⟩
    · simp only [Multiset.cons_add, hplaces]
    · simp only [total_cons]
      omega
  | reserves r rest unreserved eq =>
    subst eq
    rw [unreserved] at hcounter hle
    refine ⟨h.nodup, hplaces, (Multiset.le_cons_self rest r).trans hle, ?_⟩
    rw [total_cons] at hcounter
    simp only
    omega
  | closes rs rest live reserved eq =>
    subst eq
    rw [live] at hcounter hplaces hle
    refine ⟨h.nodup, ?_, le_of_le_add_of_disjoint hle reserved, ?_⟩
    · calc rest + (b.closed + rs) + b.released = rs + rest + b.closed + b.released := by abel
        _ = b.created := hplaces
    · rw [total_add] at hcounter
      simp only [total_add]
      omega
  | releases r rest closed eq =>
    subst eq
    rw [closed] at hcounter hplaces
    refine ⟨h.nodup, ?_, hle, ?_⟩
    · simpa only [Multiset.add_cons, Multiset.cons_add] using hplaces
    · rw [total_cons] at hcounter
      simp only
      omega

/-- The counter covers what is still to be released. -/
theorem Lawful.closed_le_counter (h : Lawful amount b) : total amount b.closed ≤ b.counter := by
  have hcounter := h.counter
  have hle : total amount b.unreserved ≤ total amount b.live := total_le h.unreserved
  omega

theorem Lawful.le_counter (h : Lawful amount b) {r : ρ} {rest : Multiset ρ}
    (closed : b.closed = r ::ₘ rest) : amount r ≤ b.counter := by
  have := h.closed_le_counter
  rw [closed, total_cons] at this
  omega

/-- A reservation is open, about to be released or released, and in one of these once. -/
theorem Lawful.count [DecidableEq ρ] (h : Lawful amount b) {r : ρ} (created : r ∈ b.created) :
    (b.live + b.closed + b.released).count r = 1 := by
  rw [h.places]
  exact Multiset.count_eq_one_of_mem h.nodup created

end Reservations
