import Mathlib.Algebra.Order.Field.Basic
import Mathlib.Data.List.Count
import Mathlib.Data.Nat.Cast.Order.Ring
import Mathlib.Tactic.Linarith

/-!
# Token buckets

A bucket holds up to `capacity` tokens and gains `rate` of them in a unit of time; an event takes
one token, if there is one. Then at most `capacity + rate * T` events happen in any interval of
length `T`: what has happened since a moment and what is left together never exceed what the bucket
can have held and gained since.
-/

namespace TokenBucket

variable {K : Type*} [Field K] [LinearOrder K] [IsStrictOrderedRing K]

/-- The level after some time without events. -/
def refill (capacity rate level elapsed : K) : K := min capacity (level + elapsed * rate)

def eventsIn (first last : K) (times : List K) : ℕ :=
  times.countP fun t => first ≤ t ∧ t ≤ last

def Bounded (capacity rate : K) (times : List K) : Prop :=
  ∀ first last, first ≤ last → (eventsIn first last times : K) ≤ capacity + rate * (last - first)

/-- At the moment `now`, with the events so far and the level that they have left. -/
structure Holds (capacity rate : K) (times : List K) (level now : K) : Prop where
  past : ∀ t ∈ times, t ≤ now
  nonneg : 0 ≤ level
  le_capacity : level ≤ capacity
  spare : ∀ first ≤ now, eventsIn first now times + level ≤ capacity + rate * (now - first)
  bounded : Bounded capacity rate times

variable {capacity rate level now : K} {times : List K}

/-- A bucket that was refilled meanwhile is refilled to the same level. -/
theorem refill_min (hrate : 0 ≤ rate) {elapsed : K} (h : 0 ≤ elapsed) (level : K) :
    refill capacity rate (min capacity level) elapsed =
      min capacity (level + elapsed * rate) := by
  have gained := mul_nonneg h hrate
  unfold refill
  grind

theorem eventsIn_of_past {first last : K} (past : ∀ t ∈ times, t ≤ now) (h : now ≤ last) :
    eventsIn first last times = eventsIn first now times := by
  refine List.countP_congr fun t ht => ?_
  have := past t ht
  grind

theorem eventsIn_of_lt {first last : K} (past : ∀ t ∈ times, t ≤ now) (h : now < first) :
    eventsIn first last times = 0 := by
  refine List.countP_eq_zero.2 fun t ht => ?_
  have := past t ht
  grind

omit [Field K] [IsStrictOrderedRing K] in
theorem eventsIn_concat (first last t : K) :
    eventsIn first last (times ++ [t]) =
      eventsIn first last times + if first ≤ t ∧ t ≤ last then 1 else 0 := by
  simp [eventsIn]

theorem holds_full (hcapacity : 0 ≤ capacity) (hrate : 0 ≤ rate) (now : K) :
    Holds capacity rate [] capacity now where
  past := by simp
  nonneg := hcapacity
  le_capacity := le_rfl
  spare first h := by simpa [eventsIn] using mul_nonneg hrate (sub_nonneg.2 h)
  bounded first last h := by
    simpa [eventsIn] using add_nonneg hcapacity (mul_nonneg hrate (sub_nonneg.2 h))

theorem Holds.refill (h : Holds capacity rate times level now) (hrate : 0 ≤ rate) {later : K}
    (hlater : now ≤ later) :
    Holds capacity rate times (refill capacity rate level (later - now)) later := by
  have gained := mul_nonneg (sub_nonneg.2 hlater) hrate
  refine ⟨fun t ht => (h.past t ht).trans hlater, ?_, min_le_left _ _, ?_, h.bounded⟩
  · exact le_min (h.nonneg.trans h.le_capacity) (by linarith [h.nonneg])
  · intro first hfirst
    rcases le_or_gt first now with hnow | hnow
    · have spare := h.spare first hnow
      have level_le := min_le_right capacity (level + (later - now) * rate)
      rw [eventsIn_of_past h.past hlater]
      unfold TokenBucket.refill
      linarith
    · rw [eventsIn_of_lt h.past hnow]
      have level_le := min_le_left capacity (level + (later - now) * rate)
      have := mul_nonneg hrate (sub_nonneg.2 hfirst)
      unfold TokenBucket.refill
      simp only [Nat.cast_zero]
      linarith

/-- An event takes a token. -/
theorem Holds.spend (h : Holds capacity rate times level now) (hrate : 0 ≤ rate)
    (hlevel : 1 ≤ level) :
    Holds capacity rate (times ++ [now]) (level - 1) now where
  past := by
    intro t ht
    rcases List.mem_append.1 ht with ht | ht
    · exact h.past t ht
    · exact (List.mem_singleton.1 ht).le
  nonneg := sub_nonneg.2 hlevel
  le_capacity := by linarith [h.le_capacity]
  spare first hfirst := by
    have spare := h.spare first hfirst
    rw [eventsIn_concat, if_pos ⟨hfirst, le_rfl⟩, Nat.cast_add, Nat.cast_one]
    linarith
  bounded first last hle := by
    rw [eventsIn_concat]
    split_ifs with hin
    · -- The interval ends after all events: what happened in it was spare.
      have spare := h.spare first hin.1
      have longer := mul_le_mul_of_nonneg_left (sub_le_sub_right hin.2 first) hrate
      rw [eventsIn_of_past h.past hin.2, Nat.cast_add, Nat.cast_one]
      linarith
    · exact h.bounded first last hle

end TokenBucket
