import Mathlib.Tactic.Common

/-!
# Answers of a store

A statement is answered, or it fails for the one who has sent it. A statement that fails may have
been executed all the same.
-/

inductive DbAnswer where
  | answered
  | failed (executed : Bool)
  deriving DecidableEq, Repr

namespace DbAnswer

def executed : DbAnswer → Bool
  | .answered => true
  | .failed executed => executed

@[simp] theorem executed_answered : answered.executed = true := rfl

@[simp] theorem executed_failed (b : Bool) : (failed b).executed = b := rfl

/-- Whoever hears of a result may rely on it. -/
theorem executed_of_answered {answer : DbAnswer} (h : answer = answered) :
    answer.executed = true := by
  rw [h, executed_answered]

end DbAnswer

/-!
## A value with lagging replicas

Writes go to the primary. A read is answered by the primary or by a replica, which may
hold any earlier version. What holds of all versions holds of everything that is read.
-/

structure Replicated (α : Type*) where
  current : α
  past : List α
  deriving DecidableEq

namespace Replicated

variable {α : Type*}

/-- Who answers a read; a replica that has seen nothing older answers like the primary. -/
inductive Source where
  | primary
  | lagging (age : ℕ)
  deriving DecidableEq, Repr

def write (r : Replicated α) (a : α) : Replicated α := ⟨a, r.current :: r.past⟩

def read (r : Replicated α) : Source → α
  | .primary => r.current
  | .lagging age => r.past.getD age r.current

/-- Every version that a read can still return. -/
def All (P : α → Prop) (r : Replicated α) : Prop := P r.current ∧ ∀ a ∈ r.past, P a

@[simp] theorem write_current (r : Replicated α) (a : α) : (r.write a).current = a := rfl

theorem All.write {P : α → Prop} {r : Replicated α} (h : r.All P) {a : α} (ha : P a) :
    (r.write a).All P := by
  refine ⟨ha, ?_⟩
  intro b hb
  rcases List.mem_cons.1 hb with rfl | hb
  · exact h.1
  · exact h.2 b hb

theorem All.read {P : α → Prop} {r : Replicated α} (h : r.All P) (source : Source) :
    P (r.read source) := by
  cases source with
  | primary => exact h.1
  | lagging age =>
    simp only [Replicated.read, List.getD_eq_getElem?_getD]
    cases hget : r.past[age]? with
    | none => exact h.1
    | some a => exact h.2 a (List.mem_of_getElem? hget)

/-- What a read can return. -/
def versions (r : Replicated α) : List α := r.current :: r.past

theorem read_mem_versions (r : Replicated α) (source : Source) : r.read source ∈ r.versions :=
  All.read (P := (· ∈ r.versions))
    ⟨List.mem_cons_self, fun _ ha => List.mem_cons_of_mem _ ha⟩ source

theorem All.mono {P Q : α → Prop} {r : Replicated α} (h : r.All P) (imp : ∀ a, P a → Q a) :
    r.All Q :=
  ⟨imp _ h.1, fun a ha => imp a (h.2 a ha)⟩

end Replicated
