import Mathlib.Data.Option.Basic
import Mathlib.Tactic.Common

/-!
# Cells that expire

A cell holds a value until a moment in time, and reading it after that moment finds
nothing. A lock is a cell that holds its owner: it is taken when the cell reads empty, and
only its owner can give it back.
-/

namespace Expiring

variable {α κ : Type*}

structure Entry (α : Type*) where
  value : α
  expiry : ℕ
  deriving DecidableEq, Repr

def get (cell : Option (Entry α)) (now : ℕ) : Option α :=
  cell.bind fun entry => if now < entry.expiry then some entry.value else none

def put (value : α) (ttl now : ℕ) : Option (Entry α) := some ⟨value, now + ttl⟩

@[simp] theorem get_none (now : ℕ) : get (none : Option (Entry α)) now = none := rfl

theorem get_eq_some {cell : Option (Entry α)} {now : ℕ} {value : α} :
    get cell now = some value ↔ ∃ expiry, cell = some ⟨value, expiry⟩ ∧ now < expiry := by
  cases cell with
  | none => simp
  | some entry =>
    obtain ⟨held, expiry⟩ := entry
    simp only [get, Option.bind_some, Option.ite_none_right_eq_some, Option.some.injEq,
      Entry.mk.injEq]
    constructor
    · rintro ⟨hlt, rfl⟩
      exact ⟨expiry, ⟨rfl, rfl⟩, hlt⟩
    · rintro ⟨_, ⟨rfl, rfl⟩, hlt⟩
      exact ⟨hlt, rfl⟩

theorem get_of_live {cell : Option (Entry α)} {now expiry : ℕ} {value : α}
    (h : cell = some ⟨value, expiry⟩) (hlt : now < expiry) : get cell now = some value :=
  get_eq_some.2 ⟨expiry, h, hlt⟩

/-- `SET … NX PX ttl`: the cell with its new owner, unless another one still holds it. -/
def acquire (cell : Option (Entry κ)) (owner : κ) (ttl now : ℕ) : Option (Option (Entry κ)) :=
  match get cell now with
  | none => some (put owner ttl now)
  | some _ => none

theorem acquire_eq_some {cell cell' : Option (Entry κ)} {owner : κ} {ttl now : ℕ} :
    acquire cell owner ttl now = some cell' ↔
      get cell now = none ∧ cell' = put owner ttl now := by
  unfold acquire
  cases get cell now with
  | none => simp [eq_comm]
  | some other => simp

theorem acquire_eq_none {cell : Option (Entry κ)} {owner : κ} {ttl now : ℕ} :
    acquire cell owner ttl now = none ↔ ∃ other, get cell now = some other := by
  unfold acquire
  cases get cell now with
  | none => simp
  | some other => simp

variable [DecidableEq κ]

/-- The cell is emptied when it is still held by the one who gives it back. -/
def release (cell : Option (Entry κ)) (owner : κ) (now : ℕ) : Option (Entry κ) :=
  if get cell now = some owner then none else cell

theorem release_of_ne {cell : Option (Entry κ)} {owner other : κ} {expiry now : ℕ}
    (h : cell = some ⟨other, expiry⟩) (hne : other ≠ owner) :
    release cell owner now = some ⟨other, expiry⟩ := by
  unfold release
  rw [if_neg, h]
  intro hget
  obtain ⟨expiry', hcell, -⟩ := get_eq_some.1 hget
  rw [h] at hcell
  exact hne (congrArg Entry.value (Option.some.inj hcell))

end Expiring
