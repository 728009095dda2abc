import MobileMoney.Library.Runs

/-!
# A deposit that is held once and settled once

The purpose of any escrow-like component, without its storage: nothing is held, then
something is held under fixed terms, then it has been settled by one payout. An
implementation is a machine whose view of its own state moves only along these steps;
the rules below carry absorption and at-most-once settlement to its runs.
-/

namespace Hold

variable {σ ε T P : Type*}

inductive State (T P : Type*) where
  | vacant
  | held (terms : T)
  | settled (terms : T) (payout : P)

inductive Step (admits : T → Prop) (pays : T → P → Prop) : State T P → State T P → Prop where
  | idle (h : State T P) : Step admits pays h h
  | fund {t : T} : admits t → Step admits pays .vacant (.held t)
  | settle {t : T} {p : P} : pays t p → Step admits pays (.held t) (.settled t p)

/-- Going from one state to the other settles the deposit. -/
def closes : State T P → State T P → Bool
  | .held _, .settled _ _ => true
  | _, _ => false

/-! ## Deposits kept as one optional record -/

section Record

variable {R : Type*} {isOpen : R → Prop} [DecidablePred isOpen] {terms : R → T}
  {x x' : Option R} {r r' : R} {t : T} {admits : T → Prop} {pays : T → R → Prop}

/-- A missing record is vacant, an open one is held under its terms, any other is settled. -/
def ofRecord (isOpen : R → Prop) [DecidablePred isOpen] (terms : R → T) :
    Option R → State T R
  | none => .vacant
  | some r => if isOpen r then .held (terms r) else .settled (terms r) r

@[simp] theorem ofRecord_none : ofRecord isOpen terms none = .vacant := rfl

theorem ofRecord_some : ofRecord isOpen terms (some r) =
    if isOpen r then .held (terms r) else .settled (terms r) r := rfl

theorem ofRecord_open (h : isOpen r) : ofRecord isOpen terms (some r) = .held (terms r) :=
  if_pos h

theorem ofRecord_closed (h : ¬ isOpen r) :
    ofRecord isOpen terms (some r) = .settled (terms r) r :=
  if_neg h

theorem eq_some_of_settled (h : ofRecord isOpen terms x = .settled t r) : x = some r := by
  cases x with
  | none => cases h
  | some r' =>
    rw [ofRecord_some] at h
    split_ifs at h
    cases h
    rfl

theorem terms_of_held (h : ofRecord isOpen terms x = .held t) :
    ∃ r, x = some r ∧ isOpen r ∧ terms r = t := by
  cases x with
  | none => cases h
  | some r' =>
    rw [ofRecord_some] at h
    split_ifs at h with hopen
    cases h
    exact ⟨r', rfl, hopen, rfl⟩

theorem terms_of_settled (h : ofRecord isOpen terms x = .settled t r) : terms r = t := by
  obtain rfl := eq_some_of_settled h
  rw [ofRecord_some] at h
  split_ifs at h
  cases h
  rfl

theorem step_fund (hx : x = none) (hx' : x' = some r) (h : isOpen r) (ok : admits (terms r)) :
    Step admits pays (ofRecord isOpen terms x) (ofRecord isOpen terms x') := by
  rw [hx, hx', ofRecord_none, ofRecord_open h]
  exact .fund ok

theorem step_settle (hx : x = some r) (hx' : x' = some r') (h : isOpen r) (h' : ¬ isOpen r')
    (same : terms r' = terms r) (ok : pays (terms r) r') :
    Step admits pays (ofRecord isOpen terms x) (ofRecord isOpen terms x') := by
  rw [hx, hx', ofRecord_open h, ofRecord_closed h', same]
  exact .settle ok

theorem closes_ofRecord (hx : x = some r) (hx' : x' = some r') (h : isOpen r)
    (h' : ¬ isOpen r') : closes (ofRecord isOpen terms x) (ofRecord isOpen terms x') = true := by
  rw [hx, hx', ofRecord_open h, ofRecord_closed h']
  rfl

end Record

/-! ## Implementations -/

/-- A deterministic machine with an invariant under which its view refines `Step`. -/
structure Implementation (σ ε T P : Type*) where
  step : σ → ε → σ
  view : σ → State T P
  inv : σ → Prop
  admits : T → Prop
  pays : T → P → Prop
  preserves : ∀ s e, inv s → inv (step s e)
  refines : ∀ s e, inv s → Step admits pays (view s) (view (step s e))

namespace Implementation

variable (m : Implementation σ ε T P)

theorem settled_step {s : σ} {t : T} {p : P} (hs : m.inv s) (h : m.view s = .settled t p)
    (e : ε) : m.view (m.step s e) = .settled t p := by
  have hstep := m.refines s e hs
  rw [h] at hstep
  generalize m.view (m.step s e) = v at hstep ⊢
  cases hstep
  rfl

/-- A settlement is final: no later event changes its terms or its payout. -/
theorem settled_run {s : σ} {t : T} {p : P} (hs : m.inv s) (h : m.view s = .settled t p)
    (es : List ε) : m.view (es.foldl m.step s) = .settled t p := by
  have both := Runs.inv_foldl (fun s => m.inv s ∧ m.view s = .settled t p)
    (fun s e hs => ⟨m.preserves s e hs.1, m.settled_step hs.1 hs.2 e⟩) ⟨hs, h⟩ es
  exact both.2

/-- Once held, a deposit keeps its terms, whether or not it is settled. -/
theorem held_run {s : σ} {t : T} (hs : m.inv s) (h : m.view s = .held t) (es : List ε) :
    m.view (es.foldl m.step s) = .held t ∨
      ∃ p, m.view (es.foldl m.step s) = .settled t p := by
  induction es generalizing s with
  | nil => exact .inl h
  | cons e es ih =>
    have hnext := m.preserves s e hs
    have hstep := m.refines s e hs
    rw [h] at hstep
    generalize hview : m.view (m.step s e) = v at hstep
    cases hstep with
    | idle => exact ih hnext hview
    | settle _ => exact .inr ⟨_, m.settled_run hnext hview es⟩

/-- Whether one event settles the deposit. -/
def settles (s : σ) (e : ε) : Bool := closes (m.view s) (m.view (m.step s e))

/-- The number of events of a run that settle the deposit. -/
def settlements : σ → List ε → ℕ := Runs.count m.step m.settles

theorem settlements_of_settled {s : σ} {t : T} {p : P} (hs : m.inv s)
    (h : m.view s = .settled t p) (es : List ε) : m.settlements s es = 0 := by
  refine Runs.count_eq_zero
    (fun s => m.inv s ∧ m.view s = .settled t p)
    (fun s e hs => ⟨m.preserves s e hs.1, m.settled_step hs.1 hs.2 e⟩) ?_ ⟨hs, h⟩ es
  rintro s e ⟨-, h⟩
  simp [settles, closes, h]

/-- Over any run the deposit is settled at most once. -/
theorem settlements_le_one {s : σ} (hs : m.inv s) (es : List ε) : m.settlements s es ≤ 1 := by
  induction es generalizing s with
  | nil => exact Nat.zero_le 1
  | cons e es ih =>
    have hnext := m.preserves s e hs
    change (if m.settles s e then 1 else 0) + m.settlements (m.step s e) es ≤ 1
    cases hview : m.view (m.step s e) with
    | settled t p =>
      rw [m.settlements_of_settled hnext hview]
      split_ifs <;> omega
    | vacant | held t =>
      have hnot : m.settles s e = false := by simp [settles, closes, hview]
      rw [hnot]
      simpa using ih hnext

/-- Events that only happen when the deposit is settled happen at most once. -/
theorem count_le_one {q : σ → ε → Bool} (imp : ∀ s e, m.inv s → q s e = true →
    m.settles s e = true) {s : σ} (hs : m.inv s) (es : List ε) :
    Runs.count m.step q s es ≤ 1 :=
  Nat.le_trans (Runs.count_le_count m.inv m.preserves imp hs es) (m.settlements_le_one hs es)

end Implementation

end Hold
