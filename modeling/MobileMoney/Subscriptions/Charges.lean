import Mathlib.Data.Fintype.Defs
import MobileMoney.Subscriptions.Program

/-!
# One charge per due date

A run of the job selects the due rows without claiming them, and advances a row in a write
of its own after the charge has been enqueued. A due date is charged once as long as no run
selects a row that another one still holds or a replica shows too late, and no charge is
enqueued without its row being advanced.
-/

namespace MobileMoney.Subscriptions

open Replicated
open Queue.Worker (DbOutcome)

variable {ι : Type} {cfg : Config}

/-! ## The condition on runs of the job -/

/-- The rows that a run of the job has selected and not yet advanced. -/
def Phase.holds : Phase → List SubscriptionRow
  | .job s rest _ => s :: rest
  | _ => []

/-- Of these, the rows whose charge has not been enqueued. -/
def Phase.owes : Phase → List SubscriptionRow
  | .job _ rest .advancing => rest
  | .job s rest _ => s :: rest
  | _ => []

/-- The rows that a turn selects. -/
def selected (w : SchedulerWorld ι) (turn : ι × Outcome) : List SubscriptionRow :=
  match w.locals turn.1 with
  | .idle => (take turn.2 (w.shared.tick turn.2.elapsed)).holds
  | _ => []

/-- A charge is not enqueued unnoticed, and the row of an enqueued charge is advanced. -/
def Phase.Lands (o : Outcome) : Phase → Prop
  | .job _ _ (.enqueuing _) => o.db ≠ .lost
  | .job _ _ .advancing => o.db ≠ .failed
  | _ => True

/-- A selected row is up to date and in nobody's hands, and the row of a charge that has
been enqueued is advanced. -/
structure Timely (w : SchedulerWorld ι) (turn : ι × Outcome) : Prop where
  current : ∀ s ∈ selected w turn, s ∈ w.shared.subscriptions.current.rows
  unheld : ∀ s ∈ selected w turn, ∀ j, s.dueDate ∉ (w.locals j).holds.map (·.dueDate)
  lands : (w.locals turn.1).Lands turn.2

instance (o : Outcome) : (phase : Phase) → Decidable (phase.Lands o)
  | .job _ _ (.enqueuing _) => inferInstanceAs (Decidable (o.db ≠ .lost))
  | .job _ _ .advancing => inferInstanceAs (Decidable (o.db ≠ .failed))
  | .job _ _ .creating | .job _ _ (.recording _) | .idle | .claiming _ | .rereading _
  | .processing _ | .reporting _ _ => isTrue trivial

instance [Fintype ι] (w : SchedulerWorld ι) (turn : ι × Outcome) : Decidable (Timely w turn) :=
  decidable_of_iff (_ ∧ _ ∧ _) ⟨fun ⟨current, unheld, lands⟩ => ⟨current, unheld, lands⟩,
    fun h => ⟨h.current, h.unheld, h.lands⟩⟩

theorem Timely.noticed {w : SchedulerWorld ι} {turn : ι × Outcome} (h : Timely w turn)
    (s : SubscriptionRow) (rest : List SubscriptionRow) (t : Transaction)
    (before : w.locals turn.1 = .job s rest (.enqueuing t)) : turn.2.db ≠ .lost := by
  have := h.lands
  rw [before] at this
  exact this

theorem Timely.advanced {w : SchedulerWorld ι} {turn : ι × Outcome} (h : Timely w turn)
    (s : SubscriptionRow) (rest : List SubscriptionRow)
    (before : w.locals turn.1 = .job s rest .advancing) : turn.2.db ≠ .failed := by
  have := h.lands
  rw [before] at this
  exact this

/-! ## Where a turn leads -/

@[simp] theorem holds_idle : Phase.idle.holds = [] := rfl

@[simp] theorem holds_job (s : SubscriptionRow) (rest : List SubscriptionRow) (step : JobStep) :
    (Phase.job s rest step).holds = s :: rest := rfl

@[simp] theorem holds_reporting (f : Failure) (step : ReportStep) :
    (Phase.reporting f step).holds = [] := rfl

@[simp] theorem holds_nextRow (rows : List SubscriptionRow) : (nextRow rows).holds = rows := by
  cases rows <;> rfl

@[simp] theorem holds_afterAttempt (f : Failure) (a : Option SubscriptionAttemptRow) :
    (afterAttempt f a).holds = [] := by
  cases a with
  | none => rfl
  | some a => unfold afterAttempt; dsimp only; split_ifs <;> rfl

theorem owes_nextRow (rows : List SubscriptionRow) : (nextRow rows).owes = rows := by
  cases rows <;> rfl

/-- A run owes what it holds, save for the row whose charge it has just enqueued. -/
theorem owes_sublist (phase : Phase) : phase.owes.Sublist phase.holds := by
  cases phase with
  | job s rest step =>
    cases step with
    | advancing => exact List.sublist_cons_self s rest
    | creating | recording | enqueuing => exact List.Sublist.refl _
  | idle | claiming | rereading | processing | reporting => exact List.Sublist.refl _

theorem holds_reportStep (o : Outcome) (store : Store) (f : Failure) (step : ReportStep) :
    (reportStep o store f step).2.holds = [] := by
  cases step with
  | failing | incrementing | recording | pausing | scheduling =>
    simp only [reportStep, write]
    split_ifs <;> simp
  | loading =>
    simp only [reportStep]
    split_ifs <;> rfl
  | reloading =>
    simp only [reportStep]
    split
    · split_ifs <;> rfl
    · rfl

theorem holds_finish (o : Outcome) (store : Store) (id : ℕ) :
    (finish o store id).2.holds = [] := by
  unfold finish
  split
  · rfl
  · rfl
  · split <;> rfl

theorem charged_reportStep (o : Outcome) (store : Store) (f : Failure) (step : ReportStep) :
    (reportStep o store f step).1.charged = store.charged := by
  cases step with
  | failing | incrementing | recording | pausing | scheduling =>
    simp only [reportStep, write]
    split_ifs <;> rfl
  | loading => rfl
  | reloading =>
    simp only [reportStep]
    split <;> rfl

theorem charged_finish (o : Outcome) (store : Store) (id : ℕ) :
    (finish o store id).1.charged = store.charged := by
  unfold finish
  split
  · rfl
  · rfl
  · split <;> rfl

/-- What a turn can mean for the charges. -/
inductive ChargeMove (store : Store) (phase : Phase) (store' : Store) (phase' : Phase) : Prop where
  | select (before : phase = .idle) (same : store' = store)
  | enqueue (s : SubscriptionRow) (rest : List SubscriptionRow) (t : Transaction)
      (before : phase = .job s rest (.enqueuing t)) (after : phase' = .job s rest .advancing)
      (charged : store'.charged = store.charged ++ [s.dueDate])
  | advance (s : SubscriptionRow) (rest : List SubscriptionRow)
      (before : phase = .job s rest .advancing) (after : phase' = nextRow rest)
      (charged : store'.charged = store.charged)
      (later : ∀ row ∈ store'.subscriptions.current.rows, row.id = s.id →
        ∀ n, row.nextRunAt = some n → store.now < n)
  | quiet (charged : store'.charged = store.charged) (holds : phase'.holds.Sublist phase.holds)
      (owes : phase'.owes ⊆ phase.owes) (stays : ∀ s rest, phase ≠ .job s rest .advancing)

theorem ChargeMove.holds {store store' : Store} {phase phase' : Phase}
    (h : ChargeMove store phase store' phase') :
    phase = .idle ∧ store' = store ∨ phase'.holds.Sublist phase.holds := by
  cases h with
  | select before same => exact .inl ⟨before, same⟩
  | enqueue s rest t before after => rw [before, after]; exact .inr (List.Sublist.refl _)
  | advance s rest before after =>
    right
    rw [before, after, holds_nextRow]
    exact List.sublist_cons_self _ _
  | quiet _ holds => exact .inr holds

theorem lt_computeNextRun (now : ℕ) (interval : SubscriptionInterval) :
    now < computeNextRun cfg now interval := by
  cases interval with
  | daily => simp [computeNextRun, day]
  | weekly => simp [computeNextRun, day]
  | monthly => exact cfg.lt_addMonth now

/-- A turn of a process that holds no rows and takes up none. -/
theorem quiet_of_holds {store store' : Store} {phase phase' : Phase}
    (charged : store'.charged = store.charged) (before : phase.holds = [])
    (after : phase'.holds = []) : ChargeMove store phase store' phase' := by
  apply ChargeMove.quiet charged
  · rw [before, after]
  · intro s hs
    have := (owes_sublist phase').subset hs
    rw [after] at this
    cases this
  · rintro s rest rfl
    cases before

theorem charge_chargeStep (o : Outcome) (store : Store) (s : SubscriptionRow)
    (rest : List SubscriptionRow) (step : JobStep)
    (noticed : ∀ t, step = .enqueuing t → o.db ≠ .lost)
    (advanced : step = .advancing → o.db ≠ .failed) :
    ChargeMove store (.job s rest step) (chargeStep cfg o store s rest step).1
      (chargeStep cfg o store s rest step).2 := by
  have skip : ∀ store' : Store, store'.charged = store.charged → step ≠ .advancing →
      ChargeMove store (.job s rest step) store' (nextRow rest) := by
    intro store' charged hstep
    apply ChargeMove.quiet charged
    · simp
    · rw [owes_nextRow]
      cases step with
      | advancing => exact absurd rfl hstep
      | creating | recording | enqueuing => exact List.subset_cons_self s rest
    · rintro _ _ ⟨⟩
      exact hstep rfl
  have go : ∀ (store' : Store) (step' : JobStep), store'.charged = store.charged →
      step ≠ .advancing → ChargeMove store (.job s rest step) store' (.job s rest step') := by
    intro store' step' charged hstep
    apply ChargeMove.quiet charged
    · simp
    · have hwhole : (Phase.job s rest step).owes = s :: rest := by
        cases step with
        | advancing => exact absurd rfl hstep
        | creating | recording | enqueuing => rfl
      rw [hwhole]
      exact (owes_sublist _).subset
    · rintro _ _ ⟨⟩
      exact hstep rfl
  cases step with
  | creating =>
    have hstep : JobStep.creating ≠ .advancing := by decide
    simp only [chargeStep, write]
    split
    · exact skip store rfl hstep
    · split_ifs
      · exact go _ _ rfl hstep
      · exact skip _ rfl hstep
      · exact go _ _ rfl hstep
      · exact skip _ rfl hstep
      · exact skip store rfl hstep
  | recording t =>
    have hstep : JobStep.recording t ≠ .advancing := by simp
    simp only [chargeStep, write]
    split_ifs
    · exact go _ _ rfl hstep
    · exact skip _ rfl hstep
    · exact go _ _ rfl hstep
    · exact skip _ rfl hstep
  | enqueuing t =>
    have := noticed t rfl
    simp only [chargeStep, write]
    cases hdb : o.db with
    | done => exact .enqueue s rest t rfl rfl rfl
    | failed => exact skip _ rfl (by simp)
    | lost => exact absurd hdb this
  | advancing =>
    simp only [chargeStep, write]
    rw [if_neg (advanced rfl), ite_self]
    refine .advance s rest rfl rfl rfl ?_
    intro row hrow hid n hn
    unfold Store.advanceNextRun at hrow
    obtain ⟨row', -, rfl⟩ := (mem_updateRow _).1 hrow
    split_ifs at hid hn with heq
    · cases hn
      exact lt_computeNextRun _ _
    · exact absurd hid heq

theorem charge_step (cfg : Config) (o : Outcome) (store : Store) (phase : Phase)
    (noticed : ∀ s rest t, phase = .job s rest (.enqueuing t) → o.db ≠ .lost)
    (advanced : ∀ s rest, phase = .job s rest .advancing → o.db ≠ .failed) :
    ChargeMove (store.tick o.elapsed) phase (step cfg o store phase).1
      (step cfg o store phase).2 := by
  cases phase with
  | idle => exact .select rfl rfl
  | job s rest step =>
    apply charge_chargeStep
    · rintro t rfl
      exact noticed s rest t rfl
    · rintro rfl
      exact advanced s rest rfl
  | claiming id =>
    apply quiet_of_holds
    · simp only [step, handle, write]
      split_ifs <;> rfl
    · rfl
    · simp only [step, handle, write]
      split_ifs <;> rfl
  | rereading id =>
    apply quiet_of_holds
    · rfl
    · rfl
    · simp only [step, handle]
      split_ifs <;> rfl
  | processing id => exact quiet_of_holds (charged_finish _ _ _) rfl (holds_finish _ _ _)
  | reporting f step =>
    exact quiet_of_holds (charged_reportStep _ _ _ _) rfl (holds_reportStep _ _ _ _)

/-! ## Due dates only move on -/

/-- Whatever happens to a row, its due date stays or moves beyond the present. -/
structure Later (store store' : Store) : Prop where
  now : store.now ≤ store'.now
  rows : ∀ row' ∈ store'.subscriptions.current.rows, ∃ row ∈ store.subscriptions.current.rows,
    row.id = row'.id ∧ ∀ n, row'.nextRunAt = some n → row.nextRunAt = some n ∨ store.now < n

/-- The rows of the subscription are due after the time. -/
def Passed (store : Store) (id time : ℕ) : Prop :=
  ∀ row ∈ store.subscriptions.current.rows, row.id = id → ∀ n, row.nextRunAt = some n → time < n

theorem later_of_eq {store store' : Store} (now : store.now ≤ store'.now)
    (rows : store'.subscriptions = store.subscriptions) : Later store store' := by
  refine ⟨now, ?_⟩
  intro row hrow
  rw [rows] at hrow
  exact ⟨row, hrow, rfl, fun n hn => .inl hn⟩

theorem Later.trans {store₁ store₂ store₃ : Store} (h₁ : Later store₁ store₂)
    (h₂ : Later store₂ store₃) : Later store₁ store₃ := by
  refine ⟨h₁.now.trans h₂.now, ?_⟩
  intro row₃ hrow₃
  obtain ⟨row₂, hrow₂, hid₂, hnext₂⟩ := h₂.rows row₃ hrow₃
  obtain ⟨row₁, hrow₁, hid₁, hnext₁⟩ := h₁.rows row₂ hrow₂
  refine ⟨row₁, hrow₁, hid₁.trans hid₂, ?_⟩
  intro n hn
  rcases hnext₂ n hn with hsame | hlater
  · exact hnext₁ n hsame
  · exact .inr (h₁.now.trans_lt hlater)

theorem later_updateRow {store : Store} {id : ℕ} {f : SubscriptionRow → SubscriptionRow}
    (same : ∀ s, (f s).id = s.id)
    (next : ∀ s n, (f s).nextRunAt = some n → s.nextRunAt = some n ∨ store.now < n) :
    Later store (store.updateRow id f same) := by
  refine ⟨Nat.le_refl _, ?_⟩
  intro row' hrow'
  obtain ⟨row, hrow, rfl⟩ := (mem_updateRow same).1 hrow'
  refine ⟨row, hrow, ?_⟩
  split_ifs
  · exact ⟨(same row).symm, next row⟩
  · exact ⟨rfl, fun n hn => .inl hn⟩

theorem retryDelay_pos (a : SubscriptionAttemptRow) : 0 < retryDelay a := by
  unfold retryDelay
  dsimp only
  apply Nat.mul_pos
  · split_ifs with h
    · decide
    · exact Nat.pos_of_ne_zero h
  · exact Nat.two_pow_pos _

theorem later_of_effect {phase : Phase} {store store' : Store}
    (h : Effect cfg phase store store') : Later store store' := by
  cases h with
  | none | create | enqueue | status | complete | fail => exact later_of_eq (Nat.le_refl _) rfl
  | advance s =>
    apply later_updateRow
    intro row n hn
    obtain rfl := Option.some.inj hn
    exact .inr (lt_computeNextRun _ _)
  | increment | pause =>
    apply later_updateRow
    exact fun _ _ hn => .inl hn
  | schedule f a =>
    have moved : Later store (store.updateRow f.subscriptionId
        (fun row => { row with nextRunAt := some (store.now + retryDelay a * 10 ^ 6) })
        fun _ => rfl) := by
      apply later_updateRow
      intro row n hn
      obtain rfl := Option.some.inj hn
      have := retryDelay_pos a
      exact .inr (by omega)
    exact ⟨moved.now, moved.rows⟩

theorem later_step (o : Outcome) (store : Store) (phase : Phase) :
    Later store (step cfg o store phase).1 := by
  have ticked : Later store (store.tick o.elapsed) := later_of_eq (Nat.le_add_right _ _) rfl
  exact ticked.trans (later_of_effect (effect_step cfg o store phase))

theorem passed_of_later {store store' : Store} (h : Later store store') {id time : ℕ}
    (past : time ≤ store.now) (passed : Passed store id time) : Passed store' id time := by
  intro row' hrow' hid n hn
  obtain ⟨row, hrow, hrowid, hnext⟩ := h.rows row' hrow'
  rcases hnext n hn with hsame | hlater
  · exact passed row hrow (hrowid.trans hid) n hsame
  · exact past.trans_lt hlater

/-! ## What a run selects -/

theorem mem_getDueSubscriptions {store : Store} {source : Source} {scan : List SubscriptionRow}
    {s : SubscriptionRow} (h : s ∈ getDueSubscriptions store source scan) :
    ∃ n, s.nextRunAt = some n ∧ n ≤ store.now := by
  unfold getDueSubscriptions at h
  split_ifs at h
  · have hsorted := List.mem_of_mem_take h
    have hdue := (List.mem_filter.1 ((List.mem_insertionSort _).1 hsorted)).2
    simp only [SubscriptionRow.isDue, Bool.and_eq_true, Option.any_eq_true,
      decide_eq_true_eq] at hdue
    exact hdue.2
  · cases h

theorem nodup_getDueSubscriptions (store : Store) (source : Source)
    (scan : List SubscriptionRow) :
    ((getDueSubscriptions store source scan).map (·.dueDate)).Nodup := by
  unfold getDueSubscriptions
  split_ifs with hscan
  · apply List.Nodup.of_map (·.subscriptionId)
    rw [List.map_map]
    have hids : (scan.map (·.id)).Nodup :=
      ((List.isPerm_iff.1 hscan).map _).nodup_iff.2 (store.subscriptions.read source).nodup
    have hfilter := hids.sublist
      ((List.filter_sublist (p := SubscriptionRow.isDue store.now) (l := scan)).map (·.id))
    have hsorted := ((List.perm_insertionSort (fun s s' : SubscriptionRow =>
      s.nextRunAt.getD 0 ≤ s'.nextRunAt.getD 0)
      (scan.filter (SubscriptionRow.isDue store.now))).map (·.id)).nodup_iff.2 hfilter
    exact hsorted.sublist ((List.take_sublist _ _).map _)
  · exact List.nodup_nil

theorem holds_take (o : Outcome) (store : Store) : (take o store).holds = [] ∨
    ∃ scan, (take o store).holds = getDueSubscriptions store o.source scan := by
  unfold take
  cases o.task with
  | runSubscriptionJob scan =>
    dsimp only
    split_ifs
    · exact .inr ⟨scan, holds_nextRow _⟩
    · exact .inl rfl
  | processTransaction id =>
    left
    dsimp only
    split_ifs <;> rfl

/-! ## The invariant -/

/-- Processes hold rows of different due dates, all of them due. -/
structure Holding (w : SchedulerWorld ι) : Prop where
  each : ∀ i, ((w.locals i).holds.map (·.dueDate)).Nodup
  apart : ∀ i j, i ≠ j → ∀ s ∈ (w.locals i).holds, s.dueDate ∉ (w.locals j).holds.map (·.dueDate)
  past : ∀ i, ∀ s ∈ (w.locals i).holds, ∃ n, s.nextRunAt = some n ∧ n ≤ w.shared.now

/-- A due date has been charged at most once; and once it has, the row is about to be
advanced or due later. -/
structure Charging (w : SchedulerWorld ι) : Prop extends Holding w where
  fresh : ∀ i, ∀ s ∈ (w.locals i).owes, s.dueDate ∉ w.shared.charged
  once : w.shared.charged.Nodup
  behind : ∀ c ∈ w.shared.charged, ∃ n, c.dueAt = some n ∧ n ≤ w.shared.now ∧
    ((∃ i s rest, w.locals i = .job s rest .advancing ∧ s.dueDate = c) ∨
      Passed w.shared c.subscriptionId n)

theorem past_selected {w : SchedulerWorld ι} {i : ι} {o : Outcome} {s : SubscriptionRow}
    (h : s ∈ selected w (i, o)) : ∃ n, s.nextRunAt = some n ∧ n ≤ w.shared.now + o.elapsed := by
  unfold selected at h
  split at h
  · rcases holds_take o (w.shared.tick o.elapsed) with hnone | ⟨scan, hscan⟩
    · rw [hnone] at h
      cases h
    · rw [hscan] at h
      exact mem_getDueSubscriptions h
  · cases h

theorem nodup_selected (w : SchedulerWorld ι) (turn : ι × Outcome) :
    ((selected w turn).map (·.dueDate)).Nodup := by
  unfold selected
  split
  · rcases holds_take turn.2 (w.shared.tick turn.2.elapsed) with hnone | ⟨scan, hscan⟩
    · rw [hnone]
      exact List.nodup_nil
    · rw [hscan]
      exact nodup_getDueSubscriptions _ _ _
  · exact List.nodup_nil

/-- A selected row has not been charged for its due date. -/
theorem selected_fresh {w : SchedulerWorld ι} {turn : ι × Outcome} (h : Charging w)
    (timely : Timely w turn) {s : SubscriptionRow} (hs : s ∈ selected w turn) :
    s.dueDate ∉ w.shared.charged := by
  intro hcharged
  obtain ⟨n, hn, -, hheld | hpassed⟩ := h.behind _ hcharged
  · obtain ⟨j, s', rest, hj, hsame⟩ := hheld
    apply timely.unheld s hs j
    rw [← hsame, hj]
    exact List.mem_cons_self
  · exact lt_irrefl n (hpassed s (timely.current s hs) rfl n hn)

/-- What the process that moves holds afterwards, it held before or has selected. -/
theorem holds_advance (cfg : Config) {w : SchedulerWorld ι} {i : ι} {o : Outcome}
    (timely : Timely w (i, o)) :
    (step cfg o w.shared (w.locals i)).2.holds.Sublist (w.locals i).holds ∨
      w.locals i = .idle ∧ (step cfg o w.shared (w.locals i)).1 = w.shared.tick o.elapsed ∧
        (step cfg o w.shared (w.locals i)).2.holds = selected w (i, o) := by
  have move := charge_step cfg o w.shared (w.locals i) timely.noticed timely.advanced
  rcases move.holds with ⟨hidle, hstore⟩ | hsublist
  · refine .inr ⟨hidle, hstore, ?_⟩
    rw [selected, hidle]
    rfl
  · exact .inl hsublist

variable [DecidableEq ι]

theorem advance_self (cfg : Config) (w : SchedulerWorld ι) (i : ι) (o : Outcome) :
    (advance cfg w (i, o)).locals i = (step cfg o w.shared (w.locals i)).2 :=
  Interleaving.advance_self _ w i o

theorem advance_other (w : SchedulerWorld ι) {i j : ι} (o : Outcome) (h : j ≠ i) :
    (advance cfg w (i, o)).locals j = w.locals j :=
  Interleaving.advance_other _ w o h

theorem later_advance (cfg : Config) (w : SchedulerWorld ι) (turn : ι × Outcome) :
    Later w.shared (advance cfg w turn).shared :=
  later_step turn.2 w.shared _

theorem holding_advance {w : SchedulerWorld ι} {turn : ι × Outcome} (h : Holding w)
    (timely : Timely w turn) : Holding (advance cfg w turn) := by
  obtain ⟨i, o⟩ := turn
  have self := advance_self cfg w i o
  have other : ∀ j, j ≠ i → (advance cfg w (i, o)).locals j = w.locals j :=
    fun j hj => advance_other w o hj
  have later := later_advance cfg w (i, o)
  have shared : (advance cfg w (i, o)).shared = (step cfg o w.shared (w.locals i)).1 := rfl
  have holds := holds_advance cfg timely
  rw [← self, ← shared] at holds
  generalize advance cfg w (i, o) = w' at self other later shared holds ⊢
  -- What the mover holds is nobody else's.
  have alone : ∀ j, j ≠ i → ∀ s ∈ (w'.locals i).holds,
      s.dueDate ∉ (w.locals j).holds.map (·.dueDate) := by
    intro j hj s hs
    rcases holds with hsublist | ⟨-, -, hselected⟩
    · exact h.apart i j hj.symm s (hsublist.subset hs)
    · exact timely.unheld s (hselected ▸ hs) j
  constructor
  case each =>
    intro j
    by_cases hj : j = i
    · subst hj
      rcases holds with hsublist | ⟨-, -, hselected⟩
      · exact (h.each j).sublist (hsublist.map _)
      · rw [hselected]
        exact nodup_selected w (j, o)
    · rw [other j hj]
      exact h.each j
  case apart =>
    intro j k hjk s hs
    by_cases hj : j = i
    · subst hj
      rw [other k hjk.symm]
      exact alone k hjk.symm s hs
    · rw [other j hj] at hs
      by_cases hk : k = i
      · subst hk
        intro hmem
        obtain ⟨s', hs', hsame⟩ := List.mem_map.1 hmem
        exact alone j hj s' hs' (hsame ▸ List.mem_map_of_mem hs)
      · rw [other k hk]
        exact h.apart j k hjk s hs
  case past =>
    intro j s hs
    by_cases hj : j = i
    · subst hj
      rcases holds with hsublist | ⟨-, hstore, hselected⟩
      · obtain ⟨n, hn, hle⟩ := h.past j s (hsublist.subset hs)
        exact ⟨n, hn, hle.trans later.now⟩
      · rw [hstore]
        exact past_selected (hselected ▸ hs)
    · rw [other j hj] at hs
      obtain ⟨n, hn, hle⟩ := h.past j s hs
      exact ⟨n, hn, hle.trans later.now⟩

/-- A turn that leaves the record of charges alone. -/
theorem charged_advance {w : SchedulerWorld ι} {i : ι} {o : Outcome} (h : Charging w)
    (timely : Timely w (i, o)) :
    (advance cfg w (i, o)).shared.charged = w.shared.charged ∧
        (∀ s ∈ ((advance cfg w (i, o)).locals i).owes, s.dueDate ∉ w.shared.charged) ∨
      ∃ s rest t, w.locals i = .job s rest (.enqueuing t) ∧
        (advance cfg w (i, o)).locals i = .job s rest .advancing ∧
        (advance cfg w (i, o)).shared.charged = w.shared.charged ++ [s.dueDate] := by
  have self := advance_self cfg w i o
  have shared : (advance cfg w (i, o)).shared = (step cfg o w.shared (w.locals i)).1 := rfl
  rw [self, shared]
  have holds := holds_advance cfg timely
  have move := charge_step cfg o w.shared (w.locals i) timely.noticed timely.advanced
  generalize step cfg o w.shared (w.locals i) = result at holds move ⊢
  cases move with
  | select before same =>
    refine .inl ⟨by rw [same]; rfl, ?_⟩
    intro s hs
    have hheld := (owes_sublist _).subset hs
    rcases holds with hsublist | ⟨-, -, hselected⟩
    · rw [before] at hsublist
      cases hsublist.subset hheld
    · exact selected_fresh h timely (hselected ▸ hheld)
  | enqueue s rest t before after charged => exact .inr ⟨s, rest, t, before, after, charged⟩
  | advance s rest before after charged =>
    refine .inl ⟨charged, ?_⟩
    rw [after, owes_nextRow]
    have howed := h.fresh i
    rw [before] at howed
    exact howed
  | quiet charged _ owes => exact .inl ⟨charged, fun s hs => h.fresh i s (owes hs)⟩

/-- The row of a charge that has been enqueued is advanced or waits to be. -/
theorem behind_advance {w : SchedulerWorld ι} {turn : ι × Outcome} (timely : Timely w turn)
    {c : DueDate} {n : ℕ} (past : n ≤ w.shared.now)
    (h : (∃ i s rest, w.locals i = .job s rest .advancing ∧ s.dueDate = c) ∨
      Passed w.shared c.subscriptionId n) :
    (∃ i s rest, (advance cfg w turn).locals i = .job s rest .advancing ∧ s.dueDate = c) ∨
      Passed (advance cfg w turn).shared c.subscriptionId n := by
  obtain ⟨i, o⟩ := turn
  rcases h with ⟨j, s, rest, hj, hsame⟩ | hpassed
  · by_cases hji : j = i
    · subst hji
      have move := charge_step cfg o w.shared (w.locals j) timely.noticed timely.advanced
      have shared : (advance cfg w (j, o)).shared = (step cfg o w.shared (w.locals j)).1 := rfl
      rw [← shared] at move
      cases move with
      | select before => cases hj.symm.trans before
      | enqueue s' rest' t before => cases hj.symm.trans before
      | advance s' rest' before _ _ later =>
        cases hj.symm.trans before
        right
        intro row hrow hid m hm
        have hid' : row.id = s.id := by rw [hid, ← hsame]; rfl
        have hnow := later row hrow hid' m hm
        exact (past.trans (Nat.le_add_right _ _)).trans_lt hnow
      | quiet _ _ _ stays => exact absurd hj (stays s rest)
    · exact .inl ⟨j, s, rest, (advance_other w o hji).trans hj, hsame⟩
  · exact .inr (passed_of_later (later_advance cfg w (i, o)) past hpassed)

theorem charging_advance {w : SchedulerWorld ι} {turn : ι × Outcome} (h : Charging w)
    (timely : Timely w turn) : Charging (advance cfg w turn) := by
  obtain ⟨i, o⟩ := turn
  refine ⟨holding_advance h.toHolding timely, ?_, ?_, ?_⟩
  case refine_1 =>
    intro j s hs
    rcases charged_advance h timely with ⟨hsame, howed⟩ | ⟨s', rest, t, before, after, hmore⟩
    · rw [hsame]
      by_cases hj : j = i
      · subst hj
        exact howed s hs
      · rw [advance_other w o hj] at hs
        exact h.fresh j s hs
    · rw [hmore, List.mem_append, List.mem_singleton, not_or]
      by_cases hj : j = i
      · subst hj
        rw [after] at hs
        have hrest : s ∈ rest := hs
        have each := h.each j
        rw [before, holds_job, List.map_cons, List.nodup_cons] at each
        refine ⟨h.fresh j s (by rw [before]; exact List.mem_cons_of_mem _ hrest), ?_⟩
        intro heq
        exact each.1 (heq ▸ List.mem_map_of_mem hrest)
      · rw [advance_other w o hj] at hs
        refine ⟨h.fresh j s hs, ?_⟩
        intro heq
        apply h.apart j i hj s ((owes_sublist _).subset hs)
        rw [before, heq]
        exact List.mem_cons_self
  case refine_2 =>
    rcases charged_advance h timely with ⟨hsame, -⟩ | ⟨s, rest, t, before, -, hmore⟩
    · rw [hsame]
      exact h.once
    · have hnew : s.dueDate ∉ w.shared.charged :=
        h.fresh i s (by rw [before]; exact List.mem_cons_self)
      rw [hmore]
      apply h.once.append (List.nodup_singleton _)
      exact List.disjoint_singleton.2 hnew
  case refine_3 =>
    intro c hc
    have later := later_advance cfg w (i, o)
    have origin : c ∈ w.shared.charged ∨ ∃ s rest t, w.locals i = .job s rest (.enqueuing t) ∧
        (advance cfg w (i, o)).locals i = .job s rest .advancing ∧ s.dueDate = c := by
      rcases charged_advance h timely with ⟨hsame, -⟩ | ⟨s, rest, t, before, after, hmore⟩
      · exact .inl (hsame ▸ hc)
      · rw [hmore] at hc
        rcases List.mem_append.1 hc with hold | hnew
        · exact .inl hold
        · exact .inr ⟨s, rest, t, before, after, (List.mem_singleton.1 hnew).symm⟩
    rcases origin with hold | ⟨s, rest, t, before, after, rfl⟩
    · obtain ⟨n, hn, hle, hwhere⟩ := h.behind c hold
      exact ⟨n, hn, hle.trans later.now, behind_advance timely hle hwhere⟩
    · obtain ⟨n, hn, hle⟩ := h.past i s (by rw [before]; exact List.mem_cons_self)
      exact ⟨n, hn, hle.trans later.now, .inl ⟨i, s, rest, after, rfl⟩⟩

end MobileMoney.Subscriptions
