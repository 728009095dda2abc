import MobileMoney.Queue.Outbox.Program

/-!
# Outboxed enqueues

No row is given up before the queue has its job or its attempts are used up, and only errors that
are no outage use them up: this holds whatever the relays do to each other's rows. That a
published row stays published is as good as the results that come in late.
-/

namespace MobileMoney.Queue.Outbox

open Interleaving

variable {T R ι : Type}

/-- The input makes the database execute the statement of a process. -/
def Input.Executes : Input T R → Prop
  | .query answer _ => answer.executed = true
  | _ => False

instance (input : Input T R) : Decidable input.Executes := by
  cases input <;> unfold Input.Executes <;> infer_instance

/-! ## Rows -/

/-- The row can be claimed now or at a time that is set for it. -/
def OutboxRow.Claimable (row : OutboxRow T R) : Prop :=
  (row.status = .pending ∨ row.status = .failed) ∧ row.nextAttemptAt ≠ none ∨
    row.status = .processing

/-- A row as the statements leave it, the queue having its job or not. -/
structure OutboxRow.Sound (accepted : Prop) (row : OutboxRow T R) : Prop where
  pending : row.status = .pending → row.nextAttemptAt ≠ none
  failed : row.status = .failed → row.nextAttemptAt ≠ none ∨ row.maxAttempts ≤ row.attempts
  published : row.status = .published → row.publishedAt ≠ none ∧ accepted

theorem OutboxRow.Sound.kept {accepted : Prop} {row : OutboxRow T R} (h : row.Sound accepted) :
    row.Claimable ∨ accepted ∨ row.maxAttempts ≤ row.attempts := by
  cases hstatus : row.status with
  | pending => exact Or.inl (Or.inl ⟨Or.inl hstatus, h.pending hstatus⟩)
  | processing => exact Or.inl (Or.inr hstatus)
  | published => exact Or.inr (Or.inl (h.published hstatus).2)
  | failed =>
    rcases h.failed hstatus with hscheduled | hexhausted
    · exact Or.inl (Or.inl ⟨Or.inr hstatus, hscheduled⟩)
    · exact Or.inr (Or.inr hexhausted)

theorem OutboxRow.Sound.mono {accepted accepted' : Prop} {row : OutboxRow T R}
    (h : row.Sound accepted) (imp : accepted → accepted') : row.Sound accepted' :=
  ⟨h.pending, h.failed, fun hstatus => ⟨(h.published hstatus).1, imp (h.published hstatus).2⟩⟩

theorem sound_insert (accepted : Prop) (id : R) (t : T) (now : ℕ) :
    (OutboxRow.insert id t now).Sound accepted := by
  constructor <;> simp [OutboxRow.insert]

theorem sound_claim (accepted : Prop) (row : OutboxRow T R) (now : ℕ) :
    (row.claim now).Sound accepted := by
  constructor <;> simp [OutboxRow.claim]

theorem sound_apply {accepted : Prop} (row : OutboxRow T R) (now : ℕ) {change : Change}
    (h : change = .markPublished → accepted) : (change.apply now row).Sound accepted := by
  cases change with
  | markPublished => constructor <;> simp [Change.apply, h]
  | release => constructor <;> simp [Change.apply]
  | markFailed =>
    refine ⟨by simp [Change.apply], ?_, by simp [Change.apply]⟩
    intro _
    by_cases hexhausted : row.maxAttempts ≤ row.attempts + 1
    · exact Or.inr hexhausted
    · simp [Change.apply, hexhausted]

/-- Published once, published for good. -/
def OutboxRow.Settled (row : OutboxRow T R) : Prop :=
  row.publishedAt ≠ none → row.status = .published

/-! ## What a turn does to the rows -/

section Effects

variable [DecidableEq T] [DecidableEq R] (batchSize : ℕ)

omit [DecidableEq T] [DecidableEq R] in
theorem note_rows (s : State T R) (answer : DbAnswer) (unavailable : Bool) (phase : Phase T R) :
    (s.note answer unavailable phase).rows = s.rows ∧
      (s.note answer unavailable phase).accepted = s.accepted ∧
      (s.note answer unavailable phase).outboxed = s.outboxed := by
  cases phase with
  | publishing row rest summary =>
    simp only [State.note]
    split_ifs <;> exact ⟨rfl, rfl, rfl⟩
  | _ => exact ⟨rfl, rfl, rfl⟩

/-- An insertion leaves what the queue has answered. -/
theorem insert_frame (id : R) (answer : DbAnswer) (s : State T R) (phase : Phase T R) :
    (insert id answer s phase).1.accepted = s.accepted ∧
      (insert id answer s phase).1.errors = s.errors := by
  cases phase with
  | inserting t =>
    simp only [insert]
    cases s.outstanding t with
    | some row =>
      simp only [State.report]
      split_ifs <;> exact ⟨rfl, rfl⟩
    | none =>
      by_cases hfresh : s.rows.find? id = none
      · simp only [if_pos hfresh, State.report, State.insert]
        split_ifs <;> exact ⟨rfl, rfl⟩
      · simp [hfresh]
  | _ => exact ⟨rfl, rfl⟩

theorem step_rows (input : Input T R) (s : State T R) (phase : Phase T R) :
    let s' := (step batchSize input s phase).1
    s'.rows = s.rows ∨
    (∃ batch, s.Claims batchSize batch ∧
      s'.rows = s.rows.map (claimed batch s.now) (claimed_id batch s.now)) ∨
    (∃ id change, phase.statement = some (id, change) ∧ input.Executes ∧
      s'.rows = s.rows.modify id (fun row => change.apply s.now row) (change.apply_id s.now)) ∨
    ∃ id t, s.rows.find? id = none ∧ s'.rows = s.rows.insert (.insert id t s.now) := by
  cases input with
  | dispatch outcome =>
    left
    cases phase with
    | dispatching row rest summary => cases outcome <;> rfl
    | _ => rfl
  | insert id answer =>
    cases phase with
    | inserting t =>
      simp only [step, insert]
      cases s.outstanding t with
      | some row =>
        left
        simp only [State.report]
        split_ifs <;> rfl
      | none =>
        by_cases hfresh : s.rows.find? id = none
        · simp only [if_pos hfresh, State.report, State.insert]
          by_cases hexecuted : answer.executed = true
          · refine Or.inr (Or.inr (Or.inr ⟨id, t, hfresh, ?_⟩))
            split_ifs <;> rfl
          · left
            split_ifs <;> rfl
        · simp only [if_neg hfresh]
          exact Or.inl trivial
    | _ => exact Or.inl rfl
  | claim batch answer =>
    cases phase with
    | claiming =>
      simp only [step, claim]
      by_cases hclaims : s.Claims batchSize batch
      · simp only [if_pos hclaims]
        by_cases hexecuted : answer.executed = true
        · simp only [if_pos hexecuted]
          exact Or.inr (Or.inl ⟨batch, hclaims, rfl⟩)
        · simp only [if_neg hexecuted]
          exact Or.inl trivial
      · simp only [if_neg hclaims]
        exact Or.inl trivial
    | _ => exact Or.inl rfl
  | query answer unavailable =>
    simp only [step, query]
    cases hstatement : phase.statement with
    | none => exact Or.inl rfl
    | some sent =>
      obtain ⟨id, change⟩ := sent
      simp only [(note_rows _ answer unavailable phase).1]
      split_ifs with hexecuted
      · exact Or.inr (Or.inr (Or.inl ⟨id, change, rfl, hexecuted, rfl⟩))
      · exact Or.inl rfl
  | _ => exact Or.inl rfl

theorem step_accepted (input : Input T R) (s : State T R) (phase : Phase T R) :
    s.accepted ⊆ (step batchSize input s phase).1.accepted := by
  cases input with
  | dispatch outcome =>
    cases phase with
    | dispatching row rest summary =>
      cases outcome with
      | accepted => exact List.subset_cons_self _ _
      | unavailable => exact List.Subset.refl _
      | failed => exact List.Subset.refl _
    | _ => exact List.Subset.refl _
  | insert id answer =>
    simp only [step, (insert_frame id answer s phase).1]
    exact List.Subset.refl _
  | claim batch answer =>
    cases phase with
    | claiming =>
      simp only [step, claim]
      by_cases hclaims : s.Claims batchSize batch
      · simp only [if_pos hclaims]
        split_ifs <;> exact List.Subset.refl _
      · simp only [if_neg hclaims]
        exact List.Subset.refl _
    | _ => exact List.Subset.refl _
  | query answer unavailable =>
    simp only [step, query]
    cases phase.statement with
    | none => exact List.Subset.refl _
    | some sent =>
      simp only [(note_rows _ answer unavailable phase).2.1]
      split_ifs <;> exact List.Subset.refl _
  | _ => exact List.Subset.refl _

theorem step_outboxed (input : Input T R) (s : State T R) (phase : Phase T R)
    (h : ∀ id answer, input ≠ .insert id answer) :
    (step batchSize input s phase).1.outboxed = s.outboxed := by
  cases input with
  | dispatch outcome =>
    cases phase with
    | dispatching row rest summary => cases outcome <;> rfl
    | _ => rfl
  | insert id answer => exact absurd rfl (h id answer)
  | claim batch answer =>
    cases phase with
    | claiming =>
      simp only [step, claim]
      by_cases hclaims : s.Claims batchSize batch
      · simp only [if_pos hclaims]
        split_ifs <;> rfl
      · simp only [if_neg hclaims]
    | _ => rfl
  | query answer unavailable =>
    simp only [step, query]
    cases phase.statement with
    | none => rfl
    | some sent =>
      simp only [(note_rows _ answer unavailable phase).2.2]
      split_ifs <;> rfl
  | _ => rfl

end Effects

/-! ## The rows of the enqueues -/

section Kept

variable [DecidableEq T] [DecidableEq R] {batchSize : ℕ}

def State.Has (s : State T R) (pair : T × R) : Prop :=
  ∃ row ∈ s.rows.find? pair.2, row.aggregateId = pair.1

theorem has_step {s : State T R} {pair : T × R} (h : s.Has pair) (input : Input T R)
    (phase : Phase T R) : (step batchSize input s phase).1.Has pair := by
  obtain ⟨row, hfound, haggregate⟩ := h
  rw [Option.mem_def] at hfound
  rcases step_rows batchSize input s phase with
    hsame | ⟨batch, -, hrows⟩ | ⟨id, change, -, -, hrows⟩ | ⟨id, t, -, hrows⟩
  · exact ⟨row, by rw [hsame]; exact hfound, haggregate⟩
  · refine ⟨claimed batch s.now row, ?_, ?_⟩
    · rw [hrows, Keyed.find?_map, hfound]
      rfl
    · unfold claimed
      split_ifs <;> exact haggregate
  · refine ⟨if row.id = id then change.apply s.now row else row, ?_, ?_⟩
    · rw [hrows, Keyed.find?_modify, hfound]
      rfl
    · split_ifs
      · cases change <;> exact haggregate
      · exact haggregate
  · obtain ⟨hmem, hid⟩ := Keyed.of_find? hfound
    refine ⟨row, ?_, haggregate⟩
    rw [hrows, ← hid]
    exact Keyed.find?_insert_of_mem hmem

theorem has_outstanding {s : State T R} {t : T} {row : OutboxRow T R}
    (h : s.outstanding t = some row) : s.Has (t, row.id) := by
  unfold State.outstanding at h
  have hmeets := List.find?_some h
  have haggregate := (of_decide_eq_true hmeets).1
  exact ⟨row, Keyed.find?_of_mem (List.mem_of_find?_eq_some h), haggregate⟩

/-- The row of an enqueue that is reported is the outstanding one, or the one that has been
inserted. -/
theorem has_of_reported {s : State T R} {t : T} {id : R} {answer : DbAnswer} {pair : T × R}
    (h : pair ∈ (step batchSize (.insert id answer) s (.inserting t)).1.outboxed) :
    pair ∈ s.outboxed ∨ (step batchSize (.insert id answer) s (.inserting t)).1.Has pair := by
  cases houtstanding : s.outstanding t with
  | some row =>
    have hrows : (step batchSize (.insert id answer) s (.inserting t)).1 =
        s.report t row.id answer := by
      simp only [step, insert, houtstanding]
    rw [hrows] at h ⊢
    unfold State.report at h ⊢
    split_ifs at h ⊢
    · rcases List.mem_cons.1 h with rfl | hold
      · exact Or.inr (has_outstanding houtstanding)
      · exact Or.inl hold
    · exact Or.inl h
  | none =>
    by_cases hfresh : s.rows.find? id = none
    · have hrows : (step batchSize (.insert id answer) s (.inserting t)).1 =
          (s.insert t id answer).report t id answer := by
        simp only [step, insert, houtstanding, if_pos hfresh]
      rw [hrows] at h ⊢
      by_cases hanswer : answer = .answered
      · subst hanswer
        rcases List.mem_cons.1 h with rfl | hold
        · refine Or.inr ⟨.insert id t s.now, ?_, rfl⟩
          exact (Keyed.find?_insert hfresh id).trans (if_pos rfl)
        · exact Or.inl hold
      · simp only [State.report, if_neg hanswer, State.insert] at h
        split_ifs at h <;> exact Or.inl h
    · have hrows : (step batchSize (.insert id answer) s (.inserting t)).1 = s := by
        simp only [step, insert, houtstanding, if_neg hfresh]
      rw [hrows] at h
      exact Or.inl h

theorem outboxed_step {s : State T R} (h : ∀ pair ∈ s.outboxed, s.Has pair) (input : Input T R)
    (phase : Phase T R) :
    ∀ pair ∈ (step batchSize input s phase).1.outboxed,
      (step batchSize input s phase).1.Has pair := by
  intro pair hpair
  have hcases : pair ∈ s.outboxed ∨ (step batchSize input s phase).1.Has pair := by
    cases input with
    | insert id answer =>
      cases phase with
      | inserting t => exact has_of_reported hpair
      | _ => exact Or.inl hpair
    | _ =>
      rw [step_outboxed batchSize _ s phase (by simp)] at hpair
      exact Or.inl hpair
  rcases hcases with hold | hnew
  · exact has_step (h pair hold) input phase
  · exact hnew

/-- A relay that marks a row as published has handed its job to the queue. -/
def Informed (s : State T R) (phase : Phase T R) : Prop :=
  ∀ id, phase.statement = some (id, .markPublished) → id ∈ s.accepted

def AllSound (s : State T R) : Prop := ∀ row ∈ s.rows.rows, row.Sound (row.id ∈ s.accepted)

theorem informed_mono {s : State T R} {other : Phase T R} (h : Informed s other)
    (input : Input T R) (phase : Phase T R) : Informed (step batchSize input s phase).1 other :=
  fun id hstatement => step_accepted batchSize input s phase (h id hstatement)

theorem allSound_step {s : State T R} {phase : Phase T R} (hs : AllSound s)
    (h : Informed s phase) (input : Input T R) : AllSound (step batchSize input s phase).1 := by
  intro row hrow
  have hsub := step_accepted batchSize input s phase
  rcases step_rows batchSize input s phase with
    hsame | ⟨batch, -, hrows⟩ | ⟨id, change, hstatement, -, hrows⟩ | ⟨id, t, -, hrows⟩
  · rw [hsame] at hrow
    exact (hs row hrow).mono fun hmem => hsub hmem
  · rw [hrows] at hrow
    obtain ⟨old, hold, rfl⟩ := List.mem_map.1 hrow
    rw [claimed_id]
    unfold claimed
    split_ifs
    · exact sound_claim _ old s.now
    · exact (hs old hold).mono fun hmem => hsub hmem
  · rw [hrows, Keyed.mem_modify] at hrow
    obtain ⟨old, hold, rfl⟩ := hrow
    split_ifs with hid
    · rw [Change.apply_id]
      apply sound_apply
      rintro rfl
      rw [hid]
      exact hsub (h id hstatement)
    · exact (hs old hold).mono fun hmem => hsub hmem
  · rw [hrows] at hrow
    rcases Keyed.mem_insert_cases hrow with hold | rfl
    · exact (hs row hold).mono fun hmem => hsub hmem
    · exact sound_insert _ id t s.now

omit [DecidableEq T] [DecidableEq R] in
theorem informed_replay (s : State T R) (rest : List R) (summary : DrainSummary) :
    Informed s (.replay rest summary) := by
  cases rest <;> simp [Informed, Phase.replay, Phase.statement]

omit [DecidableEq T] [DecidableEq R] in
theorem informed_of_silent {s : State T R} {phase : Phase T R} (h : phase.statement = none) :
    Informed s phase := by
  simp [Informed, h]

theorem insert_silent (id : R) (t : T) (answer : DbAnswer) (s : State T R) :
    (insert id answer s (.inserting t)).2.statement = none := by
  simp only [insert]
  cases s.outstanding t with
  | some row =>
    simp only
    split_ifs <;> rfl
  | none =>
    by_cases hfresh : s.rows.find? id = none
    · simp only [if_pos hfresh]
      split_ifs <;> rfl
    · simp only [if_neg hfresh]
      rfl

omit [DecidableEq T] [DecidableEq R] in
/-- After the result of a replay there is another dispatch, a release or a failure. -/
theorem informed_next (s : State T R) (phase : Phase T R) (h : phase.statement ≠ none)
    (answer : DbAnswer) (unavailable : Bool) : Informed s (phase.next answer unavailable) := by
  cases phase with
  | publishing row rest summary =>
    simp only [Phase.next]
    split_ifs
    · exact informed_replay s _ _
    · simp [Informed, Phase.defer, Phase.statement]
    · simp [Informed, Phase.statement]
  | failing row rest summary =>
    simp only [Phase.next]
    split_ifs
    · exact informed_replay s _ _
    · exact informed_of_silent rfl
  | releasing row rest summary =>
    simp only [Phase.next]
    split_ifs
    · cases rest <;> simp [Informed, Phase.release, Phase.statement]
    · exact informed_of_silent rfl
  | _ => exact absurd rfl h

theorem informed_step {s : State T R} {phase : Phase T R} (h : Informed s phase)
    (input : Input T R) :
    Informed (step batchSize input s phase).1 (step batchSize input s phase).2 := by
  cases input with
  | passes elapsed => exact informed_mono h (.passes elapsed) phase
  | enqueueWithOutboxFallback t =>
    simp only [step]
    split_ifs
    · exact informed_of_silent rfl
    · exact h
  | drainTransactionOutbox =>
    simp only [step]
    split_ifs
    · exact informed_of_silent rfl
    · exact h
  | dispatch outcome =>
    cases phase with
    | enqueueing t => cases outcome <;> exact informed_of_silent rfl
    | dispatching row rest summary =>
      cases outcome with
      | accepted =>
        rintro id ⟨⟩
        exact List.mem_cons_self
      | unavailable => simp [step, dispatch, Phase.defer, Informed, Phase.statement]
      | failed => simp [step, dispatch, Informed, Phase.statement]
    | _ => exact h
  | insert id answer =>
    cases phase with
    | inserting t => exact informed_of_silent (insert_silent id t answer s)
    | _ => exact h
  | claim batch answer =>
    cases phase with
    | claiming =>
      simp only [step, claim]
      by_cases hclaims : s.Claims batchSize batch
      · simp only [if_pos hclaims]
        split_ifs <;> first | exact informed_replay _ _ _ | exact informed_of_silent rfl
      · simp only [if_neg hclaims]
        exact informed_of_silent rfl
    | _ => exact h
  | query answer unavailable =>
    simp only [step, query]
    cases hstatement : phase.statement with
    | none => exact h
    | some sent => exact informed_next _ phase (by simp [hstatement]) answer unavailable
  | crash => exact informed_of_silent rfl

end Kept

/-! ## The count of the attempts -/

section Counts

variable [DecidableEq T] [DecidableEq R] {batchSize : ℕ}

def State.attempts (s : State T R) (id : R) : ℕ :=
  ((s.rows.find? id).map fun row => row.attempts).getD 0

/-- A relay is about to count an attempt. -/
def Phase.charging (id : R) (phase : Phase T R) : ℕ :=
  if phase.statement = some (id, .markFailed) then 1 else 0

theorem attempts_step (batchSize : ℕ) (input : Input T R) (s : State T R) (phase : Phase T R)
    (id : R) :
    (step batchSize input s phase).1.attempts id ≤
      s.attempts id + if input.Executes then phase.charging id else 0 := by
  rcases step_rows batchSize input s phase with
    hsame | ⟨batch, -, hrows⟩ | ⟨id', change, hstatement, hexecutes, hrows⟩ |
    ⟨id', t, hfresh, hrows⟩
  · simp [State.attempts, hsame]
  · simp only [State.attempts, hrows, Keyed.find?_map]
    cases s.rows.find? id with
    | none => simp
    | some row =>
      simp only [Option.map_some, Option.getD_some, claimed]
      split_ifs <;> simp [OutboxRow.claim]
  · simp only [State.attempts, hrows, Keyed.find?_modify, if_pos hexecutes]
    cases hfound : s.rows.find? id with
    | none => simp
    | some row =>
      have hid := (Keyed.of_find? hfound).2
      simp only [Option.map_some, Option.getD_some, hid, Phase.charging, hstatement]
      by_cases hsame : id = id'
      · subst hsame
        cases change <;> simp [Change.apply]
      · simp [hsame]
  · have hfind : (step batchSize input s phase).1.rows.find? id =
        if id = id' then some (.insert id' t s.now) else s.rows.find? id := by
      rw [hrows]
      exact Keyed.find?_insert hfresh id
    by_cases hid : id = id'
    · rw [if_pos hid] at hfind
      simp [State.attempts, hfind, OutboxRow.insert]
    · rw [if_neg hid] at hfind
      simp [State.attempts, hfind]

omit [DecidableEq T] in
theorem charging_of_silent {phase : Phase T R} (h : phase.statement = none) (id : R) :
    phase.charging id = 0 := by
  simp [Phase.charging, h]

omit [DecidableEq T] in
theorem charging_replay (rest : List R) (summary : DrainSummary) (id : R) :
    (Phase.replay rest summary : Phase T R).charging id = 0 := by
  cases rest <;> exact charging_of_silent rfl id

omit [DecidableEq T] in
theorem charging_threw (id : R) : (Phase.threw : Phase T R).charging id = 0 :=
  charging_of_silent rfl id

/-- Without a statement for a result, nothing but an error of a dispatch is charged. -/
theorem charging_step (batchSize : ℕ) {input : Input T R}
    (h : ∀ answer unavailable, input ≠ .query answer unavailable) (s : State T R)
    (phase : Phase T R) (id : R) :
    (step batchSize input s phase).2.charging id + s.errors.count id ≤
      (step batchSize input s phase).1.errors.count id + phase.charging id := by
  cases input with
  | passes elapsed => simp only [step]; omega
  | enqueueWithOutboxFallback t =>
    simp only [step]
    split_ifs
    · rw [charging_of_silent rfl]
      omega
    · omega
  | drainTransactionOutbox =>
    simp only [step]
    split_ifs
    · rw [charging_of_silent rfl]
      omega
    · omega
  | dispatch outcome =>
    cases phase with
    | dispatching row rest summary =>
      cases outcome with
      | accepted => simp [step, dispatch, State.accept, Phase.charging, Phase.statement]
      | unavailable => simp [step, dispatch, Phase.defer, Phase.charging, Phase.statement]
      | failed =>
        by_cases hrow : row = id <;>
          simp [step, dispatch, State.err, Phase.charging, Phase.statement, hrow]
        omega
    | enqueueing t =>
      cases outcome <;> simp [step, dispatch, Phase.charging, Phase.statement]
    | _ => simp only [step, dispatch]; omega
  | insert id' answer =>
    cases phase with
    | inserting t =>
      simp only [step, (insert_frame id' answer s _).2]
      rw [charging_of_silent (insert_silent id' t answer s)]
      omega
    | _ => simp only [step, insert]; omega
  | claim batch answer =>
    cases phase with
    | claiming =>
      simp only [step, claim]
      by_cases hclaims : s.Claims batchSize batch
      · simp only [if_pos hclaims]
        split_ifs <;> simp [charging_replay, charging_threw]
      · simp only [if_neg hclaims]
        omega
    | _ => simp only [step, claim]; omega
  | query answer unavailable => exact absurd rfl (h answer unavailable)
  | crash =>
    simp only [step]
    rw [charging_of_silent rfl]
    omega

omit [DecidableEq T] in
/-- The error of `markPublished` is noted in the turn in which the relay begins to charge it. -/
theorem charging_next (s s' : State T R) (phase : Phase T R) (id : R) (answer : DbAnswer)
    (unavailable : Bool) (h : phase.statement ≠ none) (herrors : s'.errors = s.errors) :
    (phase.next answer unavailable).charging id + s.errors.count id ≤
      (s'.note answer unavailable phase).errors.count id := by
  cases phase with
  | publishing row rest summary =>
    simp only [Phase.next, State.note]
    by_cases hanswer : answer = .answered
    · simp [hanswer, charging_replay, herrors]
    · cases unavailable with
      | true => simp [hanswer, Phase.defer, Phase.charging, Phase.statement, herrors]
      | false =>
        by_cases hrow : row = id <;>
          simp [hanswer, State.err, Phase.charging, Phase.statement, herrors, hrow]
        omega
  | failing row rest summary =>
    simp only [Phase.next, State.note, herrors]
    split_ifs
    · simp [charging_replay]
    · simp [charging_threw]
  | releasing row rest summary =>
    simp only [Phase.next, State.note, herrors]
    split_ifs
    · cases rest <;> simp [Phase.release, Phase.charging, Phase.statement]
    · simp [charging_threw]
  | _ => exact absurd rfl h

/-- An attempt that is to be counted, or has just been, is one for an error. -/
theorem charges_step (s : State T R) (phase : Phase T R) (input : Input T R) (id : R) :
    (step batchSize input s phase).1.attempts id + (step batchSize input s phase).2.charging id +
        s.errors.count id ≤
      (step batchSize input s phase).1.errors.count id + (s.attempts id + phase.charging id) := by
  have hattempts := attempts_step batchSize input s phase id
  by_cases hquery : ∃ answer unavailable, input = .query answer unavailable
  · obtain ⟨answer, unavailable, rfl⟩ := hquery
    have hbound : (step batchSize (.query answer unavailable) s phase).1.attempts id ≤
        s.attempts id + phase.charging id := by
      split_ifs at hattempts <;> omega
    simp only [step, query] at hbound ⊢
    cases hstatement : phase.statement with
    | none => simp only; omega
    | some sent =>
      simp only [hstatement] at hbound ⊢
      have hcharging := charging_next s (if answer.executed then s.execute sent.1 sent.2 else s)
        phase id answer unavailable (by simp [hstatement]) (by split_ifs <;> rfl)
      omega
  · have hidle : ¬ input.Executes := by
      cases input with
      | query answer unavailable => exact absurd ⟨answer, unavailable, rfl⟩ hquery
      | _ => exact not_false
    rw [if_neg hidle] at hattempts
    have hcharging := charging_step batchSize
      (fun answer unavailable h => hquery ⟨answer, unavailable, h⟩) s phase id
    omega

end Counts

/-! ## The law -/

/-- An enqueue that is reported as outboxed has a row that can be claimed, until the queue has
its job or the attempts are used up; what is published stays published; and every attempt that
is counted was an error that is no outage. -/
structure State.Lawful [DecidableEq R] (s : State T R) : Prop where
  kept : ∀ pair ∈ s.outboxed, ∃ row ∈ s.rows.find? pair.2, row.aggregateId = pair.1 ∧
    (row.Claimable ∨ pair.2 ∈ s.accepted ∨ row.maxAttempts ≤ row.attempts)
  absorbing : ∀ row ∈ s.rows.rows, row.Settled
  spared : ∀ row ∈ s.rows.rows, row.attempts ≤ s.errors.count row.id

section Law

variable [DecidableEq T] [DecidableEq R] [DecidableEq ι] {batchSize : ℕ}

/-- A release or a failure whose statement is executed finds a row that is not published. -/
def Timely (w : World T R ι) (turn : ι × Input T R) : Prop :=
  ∀ sent ∈ (w.locals turn.1).statement, turn.2.Executes → sent.2 ≠ .markPublished →
    ∀ row ∈ w.shared.rows.find? sent.1, row.status ≠ .published

instance (w : World T R ι) (turn : ι × Input T R) : Decidable (Timely w turn) :=
  inferInstanceAs (Decidable (∀ _ ∈ _, _ → _ → ∀ _ ∈ _, _))

/-- What all runs keep. -/
structure Kept (w : World T R ι) : Prop where
  sound : Holds AllSound Informed w
  outboxed : ∀ pair ∈ w.shared.outboxed, w.shared.Has pair
  covered : ∀ id, Covered (Phase.charging id) (State.attempts · id)
    (fun s => s.errors.count id) w

theorem kept_advance {w : World T R ι} (h : Kept w) (turn : ι × Input T R) :
    Kept (advance (step batchSize) w turn) := by
  obtain ⟨i, input⟩ := turn
  have hmover := h.sound.2 i
  refine ⟨holds_advance h.sound ⟨?_, ?_⟩ ?_, ?_, ?_⟩
  · exact allSound_step h.sound.1 hmover input
  · exact informed_step hmover input
  · exact fun other hother => informed_mono hother input (w.locals i)
  · exact outboxed_step h.outboxed input (w.locals i)
  · exact fun id => covered_advance (h.covered id) (charges_step w.shared (w.locals i) input id)

omit [DecidableEq T] [DecidableEq ι] in
theorem lawful_of_kept {w : World T R ι} (h : Kept w)
    (hsettled : ∀ row ∈ w.shared.rows.rows, row.Settled) : w.shared.Lawful := by
  refine ⟨?_, hsettled, ?_⟩
  · intro pair hpair
    obtain ⟨row, hfound, haggregate⟩ := h.outboxed pair hpair
    obtain ⟨hmem, hid⟩ := Keyed.of_find? hfound
    have hkept := (h.sound.1 row hmem).kept
    rw [hid] at hkept
    exact ⟨row, hfound, haggregate, hkept⟩
  · intro row hmem
    have hcovered := h.covered row.id ∅
    have hfound := Keyed.find?_of_mem hmem
    simpa [State.attempts, hfound] using hcovered

omit [DecidableEq T] [DecidableEq R] [DecidableEq ι] in
/-- A row that is not published now has never been. -/
theorem OutboxRow.Settled.unpublished {row : OutboxRow T R} (h : row.Settled)
    (hstatus : row.status ≠ .published) : row.publishedAt = none := by
  by_contra hpublished
  exact hstatus (h hpublished)

omit [DecidableEq T] [DecidableEq R] [DecidableEq ι] in
theorem OutboxRow.Ready.not_published {row : OutboxRow T R} {now : ℕ} (h : row.Ready now) :
    row.status ≠ .published := by
  rintro hstatus
  simp [OutboxRow.Ready, hstatus] at h

theorem settled_advance {w : World T R ι} {turn : ι × Input T R}
    (h : ∀ row ∈ w.shared.rows.rows, row.Settled) (htimely : Timely w turn) :
    ∀ row ∈ (advance (step batchSize) w turn).shared.rows.rows, row.Settled := by
  intro row hrow
  rw [advance_shared] at hrow
  rcases step_rows batchSize turn.2 w.shared (w.locals turn.1) with
    hsame | ⟨batch, hclaims, hrows⟩ | ⟨id, change, hstatement, hexecutes, hrows⟩ |
    ⟨id, t, -, hrows⟩
  · rw [hsame] at hrow
    exact h row hrow
  · rw [hrows] at hrow
    obtain ⟨old, hold, rfl⟩ := List.mem_map.1 hrow
    unfold claimed
    split_ifs with hbatch
    · obtain ⟨ready, hfound, hready⟩ := hclaims.2 old.id hbatch
      obtain rfl : ready = old := by
        rw [Keyed.find?_of_mem hold] at hfound
        exact (Option.some.inj hfound).symm
      have hnever := (h ready hold).unpublished hready.not_published
      simp [OutboxRow.Settled, OutboxRow.claim, hnever]
    · exact h old hold
  · rw [hrows, Keyed.mem_modify] at hrow
    obtain ⟨old, hold, rfl⟩ := hrow
    split_ifs with hid
    · by_cases hpublish : change = .markPublished
      · subst hpublish
        exact fun _ => rfl
      · have hfound : w.shared.rows.find? id = some old := by
          rw [← hid]
          exact Keyed.find?_of_mem hold
        have hstatus := htimely (id, change) hstatement hexecutes hpublish old hfound
        have hnever := (h old hold).unpublished hstatus
        cases change with
        | markPublished => exact absurd rfl hpublish
        | release => simp [OutboxRow.Settled, Change.apply, hnever]
        | markFailed => simp [OutboxRow.Settled, Change.apply, hnever]
    · exact h old hold
  · rw [hrows] at hrow
    rcases Keyed.mem_insert_cases hrow with hold | rfl
    · exact h row hold
    · simp [OutboxRow.Settled, OutboxRow.insert]

theorem rows_executed {s : State T R} {phase : Phase T R} {input : Input T R} {id : R}
    {change : Change} (hstatement : phase.statement = some (id, change))
    (hexecutes : input.Executes) : (step batchSize input s phase).1.rows =
      s.rows.modify id (fun row => change.apply s.now row) (change.apply_id s.now) := by
  cases input with
  | query answer unavailable =>
    have hexecuted : answer.executed = true := hexecutes
    simp only [step, query, hstatement, (note_rows _ answer unavailable phase).1]
    rw [if_pos hexecuted]
    rfl
  | _ => exact absurd hexecutes not_false

/-- A late result takes a published row back. -/
theorem timely_of_settled {w : World T R ι} {turn : ι × Input T R} (hsound : AllSound w.shared)
    (h : ∀ row ∈ (advance (step batchSize) w turn).shared.rows.rows, row.Settled) :
    Timely w turn := by
  rintro ⟨id, change⟩ hstatement hexecutes hchange row hfound hstatus
  obtain ⟨hmem, hid⟩ := Keyed.of_find? hfound
  have hpublished := ((hsound row hmem).published hstatus).1
  have hsettled : (change.apply w.shared.now row).Settled := by
    apply h
    rw [advance_shared, rows_executed hstatement hexecutes, Keyed.mem_modify]
    exact ⟨row, hmem, by rw [if_pos hid]⟩
  cases change with
  | markPublished => exact hchange rfl
  | release => exact absurd (hsettled hpublished) (by simp [Change.apply])
  | markFailed => exact absurd (hsettled hpublished) (by simp [Change.apply])

/-- In every run no outboxed enqueue is lost and no outage counts as an attempt; what is published
stays so, just when no result comes in late. -/
theorem outbox_lawful_iff (batchSize : ℕ) (schedule : List (ι × Input T R)) :
    (∀ pre, pre <+: schedule → (run (step batchSize) World.init pre).shared.Lawful) ↔
      Runs.Every (advance (step batchSize)) Timely World.init schedule := by
  apply Runs.forall_prefix_iff_every_of_inv (fun w : World T R ι => w.shared.Lawful) fun w =>
    Kept w ∧ ∀ row ∈ w.shared.rows.rows, row.Settled
  · exact fun w h => lawful_of_kept h.1 h.2
  · exact fun w turn h htimely => ⟨kept_advance h.1 turn, settled_advance h.2 htimely⟩
  · exact fun w turn h hlawful => timely_of_settled h.1.sound.1 hlawful.absorbing
  · refine ⟨⟨⟨?_, ?_⟩, ?_, ?_⟩, ?_⟩
    · simp [World.init, AllSound]
    · exact fun _ => informed_of_silent rfl
    · simp [World.init]
    · intro id processes
      simp [World.init, State.attempts, Keyed.find?, Phase.charging, Phase.statement]
    · simp [World.init]

end Law

/-- While the first relay waits for its statement about row 1, row 2 of its batch goes stale, and
the second relay takes it over and publishes it. Then Redis is down, and the first relay releases
row 2. -/
theorem late_release_reopens :
    let schedule : List (ℕ × Input ℕ ℕ) :=
      [(0, .enqueueWithOutboxFallback 7), (0, .dispatch .unavailable), (0, .insert 1 .answered),
        (0, .enqueueWithOutboxFallback 8), (0, .dispatch .unavailable), (0, .insert 2 .answered),
        (1, .drainTransactionOutbox), (1, .claim [1, 2] .answered), (1, .dispatch .accepted),
        (1, .passes 121000), (2, .drainTransactionOutbox), (2, .claim [2] .answered),
        (2, .dispatch .accepted), (2, .query .answered false), (1, .query .answered false),
        (1, .dispatch .unavailable), (1, .query .answered false)]
    let w := run (step 50) World.init schedule
    w.shared.rows.rows = [⟨1, 7, .published, 0, 5, none, some 121000, 121000⟩,
        ⟨2, 8, .pending, 0, 5, some 126000, some 121000, 121000⟩] ∧ ¬ w.shared.Lawful := by
  intro schedule w
  have hrows : w.shared.rows.rows = [⟨1, 7, .published, 0, 5, none, some 121000, 121000⟩,
      ⟨2, 8, .pending, 0, 5, some 126000, some 121000, 121000⟩] := by
    decide +kernel
  refine ⟨hrows, ?_⟩
  intro hlawful
  have hsettled := hlawful.absorbing ⟨2, 8, .pending, 0, 5, some 126000, some 121000, 121000⟩
    (by rw [hrows]; simp)
  exact absurd (hsettled (by decide)) (by decide)

end MobileMoney.Queue.Outbox
