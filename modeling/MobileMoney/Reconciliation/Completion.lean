import MobileMoney.Library.Answers
import MobileMoney.Library.Runs
import MobileMoney.Reconciliation.Agreement
import MobileMoney.Reconciliation.Window

/-!
# The completion of a stream

`runStreamingReconciliation` of `services/highThroughputReconciliationService.ts`, from the record
of its run on: rows are read while writes of alerts are on their way, and their inserts are answered
in any order. The list of promises is bounded, and what it drops nobody waits for.
-/

namespace MobileMoney.Reconciliation

namespace Write

def Settled (w : Write) : Prop := w.failed = true ∨ w.pending = []

def Fulfilled (w : Write) : Prop := w.failed = false ∧ w.pending = []

instance (w : Write) : Decidable w.Settled := inferInstanceAs (Decidable (_ ∨ _))

instance (w : Write) : Decidable w.Fulfilled := inferInstanceAs (Decidable (_ ∧ _))

theorem Fulfilled.settled {w : Write} (h : w.Fulfilled) : w.Settled := .inr h.2

/-- The next insert is answered, with its retries. -/
def answer (ok : Bool) (w : Write) : Write :=
  if ok then { w with pending := w.pending.tail } else { w with failed := true }

end Write

/-- The promise of `streamProcessCSV`. -/
inductive Outcome where
  | pending
  | resolved (result : StreamingResult)
  | rejected
  deriving DecidableEq, Repr

namespace Outcome

def Resolved : Outcome → Prop
  | .resolved _ => True
  | _ => False

instance : (outcome : Outcome) → Decidable outcome.Resolved
  | .resolved _ => instDecidableTrue
  | .pending => instDecidableFalse
  | .rejected => instDecidableFalse

/-- Only a promise that is pending is settled. -/
def settle (outcome settled : Outcome) : Outcome :=
  if outcome = .pending then settled else outcome

theorem settle_rejected_ne (outcome : Outcome) : outcome.settle .rejected ≠ .pending := by
  unfold settle
  split_ifs with hpending
  · exact nofun
  · exact hpending

theorem resolved_settle_rejected {outcome : Outcome} :
    (outcome.settle .rejected).Resolved ↔ outcome.Resolved := by
  cases outcome <;> exact Iff.rfl

theorem ne_pending_of_resolved {outcome : Outcome} (h : outcome.Resolved) : outcome ≠ .pending := by
  rintro rfl
  exact h

end Outcome

/-- When the rows have ended, what is left of the discrepancies is in a last write. -/
inductive Stage where
  | reading
  | broken
  | ended (flush : Option ℕ)
  deriving DecidableEq, Repr

inductive Caller where
  | awaiting
  | failing
  | finished
  deriving DecidableEq, Repr

structure StreamRun where
  rows : List ProviderCSVRow
  stream : Stream
  stage : Stage
  outcome : Outcome
  caller : Caller
  status : RunStatus
  deriving DecidableEq, Repr

inductive StreamEvent where
  | row
  | broken
  | ended
  | insert (write : ℕ) (ok : Bool)
  | settled
  | markCompleted (answer : DbAnswer)
  | markFailed (answer : DbAnswer)
  deriving DecidableEq, Repr

variable {text : Text} (config : StreamConfig) (dbByReference : DbByReference text)

namespace StreamRun

def init (rows : List ProviderCSVRow) : StreamRun :=
  ⟨rows, .init, .reading, .pending, .awaiting, .running⟩

def readRow (s : StreamRun) : StreamRun :=
  match s.rows with
  | row :: rows =>
    if s.stage = .reading then
      { s with
        rows := rows
        stream := s.stream.transform config dbByReference row }
    else s
  | [] => s

/-- The listener of `end`, up to its first await. -/
def endRows (s : StreamRun) : StreamRun :=
  if s.stage = .reading ∧ s.rows = [] then
    if s.stream.discrepancies = [] then
      { s with
        stage := .ended none
        stream := { s.stream with chunk := [] } }
    else
      { s with
        stage := .ended (some s.stream.writes.length)
        stream := { s.stream with
          chunk := []
          writes := s.stream.writes ++
            [createAlertsForDiscrepancies config s.stream.discrepancies]
          discrepancies := [] } }
  else s

/-- Whoever sees a write fail rejects. -/
def insert (s : StreamRun) (write : ℕ) (ok : Bool) : StreamRun :=
  match s.stream.writes[write]? with
  | some w =>
    if w.Settled then s
    else
      { s with
        stream := { s.stream with writes := s.stream.writes.modify write (Write.answer ok) }
        outcome := if ok then s.outcome else s.outcome.settle .rejected }
  | none => s

/-- What the listener of `end` waits for. -/
def Awaited (s : StreamRun) (flush : Option ℕ) : Prop :=
  (∀ i ∈ flush, ∀ w ∈ s.stream.writes[i]?, w.Fulfilled) ∧
    ∀ i ∈ s.stream.batchPromises, ∀ w ∈ s.stream.writes[i]?, w.Settled

instance (s : StreamRun) (flush : Option ℕ) : Decidable (s.Awaited flush) :=
  inferInstanceAs (Decidable (_ ∧ _))

def resolve (s : StreamRun) : StreamRun :=
  match s.stage with
  | .ended flush =>
    if s.Awaited flush then
      { s with outcome := s.outcome.settle (.resolved (s.stream.result dbByReference)) }
    else s
  | _ => s

/-- `updateReconciliationRun`, and the `catch` where it fails. -/
def markCompleted (s : StreamRun) (answer : DbAnswer) : StreamRun :=
  if s.caller = .awaiting ∧ s.outcome.Resolved then
    { s with
      status := if answer.executed then .completed else s.status
      caller := if answer = .answered then .finished else .failing }
  else s

def markFailed (s : StreamRun) (answer : DbAnswer) : StreamRun :=
  if s.caller = .failing ∨ s.caller = .awaiting ∧ s.outcome = .rejected then
    { s with
      status := if answer.executed then .failed else s.status
      caller := .finished }
  else s

def step (s : StreamRun) : StreamEvent → StreamRun
  | .row => s.readRow config dbByReference
  | .broken =>
    if s.stage = .reading then
      { s with
        stage := .broken
        outcome := s.outcome.settle .rejected }
    else s
  | .ended => s.endRows config
  | .insert write ok => s.insert write ok
  | .settled => s.resolve dbByReference
  | .markCompleted answer => s.markCompleted answer
  | .markFailed answer => s.markFailed answer

/-! ## The law -/

/-- A completed run has handed all its discrepancies to writes, and all of these are done. -/
structure Law (s : StreamRun) : Prop where
  rows : s.status = .completed → s.rows = [] ∧ s.stream.discrepancies = []
  writes : s.status = .completed → ∀ w ∈ s.stream.writes, w.Fulfilled

/-- Nobody waits for it. -/
def Dropped (s : StreamRun) (write : ℕ) : Prop :=
  write ∉ s.stream.batchPromises ∧ s.stage ≠ .ended (some write)

/-- When the run is marked completed, the writes that have been dropped are done. -/
def Careful (s : StreamRun) : StreamEvent → Prop
  | .markCompleted answer => s.caller = .awaiting → s.outcome.Resolved → answer.executed = true →
      ∀ i w, s.stream.writes[i]? = some w → s.Dropped i → w.Fulfilled
  | _ => True

/-! ## What a run keeps -/

/-- While the promise is pending no write has failed, and once it is resolved what was waited for
is done. -/
structure Inv (s : StreamRun) : Prop where
  unfailed : s.outcome = .pending → ∀ w ∈ s.stream.writes, w.failed = false
  ended : ∀ flush, s.stage = .ended flush → s.rows = [] ∧ s.stream.discrepancies = []
  resolved : s.outcome.Resolved → ∃ flush, s.stage = .ended flush
  awaited : s.outcome.Resolved → ∀ i w, s.stream.writes[i]? = some w → ¬s.Dropped i → w.Fulfilled
  completed : s.status = .completed → s.outcome.Resolved ∧ ∀ w ∈ s.stream.writes, w.Fulfilled

theorem Inv.law {s : StreamRun} (h : s.Inv) : s.Law where
  rows hstatus := by
    obtain ⟨flush, hstage⟩ := h.resolved (h.completed hstatus).1
    exact h.ended flush hstage
  writes hstatus := (h.completed hstatus).2

theorem inv_init (rows : List ProviderCSVRow) : (init rows).Inv where
  unfailed _ := by simp [init, Stream.init]
  ended _ := nofun
  resolved := nofun
  awaited := nofun
  completed := nofun

theorem failed_of_mem_push {normalized : ProviderCSVRow} {s : Stream} {w : Write}
    (h : w ∈ (s.push config normalized).writes) : w ∈ s.writes ∨ w.failed = false := by
  unfold Stream.push Stream.startBatch at h
  split_ifs at h
  · exact .inl h
  · rcases List.mem_append.1 h with h | h
    · exact .inl h
    · rw [List.mem_singleton.1 h]
      exact .inr rfl
  · exact .inl h

theorem writes_examine (normalized : ProviderCSVRow) (s : Stream) :
    (s.examine dbByReference normalized).writes = s.writes := by
  unfold Stream.examine
  split
  · split_ifs <;> rfl
  · rfl

/-- A row starts at most writes that have not failed. -/
theorem failed_of_mem_transform {s : Stream} {row : ProviderCSVRow} {w : Write}
    (h : w ∈ (s.transform config dbByReference row).writes) : w ∈ s.writes ∨ w.failed = false := by
  unfold Stream.transform at h
  split_ifs at h
  · have := failed_of_mem_push config h
    rwa [writes_examine] at this
  · exact .inl h

variable {config dbByReference}

theorem Inv.not_resolved {s : StreamRun} (h : s.Inv) (hstage : ∀ flush, s.stage ≠ .ended flush) :
    ¬s.outcome.Resolved := by
  intro hresolved
  obtain ⟨flush, hended⟩ := h.resolved hresolved
  exact hstage flush hended

theorem inv_readRow {s : StreamRun} (h : s.Inv) : (s.readRow config dbByReference).Inv := by
  unfold readRow
  split
  · by_cases hstage : s.stage = .reading
    · rw [if_pos hstage]
      have unresolved := h.not_resolved (by simp [hstage])
      refine ⟨fun hpending w hw => ?_, ?_, ?_, ?_, ?_⟩
      · exact (failed_of_mem_transform config dbByReference hw).elim (h.unfailed hpending w) id
      · intro flush hended
        rw [hstage] at hended
        cases hended
      · exact fun hresolved => absurd hresolved unresolved
      · exact fun hresolved => absurd hresolved unresolved
      · exact fun hstatus => absurd (h.completed hstatus).1 unresolved
    · rw [if_neg hstage]
      exact h
  · exact h

theorem inv_endRows {s : StreamRun} (h : s.Inv) : (s.endRows config).Inv := by
  unfold endRows
  by_cases hguard : s.stage = .reading ∧ s.rows = []
  · rw [if_pos hguard]
    have unresolved := h.not_resolved (by simp [hguard.1])
    split_ifs with hdiscrepancies
    · exact ⟨h.unfailed, fun _ _ => ⟨hguard.2, hdiscrepancies⟩,
        fun hresolved => absurd hresolved unresolved,
        fun hresolved => absurd hresolved unresolved,
        fun hstatus => absurd (h.completed hstatus).1 unresolved⟩
    · refine ⟨fun hpending w hw => ?_, fun _ _ => ⟨hguard.2, rfl⟩,
        fun hresolved => absurd hresolved unresolved,
        fun hresolved => absurd hresolved unresolved,
        fun hstatus => absurd (h.completed hstatus).1 unresolved⟩
      rcases List.mem_append.1 hw with hw | hw
      · exact h.unfailed hpending w hw
      · rw [List.mem_singleton.1 hw]
        rfl
  · rw [if_neg hguard]
    exact h

theorem getElem?_of_modify {α : Type*} {l : List α} {f : α → α} {i j : ℕ} {b : α}
    (h : (l.modify i f)[j]? = some b) : ∃ a, l[j]? = some a ∧ b = if i = j then f a else a := by
  rw [List.getElem?_modify] at h
  obtain ⟨a, ha, rfl⟩ := Option.map_eq_some_iff.1 h
  refine ⟨a, ha, ?_⟩
  split_ifs <;> rfl

theorem inv_insert {s : StreamRun} (h : s.Inv) (write : ℕ) (ok : Bool) :
    (s.insert write ok).Inv := by
  unfold insert
  cases hwrite : s.stream.writes[write]? with
  | none => exact h
  | some w =>
    by_cases hsettled : w.Settled
    · simp only [if_pos hsettled]
      exact h
    · simp only [if_neg hsettled]
      have outcome : (if ok then s.outcome else s.outcome.settle .rejected).Resolved →
          s.outcome.Resolved := by
        cases ok with
        | true => exact id
        | false => exact Outcome.resolved_settle_rejected.1
      -- What was done is not what has been answered.
      have done_ : ∀ (i : ℕ) (w' : Write),
          (s.stream.writes.modify write (Write.answer ok))[i]? = some w' →
          (∀ w : Write, s.stream.writes[i]? = some w → w.Fulfilled) → w'.Fulfilled := by
        intro i w' hw' hfulfilled
        obtain ⟨old, hold, rfl⟩ := getElem?_of_modify hw'
        by_cases hi : write = i
        · subst hi
          rw [hwrite] at hold
          cases hold
          exact absurd (hfulfilled _ hwrite).settled hsettled
        · rw [if_neg hi]
          exact hfulfilled old hold
      refine ⟨fun hpending w' hw' => ?_, h.ended, fun hresolved => h.resolved (outcome hresolved),
        fun hresolved i w' hw' hdropped => ?_, fun hstatus => ?_⟩
      · cases ok with
        | true =>
          obtain ⟨i, hi⟩ := List.mem_iff_getElem?.1 hw'
          obtain ⟨old, hold, rfl⟩ := getElem?_of_modify hi
          have unfailed := h.unfailed hpending old (List.mem_of_getElem? hold)
          split_ifs
          · exact unfailed
          · exact unfailed
        | false => exact absurd hpending (Outcome.settle_rejected_ne _)
      · exact done_ i w' hw' fun old hold => h.awaited (outcome hresolved) i old hold hdropped
      · have fulfilled := (h.completed hstatus).2 w (List.mem_of_getElem? hwrite)
        exact absurd fulfilled.settled hsettled

theorem inv_resolve {s : StreamRun} (h : s.Inv) : (s.resolve dbByReference).Inv := by
  unfold resolve
  split
  · rename_i flush hstage
    by_cases hawaited : s.Awaited flush
    · rw [if_pos hawaited]
      by_cases hpending : s.outcome = .pending
      · have fulfilled : ∀ i w, s.stream.writes[i]? = some w → ¬s.Dropped i → w.Fulfilled := by
          intro i w hw hdropped
          have unfailed := h.unfailed hpending w (List.mem_of_getElem? hw)
          rcases not_and_or.1 hdropped with hpromise | hflush
          · rcases hawaited.2 i (not_not.1 hpromise) w hw with hfailed | hdone
            · rw [unfailed] at hfailed
              cases hfailed
            · exact ⟨unfailed, hdone⟩
          · rw [hstage, ne_eq, not_not] at hflush
            cases hflush
            exact hawaited.1 i rfl w hw
        refine ⟨fun hsettled => ?_, h.ended, fun _ => ⟨flush, hstage⟩, fun _ => fulfilled, ?_⟩
        · rw [Outcome.settle, if_pos hpending] at hsettled
          cases hsettled
        · intro hstatus
          exact absurd hpending (Outcome.ne_pending_of_resolved (h.completed hstatus).1)
      · rw [Outcome.settle, if_neg hpending]
        exact h
    · rw [if_neg hawaited]
      exact h
  · exact h

theorem inv_markCompleted {s : StreamRun} (h : s.Inv) {answer : DbAnswer}
    (hcareful : s.Careful (.markCompleted answer)) : (s.markCompleted answer).Inv := by
  unfold markCompleted
  by_cases hguard : s.caller = .awaiting ∧ s.outcome.Resolved
  · rw [if_pos hguard]
    refine ⟨h.unfailed, h.ended, h.resolved, h.awaited, fun hstatus => ⟨hguard.2, ?_⟩⟩
    cases hexecuted : answer.executed with
    | true =>
      intro w hw
      obtain ⟨i, hi⟩ := List.mem_iff_getElem?.1 hw
      by_cases hdropped : s.Dropped i
      · exact hcareful hguard.1 hguard.2 hexecuted i w hi hdropped
      · exact h.awaited hguard.2 i w hi hdropped
    | false =>
      simp only [hexecuted, Bool.false_eq_true, if_false] at hstatus
      exact (h.completed hstatus).2
  · rw [if_neg hguard]
    exact h

theorem inv_markFailed {s : StreamRun} (h : s.Inv) (answer : DbAnswer) :
    (s.markFailed answer).Inv := by
  unfold markFailed
  by_cases hguard : s.caller = .failing ∨ s.caller = .awaiting ∧ s.outcome = .rejected
  · rw [if_pos hguard]
    refine ⟨h.unfailed, h.ended, h.resolved, h.awaited, fun hstatus => ?_⟩
    cases hexecuted : answer.executed with
    | true =>
      simp only [hexecuted, if_true] at hstatus
      cases hstatus
    | false =>
      simp only [hexecuted, Bool.false_eq_true, if_false] at hstatus
      exact h.completed hstatus
  · rw [if_neg hguard]
    exact h

theorem inv_broken {s : StreamRun} (h : s.Inv) : (s.step config dbByReference .broken).Inv := by
  simp only [step]
  by_cases hstage : s.stage = .reading
  · rw [if_pos hstage]
    have unresolved := h.not_resolved (by simp [hstage])
    have still : ¬(s.outcome.settle .rejected).Resolved := fun hresolved =>
      unresolved (Outcome.resolved_settle_rejected.1 hresolved)
    exact ⟨fun hpending => absurd hpending (Outcome.settle_rejected_ne _), fun _ => nofun,
      fun hresolved => absurd hresolved still, fun hresolved => absurd hresolved still,
      fun hstatus => absurd (h.completed hstatus).1 unresolved⟩
  · rw [if_neg hstage]
    exact h

theorem inv_step (s : StreamRun) (e : StreamEvent) (h : s.Inv) (hcareful : s.Careful e) :
    (s.step config dbByReference e).Inv := by
  cases e with
  | row => exact inv_readRow h
  | broken => exact inv_broken h
  | ended => exact inv_endRows h
  | insert write ok => exact inv_insert h write ok
  | settled => exact inv_resolve h
  | markCompleted answer => exact inv_markCompleted h hcareful
  | markFailed answer => exact inv_markFailed h answer

/-- A run that is completed too early breaks the law at once. -/
theorem careful_of_law (s : StreamRun) (e : StreamEvent)
    (law : (s.step config dbByReference e).Law) : s.Careful e := by
  cases e with
  | markCompleted answer =>
    intro hcaller hresolved hexecuted i w hw _
    refine law.writes ?_ w ?_
    · simp only [step, markCompleted, hcaller, hresolved, hexecuted, and_self, if_true]
    · simp only [step, markCompleted, hcaller, hresolved, and_self, if_true]
      exact List.mem_of_getElem? hw
  | _ => trivial

variable (config dbByReference) in
/-- In every state of a run a completed reconciliation has written all its alerts if and only if,
whenever the run is marked completed, the writes that the list has dropped are done. -/
theorem completed_after_writes_iff (rows : List ProviderCSVRow) (es : List StreamEvent) :
    (∀ pre, pre <+: es → (pre.foldl (step config dbByReference) (init rows)).Law) ↔
      Runs.Every (step config dbByReference) Careful (init rows) es :=
  Runs.forall_prefix_iff_every_of_inv Law Inv (fun _ h => h.law) inv_step
    (fun s e _ law => careful_of_law s e law) (inv_init rows) es

/-! ## Few rows -/

/-- No promise has been dropped, and every batch has taken a chunk of the rows. -/
structure Undropped (config : StreamConfig) (read : ℕ) (s : Stream) : Prop where
  promises : s.batchPromises = List.range s.writes.length
  rows : s.writes.length * config.chunkSize + s.chunk.length ≤ read

theorem Undropped.mem {s : Stream} {read i : ℕ} (h : Undropped config read s)
    (hi : i < s.writes.length) : i ∈ s.batchPromises := by
  rw [h.promises]
  exact List.mem_range.2 hi

theorem undropped_examine {s : Stream} {read : ℕ} {normalized : ProviderCSVRow}
    (h : Undropped config read s) :
    Undropped config read (s.examine dbByReference normalized) := by
  unfold Stream.examine
  split
  · split_ifs <;> exact ⟨h.promises, h.rows⟩
  · exact h

theorem undropped_startBatch {s : Stream} {read : ℕ} (h : Undropped config read s)
    (hchunk : s.chunk = []) (hfull : s.writes.length * config.chunkSize + config.chunkSize ≤ read)
    (hfew : read < (config.maxConcurrentBatches + 1) * config.chunkSize) :
    Undropped config read (s.startBatch config) := by
  have hbatches : s.writes.length < config.maxConcurrentBatches := by
    by_contra hmany
    have := Nat.mul_le_mul_right config.chunkSize (not_lt.1 hmany)
    rw [Nat.succ_mul] at hfew
    omega
  unfold Stream.startBatch
  split_ifs
  · exact h
  · constructor
    · rw [List.length_append, List.length_singleton, List.range_succ, Stream.remember, h.promises,
        List.length_range, if_neg hbatches.not_ge]
    · rw [List.length_append, List.length_singleton, Nat.succ_mul, hchunk]
      exact hfull

theorem undropped_push {s : Stream} {read : ℕ} {normalized : ProviderCSVRow}
    (h : Undropped config read s)
    (hfew : read + 1 < (config.maxConcurrentBatches + 1) * config.chunkSize) :
    Undropped config (read + 1) (s.push config normalized) := by
  have rows := h.rows
  unfold Stream.push
  split_ifs with hfull
  · rw [List.length_append, List.length_singleton] at hfull
    refine undropped_startBatch ⟨h.promises, ?_⟩ rfl ?_ hfew
    · exact (Nat.le_add_right _ _).trans (rows.trans (Nat.le_succ _))
    · exact (Nat.add_le_add_left hfull _).trans (Nat.succ_le_succ rows)
  · refine ⟨h.promises, ?_⟩
    rw [List.length_append, List.length_singleton]
    exact Nat.succ_le_succ rows

theorem undropped_transform {s : Stream} {read : ℕ} {row : ProviderCSVRow}
    (h : Undropped config read s)
    (hfew : read + 1 < (config.maxConcurrentBatches + 1) * config.chunkSize) :
    Undropped config (read + 1) (s.transform config dbByReference row) := by
  have counted : Undropped config read { s with processedRows := s.processedRows + 1 } :=
    ⟨h.promises, h.rows⟩
  unfold Stream.transform
  split_ifs
  · exact undropped_push (undropped_examine counted) hfew
  · exact ⟨h.promises, h.rows.trans (Nat.le_succ _)⟩

/-- With few rows nothing is ever dropped. -/
structure Kept (config : StreamConfig) (total : ℕ) (s : StreamRun) : Prop where
  reading : s.stage = .reading →
    ∃ read, read + s.rows.length = total ∧ Undropped config read s.stream
  kept : ∀ i < s.stream.writes.length, ¬s.Dropped i

theorem kept_step {total : ℕ}
    (hfew : total < (config.maxConcurrentBatches + 1) * config.chunkSize) (s : StreamRun)
    (e : StreamEvent) (h : s.Kept config total) :
    (s.step config dbByReference e).Kept config total := by
  cases e with
  | row =>
    simp only [step, readRow]
    split
    · rename_i row rows hrows
      by_cases hstage : s.stage = .reading
      · obtain ⟨read, hread, undropped⟩ := h.reading hstage
        rw [hrows, List.length_cons] at hread
        have next : Undropped config (read + 1) (s.stream.transform config dbByReference row) :=
          undropped_transform undropped (by omega)
        have hread' : read + 1 + rows.length = total := by omega
        rw [if_pos hstage]
        exact ⟨fun _ => ⟨read + 1, hread', next⟩, fun i hi hdropped => hdropped.1 (next.mem hi)⟩
      · rw [if_neg hstage]
        exact h
    · exact h
  | broken =>
    simp only [step]
    by_cases hstage : s.stage = .reading
    · obtain ⟨read, -, undropped⟩ := h.reading hstage
      rw [if_pos hstage]
      exact ⟨nofun, fun i hi hdropped => hdropped.1 (undropped.mem hi)⟩
    · rw [if_neg hstage]
      exact h
  | ended =>
    simp only [step, endRows]
    by_cases hguard : s.stage = .reading ∧ s.rows = []
    · obtain ⟨read, -, undropped⟩ := h.reading hguard.1
      rw [if_pos hguard]
      split_ifs
      · exact ⟨nofun, fun i hi hdropped => hdropped.1 (undropped.mem hi)⟩
      · refine ⟨nofun, fun i hi => ?_⟩
        rintro ⟨hpromise, hflush⟩
        rw [undropped.promises, List.mem_range, not_lt] at hpromise
        rw [List.length_append, List.length_singleton, Nat.lt_succ_iff] at hi
        exact hflush (by rw [le_antisymm hpromise hi])
    · rw [if_neg hguard]
      exact h
  | insert write ok =>
    simp only [step, insert]
    split
    · by_cases hsettled : Write.Settled ‹Write›
      · rw [if_pos hsettled]
        exact h
      · rw [if_neg hsettled]
        constructor
        · intro hstage
          obtain ⟨read, hread, undropped⟩ := h.reading hstage
          refine ⟨read, hread, ?_, ?_⟩
          · rw [List.length_modify]
            exact undropped.promises
          · rw [List.length_modify]
            exact undropped.rows
        · intro i hi
          rw [List.length_modify] at hi
          exact h.kept i hi
    · exact h
  | settled =>
    simp only [step, resolve]
    split
    · split_ifs
      · exact ⟨h.reading, h.kept⟩
      · exact h
    · exact h
  | markCompleted answer =>
    simp only [step, markCompleted]
    split_ifs
    all_goals exact ⟨h.reading, h.kept⟩
  | markFailed answer =>
    simp only [step, markFailed]
    split_ifs
    all_goals exact ⟨h.reading, h.kept⟩

theorem kept_init (rows : List ProviderCSVRow) : (init rows).Kept config rows.length where
  reading _ := ⟨0, Nat.zero_add _, rfl, by simp [init, Stream.init]⟩
  kept := by simp [init, Stream.init]

theorem Kept.careful {total : ℕ} {s : StreamRun} (h : s.Kept config total) (e : StreamEvent) :
    s.Careful e := by
  cases e with
  | markCompleted answer =>
    intro _ _ _ i w hw hdropped
    exact absurd hdropped (h.kept i (List.getElem?_eq_some_iff.1 hw).1)
  | _ => trivial

/-- Statements of less than one chunk more than there may be promises are completed in time. -/
theorem law_of_few_rows {rows : List ProviderCSVRow}
    (hfew : rows.length < (config.maxConcurrentBatches + 1) * config.chunkSize)
    (es : List StreamEvent) : (es.foldl (step config dbByReference) (init rows)).Law := by
  have both : (es.foldl (step config dbByReference) (init rows)).Inv ∧
      (es.foldl (step config dbByReference) (init rows)).Kept config rows.length :=
    Runs.inv_foldl (fun s : StreamRun => s.Inv ∧ s.Kept config rows.length)
      (fun s e h => ⟨inv_step s e h.1 (h.2.careful e), kept_step hfew s e h.2⟩)
      ⟨inv_init rows, kept_init rows⟩ es
  exact both.1.law

/-! ## The result -/

/-- The counts are those of the rows that have been read, whatever the writes do. -/
structure Faithful (config : StreamConfig) (dbByReference : DbByReference text)
    (rows : List ProviderCSVRow) (s : StreamRun) : Prop where
  counted : ∃ read, read ++ s.rows = rows ∧
    Stream.Counted dbByReference (parseCSV text read) s.stream
  ended : ∀ flush, s.stage = .ended flush → s.rows = []
  result : ∀ result, s.outcome = .resolved result →
    result = (rows.foldl (Stream.transform config dbByReference) .init).result dbByReference

theorem faithful_init (rows : List ProviderCSVRow) :
    (init rows).Faithful config dbByReference rows where
  counted := ⟨[], rfl, Stream.counted_init⟩
  ended _ := nofun
  result _ := nofun

/-- What reads no row and resolves nothing. -/
theorem Faithful.frame {rows : List ProviderCSVRow} {s s' : StreamRun}
    (h : s.Faithful config dbByReference rows) (hrows : s'.rows = s.rows)
    (hcounted : ∀ parsed, Stream.Counted dbByReference parsed s.stream →
      Stream.Counted dbByReference parsed s'.stream)
    (hstage : ∀ flush, s'.stage = .ended flush → s.rows = [])
    (houtcome : s'.outcome = s.outcome ∨ s'.outcome = s.outcome.settle .rejected) :
    s'.Faithful config dbByReference rows := by
  obtain ⟨read, hread, counted⟩ := h.counted
  refine ⟨⟨read, hrows ▸ hread, hcounted _ counted⟩, fun flush hended => ?_, fun r hr => ?_⟩
  · rw [hrows]
    exact hstage flush hended
  · refine h.result r ?_
    rcases houtcome with same | settled
    · rw [← same, hr]
    · rw [settled, Outcome.settle] at hr
      split_ifs at hr
      exact hr

theorem faithful_step {rows : List ProviderCSVRow} (s : StreamRun) (e : StreamEvent)
    (h : s.Faithful config dbByReference rows) :
    (s.step config dbByReference e).Faithful config dbByReference rows := by
  cases e with
  | row =>
    simp only [step, readRow]
    split
    · rename_i row rest hrows
      by_cases hstage : s.stage = .reading
      · obtain ⟨read, hread, counted⟩ := h.counted
        rw [if_pos hstage]
        refine ⟨⟨read ++ [row], ?_, ?_⟩, fun flush hended => ?_, h.result⟩
        · rw [List.append_assoc, List.singleton_append, ← hrows, hread]
        · rw [parseCSV, List.map_append]
          exact Stream.counted_transform counted row
        · rw [hstage] at hended
          cases hended
      · rw [if_neg hstage]
        exact h
    · exact h
  | broken =>
    simp only [step]
    split_ifs
    · exact h.frame rfl (fun _ => id) (fun _ hended => by cases hended) (.inr rfl)
    · exact h
  | ended =>
    simp only [step, endRows]
    by_cases hguard : s.stage = .reading ∧ s.rows = []
    · rw [if_pos hguard]
      split_ifs
      · exact h.frame rfl (fun _ c => c.of_counts rfl rfl rfl rfl)
          (fun _ _ => hguard.2) (.inl rfl)
      · exact h.frame rfl (fun _ c => c.of_counts rfl rfl rfl rfl)
          (fun _ _ => hguard.2) (.inl rfl)
    · rw [if_neg hguard]
      exact h
  | insert write ok =>
    simp only [step, insert]
    split
    · split_ifs
      · exact h
      · exact h.frame rfl (fun _ c => c.of_counts rfl rfl rfl rfl) h.ended
          (.inl rfl)
      · exact h.frame rfl (fun _ c => c.of_counts rfl rfl rfl rfl) h.ended
          (.inr rfl)
    · exact h
  | settled =>
    simp only [step, resolve]
    split
    · rename_i flush hstage
      by_cases hawaited : s.Awaited flush
      · rw [if_pos hawaited]
        refine ⟨h.counted, h.ended, fun r hr => ?_⟩
        rw [Outcome.settle] at hr
        by_cases hpending : s.outcome = .pending
        · rw [if_pos hpending] at hr
          cases hr
          obtain ⟨read, hread, counted⟩ := h.counted
          rw [h.ended flush hstage, List.append_nil] at hread
          subst hread
          exact counted.result_eq (Stream.counted_foldl config dbByReference read)
        · rw [if_neg hpending] at hr
          exact h.result r hr
      · rw [if_neg hawaited]
        exact h
    · exact h
  | markCompleted answer =>
    simp only [step, markCompleted]
    split_ifs <;> exact h.frame rfl (fun _ => id) h.ended (.inl rfl)
  | markFailed answer =>
    simp only [step, markFailed]
    split_ifs <;> exact h.frame rfl (fun _ => id) h.ended (.inl rfl)

/-- A promise that is resolved has the result of all rows. -/
theorem resolved_result {rows : List ProviderCSVRow} {dbRecords : List DbRecord}
    {es : List StreamEvent} {result : StreamingResult}
    (h : (es.foldl (step config (createDbLookupMap text dbRecords)) (init rows)).outcome =
      .resolved result) : result = streamProcessCSV text config rows dbRecords := by
  have faithful : Faithful config (createDbLookupMap text dbRecords) rows
      (es.foldl (step config (createDbLookupMap text dbRecords)) (init rows)) :=
    Runs.inv_foldl _ faithful_step (faithful_init rows) es
  exact faithful.result result h

section Instances

/-- A promise at a time, and a batch for each row. -/
def tight : StreamConfig := { chunks with chunkSize := 1, maxConcurrentBatches := 1 }

/-- Two discrepancies: the promise of the first is dropped for that of the second. -/
def twoBatches : List ProviderCSVRow := [row "A" "5", row "B" "5"]

def twoRecords : DbByReference plain :=
  createDbLookupMap plain [record "1" "A" "7", record "2" "B" "7"]

/-- The run is completed while the first write is on its way, and it stays so when that fails. -/
theorem completed_before_write :
    ¬(∀ pre, pre <+: [.row, .row, .ended, .insert 1 true, .settled, .markCompleted .answered] →
      (pre.foldl (step tight twoRecords) (init twoBatches)).Law) ∧
    ¬(∀ pre, pre <+: [.row, .row, .ended, .insert 1 true, .settled, .insert 0 false,
        .markCompleted .answered] →
      (pre.foldl (step tight twoRecords) (init twoBatches)).Law) := by
  constructor
  · intro law
    exact absurd ((law _ List.prefix_rfl).writes (by decide +kernel)) (by decide +kernel)
  · intro law
    exact absurd ((law _ List.prefix_rfl).writes (by decide +kernel)) (by decide +kernel)

end Instances

end StreamRun

end MobileMoney.Reconciliation
