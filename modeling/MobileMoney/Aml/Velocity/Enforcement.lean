import MobileMoney.Aml.Velocity.Program

/-!
# What the velocity check lets through

The query of a check reads every transaction that has been created before its own. Where its user
is over a threshold, a request dispatches the transaction only when the check fails or when the
hold finds that the status has changed.
-/

namespace MobileMoney.Aml.Velocity

open Interleaving
open Queue (TransactionStatus)

variable {I U ι : Type} [DecidableEq I] [DecidableEq U] {config : Config}

/-- Another transaction of the user inside the window that ends with this one. -/
def InWindow (transaction : Transaction I U) (userId : U) (name : VelocityWindowName)
    (row : Transaction I U) : Prop :=
  row.id ≠ transaction.id ∧ row.userId = some userId ∧
    transaction.createdAt - name.durationMs ≤ row.createdAt ∧ row.status ∉ countedOut

instance (transaction : Transaction I U) (userId : U) (name : VelocityWindowName)
    (row : Transaction I U) : Decidable (InWindow transaction userId name row) :=
  inferInstanceAs (Decidable (_ ∧ _))

def windowTotal (rows : List (Transaction I U)) (transaction : Transaction I U) (userId : U)
    (name : VelocityWindowName) : ℕ :=
  ((rows.filter fun row => InWindow transaction userId name row).map (·.amount)).sum +
    transaction.amount

/-- The transactions of the user exceed the threshold of some window. -/
def Exceeds (config : Config) (rows : List (Transaction I U)) (transaction : Transaction I U)
    (userId : U) : Prop :=
  ∃ name, config.thresholdXaf name < windowTotal rows transaction userId name

/-- What never changes about a transaction. -/
def Transaction.facts (transaction : Transaction I U) : I × Option U × ℕ × ℤ :=
  (transaction.id, transaction.userId, transaction.amount, transaction.createdAt)

/-- The check is of the user's transactions, and it has read every one that has been created up
to its own. -/
structure Check.Sees (s : State I U) (transaction : Transaction I U) (check : Check I U) :
    Prop where
  userId : transaction.userId = some check.userId
  created : transaction.facts ∈ check.table.map Transaction.facts
  earlier : check.table.map Transaction.facts <+:
    s.transactions.rows.map Transaction.facts

/-- The check has seen the transactions of its user exceed a threshold. -/
structure Check.Breaches (config : Config) (s : State I U) (transaction : Transaction I U)
    (check : Check I U) : Prop where
  sees : check.Sees s transaction
  exceeds : Exceeds config check.table transaction check.userId

/-- The verdict follows from the check, or a failure of the check is known. -/
def Verdict.Justified (config : Config) (s : State I U) (transaction : Transaction I U) :
    Verdict I U → Prop
  | .exempt => transaction.userId = none ∨ config.enabled = false
  | .unread => (transaction.id, .volumes) ∈ s.failures
  | .within check =>
    check.Sees s transaction ∧ ¬ Exceeds config check.table transaction check.userId
  | .unwritten check =>
    (transaction.id, .hold) ∈ s.failures ∧ check.Breaches config s transaction
  | .refused check found =>
    (∀ status ∈ found, ¬ Holdable status) ∧ check.Breaches config s transaction
  | .unfinished check =>
    transaction.id ∈ s.onHold ∧ (transaction.id, .alert) ∈ s.failures ∧
      check.Breaches config s transaction
  | .held check => transaction.id ∈ s.onHold ∧ check.Breaches config s transaction

structure Lawful (config : Config) (w : World I U ι) : Prop where
  answered : ∀ i transaction verdict, w.locals i = .responded transaction verdict →
    verdict.Justified config w.shared transaction
  dispatched : ∀ job ∈ w.shared.jobs,
    job.verdict.Justified config w.shared job.transaction ∧ ∀ check, job.verdict ≠ .held check
  held : ∀ job ∈ w.shared.jobs, job.transaction.id ∈ w.shared.onHold →
    (job.transaction.id, .alert) ∈ w.shared.failures

/-! ## The query -/

omit [DecidableEq I] [DecidableEq U] in
theorem widest_eq (now : ℤ) :
    widest (getVelocityWindows config) now = now - VelocityWindowName.d30.durationMs := by
  simp only [widest, getVelocityWindows, List.map_cons, List.map_nil, List.foldl_cons,
    List.foldl_nil]
  have longest : max (max (max 0 VelocityWindowName.h1.durationMs)
      VelocityWindowName.h24.durationMs) VelocityWindowName.d30.durationMs =
        VelocityWindowName.d30.durationMs := by decide
  rw [longest]

/-- The sums of the query, with the transaction that they leave out. -/
theorem getRollingVolumes_volume (rows : List (Transaction I U)) (transaction : Transaction I U)
    (userId : U) (name : VelocityWindowName) :
    (getRollingVolumes rows userId transaction.createdAt transaction.id
      (getVelocityWindows config) name).volume + transaction.amount =
        windowTotal rows transaction userId name := by
  have inside : name.durationMs ≤ VelocityWindowName.d30.durationMs := by
    cases name <;> decide
  have same : ∀ row : Transaction I U, InWindow transaction userId name row ↔
      transaction.createdAt - name.durationMs ≤ row.createdAt ∧
        row.userId = some userId ∧
          transaction.createdAt - VelocityWindowName.d30.durationMs ≤ row.createdAt ∧
          row.id ≠ transaction.id ∧ row.status ∉ countedOut := by
    intro row
    unfold InWindow
    constructor
    · rintro ⟨hid, huser, hlate, hstatus⟩
      exact ⟨hlate, huser, by omega, hid, hstatus⟩
    · rintro ⟨hlate, huser, -, hid, hstatus⟩
      exact ⟨hid, huser, hlate, hstatus⟩
  unfold windowTotal getRollingVolumes
  rw [widest_eq]
  cases name with
  | h1 | h24 => simp only [volumeOf, List.filter_filter, same, Bool.decide_and]
  | d30 =>
    have again : ∀ row : Transaction I U, InWindow transaction userId .d30 row ↔
        row.userId = some userId ∧
          transaction.createdAt - VelocityWindowName.d30.durationMs ≤ row.createdAt ∧
          row.id ≠ transaction.id ∧ row.status ∉ countedOut := fun row =>
      (same row).trans ⟨fun h => h.2, fun h => ⟨h.2.1, h⟩⟩
    simp only [volumeOf, again]

omit [DecidableEq I] [DecidableEq U] in
theorem breached_iff (amount : ℕ) (volumes : VelocityWindowName → VelocityWindowVolume) :
    (evaluateVelocity amount volumes (getVelocityWindows config)).breached = true ↔
      ∃ name, config.thresholdXaf name < (volumes name).volume + amount := by
  unfold evaluateVelocity getVelocityWindows
  rw [decide_eq_true_iff, List.length_pos_iff_exists_mem]
  simp only [List.mem_filterMap, List.mem_map]
  constructor
  · rintro ⟨hit, window, ⟨name, -, rfl⟩, hhit⟩
    by_cases hexceeds : config.thresholdXaf name < (volumes name).volume + amount
    · exact ⟨name, hexceeds⟩
    · rw [if_neg hexceeds] at hhit
      cases hhit
  · rintro ⟨name, hexceeds⟩
    have listed : name ∈ [VelocityWindowName.h1, .h24, .d30] := by
      cases name <;> decide
    exact ⟨_, _, ⟨name, listed, rfl⟩, if_pos hexceeds⟩

/-- The evaluation of a check is about the user's transactions in the table that it reads. -/
theorem breached_iff_exceeds (rows : List (Transaction I U)) (transaction : Transaction I U)
    (userId : U) :
    (evaluateVelocity transaction.amount
        (getRollingVolumes rows userId transaction.createdAt transaction.id
          (getVelocityWindows config)) (getVelocityWindows config)).breached = true ↔
      Exceeds config rows transaction userId := by
  rw [breached_iff]
  simp only [getRollingVolumes_volume, Exceeds]

/-! ## What only grows -/

structure State.Grows (s' s : State I U) : Prop where
  onHold : ∀ id ∈ s.onHold, id ∈ s'.onHold
  failures : ∀ failure ∈ s.failures, failure ∈ s'.failures
  created : s.transactions.rows.map Transaction.facts <+:
    s'.transactions.rows.map Transaction.facts

section Grows

variable {s s' : State I U}

omit [DecidableEq I] [DecidableEq U] in
theorem State.Grows.refl (s : State I U) : s.Grows s :=
  ⟨fun _ h => h, fun _ h => h, List.prefix_refl _⟩

omit [DecidableEq I] [DecidableEq U] in
theorem State.Grows.trans {s'' : State I U} (h : s''.Grows s') (h' : s'.Grows s) : s''.Grows s :=
  ⟨fun id hid => h.onHold id (h'.onHold id hid),
    fun failure hfailure => h.failures failure (h'.failures failure hfailure),
    h'.created.trans h.created⟩

omit [DecidableEq I] [DecidableEq U] in
theorem fail_grows (s : State I U) (transaction : Transaction I U) (stage : Stage) :
    (s.fail transaction stage).Grows s :=
  ⟨fun _ h => h, fun _ h => List.mem_append_left _ h, List.prefix_refl _⟩

omit [DecidableEq U] in
theorem setStatus_grows (s : State I U) (id : I) (status : TransactionStatus) :
    (s.setStatus id status).Grows s := by
  refine ⟨fun _ h => h, fun _ h => h, ?_⟩
  have same : (s.setStatus id status).transactions.rows.map Transaction.facts =
      s.transactions.rows.map Transaction.facts := by
    simp only [State.setStatus, Keyed.modify, List.map_map]
    apply List.map_congr_left
    intro row _
    simp only [Function.comp_apply]
    split_ifs <;> rfl
  rw [same]

omit [DecidableEq U] in
theorem create_grows (s : State I U) (transaction : Transaction I U) (answer : DbAnswer) :
    (s.create transaction answer).Grows s := by
  unfold State.create
  split_ifs
  · refine ⟨fun _ h => h, fun _ h => h, ?_⟩
    simp only [Keyed.insert]
    split_ifs
    · exact List.prefix_refl _
    · rw [List.map_append]
      exact List.prefix_append _ _
  · exact .refl s

omit [DecidableEq U] in
theorem create_jobs (s : State I U) (transaction : Transaction I U) (answer : DbAnswer) :
    (s.create transaction answer).jobs = s.jobs := by
  unfold State.create
  split_ifs <;> rfl

omit [DecidableEq U] in
theorem rows_create {transaction : Transaction I U}
    (fresh : s.transactions.find? transaction.id = none) :
    (s.create transaction .answered).transactions.rows = s.transactions.rows ++ [transaction] :=
  Keyed.rows_insert fresh

omit [DecidableEq I] [DecidableEq U] in
theorem recordAlert_jobs (s : State I U) (alert : AMLAlert I U) (answer : DbAnswer) :
    (s.recordAlert alert answer).jobs = s.jobs := by
  unfold State.recordAlert
  split_ifs <;> rfl

omit [DecidableEq I] [DecidableEq U] in
theorem recordAlert_grows (s : State I U) (alert : AMLAlert I U) (answer : DbAnswer) :
    (s.recordAlert alert answer).Grows s := by
  unfold State.recordAlert
  split_ifs <;> exact ⟨fun _ h => h, fun _ h => h, List.prefix_refl _⟩

omit [DecidableEq I] [DecidableEq U] in
theorem addTransactionJob_grows (s : State I U) (job : Job I U) (answer : DbAnswer) :
    (s.addTransactionJob job answer).Grows s := by
  unfold State.addTransactionJob
  split_ifs <;> exact ⟨fun _ h => h, fun _ h => h, List.prefix_refl _⟩

omit [DecidableEq U] in
theorem hold_jobs (s : State I U) (transaction : Transaction I U) (answer : DbAnswer) :
    (s.hold transaction answer).jobs = s.jobs := by
  unfold State.hold
  split
  · split_ifs <;> rfl
  · rfl

omit [DecidableEq U] in
theorem hold_grows (s : State I U) (transaction : Transaction I U) (answer : DbAnswer) :
    (s.hold transaction answer).Grows s := by
  unfold State.hold
  split
  · split_ifs
    · exact setStatus_grows s _ _
    · exact .refl s
  · exact .refl s

theorem turn_grows (config : Config) (answer : DbAnswer) (s : State I U) (phase : Phase I U) :
    (turn config answer s phase).1.Grows s := by
  cases phase with
  | checking transaction userId =>
    simp only [turn, enforce]
    by_cases hanswer : answer = .answered
    · rw [if_pos hanswer]
      exact .refl s
    · rw [if_neg hanswer]
      exact fail_grows s _ _
  | holding transaction check =>
    have held := hold_grows s transaction answer
    simp only [turn]
    split_ifs
    · exact ⟨fun id hid => List.mem_append_left _ (held.onHold id hid), held.failures, held.created⟩
    · exact held
    · exact (fail_grows _ _ _).trans held
  | alerting transaction check =>
    have recorded := recordAlert_grows s (raiseAlert transaction check) answer
    simp only [turn]
    split_ifs
    · exact recorded
    · exact (fail_grows _ _ _).trans recorded
  | recording transaction check =>
    simp only [turn]
    split_ifs
    · exact .refl s
    · exact fail_grows s _ _
  | adding transaction verdict => exact addTransactionJob_grows s _ answer
  | _ => exact .refl s

theorem step_grows (config : Config) (input : Input I U) (s : State I U) (phase : Phase I U) :
    (step config input s phase).1.Grows s := by
  cases input with
  | create id userId amount createdAt answer =>
    by_cases hfresh : phase = .idle ∧ s.transactions.find? id = none
    · simp only [step, if_pos hfresh]
      exact create_grows s _ answer
    · simp only [step, if_neg hfresh]
      exact .refl s
  | insert transaction => exact create_grows s transaction .answered
  | setStatus id status => exact setStatus_grows s id status
  | turn answer => exact turn_grows config answer s phase
  | crash => exact .refl s

/-! ## The verdicts -/

omit [DecidableEq I] [DecidableEq U] in
theorem Check.Sees.mono {transaction : Transaction I U} {check : Check I U}
    (h : check.Sees s transaction) (grows : s'.Grows s) : check.Sees s' transaction :=
  ⟨h.userId, h.created, h.earlier.trans grows.created⟩

theorem Check.Breaches.mono {transaction : Transaction I U} {check : Check I U}
    (h : check.Breaches config s transaction) (grows : s'.Grows s) :
    check.Breaches config s' transaction :=
  ⟨h.sees.mono grows, h.exceeds⟩

theorem Verdict.Justified.mono {transaction : Transaction I U} {verdict : Verdict I U}
    (h : verdict.Justified config s transaction) (grows : s'.Grows s) :
    verdict.Justified config s' transaction := by
  cases verdict with
  | exempt => exact h
  | unread => exact grows.failures _ h
  | within check => exact ⟨h.1.mono grows, h.2⟩
  | unwritten check => exact ⟨grows.failures _ h.1, h.2.mono grows⟩
  | refused check found => exact ⟨h.1, h.2.mono grows⟩
  | unfinished check =>
    exact ⟨grows.onHold _ h.1, grows.failures _ h.2.1, h.2.2.mono grows⟩
  | held check => exact ⟨grows.onHold _ h.1, h.2.mono grows⟩

/-- A verdict that lets a transaction through. -/
def Verdict.Passes (config : Config) (s : State I U) (transaction : Transaction I U)
    (verdict : Verdict I U) : Prop :=
  verdict.Justified config s transaction ∧ ∀ check, verdict ≠ .held check

def Phase.Sound (config : Config) (s : State I U) : Phase I U → Prop
  | .checking transaction userId =>
    transaction.userId = some userId ∧
      transaction.facts ∈ s.transactions.rows.map Transaction.facts
  | .holding transaction check => check.Breaches config s transaction
  | .alerting transaction check | .recording transaction check =>
    (Verdict.held check).Justified config s transaction
  | .adding transaction verdict => verdict.Passes config s transaction
  | .responded transaction verdict => verdict.Justified config s transaction
  | _ => True

def State.Sound (config : Config) (s : State I U) : Prop :=
  ∀ job ∈ s.jobs, job.verdict.Passes config s job.transaction

theorem Phase.Sound.mono {phase : Phase I U} (h : phase.Sound config s) (grows : s'.Grows s) :
    phase.Sound config s' := by
  cases phase with
  | checking transaction userId => exact ⟨h.1, grows.created.subset h.2⟩
  | holding transaction check => exact Check.Breaches.mono h grows
  | alerting transaction check | recording transaction check =>
    have held : (Verdict.held check).Justified config s transaction := h
    exact held.mono grows
  | responded transaction verdict => exact Verdict.Justified.mono h grows
  | adding transaction verdict => exact ⟨h.1.mono grows, h.2⟩
  | _ => exact trivial

theorem State.Sound.mono (h : s.Sound config) (grows : s'.Grows s) (jobs : s'.jobs = s.jobs) :
    s'.Sound config := by
  intro job hjob
  rw [jobs] at hjob
  exact ⟨(h job hjob).1.mono grows, (h job hjob).2⟩

theorem State.Sound.addTransactionJob (h : s.Sound config) {transaction : Transaction I U}
    {verdict : Verdict I U} (passes : verdict.Passes config s transaction) (answer : DbAnswer) :
    (s.addTransactionJob ⟨transaction, verdict⟩ answer).Sound config := by
  have grows := addTransactionJob_grows s ⟨transaction, verdict⟩ answer
  intro job hjob
  have former : job ∈ s.jobs ∨ job = ⟨transaction, verdict⟩ := by
    unfold State.addTransactionJob at hjob
    split_ifs at hjob
    · simpa using hjob
    · exact Or.inl hjob
  rcases former with hold | rfl
  · exact ⟨(h job hold).1.mono grows, (h job hold).2⟩
  · exact ⟨passes.1.mono grows, passes.2⟩

theorem turn_sound (h : s.Sound config) {answer : DbAnswer} {phase : Phase I U}
    (hphase : phase.Sound config s) :
    (turn config answer s phase).1.Sound config ∧
      (turn config answer s phase).2.Sound config (turn config answer s phase).1 := by
  have grows := turn_grows config answer s phase
  cases phase with
  | checking transaction userId =>
    simp only [turn, enforce] at grows ⊢
    by_cases hanswer : answer = .answered
    · simp only [if_pos hanswer] at grows ⊢
      refine ⟨h, ?_⟩
      have sees : Check.Sees s transaction ⟨userId, s.transactions.rows,
          evaluateVelocity transaction.amount
            (getRollingVolumes s.transactions.rows userId transaction.createdAt transaction.id
              (getVelocityWindows config)) (getVelocityWindows config)⟩ :=
        ⟨hphase.1, hphase.2, List.prefix_refl _⟩
      split_ifs with hbreached
      · exact ⟨sees, (breached_iff_exceeds _ _ _).1 hbreached⟩
      · refine ⟨⟨sees, fun exceeds => ?_⟩, by rintro _ ⟨⟩⟩
        exact hbreached ((breached_iff_exceeds _ _ _).2 exceeds)
    · simp only [if_neg hanswer] at grows ⊢
      exact ⟨h.mono grows rfl, List.mem_append_right _ (List.mem_singleton.2 rfl), by rintro _ ⟨⟩⟩
  | holding transaction check =>
    have jobs := hold_jobs s transaction answer
    have breaches : check.Breaches config s transaction := hphase
    simp only [turn] at grows ⊢
    by_cases hanswer : answer = .answered
    · simp only [if_pos hanswer] at grows ⊢
      split_ifs at grows ⊢ with hfound
      · refine ⟨h.mono grows jobs, List.mem_append_right _ (List.mem_singleton.2 rfl), ?_⟩
        exact breaches.mono grows
      · refine ⟨h.mono grows jobs, ⟨?_, breaches.mono grows⟩, by rintro _ ⟨⟩⟩
        intro status hstatus hholdable
        exact hfound ⟨status, hstatus, hholdable⟩
    · simp only [if_neg hanswer] at grows ⊢
      refine ⟨h.mono grows jobs, ⟨?_, breaches.mono grows⟩, by rintro _ ⟨⟩⟩
      exact List.mem_append_right _ (List.mem_singleton.2 rfl)
  | alerting transaction check =>
    have jobs := recordAlert_jobs s (raiseAlert transaction check) answer
    have held : (Verdict.held check).Justified config s transaction := hphase
    simp only [turn] at grows ⊢
    by_cases hanswer : answer = .answered
    · simp only [if_pos hanswer] at grows ⊢
      exact ⟨h.mono grows jobs, held.mono grows⟩
    · simp only [if_neg hanswer] at grows ⊢
      refine ⟨h.mono grows jobs, ⟨grows.onHold _ held.1, ?_, held.2.mono grows⟩,
        by rintro _ ⟨⟩⟩
      exact List.mem_append_right _ (List.mem_singleton.2 rfl)
  | recording transaction check =>
    have held : (Verdict.held check).Justified config s transaction := hphase
    simp only [turn] at grows ⊢
    by_cases hanswer : answer = .answered
    · simp only [if_pos hanswer] at grows ⊢
      exact ⟨h, held⟩
    · simp only [if_neg hanswer] at grows ⊢
      refine ⟨h.mono grows rfl, ⟨held.1, ?_, held.2.mono grows⟩, by rintro _ ⟨⟩⟩
      exact List.mem_append_right _ (List.mem_singleton.2 rfl)
  | adding transaction verdict =>
    have passes : verdict.Passes config s transaction := hphase
    refine ⟨h.addTransactionJob passes answer, ?_⟩
    simp only [turn] at grows ⊢
    split_ifs
    · exact hphase.1.mono grows
    · exact trivial
  | _ => exact ⟨h, hphase⟩

omit [DecidableEq U] in
/-- A new transaction is in the table. -/
theorem created_facts {transaction : Transaction I U}
    (fresh : s.transactions.find? transaction.id = none) :
    transaction.facts ∈
      (s.create transaction .answered).transactions.rows.map Transaction.facts := by
  rw [rows_create fresh, List.map_append]
  exact List.mem_append_right _ (List.mem_singleton.2 rfl)

theorem applyAMLVelocityHold_sound {transaction : Transaction I U}
    (created : transaction.facts ∈ s.transactions.rows.map Transaction.facts) :
    (applyAMLVelocityHold config transaction).Sound config s := by
  unfold applyAMLVelocityHold
  cases huser : transaction.userId with
  | none => exact ⟨Or.inl huser, nofun⟩
  | some userId =>
    by_cases henabled : config.enabled = true
    · simp only [if_pos henabled]
      exact ⟨huser, created⟩
    · simp only [if_neg henabled]
      exact ⟨Or.inr (Bool.not_eq_true _ ▸ henabled), nofun⟩

theorem step_sound (h : s.Sound config) {input : Input I U} {phase : Phase I U}
    (hphase : phase.Sound config s) :
    (step config input s phase).1.Sound config ∧
      (step config input s phase).2.Sound config (step config input s phase).1 := by
  have grows := step_grows config input s phase
  cases input with
  | create id userId amount createdAt answer =>
    by_cases hfresh : phase = .idle ∧ s.transactions.find? id = none
    · simp only [step, if_pos hfresh] at grows ⊢
      refine ⟨h.mono grows (create_jobs _ _ _), ?_⟩
      split_ifs with hanswer
      · subst hanswer
        exact applyAMLVelocityHold_sound (created_facts hfresh.2)
      · exact trivial
    · simp only [step, if_neg hfresh]
      refine ⟨h, ?_⟩
      split_ifs
      · exact trivial
      · exact hphase
  | insert transaction => exact ⟨h.mono grows (create_jobs _ _ _), hphase.mono grows⟩
  | setStatus id status => exact ⟨h.mono grows rfl, hphase.mono grows⟩
  | turn answer => exact turn_sound h hphase
  | crash => exact ⟨h, trivial⟩

end Grows

/-! ## Holds without jobs -/

/-- A verdict that is not about a transaction on hold. -/
def Verdict.unheld : Verdict I U → Bool
  | .unfinished _ | .held _ => false
  | _ => true

/-- The request may still put its transaction on hold or dispatch it, but not both. -/
def Phase.pending (id : I) : Phase I U → ℕ
  | .checking transaction _ | .holding transaction _ => if transaction.id = id then 1 else 0
  | .adding transaction verdict => if verdict.unheld ∧ transaction.id = id then 1 else 0
  | _ => 0

def State.settled (id : I) (s : State I U) : ℕ :=
  s.onHold.count id + s.jobs.countP fun job => job.verdict.unheld ∧ job.transaction.id = id

def State.known (id : I) (s : State I U) : ℕ :=
  s.transactions.rows.countP fun transaction => transaction.id = id

section Settled

variable {s s' : State I U}

omit [DecidableEq U] in
theorem known_le_of_grows (grows : s'.Grows s) (id : I) : s.known id ≤ s'.known id := by
  have by_facts : ∀ s : State I U, s.known id =
      (s.transactions.rows.map Transaction.facts).countP fun facts => facts.1 = id := by
    intro s
    rw [List.countP_map]
    rfl
  rw [by_facts, by_facts]
  exact grows.created.sublist.countP_le

omit [DecidableEq U] in
theorem known_le_one (s : State I U) (id : I) : s.known id ≤ 1 := by
  have once := List.nodup_iff_count_le_one.1 s.transactions.nodup id
  rwa [List.count, List.countP_map] at once

omit [DecidableEq U] in
theorem known_create {transaction : Transaction I U}
    (fresh : s.transactions.find? transaction.id = none) (id : I) :
    (s.create transaction .answered).known id =
      s.known id + if transaction.id = id then 1 else 0 := by
  unfold State.known
  rw [rows_create fresh]
  grind

omit [DecidableEq U] in
@[simp] theorem settled_fail (transaction : Transaction I U) (stage : Stage) (id : I) :
    (s.fail transaction stage).settled id = s.settled id := rfl

omit [DecidableEq U] in
@[simp] theorem settled_setStatus (id' : I) (status : TransactionStatus) (id : I) :
    (s.setStatus id' status).settled id = s.settled id := rfl

omit [DecidableEq U] in
theorem settled_onHold (s : State I U) (transaction : Transaction I U) (id : I) :
    State.settled id { s with onHold := s.onHold ++ [transaction.id] } =
      s.settled id + if transaction.id = id then 1 else 0 := by
  unfold State.settled
  grind

omit [DecidableEq U] in
theorem settled_create (transaction : Transaction I U) (answer : DbAnswer) (id : I) :
    (s.create transaction answer).settled id = s.settled id := by
  unfold State.create
  split_ifs <;> rfl

omit [DecidableEq U] in
theorem settled_hold (transaction : Transaction I U) (answer : DbAnswer) (id : I) :
    (s.hold transaction answer).settled id = s.settled id := by
  unfold State.hold
  split
  · split_ifs <;> rfl
  · rfl

omit [DecidableEq U] in
theorem settled_recordAlert (alert : AMLAlert I U) (answer : DbAnswer) (id : I) :
    (s.recordAlert alert answer).settled id = s.settled id := by
  unfold State.recordAlert
  split_ifs <;> rfl

omit [DecidableEq U] in
theorem settled_addTransactionJob_le (transaction : Transaction I U) (verdict : Verdict I U)
    (answer : DbAnswer) (id : I) :
    (s.addTransactionJob ⟨transaction, verdict⟩ answer).settled id ≤
      s.settled id + (Phase.adding transaction verdict).pending id := by
  unfold State.addTransactionJob State.settled Phase.pending
  grind

omit [DecidableEq U] in
theorem pending_applyAMLVelocityHold_le (config : Config) (transaction : Transaction I U) (id : I) :
    (applyAMLVelocityHold config transaction).pending id ≤
      if transaction.id = id then 1 else 0 := by
  unfold applyAMLVelocityHold
  grind [Phase.pending]

omit [DecidableEq U] in
theorem settled_created (config : Config) {transaction : Transaction I U}
    (fresh : s.transactions.find? transaction.id = none) (id : I) :
    (s.create transaction .answered).settled id +
        (applyAMLVelocityHold config transaction).pending id + s.known id ≤
      (s.create transaction .answered).known id + (s.settled id + 0) := by
  have own := pending_applyAMLVelocityHold_le config transaction id
  rw [settled_create, known_create fresh]
  omega

/-- A turn settles what its request was still to settle, or the transaction is new. -/
theorem settled_step (config : Config) (input : Input I U) (phase : Phase I U) (id : I) :
    (step config input s phase).1.settled id + (step config input s phase).2.pending id +
        s.known id ≤
      (step config input s phase).1.known id + (s.settled id + phase.pending id) := by
  have more := known_le_of_grows (step_grows config input s phase) id
  cases input with
  | create id' userId amount createdAt answer =>
    by_cases hfresh : phase = .idle ∧ s.transactions.find? id' = none
    · rw [hfresh.1] at more ⊢
      simp only [step, hfresh.2, and_self, if_true] at more ⊢
      split_ifs with hanswer
      · subst hanswer
        exact settled_created config hfresh.2 id
      · simp only [settled_create, Phase.pending]
        omega
    · simp only [step, if_neg hfresh]
      split_ifs
      · simp only [Phase.pending]
        omega
      · omega
  | insert transaction =>
    simp only [step, settled_create] at more ⊢
    omega
  | setStatus id' status =>
    simp only [step, settled_setStatus] at more ⊢
    omega
  | crash =>
    simp only [step, Phase.pending]
    omega
  | turn answer =>
    cases phase with
    | checking transaction userId =>
      simp only [step, turn, enforce] at more ⊢
      by_cases hanswer : answer = .answered
      · simp only [if_pos hanswer] at more ⊢
        split_ifs
        · simp only [Phase.pending]
          omega
        · simp only [Phase.pending, Verdict.unheld, true_and]
          omega
      · simp only [if_neg hanswer, settled_fail] at more ⊢
        simp only [Phase.pending, Verdict.unheld, true_and]
        omega
    | holding transaction check =>
      have same := settled_hold (s := s) transaction answer id
      simp only [step, turn] at more ⊢
      by_cases hanswer : answer = .answered
      · simp only [if_pos hanswer] at more ⊢
        split_ifs at more ⊢
        · have onHold := settled_onHold (s.hold transaction answer) transaction id
          simp only [Phase.pending] at more onHold ⊢
          omega
        · simp only [Phase.pending, Verdict.unheld, true_and] at more ⊢
          omega
      · simp only [if_neg hanswer, settled_fail] at more ⊢
        simp only [Phase.pending, Verdict.unheld, true_and]
        omega
    | alerting transaction check =>
      have same := settled_recordAlert (s := s) (raiseAlert transaction check) answer id
      simp only [step, turn] at more ⊢
      by_cases hanswer : answer = .answered
      · simp only [if_pos hanswer, Phase.pending] at more ⊢
        omega
      · simp only [if_neg hanswer, settled_fail] at more ⊢
        simp only [Phase.pending, Verdict.unheld, Bool.false_eq_true, false_and, if_false]
        omega
    | recording transaction check =>
      simp only [step, turn] at more ⊢
      by_cases hanswer : answer = .answered
      · simp only [if_pos hanswer, Phase.pending] at more ⊢
        omega
      · simp only [if_neg hanswer, settled_fail] at more ⊢
        simp only [Phase.pending, Verdict.unheld, Bool.false_eq_true, false_and, if_false]
        omega
    | adding transaction verdict =>
      have added := settled_addTransactionJob_le (s := s) transaction verdict answer id
      simp only [step, turn] at more ⊢
      rw [Phase.pending] at added ⊢
      split_ifs at added ⊢ with hcounts hanswer hanswer
      all_goals
        simp only [Phase.pending]
        omega
    | _ =>
      simp only [step, turn]
      omega

end Settled

/-! ## Runs -/

variable [DecidableEq ι]

def Verdict.check : Verdict I U → Option (Check I U)
  | .exempt | .unread => none
  | .within check | .unwritten check | .refused check _ | .unfinished check | .held check =>
    some check

/-- No transaction has a job whose user was over a threshold at its check. -/
def NeverThrough (config : Config) (s : State I U) : Prop :=
  ∀ job ∈ s.jobs, ∀ check ∈ job.verdict.check,
    ¬ Exceeds config check.table job.transaction check.userId

def defaults : Config := ⟨true, fun _ => none⟩

/-- Three million within an hour, and the update for the hold. -/
def overThreshold (between : List (ℕ × Input ℕ ℕ)) (answer : DbAnswer) : List (ℕ × Input ℕ ℕ) :=
  (0, .create 1 (some 7) (3000000 * xaf) 0 .answered) :: (0, .turn .answered) :: between ++
    [(0, .turn answer), (0, .turn .answered)]

end MobileMoney.Aml.Velocity
