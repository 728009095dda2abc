import MobileMoney.Library.Keyed
import MobileMoney.Library.Runs

/-!
# Batches of transactions

`BatchTransactionService` in one process. The workers of a batch take its items in turn, and an item
in work waits for the call of the provider or its timer, whichever comes first; the other one goes
on. Any number of batches run side by side. The answers of the provider, the batch ids and what the
listeners do are inputs. `metadata` and the logs are left out.

Nothing remembers the keys from one batch to the next, and a call that has lost its race goes on.
When an item is taken only after every call of its key from the other batches has failed and been
reported, no call succeeds that is not awaited any more, and no listener throws at a success, one
call of a key succeeds at most, and a failure that is reported is final.
-/

namespace MobileMoney.Batches

inductive BatchTransactionType where
  | deposit
  | withdraw
  deriving DecidableEq, Repr

structure BatchTransactionItem where
  idempotencyKey : String
  phoneNumber : String
  amount : String
  provider : String
  deriving DecidableEq, Repr

structure BatchItemOutcome where
  idempotencyKey : String
  phoneNumber : String
  provider : String
  success : Bool
  providerReference : Option String
  error : Option String
  durationMs : ℕ
  deriving DecidableEq, Repr

structure BatchReport where
  batchId : String
  type : BatchTransactionType
  submittedAt : ℕ
  completedAt : ℕ
  total : ℕ
  succeeded : ℕ
  failed : ℕ
  items : List BatchItemOutcome
  deriving DecidableEq, Repr

structure BatchTransactionOptions where
  concurrency : Option ℕ
  itemTimeoutMs : Option ℕ
  deriving DecidableEq, Repr

/-- What a call of the provider resolves to; `data` may be without a reference. -/
structure ProviderResult where
  success : Bool
  data : Option (Option String)
  error : Option String
  deriving DecidableEq, Repr

inductive Settlement where
  | resolved (result : ProviderResult)
  | rejected (message : String)
  deriving DecidableEq, Repr

def Settlement.successful : Settlement → Bool
  | .resolved result => result.success
  | .rejected _ => false

/-- An item whose call has been made, `initiatePayment` or `sendPayout` by the type. It is awaited
until its race is over. -/
structure Task where
  batch : ℕ
  position : ℕ
  type : BatchTransactionType
  item : BatchTransactionItem
  timeoutMs : ℕ
  start : ℕ
  settled : Option Settlement
  awaited : Bool
  deriving DecidableEq, Repr

structure Batch where
  batchId : String
  type : BatchTransactionType
  submittedAt : ℕ
  itemTimeoutMs : ℕ
  items : Keyed BatchTransactionItem.idempotencyKey
  index : ℕ
  workers : ℕ
  results : List (Option BatchItemOutcome)
  answer : Option (Except String BatchReport)

/-- Besides the batches and the calls, the outcomes that have been reported, each with the number of
calls that had been made until then. -/
structure State where
  now : ℕ
  batches : List Batch
  tasks : List Task
  reports : List (BatchItemOutcome × ℕ)

/-- The message of a listener is that of the error it throws. -/
inductive Event where
  | elapse (ms : ℕ)
  | submitBatch (batchId : String) (type : BatchTransactionType)
      (items : List BatchTransactionItem) (options : BatchTransactionOptions)
      (onStart : Option String)
  | take (batch : ℕ)
  | settle (task : ℕ) (settlement : Settlement)
  | finish (task : ℕ) (onComplete onError : Option String)
  | timeout (task : ℕ) (onError : Option String)
  | complete (batch : ℕ) (onComplete : Option String)

/-! ## A batch -/

/-- The last item of a key stands where the first one was. -/
def deduplicateItems (items : List BatchTransactionItem) :
    Keyed BatchTransactionItem.idempotencyKey :=
  Keyed.ofList items

def Batch.refused (batchId : String) (type : BatchTransactionType) (now : ℕ) (error : String) :
    Batch :=
  ⟨batchId, type, now, 0, ⟨[], List.nodup_nil⟩, 0, 0, [], some (.error error)⟩

def submitted (service options : BatchTransactionOptions) (batchId : String)
    (type : BatchTransactionType) (items : List BatchTransactionItem) (onStart : Option String)
    (now : ℕ) : Batch :=
  if items = [] then .refused batchId type now "Batch must contain at least one item"
  else
    match onStart with
    | some error => .refused batchId type now error
    | none =>
      let concurrency := options.concurrency.getD (service.concurrency.getD 5)
      let itemTimeoutMs := options.itemTimeoutMs.getD (service.itemTimeoutMs.getD 30000)
      let deduped := deduplicateItems items
      ⟨batchId, type, now, itemTimeoutMs, deduped, 0, min concurrency deduped.rows.length,
        List.replicate deduped.rows.length none, none⟩

def Batch.report (batch : Batch) (now : ℕ) : BatchReport :=
  let outcomes := batch.results.reduceOption
  ⟨batch.batchId, batch.type, batch.submittedAt, now, batch.items.rows.length,
    outcomes.countP (·.success), outcomes.countP fun o => !o.success, outcomes⟩

/-- A worker that throws ends; the first error is the answer. -/
def Batch.reject (batch : Batch) (error : String) : Batch :=
  { batch with workers := batch.workers - 1, answer := batch.answer <|> some (.error error) }

/-! ## An item -/

def Task.resolved (task : Task) (result : ProviderResult) (now : ℕ) : BatchItemOutcome where
  idempotencyKey := task.item.idempotencyKey
  phoneNumber := task.item.phoneNumber
  provider := task.item.provider
  success := result.success
  providerReference := if result.success then result.data.map (·.getD "") else none
  error := if result.success then none else result.error
  durationMs := now - task.start

def Task.failed (task : Task) (message : String) (now : ℕ) : BatchItemOutcome where
  idempotencyKey := task.item.idempotencyKey
  phoneNumber := task.item.phoneNumber
  provider := task.item.provider
  success := false
  providerReference := none
  error := some message
  durationMs := now - task.start

def Task.timeoutMessage (task : Task) : String :=
  "Item " ++ task.item.idempotencyKey ++ " timed out after " ++ toString task.timeoutMs ++ "ms"

namespace State

def inFlight (s : State) (batch : ℕ) : ℕ :=
  s.tasks.countP fun task => task.batch = batch ∧ task.awaited = true

def report (s : State) (outcome : BatchItemOutcome) : State :=
  { s with reports := s.reports ++ [(outcome, s.tasks.length)] }

def conclude (s : State) (task : Task) (outcome : BatchItemOutcome) : State :=
  { s with batches := s.batches.modify task.batch fun batch =>
      { batch with results := batch.results.set task.position (some outcome) } }

def reject (s : State) (task : Task) (error : String) : State :=
  { s with batches := s.batches.modify task.batch (·.reject error) }

/-- The `catch` of `processItem`. -/
def caught (s : State) (task : Task) (message : String) (onError : Option String) : State :=
  let outcome := task.failed message s.now
  match onError with
  | none => (s.report outcome).conclude task outcome
  | some error => (s.report outcome).reject task error

/-- The race of an item is over. -/
def release (s : State) (id : ℕ) (task : Task) : State :=
  { s with tasks := s.tasks.set id { task with awaited := false } }

def take (s : State) (id : ℕ) : State :=
  match s.batches[id]? with
  | some batch =>
    match batch.items.rows[batch.index]? with
    | some item =>
      if s.inFlight id < batch.workers then
        { s with
          batches := s.batches.modify id fun batch => { batch with index := batch.index + 1 }
          tasks := s.tasks ++ [⟨id, batch.index, batch.type, item, batch.itemTimeoutMs, s.now, none,
            true⟩] }
      else s
    | none => s
  | none => s

def settle (s : State) (id : ℕ) (settlement : Settlement) : State :=
  match s.tasks[id]? with
  | some task =>
    if task.settled = none then
      { s with tasks := s.tasks.set id { task with settled := some settlement } }
    else s
  | none => s

/-- `processItem` from the end of the race on, when the call has won it. -/
def finished (s : State) (task : Task) (settlement : Settlement)
    (onComplete onError : Option String) : State :=
  match settlement with
  | .rejected message => s.caught task message onError
  | .resolved result =>
    let outcome := task.resolved result s.now
    match onComplete with
    | none => (s.report outcome).conclude task outcome
    | some message => (s.report outcome).caught task message onError

def finish (s : State) (id : ℕ) (onComplete onError : Option String) : State :=
  match s.tasks[id]? with
  | some task =>
    match task.settled with
    | some settlement =>
      if task.awaited = true then
        (s.release id task).finished task settlement onComplete onError
      else s
    | none => s
  | none => s

def timeout (s : State) (id : ℕ) (onError : Option String) : State :=
  match s.tasks[id]? with
  | some task =>
    if task.settled = none ∧ task.awaited = true ∧ task.start + task.timeoutMs ≤ s.now then
      (s.release id task).caught task task.timeoutMessage onError
    else s
  | none => s

/-- All the workers have ended. -/
def complete (s : State) (id : ℕ) (onComplete : Option String) : State :=
  match s.batches[id]? with
  | some batch =>
    if batch.answer.isNone ∧ s.inFlight id = 0 ∧
        (batch.workers = 0 ∨ batch.items.rows.length ≤ batch.index) then
      let answer := match onComplete with
        | none => .ok (batch.report s.now)
        | some error => .error error
      { s with batches := s.batches.modify id fun batch => { batch with answer := some answer } }
    else s
  | none => s

end State

section Turns

variable (service : BatchTransactionOptions)

def step (s : State) : Event → State
  | .elapse ms => { s with now := s.now + ms }
  | .submitBatch batchId type items options onStart =>
    { s with batches := s.batches ++
        [submitted service options batchId type items onStart s.now] }
  | .take batch => s.take batch
  | .settle task settlement => s.settle task settlement
  | .finish task onComplete onError => s.finish task onComplete onError
  | .timeout task onError => s.timeout task onError
  | .complete batch onComplete => s.complete batch onComplete

def State.init : State := ⟨0, [], [], []⟩

end Turns

/-! ## One payment for each key -/

/-! ## The law -/

abbrev Task.key (task : Task) : String := task.item.idempotencyKey

def Task.successful (task : Task) : Bool := task.settled.any Settlement.successful

/-- One call of a key succeeds at most; of the calls that were made before a failure was reported
none has succeeded or ever does; and the outcomes of a batch are those that were reported. -/
structure PaidOnce (s : State) : Prop where
  once : ∀ (i j : ℕ) (a b : Task), s.tasks[i]? = some a → s.tasks[j]? = some b → a.key = b.key →
    a.successful = true → b.successful = true → i = j
  unpaid : ∀ report ∈ s.reports, report.1.success = false → ∀ i < report.2, ∀ task : Task,
    s.tasks[i]? = some task → task.key = report.1.idempotencyKey → task.successful = false
  recorded : ∀ batch ∈ s.batches, ∀ outcome, some outcome ∈ batch.results →
    ∃ seen, (outcome, seen) ∈ s.reports

/-! ## The condition -/

/-- The call has failed, and its item has been reported. -/
def Task.over (task : Task) : Bool := !task.awaited && task.settled.any fun s => !s.successful

/-- An item is taken when the calls of its key from other batches are over, no call succeeds that is
not awaited, and no listener throws at a success. -/
def Careful (s : State) : Event → Prop
  | .take id => ∀ batch ∈ s.batches[id]?, ∀ item ∈ batch.items.rows[batch.index]?,
      ∀ task ∈ s.tasks, task.batch ≠ id → task.key = item.idempotencyKey → task.over = true
  | .settle id settlement => settlement.successful = true → ∀ task ∈ s.tasks[id]?,
      task.settled = none → task.awaited = true
  | .finish id onComplete _ => ∀ task ∈ s.tasks[id]?, task.awaited = true →
      task.successful = true → onComplete = none
  | _ => True

instance (s : State) : ∀ event, Decidable (Careful s event)
  | .take id => inferInstanceAs (Decidable (∀ batch ∈ s.batches[id]?,
      ∀ item ∈ batch.items.rows[batch.index]?, ∀ task ∈ s.tasks, task.batch ≠ id →
        task.key = item.idempotencyKey → task.over = true))
  | .settle id settlement => inferInstanceAs (Decidable (settlement.successful = true →
      ∀ task ∈ s.tasks[id]?, task.settled = none → task.awaited = true))
  | .finish id onComplete _ => inferInstanceAs (Decidable (∀ task ∈ s.tasks[id]?,
      task.awaited = true → task.successful = true → onComplete = none))
  | .elapse _ | .submitBatch _ _ _ _ _ | .timeout _ _ | .complete _ _ => instDecidableTrue

/-! ## The invariant -/

/-- Not awaited, and not successful so far. -/
def Task.spent (task : Task) : Bool := !task.awaited && !task.successful

theorem Task.spent_of_over {task : Task} (h : task.over = true) : task.spent = true := by
  unfold Task.over at h
  unfold spent successful
  cases hsettled : task.settled <;> simp_all

structure Sound (s : State) : Prop where
  apart : ∀ (i j : ℕ) (a b : Task), i < j → s.tasks[i]? = some a → s.tasks[j]? = some b →
    a.key = b.key → a.over = true
  placed : ∀ task ∈ s.tasks, ∃ batch, s.batches[task.batch]? = some batch ∧
    batch.items.rows[task.position]? = some task.item ∧ task.position < batch.index
  seen : ∀ report ∈ s.reports, report.2 ≤ s.tasks.length
  unpaid : ∀ report ∈ s.reports, report.1.success = false → ∀ i < report.2, ∀ task : Task,
    s.tasks[i]? = some task → task.key = report.1.idempotencyKey → task.spent = true
  recorded : ∀ batch ∈ s.batches, ∀ outcome, some outcome ∈ batch.results →
    ∃ seen, (outcome, seen) ∈ s.reports

variable {s : State}

theorem Sound.paidOnce (h : Sound s) : PaidOnce s := by
  refine ⟨?_, ?_, h.recorded⟩
  · intro i j a b hi hj hkey ha hb
    have failed : ∀ task : Task, task.over = true → task.successful = false := by
      intro task hover
      have := Task.spent_of_over hover
      simp_all [Task.spent]
    rcases Nat.lt_trichotomy i j with hlt | heq | hgt
    · have := failed a (h.apart i j a b hlt hi hj hkey)
      simp_all
    · exact heq
    · have := failed b (h.apart j i b a hgt hj hi hkey.symm)
      simp_all
  · intro report hreport hfailed i hlt task htask hkey
    have := h.unpaid report hreport hfailed i hlt task htask hkey
    simp_all [Task.spent]

/-! ## Changes of a batch -/

theorem Sound.modify (h : Sound s) (id : ℕ) {f : Batch → Batch}
    (items : ∀ batch, (f batch).items = batch.items)
    (index : ∀ batch, batch.index ≤ (f batch).index)
    (recorded : ∀ batch ∈ s.batches, ∀ outcome, some outcome ∈ (f batch).results →
      ∃ seen, (outcome, seen) ∈ s.reports) :
    Sound { s with batches := s.batches.modify id f } := by
  refine ⟨h.apart, ?_, h.seen, h.unpaid, ?_⟩
  · intro task htask
    obtain ⟨batch, hbatch, hitem, hlt⟩ := h.placed task htask
    by_cases hid : id = task.batch
    · refine ⟨f batch, ?_, ?_, Nat.lt_of_lt_of_le hlt (index batch)⟩
      · simp [hid, hbatch]
      · rw [items]
        exact hitem
    · refine ⟨batch, ?_, hitem, hlt⟩
      simp [hid, hbatch]
  · intro batch hbatch outcome houtcome
    obtain ⟨i, hi⟩ := List.mem_iff_getElem?.1 hbatch
    rw [List.getElem?_modify] at hi
    obtain ⟨old, hold, rfl⟩ := Option.map_eq_some_iff.1 hi
    have hmem := List.mem_of_getElem? hold
    split_ifs at houtcome
    · exact recorded old hmem outcome houtcome
    · exact h.recorded old hmem outcome houtcome

theorem Sound.conclude (h : Sound s) (task : Task) {outcome : BatchItemOutcome} {seen : ℕ}
    (hreport : (outcome, seen) ∈ s.reports) : Sound (s.conclude task outcome) := by
  refine h.modify task.batch (fun _ => rfl) (fun _ => Nat.le_refl _) ?_
  intro batch hbatch outcome' houtcome
  rcases List.mem_or_eq_of_mem_set houtcome with houtcome | houtcome
  · exact h.recorded batch hbatch outcome' houtcome
  · rw [Option.some.inj houtcome]
    exact ⟨seen, hreport⟩

theorem Sound.reject (h : Sound s) (task : Task) (error : String) : Sound (s.reject task error) :=
  h.modify task.batch (fun _ => rfl) (fun _ => Nat.le_refl _) h.recorded

/-! ## Reports -/

theorem Sound.report (h : Sound s) (outcome : BatchItemOutcome)
    (unpaid : outcome.success = false → ∀ task ∈ s.tasks, task.key = outcome.idempotencyKey →
      task.spent = true) : Sound (s.report outcome) := by
  refine ⟨h.apart, h.placed, ?_, ?_, ?_⟩
  · intro report hreport
    rcases List.mem_append.1 hreport with hreport | hreport
    · exact h.seen report hreport
    · rw [List.mem_singleton.1 hreport]
      exact Nat.le_refl _
  · intro report hreport hfailed i hlt task htask hkey
    rcases List.mem_append.1 hreport with hreport | hreport
    · exact h.unpaid report hreport hfailed i hlt task htask hkey
    · obtain rfl := List.mem_singleton.1 hreport
      exact unpaid hfailed task (List.mem_of_getElem? htask) hkey
  · intro batch hbatch outcome' houtcome
    obtain ⟨seen, hseen⟩ := h.recorded batch hbatch outcome' houtcome
    exact ⟨seen, List.mem_append_left _ hseen⟩

theorem Sound.caught (h : Sound s) (task : Task) (message : String) (onError : Option String)
    (unpaid : ∀ task' ∈ s.tasks, task'.key = task.key → task'.spent = true) :
    Sound (s.caught task message onError) := by
  have reported := h.report (task.failed message s.now) fun _ => unpaid
  cases onError with
  | none => exact reported.conclude task List.mem_concat_self
  | some error => exact reported.reject task error

/-! ## The calls -/

/-- An item that has been awaited until now is the last of its key. -/
theorem Sound.spent_release (h : Sound s) {id : ℕ} {task : Task} (hget : s.tasks[id]? = some task)
    (awaited : task.awaited = true) (failed : task.successful = false) :
    ∀ task' ∈ (s.release id task).tasks, task'.key = task.key → task'.spent = true := by
  intro task' hmem hkey
  obtain ⟨i, hi⟩ := List.mem_iff_getElem?.1 hmem
  simp only [State.release, List.getElem?_set] at hi
  split_ifs at hi with hid hlt
  · obtain rfl := Option.some.inj hi
    simpa [Task.spent, Task.successful] using failed
  · rcases Nat.lt_or_gt_of_ne hid with hgt | hlt
    · have hover := h.apart id i task task' hgt hget hi hkey.symm
      simp [Task.over, awaited] at hover
    · exact Task.spent_of_over (h.apart i id task' task hlt hi hget hkey)

/-- A change of a call that leaves its key and its place, and keeps what is over and spent. -/
theorem Sound.set (h : Sound s) {id : ℕ} {task task' : Task} (hget : s.tasks[id]? = some task)
    (batch : task'.batch = task.batch) (position : task'.position = task.position)
    (item : task'.item = task.item) (hover : task.over = true → task'.over = true)
    (spent : task.spent = true → task'.spent = true) :
    Sound { s with tasks := s.tasks.set id task' } := by
  have changed : ∀ {i : ℕ} {b : Task}, (s.tasks.set id task')[i]? = some b →
      ∃ a : Task, s.tasks[i]? = some a ∧ b.batch = a.batch ∧ b.position = a.position ∧
        b.item = a.item ∧ (a.over = true → b.over = true) ∧ (a.spent = true → b.spent = true) := by
    intro i b hi
    rw [List.getElem?_set] at hi
    split_ifs at hi with hid hlt
    · obtain rfl := Option.some.inj hi
      exact ⟨task, hid ▸ hget, batch, position, item, hover, spent⟩
    · exact ⟨b, hi, rfl, rfl, rfl, fun h => h, fun h => h⟩
  refine ⟨?_, ?_, ?_, ?_, h.recorded⟩
  · intro i j a b hlt hi hj hkey
    obtain ⟨a', hi', -, -, hitem, hover, -⟩ := changed hi
    obtain ⟨b', hj', -, -, hitem', -, -⟩ := changed hj
    apply hover
    refine h.apart i j a' b' hlt hi' hj' ?_
    rw [Task.key, Task.key, ← hitem, ← hitem']
    exact hkey
  · intro b hb
    obtain ⟨i, hi⟩ := List.mem_iff_getElem?.1 hb
    obtain ⟨a, ha, hbatch, hposition, hitem, -, -⟩ := changed hi
    rw [hbatch, hposition, hitem]
    exact h.placed a (List.mem_of_getElem? ha)
  · intro report hreport
    rw [List.length_set]
    exact h.seen report hreport
  · intro report hreport hfailed i hlt b hb hkey
    obtain ⟨a, ha, -, -, hitem, -, hspent⟩ := changed hb
    apply hspent
    refine h.unpaid report hreport hfailed i hlt a ha ?_
    rw [Task.key, ← hitem]
    exact hkey

theorem Sound.release (h : Sound s) {id : ℕ} {task : Task} (hget : s.tasks[id]? = some task) :
    Sound (s.release id task) := by
  refine h.set hget rfl rfl rfl ?_ ?_
  · simp [Task.over]
  · simp [Task.spent, Task.successful]

theorem Sound.settle (h : Sound s) {id : ℕ} {settlement : Settlement}
    (careful : Careful s (.settle id settlement)) : Sound (s.settle id settlement) := by
  unfold State.settle
  split
  · rename_i task hget
    split_ifs with hpending
    · refine h.set hget rfl rfl rfl ?_ ?_
      · simp [Task.over, hpending]
      · intro hspent
        cases hsuccess : settlement.successful with
        | true =>
          have awaited := careful hsuccess task hget hpending
          simp [Task.spent, awaited] at hspent
        | false => simp_all [Task.spent, Task.successful]
    · exact h
  · exact h

/-- Within a batch every key is taken once. -/
theorem Sound.take (h : Sound s) {id : ℕ} (careful : Careful s (.take id)) : Sound (s.take id) := by
  unfold State.take
  split
  · rename_i batch hbatch
    split
    · rename_i item hitem
      split_ifs
      · have modified := h.modify id (f := fun batch => { batch with index := batch.index + 1 })
          (fun _ => rfl) (fun _ => Nat.le_succ _) h.recorded
        refine ⟨?_, ?_, ?_, ?_, modified.recorded⟩
        · intro i j a b hlt hi hj hkey
          have hprevious := List.getElem?_eq_some_iff.1 hj
          rw [List.getElem?_append] at hi hj
          have hbound := hprevious.1
          rw [List.length_append, List.length_singleton] at hbound
          rw [if_pos (by omega)] at hi
          split_ifs at hj with hnew
          · exact h.apart i j a b hlt hi hj hkey
          · obtain rfl : j = s.tasks.length := by omega
            obtain rfl : b = ⟨id, batch.index, batch.type, item, batch.itemTimeoutMs, s.now, none,
                true⟩ := by simpa using hj.symm
            have hmem := List.mem_of_getElem? hi
            by_cases hbatches : a.batch = id
            · obtain ⟨batch', hbatch', hplace, hearlier⟩ := h.placed a hmem
              rw [hbatches, hbatch] at hbatch'
              obtain rfl := Option.some.inj hbatch'
              have := batch.items.place_eq hplace hitem hkey
              omega
            · exact careful batch hbatch item hitem a hmem hbatches hkey
        · intro task htask
          rcases List.mem_append.1 htask with htask | htask
          · exact modified.placed task htask
          · rw [List.mem_singleton.1 htask]
            exact ⟨{ batch with index := batch.index + 1 }, by simp [hbatch], hitem,
              Nat.lt_succ_self _⟩
        · intro report hreport
          rw [List.length_append]
          exact Nat.le_add_right_of_le (h.seen report hreport)
        · intro report hreport hfailed i hlt task htask hkey
          have hbound := h.seen report hreport
          rw [List.getElem?_append_left (by omega)] at htask
          exact h.unpaid report hreport hfailed i hlt task htask hkey
      · exact h
    · exact h
  · exact h

theorem Sound.finish (h : Sound s) {id : ℕ} {onComplete onError : Option String}
    (careful : Careful s (.finish id onComplete onError)) :
    Sound (s.finish id onComplete onError) := by
  unfold State.finish
  split
  · rename_i task hget
    split
    · rename_i settlement hsettled
      split_ifs with awaited
      · have released := h.release hget
        have hsuccess : task.successful = settlement.successful := by
          simp [Task.successful, hsettled]
        cases settlement with
        | rejected message =>
          exact released.caught task message onError (h.spent_release hget awaited hsuccess)
        | resolved result =>
          have reported := released.report (task.resolved result (s.release id task).now)
            fun hfailed => h.spent_release hget awaited (hsuccess.trans hfailed)
          simp only [State.finished]
          cases onComplete with
          | none => exact reported.conclude task List.mem_concat_self
          | some message =>
            refine reported.caught task message onError (h.spent_release hget awaited ?_)
            cases hresult : task.successful with
            | true => exact absurd (careful task hget awaited hresult) nofun
            | false => rfl
      · exact h
    · exact h
  · exact h

theorem Sound.timeout (h : Sound s) (id : ℕ) (onError : Option String) :
    Sound (s.timeout id onError) := by
  unfold State.timeout
  split
  · rename_i task hget
    split_ifs with hdue
    · obtain ⟨hpending, awaited, -⟩ := hdue
      refine (h.release hget).caught task task.timeoutMessage onError
        (h.spent_release hget awaited ?_)
      simp [Task.successful, hpending]
    · exact h
  · exact h

theorem Sound.complete (h : Sound s) (id : ℕ) (onComplete : Option String) :
    Sound (s.complete id onComplete) := by
  unfold State.complete
  split
  · split_ifs
    · exact h.modify id (fun _ => rfl) (fun _ => Nat.le_refl _) h.recorded
    · exact h
  · exact h

theorem results_submitted (service options : BatchTransactionOptions) (batchId : String)
    (type : BatchTransactionType) (items : List BatchTransactionItem) (onStart : Option String)
    (now : ℕ) (outcome : BatchItemOutcome) :
    some outcome ∉ (submitted service options batchId type items onStart now).results := by
  unfold submitted Batch.refused
  split_ifs
  · exact List.not_mem_nil
  · split
    · exact List.not_mem_nil
    · simp [List.mem_replicate]

theorem Sound.submit (h : Sound s) {batch : Batch}
    (fresh : ∀ outcome, some outcome ∉ batch.results) :
    Sound { s with batches := s.batches ++ [batch] } := by
  refine ⟨h.apart, ?_, h.seen, h.unpaid, ?_⟩
  · intro task htask
    obtain ⟨batch', hbatch, hplace⟩ := h.placed task htask
    have hlt := (List.getElem?_eq_some_iff.1 hbatch).1
    exact ⟨batch', by rw [List.getElem?_append_left hlt, hbatch], hplace⟩
  · intro batch' hbatch outcome houtcome
    rcases List.mem_append.1 hbatch with hbatch | hbatch
    · exact h.recorded batch' hbatch outcome houtcome
    · rw [List.mem_singleton.1 hbatch] at houtcome
      exact absurd houtcome (fresh outcome)

theorem step_sound (service : BatchTransactionOptions) (h : Sound s) {event : Event}
    (careful : Careful s event) : Sound (step service s event) := by
  cases event with
  | elapse ms => exact ⟨h.apart, h.placed, h.seen, h.unpaid, h.recorded⟩
  | submitBatch batchId type items options onStart =>
    exact h.submit (results_submitted service options batchId type items onStart s.now)
  | take id => exact h.take careful
  | settle id settlement => exact h.settle careful
  | finish id onComplete onError => exact h.finish careful
  | timeout id onError => exact h.timeout id onError
  | complete id onComplete => exact h.complete id onComplete

/-! ## Runs -/

/-- Whatever is submitted, also again, and however the races end: as long as the keys of an item
that is taken are free, no call succeeds that has lost its race, and no listener throws at a
success, each key is paid once and failures are final. -/
theorem batches_pay_once (service : BatchTransactionOptions) (events : List Event)
    (every : Runs.Every (step service) Careful State.init events) :
    PaidOnce (events.foldl (step service) State.init) := by
  have start : Sound State.init := by
    constructor <;> simp [State.init]
  have sound := Runs.inv_foldl_of_every Sound
    (fun _ _ h careful => step_sound service h careful) start events every
  exact sound.paidOnce

section Instances

def item (key : String) : BatchTransactionItem := ⟨key, "+2348012345678", "500", "mtn"⟩

def paid : Settlement := .resolved ⟨true, some (some "ref"), none⟩

def submission (keys : List String) : Event :=
  .submitBatch "batch" .withdraw (keys.map item) ⟨none, none⟩ none

/-- Of two items one is paid and one fails, and the one that has failed is submitted again. -/
def failedAgain : List Event :=
  [submission ["a", "b", "a"], .take 0, .take 0, .settle 1 (.rejected "Network failure"),
    .settle 0 paid, .finish 0 none none, .finish 1 none none, .complete 0 none, submission ["b"],
    .take 1, .settle 2 paid, .finish 2 none none, .complete 1 none]

theorem batches_pay_once_again :
    let s := failedAgain.foldl (step ⟨none, none⟩) State.init
    s.tasks.map Task.successful = [true, false, true] ∧
      s.reports.map (fun report => (report.1.idempotencyKey, report.1.success)) =
        [("a", true), ("b", false), ("b", true)] ∧ PaidOnce s := by
  refine ⟨by decide +kernel, by decide +kernel, ?_⟩
  exact batches_pay_once _ _ (by decide +kernel)

/-- A call for the item that has succeeded. -/
def attempt (batch start : ℕ) (awaited : Bool) : Task :=
  ⟨batch, 0, .withdraw, item "a", 30000, start, some paid, awaited⟩

/-- An item times out and is submitted again; both of its calls succeed. -/
theorem paid_after_timeout_and_twice :
    let s := [submission ["a"], .take 0, .elapse 30000, .timeout 0 none, .complete 0 none,
      submission ["a"], .take 1, .settle 0 paid, .settle 1 paid].foldl
        (step ⟨none, none⟩) State.init
    s.reports.map (fun report => (report.1.success, report.2)) = [(false, 1)] ∧ ¬PaidOnce s := by
  intro s
  have calls : s.tasks = [attempt 0 0 false, attempt 1 30000 true] := by decide +kernel
  have first : s.tasks[0]? = some (attempt 0 0 false) := by rw [calls]; rfl
  have second : s.tasks[1]? = some (attempt 1 30000 true) := by rw [calls]; rfl
  refine ⟨by decide +kernel, fun law => ?_⟩
  exact absurd (law.once 0 1 _ _ first second rfl rfl rfl) (by decide)

end Instances

end MobileMoney.Batches
