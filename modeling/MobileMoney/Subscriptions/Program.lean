import Mathlib.Data.List.Sort
import MobileMoney.Library.Interleaving
import MobileMoney.Library.Keyed
import MobileMoney.Queue.Worker.Program

/-!
# Recurring charges

Replicas of the scheduler run the subscription job, and queue workers process the charges
and report the ones that fail. All of them take turns; a turn is one awaited call with what
comes of it. The audit rows of attempts are not read by anyone, so only whether they could
be written matters. Of a worker's processing only its end is kept. Subscriptions are not
edited by their merchants, and what is sent to them is left out. The job gives a charge no Stellar
address, so the constraints of `transactions` are part of the configuration. Time is in
microseconds.

Whoever moves and whatever comes of the call, a turn lets time pass and then changes the
store in one of a few ways, or not at all.
-/

namespace MobileMoney.Subscriptions

open Replicated
open Queue (TransactionStatus)
open Queue.Worker (DbOutcome JobType)

inductive SubscriptionInterval where
  | daily | weekly | monthly
  deriving DecidableEq, Repr

inductive SubscriptionStatus where
  | active | paused | cancelled
  deriving DecidableEq, Repr

/-- A row of `subscriptions`. Of the metadata only the provider is read, if it is a text. -/
structure SubscriptionRow where
  id : ℕ
  userId : Option String
  phoneNumber : Option String
  amount : String
  currency : String
  interval : SubscriptionInterval
  status : SubscriptionStatus
  nextRunAt : Option ℕ
  lastRunAt : Option ℕ
  retryCount : ℕ
  maxRetries : ℕ
  retryBackoffSeconds : ℕ
  provider : Option String
  deriving DecidableEq, Repr

abbrev Table := Keyed SubscriptionRow.id

/-- A row of `transactions`, with the subscription of its metadata and the statuses that a
lagging replica may still show, latest first. -/
structure Transaction where
  id : ℕ
  type : JobType
  amount : String
  currency : String
  phoneNumber : Option String
  provider : String
  stellarAddress : Option String
  userId : Option String
  subscriptionId : ℕ
  notes : String
  status : TransactionStatus
  pastStatuses : List TransactionStatus
  deriving DecidableEq, Repr

structure TransactionJobData where
  transactionId : ℕ
  type : JobType
  amount : String
  phoneNumber : String
  provider : String
  stellarAddress : String
  deriving DecidableEq, Repr

/-- A subscription and one of its due dates. -/
structure DueDate where
  subscriptionId : ℕ
  dueAt : Option ℕ
  deriving DecidableEq, Repr

def SubscriptionRow.dueDate (s : SubscriptionRow) : DueDate := ⟨s.id, s.nextRunAt⟩

/-- The database, the queue and the clock; and for the record, which due dates have had a
charge enqueued, which charges have had a retry scheduled, and how many charges of a
subscription have failed in a row. -/
structure Store where
  subscriptions : Replicated Table
  transactions : ℕ → Option Transaction
  nextId : ℕ
  queue : List TransactionJobData
  charged : List DueDate
  retried : List ℕ
  failures : ℕ → ℕ
  now : ℕ

/-- What `transactions` makes of the columns that an `INSERT` may leave out or empty. -/
structure Schema where
  idDefault : Bool
  userIdNotNull : Bool
  phoneNumberNotNull : Bool
  stellarAddressNotNull : Bool
  deriving DecidableEq, Repr

/-- The tables that are created by `database/schema.sql`, by the migrations `001_initial_schema` and
`009_partition_transactions`, and by `services/stellar/001_partition_transactions_table.sql`. -/
def Schema.shipped : List Schema :=
  [⟨true, true, true, true⟩, ⟨true, false, true, true⟩, ⟨true, false, true, true⟩,
    ⟨false, false, false, false⟩]

/-- The `INSERT` of the model names no id. -/
def Schema.accepts (schema : Schema) (t : Transaction) : Bool :=
  schema.idDefault && (t.userId.isSome || !schema.userIdNotNull) &&
    (t.phoneNumber.isSome || !schema.phoneNumberNotNull) &&
    (t.stellarAddress.isSome || !schema.stellarAddressNotNull)

/-- The table, and how the database decrypts a phone number and adds a month. -/
structure Config where
  schema : Schema
  decrypt : String → Option String
  addMonth : ℕ → ℕ
  lt_addMonth : ∀ t, t < addMonth t

/-! ## The subscription job -/

def SubscriptionRow.isDue (now : ℕ) (s : SubscriptionRow) : Bool :=
  s.status = .active && s.nextRunAt.any (· ≤ now)

def dueLimit : ℕ := 200

/-- The due rows of one version of the table, scanned in any order: rows that are due at the
same time come in the order of the scan. -/
def getDueSubscriptions (store : Store) (source : Source) (scan : List SubscriptionRow) :
    List SubscriptionRow :=
  if scan.isPerm (store.subscriptions.read source).rows then
    ((scan.filter (SubscriptionRow.isDue store.now)).insertionSort fun s s' =>
      s.nextRunAt.getD 0 ≤ s'.nextRunAt.getD 0).take dueLimit
  else []

def metadataProvider (s : SubscriptionRow) : String := s.provider.getD ""

def newTransaction (id : ℕ) (s : SubscriptionRow) (phoneNumber : Option String) : Transaction where
  id := id
  type := .deposit
  amount := s.amount
  currency := s.currency
  phoneNumber := phoneNumber
  provider := metadataProvider s
  stellarAddress := none
  userId := s.userId
  subscriptionId := s.id
  notes := "Recurring collection for subscription " ++ toString s.id
  status := .pending
  pastStatuses := []

def Store.create (store : Store) (t : Transaction) : Store :=
  { store with
    transactions := Function.update store.transactions t.id (some t)
    nextId := store.nextId + 1 }

def jobData (s : SubscriptionRow) (t : Transaction) : TransactionJobData where
  transactionId := t.id
  type := .deposit
  amount := s.amount
  phoneNumber := t.phoneNumber.getD ""
  provider := if t.provider = "" then metadataProvider s else t.provider
  stellarAddress := t.stellarAddress.getD ""

def Store.addTransactionJob (store : Store) (s : SubscriptionRow) (t : Transaction) : Store :=
  { store with
    queue := store.queue ++ [jobData s t]
    charged := store.charged ++ [s.dueDate] }

def day : ℕ := 86400 * 10 ^ 6

def computeNextRun (cfg : Config) (now : ℕ) : SubscriptionInterval → ℕ
  | .daily => now + day
  | .weekly => now + 7 * day
  | .monthly => cfg.addMonth now

/-- An `UPDATE` of a row by its id. -/
def Store.updateRow (store : Store) (id : ℕ) (f : SubscriptionRow → SubscriptionRow)
    (same : ∀ s, (f s).id = s.id) : Store :=
  { store with
    subscriptions := store.subscriptions.write (store.subscriptions.current.modify id f same) }

def Store.advanceNextRun (cfg : Config) (store : Store) (s : SubscriptionRow) : Store :=
  store.updateRow s.id
    (fun row =>
      { row with
        lastRunAt := some store.now
        nextRunAt := some (computeNextRun cfg store.now s.interval) })
    fun _ => rfl

/-! ## The failure handler -/

/-- What `incrementRetry` returns. -/
structure SubscriptionAttemptRow where
  retryCount : ℕ
  maxRetries : ℕ
  retryBackoffSeconds : ℕ
  deriving DecidableEq, Repr

/-- A failed charge and its subscription. -/
structure Failure where
  transactionId : ℕ
  subscriptionId : ℕ
  deriving DecidableEq, Repr

def Store.incrementRetry (store : Store) (id : ℕ) : Store :=
  store.updateRow id (fun row => { row with retryCount := row.retryCount + 1 }) fun _ => rfl

def attemptRow (store : Store) (id : ℕ) : Option SubscriptionAttemptRow :=
  (store.subscriptions.current.find? id).map fun row =>
    ⟨row.retryCount, row.maxRetries, row.retryBackoffSeconds⟩

def Store.pause (store : Store) (id : ℕ) : Store :=
  store.updateRow id (fun row => { row with status := .paused }) fun _ => rfl

def retryDelay (a : SubscriptionAttemptRow) : ℕ :=
  let base := if a.retryBackoffSeconds = 0 then 600 else a.retryBackoffSeconds
  base * 2 ^ (a.retryCount - 1)

def Store.scheduleRetry (store : Store) (f : Failure) (a : SubscriptionAttemptRow) : Store :=
  { store.updateRow f.subscriptionId
      (fun row => { row with nextRunAt := some (store.now + retryDelay a * 10 ^ 6) })
      fun _ => rfl with
    retried := store.retried ++ [f.transactionId] }

/-! ## The worker -/

def Transaction.withStatus (status : TransactionStatus) (t : Transaction) : Transaction :=
  { t with status := status, pastStatuses := t.status :: t.pastStatuses }

def Store.setStatus (store : Store) (id : ℕ) (status : TransactionStatus → TransactionStatus) :
    Store :=
  { store with
    transactions := Function.update store.transactions id
      ((store.transactions id).map fun t => t.withStatus (status t.status)) }

/-- `claimForProcessing`, which only takes a pending transaction. -/
def Store.claimForProcessing (store : Store) (id : ℕ) : Store :=
  store.setStatus id fun status => if status = .pending then .processing else status

def Store.isPending (store : Store) (id : ℕ) : Bool :=
  (store.transactions id).any fun t => t.status = .pending

/-- A replica may show an earlier status, or no row yet. -/
def findById (store : Store) (id : ℕ) (source : Source) : Option Transaction :=
  (store.transactions id).bind fun t =>
    match source with
    | .primary => some t
    | .lagging age => t.pastStatuses[age]?.map fun status => { t with status := status }

/-- How the processing of a claimed transaction ends: it is completed; an error inside the
`try` block is reported; one before it is not. -/
inductive Result where
  | completed | failed | thrown
  deriving DecidableEq, Repr

/-- The row with the charge has the subscription that the count of failures is kept for. -/
def subscriptionOf (store : Store) (id : ℕ) : Option ℕ :=
  (store.transactions id).map (·.subscriptionId)

def Store.complete (store : Store) (id : ℕ) : Store :=
  { store.setStatus id fun status => Queue.updateStatus status .completed with
    failures := match subscriptionOf store id with
      | some subscription => Function.update store.failures subscription 0
      | none => store.failures }

def Store.fail (store : Store) (id : ℕ) : Store :=
  { store with
    failures := match subscriptionOf store id with
      | some subscription =>
        Function.update store.failures subscription (store.failures subscription + 1)
      | none => store.failures }

/-! ## Turns -/

/-- Where a run of the job stands with a row. -/
inductive JobStep where
  | creating
  | recording (t : Transaction)
  | enqueuing (t : Transaction)
  | advancing
  deriving DecidableEq

/-- Where the report of a failed charge stands, in the `catch` block of the worker and then
in `handleSubscriptionFailure`. -/
inductive ReportStep where
  | failing
  | reloading
  | loading
  | incrementing
  | recording (a : Option SubscriptionAttemptRow)
  | pausing (a : SubscriptionAttemptRow)
  | scheduling (a : SubscriptionAttemptRow)
  deriving DecidableEq

/-- What a process is at: a run of the job with the rows that are left, a transaction of the
queue, or the report of its failure. -/
inductive Phase where
  | idle
  | job (s : SubscriptionRow) (rest : List SubscriptionRow) (step : JobStep)
  | claiming (id : ℕ)
  | rereading (id : ℕ)
  | processing (id : ℕ)
  | reporting (f : Failure) (step : ReportStep)
  deriving DecidableEq

inductive Task where
  | runSubscriptionJob (scan : List SubscriptionRow)
  | processTransaction (id : ℕ)

/-- What comes of a turn: how long it took, what the database made of the call and who
answered a read, how a transaction ended, and what an idle process takes up. -/
structure Outcome where
  elapsed : ℕ
  db : DbOutcome
  source : Source
  result : Result
  task : Task

/-- A write that throws may have had its effect nevertheless. -/
def write (o : Outcome) (store store' : Store) (next thrown : Phase) : Store × Phase :=
  (if o.db = .failed then store else store', if o.db = .done then next else thrown)

def nextRow : List SubscriptionRow → Phase
  | [] => .idle
  | s :: rest => .job s rest .creating

/-- The decision of `handleSubscriptionFailure` between a pause and a retry. -/
def afterAttempt (f : Failure) : Option SubscriptionAttemptRow → Phase
  | none => .idle
  | some a =>
    if a.maxRetries ≤ a.retryCount then .reporting f (.pausing a) else .reporting f (.scheduling a)

/-- What an idle process takes up: a run of the job, or a job of the queue. -/
def take (o : Outcome) (store : Store) : Phase :=
  match o.task with
  | .runSubscriptionJob scan =>
    if o.db = .done then nextRow (getDueSubscriptions store o.source scan) else .idle
  | .processTransaction id =>
    if store.queue.any fun job => job.transactionId = id then .claiming id else .idle

/-- The body of the loop of `runSubscriptionJob`. -/
def chargeStep (cfg : Config) (o : Outcome) (store : Store) (s : SubscriptionRow)
    (rest : List SubscriptionRow) : JobStep → Store × Phase
  | .creating =>
    match s.phoneNumber.map cfg.decrypt with
    | some none => (store, nextRow rest)
    | phoneNumber =>
      let t := newTransaction store.nextId s phoneNumber.join
      if cfg.schema.accepts t then
        write o store (store.create t) (.job s rest (.recording t)) (nextRow rest)
      else (store, nextRow rest)
  | .recording t => write o store store (.job s rest (.enqueuing t)) (nextRow rest)
  | .enqueuing t =>
    write o store (store.addTransactionJob s t) (.job s rest .advancing) (nextRow rest)
  | .advancing => write o store (store.advanceNextRun cfg s) (nextRow rest) (nextRow rest)

def reportStep (o : Outcome) (store : Store) (f : Failure) : ReportStep → Store × Phase
  | .failing =>
    write o store (store.setStatus f.transactionId fun status => Queue.updateStatus status .failed)
      (.reporting f .reloading) .idle
  | .reloading =>
    match findById store f.transactionId o.source with
    | some t =>
      (store,
        if o.db = .done then .reporting ⟨f.transactionId, t.subscriptionId⟩ .loading else .idle)
    | none => (store, .idle)
  | .loading => (store, if o.db = .done then .reporting f .incrementing else .idle)
  | .incrementing =>
    let store' := store.incrementRetry f.subscriptionId
    write o store store' (.reporting f (.recording (attemptRow store' f.subscriptionId))) .idle
  | .recording a => write o store store (afterAttempt f a) .idle
  | .pausing _ => write o store (store.pause f.subscriptionId) .idle .idle
  | .scheduling a => write o store (store.scheduleRetry f a) .idle .idle

/-- What a worker does when the processing of its transaction ends. -/
def finish (o : Outcome) (store : Store) (id : ℕ) : Store × Phase :=
  match o.result with
  | .completed => (store.complete id, .idle)
  | .thrown => (store.fail id, .idle)
  | .failed =>
    match subscriptionOf store id with
    | some subscription => (store.fail id, .reporting ⟨id, subscription⟩ .failing)
    | none => (store, .idle)

def handle (cfg : Config) (o : Outcome) (store : Store) : Phase → Store × Phase
  | .idle => (store, take o store)
  | .job s rest step => chargeStep cfg o store s rest step
  | .claiming id =>
    write o store (store.claimForProcessing id)
      (if store.isPending id then .processing id else .rereading id) .idle
  | .rereading id =>
    let started := (findById store id o.source).any (·.status ≠ .pending)
    (store, if o.db = .done ∧ ¬ started then .processing id else .idle)
  | .processing id => finish o store id
  | .reporting f step => reportStep o store f step

def Store.tick (store : Store) (elapsed : ℕ) : Store := { store with now := store.now + elapsed }

def step (cfg : Config) (o : Outcome) (store : Store) (phase : Phase) : Store × Phase :=
  handle cfg o (store.tick o.elapsed) phase

/-! ## Runs -/

abbrev SchedulerWorld (ι : Type) := Interleaving.World Store ι Phase

variable {ι : Type} [DecidableEq ι]

def advance (cfg : Config) (w : SchedulerWorld ι) (turn : ι × Outcome) : SchedulerWorld ι :=
  Interleaving.advance (step cfg) w turn

/-- What a merchant gives for a subscription. -/
structure NewSubscription where
  userId : Option String
  phoneNumber : Option String
  amount : String
  currency : String
  interval : SubscriptionInterval
  nextRunAt : Option ℕ
  maxRetries : ℕ
  retryBackoffSeconds : ℕ
  provider : Option String
  deriving DecidableEq, Repr

def NewSubscription.row (n : NewSubscription) (id : ℕ) : SubscriptionRow where
  id := id
  userId := n.userId
  phoneNumber := n.phoneNumber
  amount := n.amount
  currency := n.currency
  interval := n.interval
  status := .active
  nextRunAt := n.nextRunAt
  lastRunAt := none
  retryCount := 0
  maxRetries := n.maxRetries
  retryBackoffSeconds := n.retryBackoffSeconds
  provider := n.provider

def created (subscriptions : List NewSubscription) : Table where
  rows := subscriptions.zipIdx.map fun p => p.1.row p.2
  nodup := by
    have ids : (subscriptions.zipIdx.map fun p => p.1.row p.2).map SubscriptionRow.id =
        subscriptions.zipIdx.map Prod.snd := by
      rw [List.map_map]
      rfl
    rw [ids, List.zipIdx_map_snd]
    exact List.nodup_range'

/-- Any subscriptions, just created, and nothing under way. -/
def start (subscriptions : List NewSubscription) (now : ℕ) : SchedulerWorld ι :=
  ⟨⟨⟨created subscriptions, []⟩, fun _ => none, 0, [], [], [], fun _ => 0, now⟩, fun _ => .idle⟩

/-! ## What a turn can do to the store -/

variable {cfg : Config}

theorem mem_updateRow {store : Store} {id : ℕ} {f : SubscriptionRow → SubscriptionRow}
    (same : ∀ s, (f s).id = s.id) {row' : SubscriptionRow} :
    row' ∈ (store.updateRow id f same).subscriptions.current.rows ↔
      ∃ row ∈ store.subscriptions.current.rows, row' = if row.id = id then f row else row :=
  Keyed.mem_modify same

theorem write_cases (o : Outcome) (store store' : Store) (next thrown : Phase) :
    o.db = .done ∧ write o store store' next thrown = (store', next) ∨
      o.db = .failed ∧ write o store store' next thrown = (store, thrown) ∨
      o.db = .lost ∧ write o store store' next thrown = (store', thrown) := by
  unfold write
  cases o.db with
  | done => exact .inl ⟨rfl, rfl⟩
  | failed => exact .inr (.inl ⟨rfl, rfl⟩)
  | lost => exact .inr (.inr ⟨rfl, rfl⟩)

/-- The changes that a process may make to the store; only a pausing one pauses. -/
inductive Effect (cfg : Config) (phase : Phase) (store : Store) : Store → Prop where
  | none : Effect cfg phase store store
  | create (t : Transaction) (drawn : t.id = store.nextId) : Effect cfg phase store (store.create t)
  | enqueue (s : SubscriptionRow) (t : Transaction) :
      Effect cfg phase store (store.addTransactionJob s t)
  | advance (s : SubscriptionRow) : Effect cfg phase store (store.advanceNextRun cfg s)
  | status (id : ℕ) {status : TransactionStatus → TransactionStatus}
      (keeps : ∀ old, old ≠ .pending → status old ≠ .pending) :
      Effect cfg phase store (store.setStatus id status)
  | complete (id : ℕ) : Effect cfg phase store (store.complete id)
  | fail (id : ℕ) : Effect cfg phase store (store.fail id)
  | increment (id : ℕ) : Effect cfg phase store (store.incrementRetry id)
  | pause (f : Failure) (a : SubscriptionAttemptRow) (before : phase = .reporting f (.pausing a)) :
      Effect cfg phase store (store.pause f.subscriptionId)
  | schedule (f : Failure) (a : SubscriptionAttemptRow) :
      Effect cfg phase store (store.scheduleRetry f a)

theorem effect_write (o : Outcome) {phase : Phase} {store store' : Store}
    (h : Effect cfg phase store store') (next thrown : Phase) :
    Effect cfg phase store (write o store store' next thrown).1 := by
  rcases write_cases o store store' next thrown with ⟨-, hwrite⟩ | ⟨-, hwrite⟩ | ⟨-, hwrite⟩
  · exact hwrite ▸ h
  · exact hwrite ▸ .none
  · exact hwrite ▸ h

theorem updateStatus_ne_pending {old new : TransactionStatus} (hold : old ≠ .pending)
    (hnew : new ≠ .pending) : Queue.updateStatus old new ≠ .pending := by
  unfold Queue.updateStatus
  split_ifs
  · exact hnew
  · exact hold

theorem effect_chargeStep (o : Outcome) (store : Store) (s : SubscriptionRow)
    (rest : List SubscriptionRow) (step : JobStep) :
    Effect cfg (.job s rest step) store (chargeStep cfg o store s rest step).1 := by
  cases step with
  | creating =>
    simp only [chargeStep]
    split
    · exact .none
    · split_ifs
      · exact effect_write o (.create _ rfl) _ _
      · exact .none
  | recording t => exact effect_write o .none _ _
  | enqueuing t => exact effect_write o (.enqueue s t) _ _
  | advancing => exact effect_write o (.advance s) _ _

theorem effect_reportStep (o : Outcome) (store : Store) (f : Failure) (step : ReportStep) :
    Effect cfg (.reporting f step) store (reportStep o store f step).1 := by
  cases step with
  | failing =>
    have keeps : ∀ old, old ≠ .pending → Queue.updateStatus old .failed ≠ .pending :=
      fun old hold => updateStatus_ne_pending hold nofun
    exact effect_write o (.status f.transactionId keeps) _ _
  | reloading =>
    simp only [reportStep]
    split <;> exact .none
  | loading => exact .none
  | incrementing => exact effect_write o (.increment f.subscriptionId) _ _
  | recording a => exact effect_write o .none _ _
  | pausing a => exact effect_write o (.pause f a rfl) _ _
  | scheduling a => exact effect_write o (.schedule f a) _ _

theorem effect_finish (o : Outcome) (store : Store) (id : ℕ) (phase : Phase) :
    Effect cfg phase store (finish o store id).1 := by
  unfold finish
  split
  · exact .complete id
  · exact .fail id
  · split
    · exact .fail id
    · exact .none

theorem effect_step (cfg : Config) (o : Outcome) (store : Store) (phase : Phase) :
    Effect cfg phase (store.tick o.elapsed) (step cfg o store phase).1 := by
  cases phase with
  | idle => exact .none
  | job s rest step => exact effect_chargeStep o _ s rest step
  | claiming id =>
    apply effect_write
    apply Effect.status
    intro old hold
    rw [if_neg hold]
    exact hold
  | rereading id => exact .none
  | processing id => exact effect_finish o _ id _
  | reporting f step => exact effect_reportStep o _ f step

end MobileMoney.Subscriptions
