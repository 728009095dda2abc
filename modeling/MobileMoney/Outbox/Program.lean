import MobileMoney.Library.Interleaving

/-!
# The outbox workers

`workers/outboxWorker.ts` holds two workers over `outbox_events`: the dispatcher of
`startOutboxWorker`, which claims a batch in one statement and delivers its events side by
side, and the class `OutboxWorker`, which reads a batch and publishes it one by one.

A turn is one query, one answer of a webhook, or a crash. A query that fails may have been
executed all the same. Which of the eligible events a batch has is left to the database, up to
the batch size; payloads, errors and logs are left out. Events are those of the types that the
relay of `queue/transactionOutbox.ts`, which has the same table, does not take. Two migrations
create the table: that of `20260928_create_outbox_events.sql` takes the statements of an
`OutboxWorker`, that of `20261019_create_outbox_events.sql` those of a dispatcher. A row has the
columns of both.
-/

namespace MobileMoney.Outbox

variable {K : Type}

inductive Status where
  | pending | processing | delivered | published | failed | dead
  deriving DecidableEq, Repr

structure OutboxEvent where
  status : Status
  attempts : ℕ
  maxAttempts : ℕ
  nextAttemptAt : Option ℕ
  publishedAt : Option ℕ
  deriving DecidableEq, Repr

structure Database (K : Type) where
  now : ℕ
  events : K → Option OutboxEvent

/-- The condition by which both workers choose events. -/
def OutboxEvent.Ready (event : OutboxEvent) (now : ℕ) : Prop :=
  (event.status = .pending ∨ event.status = .failed) ∧ ∃ t ∈ event.nextAttemptAt, t ≤ now

instance (event : OutboxEvent) (now : ℕ) : Decidable (event.Ready now) :=
  inferInstanceAs (Decidable (_ ∧ _))

/-- In seconds, by the number of attempts. -/
def backoffSeconds : List ℕ := [30, 60, 120, 300, 600]

def maxAttempts : ℕ := backoffSeconds.length

structure OutboxWorkerOptions where
  batchSize : ℕ
  retryDelayMs : ℕ
  pruneAfterMs : ℕ

/-! ## The statements -/

def OutboxEvent.process (event : OutboxEvent) : OutboxEvent := { event with status := .processing }

def markDelivered (event : OutboxEvent) : OutboxEvent := { event with status := .delivered }

/-- `attempts` is what the event had when it was claimed. -/
def scheduleRetry (now attempts : ℕ) (event : OutboxEvent) : OutboxEvent :=
  { event with
    status := if maxAttempts ≤ attempts + 1 then .dead else .failed
    attempts := attempts + 1
    nextAttemptAt := some (now + 1000 * backoffSeconds.getD attempts 600) }

/-- The update of `publishEvent`, which comes before the publishing itself. -/
def publishEvent (event : OutboxEvent) : OutboxEvent :=
  { event with status := .processing, attempts := event.attempts + 1 }

def markAsPublished (now : ℕ) (event : OutboxEvent) : OutboxEvent :=
  { event with status := .published, publishedAt := some now, nextAttemptAt := none }

/-- The update of `markAsFailed`, with the attempts it has read. -/
def markAsFailed (retryDelayMs now attempts maxAttempts : ℕ) (event : OutboxEvent) :
    OutboxEvent :=
  { event with
    status := .failed
    nextAttemptAt :=
      if maxAttempts ≤ attempts then none else some (now + retryDelayMs * 2 ^ attempts) }

/-! ## The workers -/

inductive Kind where
  | dispatcher | outboxWorker
  deriving DecidableEq, Repr

/-- How far an event has come with the worker that holds it: a dispatcher waits for the webhook
and then for one statement; an `OutboxWorker` has read the event and waits for the update of
`publishEvent`, for `markAsPublished`, or for the two queries of `markAsFailed`. -/
inductive Stage where
  | delivering (attempts : ℕ)
  | markingDelivered
  | schedulingRetry (attempts : ℕ)
  | fetched
  | markingPublished
  | markingFailed
  | rescheduling (attempts maxAttempts : ℕ)
  deriving DecidableEq, Repr

/-- A worker with its batch and the events of it that it holds. -/
structure Worker (K : Type) where
  kind : Kind
  batch : List K
  stages : K → Option Stage

inductive DbAnswer where
  | answered
  | failed (executed : Bool)
  deriving DecidableEq, Repr

def DbAnswer.executed : DbAnswer → Bool
  | .answered => true
  | .failed executed => executed

inductive Input (K : Type) where
  | passes (elapsed : ℕ)
  | insert (event : K) (maxAttempts : ℕ)
  | claim (batch : List K) (answer : DbAnswer)
  | fetch (batch : List K) (answer : DbAnswer)
  | respond (event : K) (success : Bool)
  | query (event : K) (answer : DbAnswer)
  | prune
  | crash

variable [DecidableEq K]

/-- All events of the last batch are settled. -/
def Worker.AtRest (worker : Worker K) : Prop := ∀ k ∈ worker.batch, worker.stages k = none

instance (worker : Worker K) : Decidable worker.AtRest :=
  inferInstanceAs (Decidable (∀ k ∈ worker.batch, worker.stages k = none))

def Database.Ready (db : Database K) (k : K) : Prop := ∃ event ∈ db.events k, event.Ready db.now

instance (db : Database K) (k : K) : Decidable (db.Ready k) :=
  inferInstanceAs (Decidable (∃ event ∈ db.events k, event.Ready db.now))

/-- A batch that a worker may be given. -/
def Takes (options : OutboxWorkerOptions) (kind : Kind) (db : Database K) (worker : Worker K)
    (batch : List K) : Prop :=
  worker.kind = kind ∧ worker.AtRest ∧ batch.length ≤ options.batchSize ∧
    ∀ k ∈ batch, db.Ready k

instance (options : OutboxWorkerOptions) (kind : Kind) (db : Database K) (worker : Worker K)
    (batch : List K) : Decidable (Takes options kind db worker batch) :=
  inferInstanceAs (Decidable (_ ∧ _ ∧ _ ∧ _))

def Database.attempts (db : Database K) (k : K) : ℕ := ((db.events k).map (·.attempts)).getD 0

def Database.modify (db : Database K) (k : K) (f : OutboxEvent → OutboxEvent) : Database K :=
  { db with events := Function.update db.events k ((db.events k).map f) }

def Database.process (db : Database K) (batch : List K) : Database K :=
  { db with events := fun k => if k ∈ batch then (db.events k).map (·.process) else db.events k }

def Worker.take (worker : Worker K) (batch : List K) (stage : K → Stage) : Worker K :=
  { worker with
    batch := batch
    stages := fun k => if k ∈ batch then some (stage k) else worker.stages k }

def Worker.move (worker : Worker K) (k : K) (stage : Option Stage) : Worker K :=
  { worker with stages := Function.update worker.stages k stage }

/-- The process of the worker has ended, or `process` has thrown. -/
def Worker.drop (worker : Worker K) : Worker K := { worker with stages := fun _ => none }

/-- What the query that a stage waits for does to the event. -/
def Stage.update (options : OutboxWorkerOptions) (now : ℕ) : Stage → OutboxEvent → OutboxEvent
  | .markingDelivered => markDelivered
  | .schedulingRetry attempts => scheduleRetry now attempts
  | .fetched => publishEvent
  | .markingPublished => markAsPublished now
  | .rescheduling attempts maxAttempts =>
    markAsFailed options.retryDelayMs now attempts maxAttempts
  | .delivering _ | .markingFailed => id

/-- How the worker goes on with the event after the query. -/
inductive Next where
  | stage (stage : Stage)
  | settled
  | throws
  deriving DecidableEq, Repr

/-- A dispatcher logs an error of its statement and is done with the event; `publishEvent`
turns one into a failure, and out of the other queries of an `OutboxWorker` it is thrown. -/
def Stage.next (event : Option OutboxEvent) (answer : DbAnswer) : Stage → Next
  | .delivering attempts => .stage (.delivering attempts)
  | .markingDelivered | .schedulingRetry _ => .settled
  | .fetched => if answer = .answered then .stage .markingPublished else .stage .markingFailed
  | .markingFailed =>
    if answer = .answered then
      match event with
      | some event => .stage (.rescheduling event.attempts event.maxAttempts)
      | none => .settled
    else .throws
  | .markingPublished | .rescheduling _ _ => if answer = .answered then .settled else .throws

/-- An `OutboxWorker` is at the first event of its batch that is not settled. -/
def Worker.AtTurn (worker : Worker K) (k : K) : Prop :=
  worker.kind = .outboxWorker → worker.batch.find? (fun j => (worker.stages j).isSome) = some k

instance (worker : Worker K) (k : K) : Decidable (worker.AtTurn k) :=
  inferInstanceAs (Decidable (_ → _))

def step (options : OutboxWorkerOptions) (input : Input K) (db : Database K) (worker : Worker K) :
    Database K × Worker K :=
  match input with
  | .passes elapsed => ({ db with now := db.now + elapsed }, worker)
  | .insert k maxAttempts =>
    match db.events k with
    | some _ => (db, worker)
    | none =>
      let event := ⟨.pending, 0, maxAttempts, some db.now, none⟩
      ({ db with events := Function.update db.events k (some event) }, worker)
  | .claim batch answer =>
    if Takes options .dispatcher db worker batch then
      (if answer.executed then db.process batch else db,
        if answer = .answered then worker.take batch fun k => .delivering (db.attempts k)
        else worker)
    else (db, worker)
  | .fetch batch answer =>
    if Takes options .outboxWorker db worker batch ∧ answer = .answered then
      (db, worker.take batch fun _ => .fetched)
    else (db, worker)
  | .respond k success =>
    match worker.stages k with
    | some (.delivering attempts) =>
      (db, worker.move k (some (if success then .markingDelivered else .schedulingRetry attempts)))
    | _ => (db, worker)
  | .query k answer =>
    match worker.stages k with
    | some stage =>
      if worker.AtTurn k then
        (if answer.executed then db.modify k (stage.update options db.now) else db,
          match stage.next (db.events k) answer with
          | .stage stage => worker.move k (some stage)
          | .settled => worker.move k none
          | .throws => worker.drop)
      else (db, worker)
    | none => (db, worker)
  | .prune =>
    if worker.kind = .outboxWorker ∧ worker.AtRest then
      ({ db with events := fun k =>
          (db.events k).filter fun event => ¬ (event.status = .published ∧
            ∃ t ∈ event.publishedAt, t + options.pruneAfterMs < db.now) }, worker)
    else (db, worker)
  | .crash => (db, worker.drop)

abbrev World (K ι : Type) := Interleaving.World (Database K) ι (Worker K)

variable {ι : Type} [DecidableEq ι]

/-- An empty table, and workers that have just been started. -/
def start (kinds : ι → Kind) : World K ι where
  shared := ⟨0, fun _ => none⟩
  locals := fun i => ⟨kinds i, [], fun _ => none⟩

def run (options : OutboxWorkerOptions) (kinds : ι → Kind) (schedule : List (ι × Input K)) :
    World K ι :=
  Interleaving.run (step options) (start kinds) schedule

end MobileMoney.Outbox
