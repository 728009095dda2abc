import MobileMoney.Library.Answers
import MobileMoney.Library.Interleaving
import MobileMoney.Library.Keyed

/-!
# The outbox of transaction enqueues

`queue/transactionOutbox.ts`: an enqueue that finds Redis unavailable leaves a row, and the relays
of the replicas replay the rows. A turn is one statement, one answer of the queue or a crash. A
statement that fails may have been executed. What a dispatch does in the queue is outside; an
error is told apart only by what `isRedisUnavailableError` says of it. Payloads and texts of
errors are left out. The webhook workers that have the same table are not started by anything.
-/

namespace MobileMoney.Queue.Outbox

variable {T R : Type}

inductive OutboxStatus where
  | pending | processing | published | failed
  deriving DecidableEq, Repr

structure OutboxRow (T R : Type) where
  id : R
  aggregateId : T
  status : OutboxStatus
  attempts : ℕ
  maxAttempts : ℕ
  nextAttemptAt : Option ℕ
  publishedAt : Option ℕ
  updatedAt : ℕ
  deriving DecidableEq

def staleProcessingSeconds : ℕ := 120

def retryBackoffSeconds : ℕ := 5

/-- An enqueue of the same transaction does not insert another row. -/
def OutboxRow.Outstanding (row : OutboxRow T R) : Prop :=
  (row.status = .pending ∨ row.status = .processing ∨ row.status = .failed) ∧
    row.nextAttemptAt ≠ none

instance (row : OutboxRow T R) : Decidable row.Outstanding :=
  inferInstanceAs (Decidable ((_ ∨ _) ∧ _))

/-- The condition of `claim`. -/
def OutboxRow.Ready (now : ℕ) (row : OutboxRow T R) : Prop :=
  ((row.status = .pending ∨ row.status = .failed) ∧ ∃ t ∈ row.nextAttemptAt, t ≤ now) ∨
    row.status = .processing ∧ row.updatedAt + 1000 * staleProcessingSeconds < now

instance (now : ℕ) (row : OutboxRow T R) : Decidable (row.Ready now) :=
  inferInstanceAs (Decidable ((_ ∧ _) ∨ _ ∧ _))

/-! ## The statements -/

def OutboxRow.insert (id : R) (aggregateId : T) (now : ℕ) : OutboxRow T R where
  id := id
  aggregateId := aggregateId
  status := .pending
  attempts := 0
  maxAttempts := 5
  nextAttemptAt := some now
  publishedAt := none
  updatedAt := now

def OutboxRow.claim (now : ℕ) (row : OutboxRow T R) : OutboxRow T R :=
  { row with
    status := .processing
    updatedAt := now }

/-- The results of a replay. -/
inductive Change where
  | markPublished
  | release
  | markFailed
  deriving DecidableEq, Repr

def Change.apply (now : ℕ) (row : OutboxRow T R) : Change → OutboxRow T R
  | .markPublished =>
    { row with
      status := .published
      publishedAt := some now
      nextAttemptAt := none
      updatedAt := now }
  | .release =>
    { row with
      status := .pending
      nextAttemptAt := some (now + 1000 * retryBackoffSeconds)
      updatedAt := now }
  | .markFailed =>
    { row with
      status := .failed
      attempts := row.attempts + 1
      nextAttemptAt :=
        if row.maxAttempts ≤ row.attempts + 1 then none
        else some (now + 1000 * (retryBackoffSeconds * 2 ^ row.attempts))
      updatedAt := now }

@[simp] theorem Change.apply_id (now : ℕ) (change : Change) (row : OutboxRow T R) :
    (change.apply now row).id = row.id := by
  cases change <;> rfl

/-- The table, and what has happened around it: the rows whose job the queue has accepted, an
entry for each error of a row's replay that is no outage, and the enqueues that are reported as
outboxed, each with the row that stands for it. -/
structure State (T R : Type) where
  now : ℕ
  rows : Keyed fun row : OutboxRow T R => row.id
  accepted : List R
  errors : List R
  outboxed : List (T × R)

/-! ## The calls -/

structure DrainSummary where
  published : ℕ
  failed : ℕ
  deferred : ℕ
  redisDown : Bool
  deriving DecidableEq, Repr

/-- What an enqueue or a relay waits for. A relay keeps the rows of its batch that are still to
be replayed or released. -/
inductive Phase (T R : Type) where
  | idle
  | enqueueing (transactionId : T)
  | inserting (transactionId : T)
  | enqueued
  | outboxed
  | claiming
  | dispatching (row : R) (rest : List R) (summary : DrainSummary)
  | publishing (row : R) (rest : List R) (summary : DrainSummary)
  | failing (row : R) (rest : List R) (summary : DrainSummary)
  | releasing (row : R) (rest : List R) (summary : DrainSummary)
  | drained (summary : DrainSummary)
  | threw
  deriving DecidableEq

/-- A dispatch that has timed out is `unavailable` as well. -/
inductive DispatchOutcome where
  | accepted | unavailable | failed
  deriving DecidableEq, Repr

/-- `unavailable` says whether the error of a failed statement looks like one of Redis. -/
inductive Input (T R : Type) where
  | passes (elapsed : ℕ)
  | enqueueWithOutboxFallback (transactionId : T)
  | drainTransactionOutbox
  | dispatch (outcome : DispatchOutcome)
  | insert (id : R) (answer : DbAnswer)
  | claim (batch : List R) (answer : DbAnswer)
  | query (answer : DbAnswer) (unavailable : Bool)
  | crash

def Phase.AtRest : Phase T R → Bool
  | .idle | .enqueued | .outboxed | .drained _ | .threw => true
  | _ => false

/-- The statement that is sent in a phase for the result of a replay. -/
def Phase.statement : Phase T R → Option (R × Change)
  | .publishing row _ _ => some (row, .markPublished)
  | .failing row _ _ => some (row, .markFailed)
  | .releasing row _ _ => some (row, .release)
  | _ => none

def Phase.replay (rest : List R) (summary : DrainSummary) : Phase T R :=
  match rest with
  | [] => .drained summary
  | row :: rest => .dispatching row rest summary

/-- Redis is down: this and every later row is released. -/
def Phase.defer (row : R) (rest : List R) (summary : DrainSummary) : Phase T R :=
  .releasing row rest { summary with redisDown := true }

def Phase.release (rest : List R) (summary : DrainSummary) : Phase T R :=
  match rest with
  | [] => .drained summary
  | row :: rest => .releasing row rest summary

/-! ## The turns -/

section Turns

variable [DecidableEq T] [DecidableEq R]

def State.execute (s : State T R) (id : R) (change : Change) : State T R :=
  { s with rows := s.rows.modify id (fun row => change.apply s.now row) (change.apply_id s.now) }

def State.accept (s : State T R) (id : R) : State T R := { s with accepted := id :: s.accepted }

def State.err (s : State T R) (id : R) : State T R := { s with errors := id :: s.errors }

def dispatch (outcome : DispatchOutcome) (s : State T R) : Phase T R → State T R × Phase T R
  | .enqueueing transactionId =>
    (s, match outcome with
      | .accepted => .enqueued
      | .unavailable => .inserting transactionId
      | .failed => .threw)
  | .dispatching row rest summary =>
    match outcome with
    | .accepted => (s.accept row, .publishing row rest summary)
    | .unavailable => (s, .defer row rest summary)
    | .failed => (s.err row, .failing row rest summary)
  | phase => (s, phase)

def State.outstanding (s : State T R) (transactionId : T) : Option (OutboxRow T R) :=
  s.rows.rows.find? fun row => row.aggregateId = transactionId ∧ row.Outstanding

def State.report (s : State T R) (transactionId : T) (id : R) (answer : DbAnswer) : State T R :=
  if answer = .answered then { s with outboxed := (transactionId, id) :: s.outboxed } else s

def State.insert (s : State T R) (transactionId : T) (id : R) (answer : DbAnswer) : State T R :=
  if answer.executed then
    { s with rows := s.rows.insert (.insert id transactionId s.now) }
  else s

def insert (id : R) (answer : DbAnswer) (s : State T R) : Phase T R → State T R × Phase T R
  | .inserting transactionId =>
    match s.outstanding transactionId with
    | some row =>
      (s.report transactionId row.id answer, if answer = .answered then .outboxed else .threw)
    | none =>
      if s.rows.find? id = none then
        ((s.insert transactionId id answer).report transactionId id answer,
          if answer = .answered then .outboxed else .threw)
      else (s, .threw)
  | phase => (s, phase)

/-- A batch that the statement of `claim` may choose, locked rows being skipped. -/
def State.Claims (s : State T R) (batchSize : ℕ) (batch : List R) : Prop :=
  batch.length ≤ batchSize ∧ ∀ id ∈ batch, ∃ row ∈ s.rows.find? id, row.Ready s.now

instance (s : State T R) (batchSize : ℕ) (batch : List R) : Decidable (s.Claims batchSize batch) :=
  inferInstanceAs (Decidable (_ ∧ ∀ id ∈ batch, ∃ row ∈ s.rows.find? id, row.Ready s.now))

def claimed (batch : List R) (now : ℕ) (row : OutboxRow T R) : OutboxRow T R :=
  if row.id ∈ batch then row.claim now else row

omit [DecidableEq T] in
@[simp] theorem claimed_id (batch : List R) (now : ℕ) (row : OutboxRow T R) :
    (claimed batch now row).id = row.id := by
  unfold claimed
  split_ifs <;> rfl

def claim (batchSize : ℕ) (batch : List R) (answer : DbAnswer) (s : State T R) :
    Phase T R → State T R × Phase T R
  | .claiming =>
    if s.Claims batchSize batch then
      (if answer.executed then
          { s with rows := s.rows.map (claimed batch s.now) (claimed_id batch s.now) }
        else s,
        if answer = .answered then .replay batch ⟨0, 0, 0, false⟩ else .threw)
    else (s, .claiming)
  | phase => (s, phase)

/-- How a relay goes on after the statement of a phase. An error of `markPublished` is handled
like one of the dispatch, and the others end the drain. -/
def Phase.next (answer : DbAnswer) (unavailable : Bool) : Phase T R → Phase T R
  | .publishing row rest summary =>
    if answer = .answered then .replay rest { summary with published := summary.published + 1 }
    else if unavailable then .defer row rest summary
    else .failing row rest summary
  | .failing _ rest summary =>
    if answer = .answered then .replay rest { summary with failed := summary.failed + 1 }
    else .threw
  | .releasing _ rest summary =>
    if answer = .answered then .release rest { summary with deferred := summary.deferred + 1 }
    else .threw
  | phase => phase

/-- The error of `markPublished` that counts as an attempt. -/
def State.note (s : State T R) (answer : DbAnswer) (unavailable : Bool) :
    Phase T R → State T R
  | .publishing row _ _ => if answer ≠ .answered ∧ ¬ unavailable then s.err row else s
  | _ => s

def query (answer : DbAnswer) (unavailable : Bool) (s : State T R) (phase : Phase T R) :
    State T R × Phase T R :=
  match phase.statement with
  | some (id, change) =>
    ((if answer.executed then s.execute id change else s).note answer unavailable phase,
      phase.next answer unavailable)
  | none => (s, phase)

def step (batchSize : ℕ) (input : Input T R) (s : State T R) (phase : Phase T R) :
    State T R × Phase T R :=
  match input with
  | .passes elapsed => ({ s with now := s.now + elapsed }, phase)
  | .enqueueWithOutboxFallback transactionId =>
    (s, if phase.AtRest then .enqueueing transactionId else phase)
  | .drainTransactionOutbox => (s, if phase.AtRest then .claiming else phase)
  | .dispatch outcome => dispatch outcome s phase
  | .insert id answer => insert id answer s phase
  | .claim batch answer => claim batchSize batch answer s phase
  | .query answer unavailable => query answer unavailable s phase
  | .crash => (s, .idle)

abbrev World (T R ι : Type) := Interleaving.World (State T R) ι (Phase T R)

def World.init {ι : Type} : World T R ι :=
  ⟨⟨0, ⟨[], List.nodup_nil⟩, [], [], []⟩, fun _ => .idle⟩

end Turns

end MobileMoney.Queue.Outbox
