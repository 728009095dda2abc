import MobileMoney.Library.Answers
import MobileMoney.Library.Interleaving
import MobileMoney.Library.Keyed

/-!
# Paused providers

`queue/providerQueueControl.ts` with the two who use it: `dispatchTransactionJob` of
`queue/transactionQueue.ts` and `handleTransactionJob` of `queue/worker.ts`, for one provider and
with the shared queue. Calls and jobs take turns; a turn is one command to Redis or to a queue.
The commands of a move may fail, and one that fails may have been executed. Priorities and the
counts that are reported are left out.
-/

namespace MobileMoney.Queue.Pauses

variable {T : Type}

/-- The id of a job is its transaction's, or it is made from another when a move finds that one
taken. -/
inductive JobId (T : Type) where
  | transaction (transactionId : T)
  | resumed (id : JobId T) (now : ℕ)
  deriving DecidableEq

def JobId.transactionId : JobId T → T
  | .transaction transactionId => transactionId
  | .resumed id _ => id.transactionId

/-- `waiting` are all states of `PENDING_STATES`. An active job is passed on when its worker has put
it into the hold queue or handed it to `processTransaction`. -/
inductive JobState where
  | waiting
  | active (passedOn : Bool)
  | finished
  deriving DecidableEq, Repr

/-- A job of the main queue. -/
structure MainJob (T : Type) where
  id : JobId T
  state : JobState
  deriving DecidableEq

def MainJob.withState (state : JobState) (job : MainJob T) : MainJob T :=
  { job with state := state }

@[simp] theorem MainJob.withState_id (state : JobState) (job : MainJob T) :
    (job.withState state).id = job.id := rfl

def releaseLockTtlMs : ℕ := 30000

def releasePageSize : ℕ := 100

/-- The lock is held by a token until it expires. `accepted` are the transactions whose job a
queue has taken and that have not been handed to `processTransaction` since. -/
structure State (T : Type) where
  now : ℕ
  paused : Bool
  main : Keyed fun job : MainJob T => job.id
  hold : List (JobId T)
  lock : Option (ℕ × ℕ)
  tokens : ℕ
  accepted : List T

/-! ## The calls -/

/-- Who waits for `releaseHeldJobs`. -/
inductive Caller (T : Type) where
  | enqueue
  | worker (id : JobId T)
  | resume

/-- What a call or a worker's job waits for. A drain keeps its token, the job it moves and the
rest of its page. -/
inductive Phase (T : Type) where
  | idle
  | dispatching (transactionId : T)
  | adding (transactionId : T)
  | holding (transactionId : T)
  | diverting (id : JobId T)
  | held (caller : Caller T)
  | checking (id : JobId T)
  | processing (id : JobId T)
  | returning (id : JobId T)
  | pausing
  | resuming
  | releasing (caller : Caller T)
  | locking (caller : Caller T)
  | draining (caller : Caller T) (token : ℕ)
  | fetching (caller : Caller T) (token : ℕ)
  | finding (caller : Caller T) (token : ℕ) (job : JobId T) (rest : List (JobId T))
  | examining (caller : Caller T) (token : ℕ) (job : JobId T) (rest : List (JobId T))
  | clearing (caller : Caller T) (token : ℕ) (job : JobId T) (rest : List (JobId T))
  | moving (caller : Caller T) (token : ℕ) (job target : JobId T) (rest : List (JobId T))
  | removing (caller : Caller T) (token : ℕ) (job : JobId T) (rest : List (JobId T))
  | unlocking (caller : Caller T) (token : ℕ)
  | recheckingPaused (caller : Caller T)
  | recheckingCount (caller : Caller T)

/-- `answer` tells how a command of a move ends; the others are answered. -/
inductive Input (T : Type) where
  | passes (elapsed : ℕ)
  | enqueue (transactionId : T)
  | take (id : JobId T)
  | pause
  | resume
  | turn (answer : DbAnswer)
  | page (jobs : List (JobId T))
  | finish (retried : Bool)
  | expire (id : JobId T)

/-- The call of `releaseHeldJobs` returns. -/
def Caller.after : Caller T → Phase T
  | .worker id => .returning id
  | .enqueue | .resume => .idle

def Phase.nextJob (caller : Caller T) (token : ℕ) : List (JobId T) → Phase T
  | [] => .draining caller token
  | job :: rest => .finding caller token job rest

/-! ## The commands -/

section Commands

variable [DecidableEq T]

/-- `add` of a queue ignores an id that the queue still holds. -/
def State.addMain (s : State T) (id : JobId T) : State T :=
  { s with main := s.main.insert ⟨id, .waiting⟩ }

def State.addHold (s : State T) (id : JobId T) : State T :=
  { s with hold := if id ∈ s.hold then s.hold else s.hold ++ [id] }

def State.removeHold (s : State T) (id : JobId T) : State T :=
  { s with hold := s.hold.filter (· ≠ id) }

def State.setState (s : State T) (id : JobId T) (state : JobState) : State T :=
  { s with main := s.main.modify id (MainJob.withState state) (MainJob.withState_id state) }

def State.state (s : State T) (id : JobId T) : Option JobState := (s.main.find? id).map (·.state)

omit [DecidableEq T] in
def State.accept (s : State T) (transactionId : T) : State T :=
  { s with accepted := transactionId :: s.accepted }

def State.hand (s : State T) (transactionId : T) : State T :=
  { s with accepted := s.accepted.filter (· ≠ transactionId) }

/-- `existing.remove()`: an active job is locked. -/
def State.Removes (s : State T) (id : JobId T) : Prop :=
  ∀ state ∈ s.state id, state = .waiting ∨ state = .finished

instance (s : State T) (id : JobId T) : Decidable (s.Removes id) :=
  inferInstanceAs (Decidable (∀ state ∈ s.state id, _))

def State.LockFree (s : State T) : Prop := ∀ lock ∈ s.lock, lock.2 ≤ s.now

instance (s : State T) : Decidable s.LockFree :=
  inferInstanceAs (Decidable (∀ lock ∈ s.lock, _))

/-! ## The turns -/

def turn (answer : DbAnswer) (s : State T) : Phase T → State T × Phase T
  | .dispatching t => (s, if s.paused then .holding t else .adding t)
  -- the main queue takes no job under an id that it still has
  | .adding t =>
    (if s.state (.transaction t) = none then (s.addMain (.transaction t)).accept t else s, .idle)
  | .holding t => ((s.addHold (.transaction t)).accept t, .held .enqueue)
  | .diverting id => ((s.addHold id).setState id (.active true), .held (.worker id))
  | .held caller => (s, if s.paused then caller.after else .releasing caller)
  | .checking id =>
    if s.paused then (s, .diverting id)
    else ((s.setState id (.active true)).hand id.transactionId, .processing id)
  | .pausing => ({ s with paused := true }, .idle)
  | .resuming => ({ s with paused := false }, .releasing .resume)
  | .releasing caller => (s, if s.paused then caller.after else .locking caller)
  | .locking caller =>
    if s.LockFree then
      ({ s with
          lock := some (s.tokens, s.now + releaseLockTtlMs)
          tokens := s.tokens + 1 }, .draining caller s.tokens)
    else (s, caller.after)
  | .draining caller token =>
    (s, if s.paused then .unlocking caller token else .fetching caller token)
  | .finding caller token job rest =>
    (s, if answer = .answered then
        if s.state job = none then .moving caller token job job rest
        else .examining caller token job rest
      else .unlocking caller token)
  | .examining caller token job rest =>
    (s, if answer = .answered then
        match s.state job with
        | some .waiting => .removing caller token job rest
        | some (.active _) => .moving caller token job (.resumed job s.now) rest
        | _ => .clearing caller token job rest
      else .unlocking caller token)
  -- a job that cannot be removed is queued again under another id
  | .clearing caller token job rest =>
    (if answer.executed ∧ s.Removes job then { s with main := s.main.erase job } else s,
      .moving caller token job
        (if answer = .answered ∧ s.Removes job then job else .resumed job s.now) rest)
  | .moving caller token job target rest =>
    (if answer.executed then s.addMain target else s,
      if answer = .answered then .removing caller token job rest else .unlocking caller token)
  | .removing caller token job rest =>
    (if answer.executed then s.removeHold job else s,
      if answer = .answered then .nextJob caller token rest else .unlocking caller token)
  | .unlocking caller token =>
    ({ s with lock := s.lock.filter fun lock => lock.1 ≠ token }, .recheckingPaused caller)
  | .recheckingPaused caller => (s, if s.paused then caller.after else .recheckingCount caller)
  | .recheckingCount caller => (s, if s.hold = [] then caller.after else .releasing caller)
  | phase => (s, phase)

/-- A page of the hold queue. -/
def State.Page (s : State T) (jobs : List (JobId T)) : Prop :=
  jobs.length = min releasePageSize s.hold.length ∧ jobs.Nodup ∧ ∀ id ∈ jobs, id ∈ s.hold

instance (s : State T) (jobs : List (JobId T)) : Decidable (s.Page jobs) :=
  inferInstanceAs (Decidable (_ ∧ _ ∧ ∀ id ∈ jobs, _))

def page (jobs : List (JobId T)) (s : State T) : Phase T → Phase T
  | .fetching caller token =>
    if s.Page jobs then
      match jobs with
      | [] => .unlocking caller token
      | job :: rest => .finding caller token job rest
    else .fetching caller token
  | phase => phase

/-- The worker is done with its job, or it has returned from the diversion. A job whose processing
has failed may be tried again. -/
def finish (retried : Bool) (s : State T) : Phase T → State T × Phase T
  | .processing id => (s.setState id (if retried then .waiting else .finished), .idle)
  | .returning id => (s.setState id .finished, .idle)
  | phase => (s, phase)

def take (id : JobId T) (s : State T) : Phase T → State T × Phase T
  | .idle =>
    if s.state id = some .waiting then (s.setState id (.active false), .checking id)
    else (s, .idle)
  | phase => (s, phase)

def Phase.start (phase next : Phase T) : Phase T :=
  match phase with
  | .idle => next
  | phase => phase

/-- Finished jobs of the main queue are not kept for ever. -/
def State.expire (s : State T) (id : JobId T) : State T :=
  if s.state id = some .finished then { s with main := s.main.erase id } else s

def step (input : Input T) (s : State T) (phase : Phase T) : State T × Phase T :=
  match input with
  | .passes elapsed => ({ s with now := s.now + elapsed }, phase)
  | .enqueue transactionId => (s, phase.start (.dispatching transactionId))
  | .take id => take id s phase
  | .pause => (s, phase.start .pausing)
  | .resume => (s, phase.start .resuming)
  | .turn answer => turn answer s phase
  | .page jobs => (s, page jobs s phase)
  | .finish retried => finish retried s phase
  | .expire id => (s.expire id, phase)

abbrev World (T ι : Type) := Interleaving.World (State T) ι (Phase T)

def World.init {ι : Type} : World T ι :=
  ⟨⟨0, false, ⟨[], List.nodup_nil⟩, [], none, 0, []⟩, fun _ => .idle⟩

end Commands

end MobileMoney.Queue.Pauses
