import Mathlib.Algebra.GroupWithZero.Nat
import Mathlib.Data.Int.Notation
import MobileMoney.Library.Runs

/-!
# Firm quotes

`services/sep38/quoteService.ts`: a firm quote reserves liquidity while it is live. Quotes are
rows of `sep38_quotes`, or copies in the memory of a process whose statement has failed, and
their reserved amounts are to be added up in one Redis counter. That takes a client with a method
`incrbyfloat`; node-redis has `incrByFloat` instead, so that every command for the counter throws,
and the error is logged.

A step is a statement of a call with its answer, the visit of a sweep of the memory to one of its
entries, in any order, or the end of something else that a call waits for. A statement that
fails may have been executed, a command of Redis may be skipped. Ids are fresh. What `getQuote`
finds for `cancelQuote`, in the cache or elsewhere, can be out of date. The cache of a process does
not copy its values, so it can hold the memory's own quote; a `getQuote` that finds this one past
its expiry marks it, and is a step. Amounts are in units of 10⁻⁷, and `INCRBYFLOAT` adds them
exactly. Prices, fees, logs and the branch for tests are left out.

The status of a row has 16 characters at most, and `pending_execution` has 17.
-/

namespace MobileMoney.Sep38

variable {K P : Type}

inductive QuoteStatus where
  | active | pendingExecution | cancelled | expired
  deriving DecidableEq, Repr

def QuoteStatus.text : QuoteStatus → String
  | .active => "active"
  | .pendingExecution => "pending_execution"
  | .cancelled => "cancelled"
  | .expired => "expired"

/-- The column is a `VARCHAR(16)`. -/
def QuoteStatus.Fits (status : QuoteStatus) : Prop := status.text.length ≤ 16

instance (status : QuoteStatus) : Decidable status.Fits :=
  inferInstanceAs (Decidable (_ ≤ _))

structure Sep38Quote (K : Type) where
  id : K
  ownerId : String
  sellAsset : String
  buyAsset : String
  reservedAmount : ℕ
  status : QuoteStatus
  expiresAt : ℕ

def Sep38Quote.Live (quote : Sep38Quote K) : Prop :=
  quote.status = .active ∨ quote.status = .pendingExecution

instance (quote : Sep38Quote K) : Decidable quote.Live :=
  inferInstanceAs (Decidable (_ ∨ _))

structure CreateQuoteParams where
  ownerId : Option String
  sellAsset : String
  buyAsset : String
  status : Option QuoteStatus
  reservedAmount : Option ℕ
  ttlSeconds : Option ℕ

/-- Unless the environment says otherwise. -/
def defaultQuoteTtlSeconds : ℕ := 300

def CreateQuoteParams.quote (params : CreateQuoteParams) (id : K) (now : ℕ) : Sep38Quote K where
  id := id
  ownerId := params.ownerId.getD "anonymous"
  sellAsset := params.sellAsset
  buyAsset := params.buyAsset
  reservedAmount := params.reservedAmount.getD 0
  status := params.status.getD .pendingExecution
  expiresAt := now + params.ttlSeconds.getD defaultQuoteTtlSeconds * 1000

/-- What a quote reserves. -/
structure Reservation (K : Type) where
  id : K
  amount : ℕ
  deriving DecidableEq

def Sep38Quote.reservation (quote : Sep38Quote K) : Reservation K :=
  ⟨quote.id, quote.reservedAmount⟩

inductive Store (P : Type) where
  | database
  | inMemoryQuotes (process : P)
  deriving DecidableEq

structure Entry (K P : Type) where
  store : Store P
  quote : Sep38Quote K

/-- Who waits for the commands: `sweepingMemory` is the sweep after a failed statement, with the
time at which it has begun. -/
inductive Work (P : Type) where
  | createQuote
  | cancelQuote
  | sweeping (process : P)
  | sweepingMemory (process : P) (now : ℕ)
  deriving DecidableEq

/-- What a call waits for. -/
inductive Await (K : Type) where
  | incrbyfloat
  | clamp (id : K)
  | cacheDel (id : K)
  deriving DecidableEq

/-- A call that is past its statement, with the reservations it has still to make or release. -/
structure Call (K P : Type) where
  work : Work P
  rows : List (Reservation K)
  await : Await K
  deriving DecidableEq

/-- `created` and `released` tell which reservations have been made and released so far. -/
structure State (K P : Type) where
  now : ℕ
  stored : List (Entry K P)
  reserved : ℤ
  calls : List (Call K P)
  created : List (Reservation K)
  released : List (Reservation K)

inductive Answer where
  | answered
  | failed (executed : Bool)
  deriving DecidableEq, Repr

def Answer.executed : Answer → Bool
  | .answered => true
  | .failed executed => executed

inductive Event (K P : Type) where
  | passes (elapsed : ℕ)
  | createQuote (process : P) (id : K) (params : CreateQuoteParams) (answer : Answer)
  | cancelQuote (process : P) (id : K) (requestingUserId : String)
      (found : Option (Sep38Quote K)) (answer : Answer)
  | getQuote (process : P) (id : K)
  | expireStaleQuotes (process : P) (answer : Answer)
  | visit (call : ℕ) (id : K)
  | redis (call : ℕ) (answer : Answer)
  | cacheDel (call : ℕ)

inductive CancelError where
  | notFound
  | forbidden
  | notLive (status : QuoteStatus)
  | alreadyEnded
  deriving DecidableEq

def CancelError.statusCode : CancelError → ℕ
  | .notFound => 404
  | .forbidden => 403
  | .notLive _ | .alreadyEnded => 409

def CancelError.message : CancelError → String
  | .notFound => "Quote not found"
  | .forbidden => "Forbidden — you are not the owner of this quote"
  | .notLive status => "Quote cannot be cancelled: current status is '" ++ status.text ++ "'"
  | .alreadyEnded => "Quote cannot be cancelled: it was already cancelled or expired"

/-- The checks of `cancelQuote` on what it has found. -/
def checkCancel (requestingUserId : String) : Option (Sep38Quote K) → Option CancelError
  | none => some .notFound
  | some quote =>
    if quote.ownerId ≠ requestingUserId then some .forbidden
    else if quote.Live then none
    else some (.notLive quote.status)

/-! ## The stores -/

/-- The entries that a statement, or what takes its place in the memory, looks for. -/
abbrev Choice (K P : Type) := Entry K P → Bool

/-- Only live quotes are cancelled or expire. -/
def Choice.ends (choice : Choice K P) (entry : Entry K P) : Bool :=
  decide entry.quote.Live && choice entry

def Entry.setStatus (entry : Entry K P) (status : QuoteStatus) : Entry K P :=
  { entry with quote := { entry.quote with status := status } }

/-- What the entries reserve that are ended. -/
def State.ending (s : State K P) (choice : Choice K P) : List (Reservation K) :=
  (s.stored.filter choice.ends).map (·.quote.reservation)

def State.setStatus (s : State K P) (choice : Choice K P) (status : QuoteStatus) : State K P :=
  { s with
    stored := s.stored.map fun entry =>
      if choice.ends entry then entry.setStatus status else entry }

def State.begin (s : State K P) (work : Work P) (rows : List (Reservation K)) : State K P :=
  { s with calls := s.calls ++ [⟨work, rows, .incrbyfloat⟩] }

/-- The chosen quotes are ended, and the call goes on to release them. -/
def State.finish (s : State K P) (choice : Choice K P) (status : QuoteStatus) (work : Work P) :
    State K P :=
  (s.setStatus choice status).begin work (s.ending choice)

/-- A cancellation that finds nothing live is refused. -/
def State.cancel (s : State K P) (choice : Choice K P) : State K P × Option CancelError :=
  if s.ending choice = [] then (s, some .alreadyEnded)
  else (s.finish choice .cancelled .cancelQuote, none)

variable [DecidableEq K] [DecidableEq P]

def byId (store : Store P) (id : K) : Choice K P := fun entry =>
  decide (entry.store = store ∧ entry.quote.id = id)

omit [DecidableEq K] in
def stale (store : Store P) (now : ℕ) : Choice K P := fun entry =>
  decide (entry.store = store ∧ entry.quote.expiresAt < now)

/-! ## The calls -/

/-- The stores that a quote is in once its insertion has been answered. A status that does not fit
makes the insertion fail. -/
def copies (process : P) (quote : Sep38Quote K) (answer : Answer) : List (Entry K P) :=
  if quote.status.Fits then
    match answer with
    | .answered => [⟨.database, quote⟩]
    | .failed false => [⟨.inMemoryQuotes process, quote⟩]
    | .failed true => [⟨.inMemoryQuotes process, quote⟩, ⟨.database, quote⟩]
  else [⟨.inMemoryQuotes process, quote⟩]

/-- The client that the counter is kept with. -/
structure Client where
  incrbyfloat : Bool
  deriving DecidableEq, Repr

/-- The one that `config/redis.ts` makes, with the `redis` package. -/
def nodeRedis : Client := ⟨false⟩

/-- What a release is followed by. -/
def Work.after (id : K) : Work P → Await K
  | .sweeping _ => .cacheDel id
  | _ => .incrbyfloat

/-- `reserveLiquidity` or `releaseLiquidity`, with a client that has the command. One that fails is
not repeated, and a release that has no answer does not look at the counter. -/
def State.incrbyfloat (s : State K P) (call : Call K P) (row : Reservation K)
    (rows : List (Reservation K)) (answer : Answer) : State K P × Call K P :=
  match call.work with
  | .createQuote =>
    (if answer.executed then { s with reserved := s.reserved + row.amount } else s,
      { call with rows := rows })
  | work =>
    (if answer.executed then
        { s with reserved := s.reserved - row.amount, released := row :: s.released }
      else s,
      { call with
        rows := rows
        await :=
          if answer = .answered ∧ s.reserved - row.amount < 0 then .clamp row.id
          else work.after row.id })

/-- A command for the counter. -/
def State.command (client : Client) (s : State K P) (call : Call K P) (answer : Answer) :
    State K P × Call K P :=
  match call.await, call.rows with
  | .incrbyfloat, row :: rows =>
    if client.incrbyfloat then s.incrbyfloat call row rows answer
    else (s, { call with rows := rows, await := call.work.after row.id })
  | .clamp id, _ =>
    (if answer.executed then { s with reserved := 0 } else s,
      { call with await := call.work.after id })
  | _, _ => (s, call)

def cancelQuote (s : State K P) (process : P) (id : K) (requestingUserId : String)
    (found : Option (Sep38Quote K)) (answer : Answer) : State K P × Option CancelError :=
  match checkCancel requestingUserId found with
  | some err => (s, some err)
  | none =>
    match answer with
    | .answered => s.cancel (byId .database id)
    | .failed executed =>
      (if executed then s.setStatus (byId .database id) .cancelled else s).cancel
        (byId (.inMemoryQuotes process) id)

def State.forget (s : State K P) (process : P) (id : K) : State K P :=
  { s with stored := s.stored.filter fun entry => !byId (.inMemoryQuotes process) id entry }

def State.update (s : State K P) (call : ℕ) (call' : Call K P) : State K P :=
  { s with calls := s.calls.set call call' }

/-- The sweep of the memory that is ready for its next entry. -/
def State.sweepAt (s : State K P) (call : ℕ) : Option (P × ℕ) :=
  match s.calls[call]? with
  | some ⟨.sweepingMemory process now, [], .incrbyfloat⟩ => some (process, now)
  | _ => none

def ofVisit (id : K) (process : P) (now : ℕ) : Choice K P := fun entry =>
  byId (.inMemoryQuotes process) id entry && stale (.inMemoryQuotes process) now entry

def step (client : Client) (s : State K P) : Event K P → State K P
  | .passes elapsed => { s with now := s.now + elapsed }
  | .createQuote process id params answer =>
    if ∀ entry ∈ s.stored, entry.quote.id ≠ id then
      { s.begin .createQuote [(params.quote id s.now).reservation] with
        stored := copies process (params.quote id s.now) answer ++ s.stored
        created := (params.quote id s.now).reservation :: s.created }
    else s
  | .cancelQuote process id requestingUserId found answer =>
    (cancelQuote s process id requestingUserId found answer).1
  | .getQuote process id => s.setStatus (ofVisit id process s.now) .expired
  | .expireStaleQuotes process answer =>
    match answer with
    | .answered => s.finish (stale .database s.now) .expired (.sweeping process)
    | .failed executed =>
      (if executed then s.setStatus (stale .database s.now) .expired else s).begin
        (.sweepingMemory process s.now) []
  | .visit call id =>
    match s.sweepAt call with
    | some (process, now) =>
      (s.setStatus (ofVisit id process now) .expired).update call
        ⟨.sweepingMemory process now, s.ending (ofVisit id process now), .incrbyfloat⟩
    | none => s
  | .redis call answer =>
    match s.calls[call]? with
    | some waiting =>
      let result := s.command client waiting answer
      result.1.update call result.2
    | none => s
  | .cacheDel call =>
    match s.calls[call]? with
    | some ⟨.sweeping process, rows, .cacheDel id⟩ =>
      (s.forget process id).update call ⟨.sweeping process, rows, .incrbyfloat⟩
    | _ => s

def start : State K P := ⟨0, [], 0, [], [], []⟩

def run (client : Client) (events : List (Event K P)) : State K P :=
  events.foldl (step client) start

/-! ## What the reservations amount to -/

def total (rows : List (Reservation K)) : ℕ := (rows.map (·.amount)).sum

/-- What the live quotes reserve, in whichever store they are. -/
def State.live (s : State K P) : List (Reservation K) :=
  (s.stored.filter fun entry => entry.quote.Live).map (·.quote.reservation)

/-- What the live quotes of a pair reserve. -/
def State.liveOf (s : State K P) (sellAsset buyAsset : String) : List (Reservation K) :=
  (s.stored.filter fun entry => decide (entry.quote.Live ∧ entry.quote.sellAsset = sellAsset ∧
    entry.quote.buyAsset = buyAsset)).map (·.quote.reservation)

def Call.toReserve (call : Call K P) : List (Reservation K) :=
  if call.work = .createQuote then call.rows else []

def Call.toRelease (call : Call K P) : List (Reservation K) :=
  if call.work = .createQuote then [] else call.rows

def State.toReserve (s : State K P) : List (Reservation K) := s.calls.flatMap Call.toReserve

def State.toRelease (s : State K P) : List (Reservation K) := s.calls.flatMap Call.toRelease

/-- No call has anything left to reserve or to release. -/
def State.AtRest (s : State K P) : Prop := ∀ call ∈ s.calls, call.rows = []

instance (s : State K P) : Decidable s.AtRest :=
  inferInstanceAs (Decidable (∀ call ∈ s.calls, call.rows = []))

end MobileMoney.Sep38
