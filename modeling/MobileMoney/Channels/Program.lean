import MobileMoney.Library.Expiring
import MobileMoney.Library.Ownership

/-!
# The pool of channel accounts

`services/channelPool.ts`: every call of `withChannel` takes a channel account from the idle
list of its process, leases it in a store shared with other processes, loads its sequence,
submits, and gives the channel back to the oldest waiting call or to the idle list.

A turn of a call is what runs between two of its awaits. The stored sequences, the top-up of
channels and the texts of the log are left out: they do not decide who has a channel. A store
command is executed when it arrives or not at all; the client may give up on it either way, and the
one of `config/redis.ts` then answers a `SET` itself with OK. While Redis is not connected a process
falls back to a store of its own, which does not fail.
-/

namespace MobileMoney.Channels

variable {K P C : Type}

/-- `instanceId:randomUUID()`: the process and a number it has not used before. -/
abbrev Token (P : Type) := P × ℕ

/-- What a process holds of a lease: its token, and the moment until which it is to last in Redis,
which nothing in the code reads; a lease of the fallback store has none. -/
structure Lease (P : Type) where
  token : Token P
  sharedUntil : Option ℕ
  deriving DecidableEq, Repr

abbrev LeaseStore (K P : Type) := K → Option (Expiring.Entry (Token P))

/-- The constructor refuses duplicate channels. -/
structure ChannelPoolOptions (K : Type) where
  accounts : List K
  distinct : accounts.Nodup
  leaseTtlMs : ℕ
  maxSequenceRetries : ℕ

/-- The state of `ChannelAccountPool` in one process. A waiter whose promise has been resolved
is no longer in `waiters`; it finds its channel under `handed`. -/
structure Pool (K P C : Type) where
  idle : List K
  waiters : List C
  handed : List (C × K)
  holders : K → Option (Lease P)
  fallback : LeaseStore K P
  minted : ℕ

/-- How a call goes on once its channel is released. -/
inductive Outcome where
  | returned | failed | retry
  deriving DecidableEq, Repr

/-- Where a call is suspended. `claiming` and `releasing` have a command at Redis, with its
answer once it has been executed: for a claim the end of the lease, or a refusal. `answered` has the
answer of the fallback store. `rest` are the candidates left in the loop of `tryAcquireIdle`, and
there are none for a channel that was handed over. -/
inductive Phase (K P : Type) where
  | notCalled
  | acquiring
  | trying (rest : ℕ)
  | claiming (channel : K) (token : Token P) (rest : Option ℕ) (answer : Option (Option ℕ))
  | answered (channel : K) (token : Token P) (rest : Option ℕ) (ok : Bool)
  | looked
  | waiting
  | sleeping
  | loading (channel : K)
  | submitting (channel : K)
  | recording (channel : K)
  | forgetting (channel : K) (outcome : Outcome)
  | releasing (channel : K) (token : Token P) (executed : Bool) (outcome : Outcome)
  | finished (ok : Bool)
  deriving DecidableEq, Repr

structure Call (K P C : Type) where
  process : P
  id : C
  attempt : ℕ
  phase : Phase K P
  deriving DecidableEq, Repr

/-- How `submit` settles: whether it has used the sequence, and whether it was stale. -/
inductive Submission where
  | success
  | failure (built mismatch : Bool)
  deriving DecidableEq, Repr

/-- What a turn meets: the time since the last one, whether a command of the call is executed
at the store instead of the call going on, whether Redis is connected, whether what is awaited
rejects, whether the deadline or timer has run out, and how a submission settles. -/
structure Input where
  elapsed : ℕ
  executes : Bool
  online : Bool
  fails : Bool
  expired : Bool
  submission : Submission
  deriving DecidableEq, Repr

variable [DecidableEq K] [DecidableEq P]

/-! ## The turns of a call -/

/-- `claimShared`, up to its await. -/
def claimShared (options : ChannelPoolOptions K) (now : ℕ) (input : Input) (pool : Pool K P C)
    (call : Call K P C) (channel : K) (rest : Option ℕ) : Pool K P C × Call K P C :=
  let token := (call.process, pool.minted)
  let pool := { pool with minted := pool.minted + 1 }
  if input.online then
    (pool, { call with phase := .claiming channel token rest none })
  else
    match Expiring.acquire (pool.fallback channel) token options.leaseTtlMs now with
    | some cell =>
      ({ pool with fallback := Function.update pool.fallback channel cell },
        { call with phase := .answered channel token rest true })
    | none => (pool, { call with phase := .answered channel token rest false })

/-- One round of the loop in `tryAcquireIdle`. -/
def tryNext (options : ChannelPoolOptions K) (now : ℕ) (input : Input) (pool : Pool K P C)
    (call : Call K P C) : ℕ → Pool K P C × Call K P C
  | 0 => (pool, { call with phase := .looked })
  | rest + 1 =>
    match pool.idle with
    | [] => (pool, { call with phase := .looked })
    | channel :: idle =>
      claimShared options now input { pool with idle := idle } call channel (some rest)

/-- The top of the loop in `acquire`. -/
def acquire (options : ChannelPoolOptions K) (now : ℕ) (input : Input) (pool : Pool K P C)
    (call : Call K P C) : Pool K P C × Call K P C :=
  tryNext options now input pool call pool.idle.length

/-- Where a call goes on when it did not get the lease. -/
def Phase.refused : Option ℕ → Phase K P
  | some rest => .trying rest
  | none => .acquiring

/-- What `tryLease` has answered to a claim: nothing yet, a refusal, or a lease. A `SET` that fails
is answered with OK by the client, and its lease is to last until `expiry` unless Redis has granted
it. -/
def Phase.answer (input : Input) (expiry : ℕ) : Phase K P → Option (Option (Lease P))
  | .claiming _ token _ answer =>
    if input.fails then some (some ⟨token, some (answer.join.getD expiry)⟩)
    else answer.map fun granted => granted.map fun expiry => ⟨token, some expiry⟩
  | .answered _ token _ ok => some (if ok then some ⟨token, none⟩ else none)
  | _ => none

/-- The end of `claimShared`: a channel that was not leased goes back to the idle list. -/
def claimed (pool : Pool K P C) (call : Call K P C) (channel : K) (rest : Option ℕ) :
    Option (Lease P) → Pool K P C × Call K P C
  | some lease =>
    ({ pool with holders := Function.update pool.holders channel (some lease) },
      { call with phase := .loading channel })
  | none =>
    ({ pool with idle := if channel ∈ pool.idle then pool.idle else pool.idle ++ [channel] },
      { call with phase := .refused rest })

/-- The end of `release`: the channel goes to the oldest waiter or to the idle list. -/
def Pool.giveBack (pool : Pool K P C) (channel : K) : Pool K P C :=
  match pool.waiters with
  | waiter :: waiters =>
    { pool with waiters := waiters, handed := pool.handed ++ [(waiter, channel)] }
  | [] => { pool with idle := pool.idle ++ [channel] }

/-- The end of `release`, and what follows it in `withChannel`. -/
def released (pool : Pool K P C) (call : Call K P C) (channel : K) (outcome : Outcome) :
    Pool K P C × Call K P C :=
  let pool := pool.giveBack channel
  match outcome with
  | .returned => (pool, { call with phase := .finished true })
  | .failed => (pool, { call with phase := .finished false })
  | .retry => (pool, { call with attempt := call.attempt + 1, phase := .acquiring })

/-- `release` of the fallback store, which does not look whether the lease has expired. -/
def dropLease (cell : Option (Expiring.Entry (Token P))) (token : Token P) :
    Option (Expiring.Entry (Token P)) :=
  if cell.map (·.value) = some token then none else cell

/-- `release`, up to its await. -/
def release (input : Input) (pool : Pool K P C) (call : Call K P C) (channel : K)
    (outcome : Outcome) : Pool K P C × Call K P C :=
  match pool.holders channel with
  | some lease =>
    let pool := { pool with holders := Function.update pool.holders channel none }
    if input.online then
      (pool, { call with phase := .releasing channel lease.token false outcome })
    else
      let cell := dropLease (pool.fallback channel) lease.token
      ({ pool with fallback := Function.update pool.fallback channel cell },
        { call with phase := .releasing channel lease.token true outcome })
  | none => released pool call channel outcome

/-- The `catch` of `withChannel`. -/
def retryOrFail (options : ChannelPoolOptions K) (call : Call K P C) (mismatch : Bool) :
    Outcome :=
  if mismatch ∧ call.attempt < options.maxSequenceRetries then .retry else .failed

variable [DecidableEq C]

/-- A call goes on after what it has been waiting for. -/
def resume (options : ChannelPoolOptions K) (now : ℕ) (input : Input) (pool : Pool K P C)
    (call : Call K P C) : Pool K P C × Call K P C :=
  match call.phase with
  | .notCalled => acquire options now input pool { call with attempt := 1 }
  | .acquiring | .sleeping => acquire options now input pool call
  | .trying rest => tryNext options now input pool call rest
  | .claiming channel _ rest _ | .answered channel _ rest _ =>
    match call.phase.answer input (now + options.leaseTtlMs) with
    | some granted => claimed pool call channel rest granted
    | none => (pool, call)
  | .looked =>
    if input.expired then (pool, { call with phase := .finished false })
    else if pool.idle = [] then
      ({ pool with waiters := pool.waiters ++ [call.id] }, { call with phase := .waiting })
    else (pool, { call with phase := .sleeping })
  | .waiting =>
    match pool.handed.find? (·.1 = call.id) with
    | some handed =>
      claimShared options now input { pool with handed := pool.handed.erase handed } call
        handed.2 none
    | none =>
      if input.expired then
        ({ pool with waiters := pool.waiters.erase call.id }, { call with phase := .acquiring })
      else (pool, call)
  | .loading channel =>
    if input.fails then release input pool call channel .failed
    else (pool, { call with phase := .submitting channel })
  | .submitting channel =>
    match input.submission with
    | .success => (pool, { call with phase := .recording channel })
    | .failure built mismatch =>
      let outcome := retryOrFail options call mismatch
      if built then (pool, { call with phase := .forgetting channel outcome })
      else release input pool call channel outcome
  | .recording channel => release input pool call channel .returned
  | .forgetting channel outcome => release input pool call channel outcome
  | .releasing channel _ executed outcome =>
    if executed ∨ input.fails then released pool call channel outcome
    else (pool, call)
  | .finished _ => (pool, call)

/-! ## The processes and their store -/

structure Cluster (K P C : Type) where
  now : ℕ
  redis : LeaseStore K P
  pools : P → Pool K P C

/-- A command in flight reaches Redis. -/
def execute (options : ChannelPoolOptions K) (cluster : Cluster K P C) (call : Call K P C) :
    Cluster K P C × Call K P C :=
  match call.phase with
  | .claiming channel token rest none =>
    match Expiring.acquire (cluster.redis channel) token options.leaseTtlMs cluster.now with
    | some cell =>
      ({ cluster with redis := Function.update cluster.redis channel cell },
        { call with
          phase := .claiming channel token rest (some (cell.map (·.expiry))) })
    | none => (cluster, { call with phase := .claiming channel token rest (some none) })
  | .releasing channel token false outcome =>
    let cell := Expiring.release (cluster.redis channel) token cluster.now
    ({ cluster with redis := Function.update cluster.redis channel cell },
      { call with phase := .releasing channel token true outcome })
  | _ => (cluster, call)

def step (options : P → ChannelPoolOptions K) (input : Input) (cluster : Cluster K P C)
    (call : Call K P C) : Cluster K P C × Call K P C :=
  let cluster := { cluster with now := cluster.now + input.elapsed }
  if input.executes then execute (options call.process) cluster call
  else
    let (pool, call') := resume (options call.process) cluster.now input
      (cluster.pools call.process) call
    ({ cluster with pools := Function.update cluster.pools call.process pool }, call')

/-- Processes with any number of calls each. -/
abbrev World (K P C : Type) := Interleaving.World (Cluster K P C) (P × C) (Call K P C)

def Pool.create (options : ChannelPoolOptions K) : Pool K P C :=
  ⟨options.accounts, [], [], fun _ => none, fun _ => none, 0⟩

/-- All processes have been started and no call has been made. -/
def start (options : P → ChannelPoolOptions K) : World K P C where
  shared := ⟨0, fun _ => none, fun p => .create (options p)⟩
  locals := fun i => ⟨i.1, i.2, 0, .notCalled⟩

def run (options : P → ChannelPoolOptions K) (schedule : List ((P × C) × Input)) :
    World K P C :=
  Interleaving.run (step options) (start options) schedule

end MobileMoney.Channels
