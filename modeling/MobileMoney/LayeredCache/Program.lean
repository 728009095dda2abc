import Mathlib.Data.Finset.Lattice.Fold
import Mathlib.Order.Lattice.Nat
import MobileMoney.Library.Answers
import MobileMoney.Library.Interleaving
import MobileMoney.Library.Keyed

/-!
# The layered cache

`get`, `set` and `del` of `services/layeredCache.ts`, by any calls on any instances: a `NodeCache`
in the memory of each instance over one Redis, with a channel of invalidations that every instance
is subscribed to. A turn of a call is what it does up to its next await, or a command at Redis; the
invalidations of an instance come in their order. Times are in milliseconds, on one clock. The
client of `config/redis.ts` answers a failing `GET` with null and a failing `DEL` with one. Writes
at Redis are counted, also a `DEL` that has failed: the stamp of a value is that of its write, or
the count when a `set` has put it in memory. Stamps, deadlines and floors are read by nothing in
the code.
-/

namespace MobileMoney.LayeredCache

variable {I K V : Type} [DecidableEq K]

/-! ## The layers -/

/-- A value with its write, and the moment from which its TTL has passed. -/
structure Found (V : Type) where
  value : V
  stamp : ℕ
  deadline : ℕ
  deriving DecidableEq, Repr

structure Entry (K V : Type) where
  key : K
  found : Found V
  deriving DecidableEq, Repr

/-- A row of the memory; without `expires` it stays. -/
structure Row (K V : Type) where
  key : K
  found : Found V
  expires : Option ℕ
  deriving DecidableEq, Repr

def Row.Live (row : Row K V) (now : ℕ) : Prop := ∀ expires ∈ row.expires, now ≤ expires

instance (row : Row K V) (now : ℕ) : Decidable (row.Live now) :=
  inferInstanceAs (Decidable (∀ expires ∈ row.expires, now ≤ expires))

abbrev Memory (K V : Type) := Keyed (Row.key : Row K V → K)

abbrev Redis (K V : Type) := Keyed (Entry.key : Entry K V → K)

structure CacheConfig where
  stdTTL : ℕ
  maxKeys : ℕ
  stdTTL_pos : 0 < stdTTL

namespace Memory

/-- `l1.get`; a row that has expired is deleted. -/
def get (memory : Memory K V) (key : K) (now : ℕ) : Option (Row K V) :=
  (memory.find? key).filter fun row => row.Live now

def check (memory : Memory K V) (key : K) (now : ℕ) : Memory K V :=
  if (memory.get key now).isSome then memory else memory.erase key

/-- `l1.set`, which throws when there are too many keys; without a TTL a row stays. -/
def set (config : CacheConfig) (memory : Memory K V) (key : K) (found : Found V) (ttlSec now : ℕ) :
    Option (Memory K V) :=
  if config.maxKeys ≤ memory.rows.length then none
  else some (memory.put ⟨key, found, if ttlSec = 0 then none else some (now + ttlSec * 1000)⟩)

end Memory

/-- What `GET` answers. -/
def Redis.get (redis : Redis K V) (key : K) (now : ℕ) : Option (Found V) :=
  ((redis.find? key).map Entry.found).filter fun found => now ≤ found.deadline

structure Store (I K V : Type) where
  clock : ℕ
  writes : ℕ
  redis : Redis K V
  memory : I → Memory K V
  published : List (K × ℕ)
  inbox : I → List (K × ℕ)

def Store.init : Store I K V :=
  ⟨0, 0, ⟨[], List.nodup_nil⟩, fun _ => ⟨[], List.nodup_nil⟩, [], fun _ => []⟩

/-! ## Calls -/

inductive Operation (V : Type) where
  | get
  | set (value : V) (ttlSec : ℕ)
  | del
  deriving DecidableEq, Repr

/-- What a `get` has returned, and when. -/
structure Return (V : Type) where
  found : Found V
  floor : ℕ
  time : ℕ
  deriving DecidableEq, Repr

/-- What a call waits for. A `get` carries the last write on its key whose invalidation had been
delivered everywhere when it began. -/
inductive Phase (V : Type) where
  | idle
  | reading (floor : ℕ)
  | parsing (floor : ℕ) (raw : Option (Found V))
  | writing
  | publishing (stamp : ℕ)
  | returned (result : Option (Return V))
  | finished
  | threw
  deriving DecidableEq, Repr

structure Request (I K V : Type) where
  instanceId : I
  key : K
  operation : Operation V
  deriving DecidableEq, Repr

structure Call (I K V : Type) extends Request I K V where
  phase : Phase V
  deriving DecidableEq, Repr

inductive Input (I : Type) where
  | proceed (isOpen : Bool) (answer : DbAnswer)
  | deliver (i : I)
  | sweep (i : I)
  | tick (ms : ℕ)
  deriving DecidableEq, Repr

namespace Store

variable [DecidableEq I]

def withMemory (s : Store I K V) (i : I) (memory : Memory K V) : Store I K V :=
  { s with memory := Function.update s.memory i memory }

/-- `SETEX` -/
def setEx (s : Store I K V) (key : K) (value : V) (ttlSec : ℕ) : Store I K V :=
  { s with
    writes := s.writes + 1
    redis := s.redis.put ⟨key, value, s.writes + 1, s.clock + ttlSec * 1000⟩ }

/-- `DEL`, which leaves the key where it is if it fails. -/
def delete (s : Store I K V) (key : K) (executed : Bool) : Store I K V :=
  { s with
    writes := s.writes + 1
    redis := if executed then s.redis.erase key else s.redis }

def publish (s : Store I K V) (key : K) (stamp : ℕ) : Store I K V :=
  { s with
    published := (key, stamp) :: s.published
    inbox := fun i => s.inbox i ++ [(key, stamp)] }

/-- The subscriber deletes the key. -/
def deliver (s : Store I K V) (i : I) : Store I K V :=
  match s.inbox i with
  | [] => s
  | message :: messages =>
    { s.withMemory i ((s.memory i).erase message.1) with
      inbox := Function.update s.inbox i messages }

/-- The cleanup of the memory. -/
def sweep (s : Store I K V) (i : I) : Store I K V :=
  s.withMemory i ((((s.memory i).rows.filter fun row => ¬row.Live s.clock).map Row.key).foldl
    Keyed.erase (s.memory i))

variable [Fintype I]

/-- The last write on the key whose invalidation has been delivered everywhere. -/
def settled (s : Store I K V) (key : K) : ℕ :=
  (s.published.toFinset.filter fun message =>
    message.1 = key ∧ ∀ i, message ∉ s.inbox i).sup Prod.snd

end Store

variable [DecidableEq I] [Fintype I] (config : CacheConfig)

namespace Call

def startGet (s : Store I K V) (call : Call I K V) (isOpen : Bool) :
    Store I K V × Call I K V :=
  match (s.memory call.instanceId).get call.key s.clock with
  | some row =>
    (s, { call with phase := .returned (some ⟨row.found, s.settled call.key, s.clock⟩) })
  | none =>
    (s.withMemory call.instanceId ((s.memory call.instanceId).check call.key s.clock),
      { call with phase := if isOpen then .reading (s.settled call.key) else .returned none })

def startSet (s : Store I K V) (call : Call I K V) (value : V) (ttlSec : ℕ) (isOpen : Bool) :
    Store I K V × Call I K V :=
  match (s.memory call.instanceId).set config call.key
      ⟨value, s.writes, s.clock + ttlSec * 1000⟩ ttlSec s.clock with
  | some memory =>
    (s.withMemory call.instanceId memory,
      { call with phase := if isOpen then .writing else .finished })
  | none => (s, { call with phase := .threw })

def startDel (s : Store I K V) (call : Call I K V) (isOpen : Bool) :
    Store I K V × Call I K V :=
  (s.withMemory call.instanceId ((s.memory call.instanceId).erase call.key),
    { call with phase := if isOpen then .writing else .finished })

def start (s : Store I K V) (call : Call I K V) (isOpen : Bool) : Store I K V × Call I K V :=
  match call.operation with
  | .get => startGet s call isOpen
  | .set value ttlSec => startSet config s call value ttlSec isOpen
  | .del => startDel s call isOpen

/-- The command of a write. Redis refuses a TTL of zero. -/
def command (s : Store I K V) (call : Call I K V) (executed : Bool) : Store I K V :=
  match call.operation with
  | .get => s
  | .set value ttlSec => if executed ∧ ttlSec ≠ 0 then s.setEx call.key value ttlSec else s
  | .del => s.delete call.key executed

/-- The command has not thrown. -/
def returns (call : Call I K V) (answer : DbAnswer) : Bool :=
  match call.operation with
  | .get => false
  | .set _ ttlSec => answer = .answered ∧ ttlSec ≠ 0
  | .del => true

def write (s : Store I K V) (call : Call I K V) (answer : DbAnswer) :
    Store I K V × Call I K V :=
  let s' := call.command s answer.executed
  (s', { call with phase := if call.returns answer then .publishing s'.writes else .finished })

/-- What has been read is put in memory with the standard TTL. -/
def populate (s : Store I K V) (call : Call I K V) (floor : ℕ) (found : Found V) :
    Store I K V × Call I K V :=
  match (s.memory call.instanceId).set config call.key found config.stdTTL s.clock with
  | some memory =>
    (s.withMemory call.instanceId memory,
      { call with phase := .returned (some ⟨found, floor, s.clock⟩) })
  | none => (s, { call with phase := .returned none })

def proceed (s : Store I K V) (call : Call I K V) (isOpen : Bool) (answer : DbAnswer) :
    Store I K V × Call I K V :=
  match call.phase with
  | .idle => start config s call isOpen
  | .reading floor =>
    (s, { call with
      phase := if answer = .answered then .parsing floor (s.redis.get call.key s.clock)
        else .returned none })
  | .parsing floor (some found) => populate config s call floor found
  | .parsing _ none => (s, { call with phase := .returned none })
  | .writing => write s call answer
  | .publishing stamp =>
    (if answer.executed then s.publish call.key stamp else s, { call with phase := .finished })
  | _ => (s, call)

end Call

def step (input : Input I) (s : Store I K V) (call : Call I K V) : Store I K V × Call I K V :=
  match input with
  | .proceed isOpen answer => Call.proceed config s call isOpen answer
  | .deliver i => (s.deliver i, call)
  | .sweep i => (s.sweep i, call)
  | .tick ms => ({ s with clock := s.clock + ms }, call)

def init {ι : Type} (requests : ι → Request I K V) :
    Interleaving.World (Store I K V) ι (Call I K V) :=
  ⟨.init, fun c => ⟨requests c, .idle⟩⟩

end MobileMoney.LayeredCache
