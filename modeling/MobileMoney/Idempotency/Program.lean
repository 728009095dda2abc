import MobileMoney.Library.Expiring
import MobileMoney.Library.Interleaving

/-!
# Strict idempotency

The middleware keeps two cells in Redis for a cache key: the cached response and an
in-flight lock. A request looks the response up, takes the lock, looks again and only then
lets the handler run, with hooks on the response that cache it and give the lock back.
Redis is reachable, so that `get` and `set` are carried out. Whether redlock can take a lock
depends on the client that it is given: it calls `evalsha`, which clients of ioredis have and
those of node-redis have not. Time is in milliseconds. JSON values are represented by the text
`JSON.stringify` gives them, and the cache only holds what the middleware itself has written.
-/

namespace MobileMoney.Idempotency

open Expiring (Entry)

/-! ## Texts -/

structure Json where
  text : String
  deriving DecidableEq, Repr

def escape (c : Char) : List Char :=
  match c with
  | '"' => ['\\', '"']
  | '\\' => ['\\', '\\']
  | '\x08' => ['\\', 'b']
  | '\x0c' => ['\\', 'f']
  | '\n' => ['\\', 'n']
  | '\r' => ['\\', 'r']
  | '\t' => ['\\', 't']
  | c =>
    if c.toNat < 32 then
      ['\\', 'u', '0', '0', Nat.digitChar (c.toNat / 16), Nat.digitChar (c.toNat % 16)]
    else [c]

/-- `JSON.stringify` of a string. -/
def quote (s : String) : String := String.ofList ('"' :: s.toList.flatMap escape ++ ['"'])

/-- `JSON.stringify` of an object, whose undefined fields are left out. -/
def stringify (fields : List (String × Option Json)) : Json :=
  let defined := fields.filterMap fun field => field.2.map fun value =>
    quote field.1 ++ ":" ++ value.text
  ⟨"\x7b" ++ String.intercalate "," defined ++ "\x7d"⟩

/-- A SHA-256 digest in hexadecimal. -/
structure Digest where
  text : String
  length_eq : text.length = 64
  deriving DecidableEq

/-! ## Requests -/

structure Request where
  idempotencyKey : Option String
  jwtUserId : Option String
  userId : Option String
  method : String
  baseUrl : String
  routePath : Option String
  path : String
  originalUrl : String
  body : Option Json
  query : Option Json
  file : Option String
  deriving DecidableEq, Repr

/-- The characters that `trim` removes. -/
def isSpace (c : Char) : Bool :=
  let n := c.toNat
  (9 ≤ n && n ≤ 13) || n = 32 || n = 0xa0 || n = 0x1680 || (0x2000 ≤ n && n ≤ 0x200a) ||
    n = 0x2028 || n = 0x2029 || n = 0x202f || n = 0x205f || n = 0x3000 || n = 0xfeff

/-- What is put on the wire, apart from headers. -/
structure Response where
  status : ℕ
  text : String
  deriving DecidableEq, Repr

def errorResponse (status : ℕ) (error message : String) : Response :=
  ⟨status, (stringify [("error", some ⟨quote error⟩), ("message", some ⟨quote message⟩)]).text⟩

def missingKey : Response :=
  errorResponse 400 "invalid_request" ("Idempotency-Key header is required for this endpoint. " ++
    "Supply a unique key per logical operation (e.g. a UUID) and reuse it for retries.")

/-- The key of a request, or the refusal of one that has none. -/
def Request.key (req : Request) : Except Response String :=
  match req.idempotencyKey with
  | none => .error missingKey
  | some key => if key.toList.all isSpace then .error missingKey else .ok key

def nonEmpty (s : Option String) : Option String := s.filter fun text => text ≠ ""

def buildCacheKey (req : Request) (key : String) : String :=
  let identity := (req.jwtUserId <|> req.userId).getD "anonymous"
  "idempotency" ++ ":" ++ identity ++ ":" ++ req.method ++ ":" ++ req.baseUrl ++
    (nonEmpty req.routePath).getD req.path ++ ":" ++ key

/-- What is fingerprinted of a request. -/
def payload (sha256 : String → Digest) (req : Request) (key : String) : Json :=
  stringify [("key", some ⟨quote key⟩), ("method", some ⟨quote req.method⟩),
    ("path", some ⟨quote req.originalUrl⟩), ("body", some (req.body.getD (stringify []))),
    ("query", some (req.query.getD (stringify []))),
    ("file", req.file.map fun content => ⟨quote (sha256 content).text⟩)]

def fingerprintRequest (sha256 : String → Digest) (req : Request) (key : String) : String :=
  (sha256 (payload sha256 req key).text).text

/-- A request that is admitted under a cache key. -/
structure Admitted (cacheKey : String) where
  request : Request
  key : String
  admitted : request.key = .ok key
  cacheKey_eq : buildCacheKey request key = cacheKey

/-! ## Responses -/

/-- What a handler passes to `res.json`, or as a string to `res.send`. -/
inductive Body where
  | json (value : Json)
  | text (s : String)
  deriving DecidableEq, Repr

structure Reply where
  status : ℕ
  body : Body
  deriving DecidableEq, Repr

def Body.isJson : Body → Bool
  | .json _ => true
  | .text _ => false

def Reply.response (reply : Reply) : Response :=
  match reply.body with
  | .json value => ⟨reply.status, value.text⟩
  | .text s => ⟨reply.status, s⟩

structure CachedIdempotentResponse where
  status : ℕ
  body : Json
  fingerprint : String
  deriving DecidableEq, Repr

/-- The record that `persist` caches: a string becomes a JSON string. -/
def Reply.record (reply : Reply) (fingerprint : String) : CachedIdempotentResponse :=
  match reply.body with
  | .json value => ⟨reply.status, value, fingerprint⟩
  | .text s => ⟨reply.status, ⟨quote s⟩, fingerprint⟩

/-- How the middleware itself answers a request. -/
inductive Answer where
  | replayed (response : Response)
  | keyReuse
  | inProgress
  deriving DecidableEq, Repr

def Answer.response : Answer → Response
  | .replayed response => response
  | .keyReuse => errorResponse 422 "idempotency_key_reuse" ("This Idempotency-Key was already " ++
      "used with a different request payload. Use a new key for a new operation.")
  | .inProgress => errorResponse 409 "idempotency_key_in_progress" ("A request with this " ++
      "Idempotency-Key is currently in progress. Retry later — the original response will be " ++
      "returned once it completes.")

/-- The answer that a cached response gives to a request, if there is one. -/
def replayIfCached (fingerprint : String) : Option CachedIdempotentResponse → Option Answer
  | none => none
  | some cached =>
    if cached.fingerprint ≠ "" ∧ cached.fingerprint ≠ fingerprint then some .keyReuse
    else some (.replayed ⟨cached.status, cached.body.text⟩)

/-! ## One request -/

def idempotencyTtl : ℕ := 24 * 60 * 60 * 1000

def lockTtl : ℕ := 60 * 1000

/-- `retryCount` of the lock manager. -/
def retryCount : ℕ := 3

/-- What Redis holds for a cache key, and its clock. Requests own the lock by a token. -/
structure Slot (κ : Type) where
  cache : Option (Entry CachedIdempotentResponse)
  lock : Option (Entry κ)
  now : ℕ
  deriving DecidableEq

inductive Handler where
  | running
  | replied (reply : Reply)
  | ended
  deriving DecidableEq, Repr

/-- What the hooks on the response still have to do. `finished` is set in all states but
the first; the last two remember until when the response is cached. -/
inductive Hook where
  | watching
  | persisting (reply : Reply)
  | releasing (cachedUntil : Option ℕ)
  | settled (cachedUntil : Option ℕ)
  deriving DecidableEq, Repr

inductive Phase where
  | lookup
  | acquiring (retries : ℕ)
  | rechecking
  | unlocking (answer : Answer)
  | answered (answer : Answer)
  | handling (handler : Handler) (hook : Hook)
  deriving DecidableEq, Repr

/-- The lock manager has failed before the hooks were in place: the handler runs without them. -/
def Phase.unguarded : Phase := .handling .running (.settled none)

structure Process (κ : Type) (cacheKey : String) where
  token : κ
  request : Admitted cacheKey
  fingerprint : String
  phase : Phase

/-- What moves a request: its next command; the handler's reply; the end of a response that
neither `json` nor `send` has seen; the connection closing. -/
inductive Input where
  | command
  | reply (reply : Reply)
  | finish
  | close
  deriving DecidableEq, Repr

structure Event where
  elapsed : ℕ
  input : Input
  deriving DecidableEq, Repr

variable {κ : Type} [DecidableEq κ] {cacheKey : String}

def Slot.tick (slot : Slot κ) (elapsed : ℕ) : Slot κ := { slot with now := slot.now + elapsed }

def Slot.unlock (slot : Slot κ) (token : κ) : Slot κ :=
  { slot with lock := Expiring.release slot.lock token slot.now }

def Slot.persist (slot : Slot κ) (record : CachedIdempotentResponse) : Slot κ :=
  { slot with cache := Expiring.put record idempotencyTtl slot.now }

/-- The client that redlock is given. -/
structure Client where
  evalsha : Bool
  deriving DecidableEq, Repr

/-- The one that `config/redis.ts` makes, with the `redis` package. -/
def nodeRedis : Client := ⟨false⟩

/-- What an attempt of redlock comes to, and why it fails. -/
inductive Vote (κ : Type) where
  | acquired (lock : Option (Entry κ))
  | resourceLocked
  | error
  deriving DecidableEq

/-- The script that redlock has evaluated sets the key if it is absent. -/
def Client.attempt (client : Client) (slot : Slot κ) (token : κ) : Vote κ :=
  if client.evalsha then
    match Expiring.acquire slot.lock token lockTtl slot.now with
    | some lock => .acquired lock
    | none => .resourceLocked
  else .error

/-- The next command of a request. All attempts of one client fail for the same reason. -/
def command (client : Client) (slot : Slot κ) (p : Process κ cacheKey) : Slot κ × Phase :=
  match p.phase with
  | .lookup =>
    match replayIfCached p.fingerprint (Expiring.get slot.cache slot.now) with
    | some answer => (slot, .answered answer)
    | none => (slot, .acquiring retryCount)
  | .acquiring retries =>
    match client.attempt slot p.token, retries with
    | .acquired lock, _ => ({ slot with lock := lock }, .rechecking)
    | .resourceLocked, 0 => (slot, .answered .inProgress)
    | .error, 0 => (slot, .unguarded)
    | .resourceLocked, n + 1 | .error, n + 1 => (slot, .acquiring n)
  | .rechecking =>
    match replayIfCached p.fingerprint (Expiring.get slot.cache slot.now) with
    | some answer => (slot, .unlocking answer)
    | none => (slot, .handling .running .watching)
  | .unlocking answer => (slot.unlock p.token, .answered answer)
  | .handling handler (.persisting reply) =>
    (slot.persist (reply.record p.fingerprint),
      .handling handler (.releasing (some (slot.now + idempotencyTtl))))
  | .handling handler (.releasing cachedUntil) =>
    (slot.unlock p.token, .handling handler (.settled cachedUntil))
  | .answered _ | .handling _ .watching | .handling _ (.settled _) => (slot, p.phase)

/-- `persist`, unless the hooks have already fired. -/
def Hook.capture (reply : Reply) : Hook → Hook
  | .watching => .persisting reply
  | hook => hook

/-- `releaseLock`, unless the hooks have already fired. -/
def Hook.release : Hook → Hook
  | .watching => .releasing none
  | hook => hook

def Phase.reply (reply : Reply) : Phase → Phase
  | .handling .running hook => .handling (.replied reply) (hook.capture reply)
  | phase => phase

def Phase.finish : Phase → Phase
  | .handling .running hook => .handling .ended hook.release
  | phase => phase

def Phase.close : Phase → Phase
  | .handling handler hook => .handling handler hook.release
  | phase => phase

/-- What an input does once its time has come. -/
def act (client : Client) (input : Input) (slot : Slot κ) (p : Process κ cacheKey) :
    Slot κ × Phase :=
  match input with
  | .command => command client slot p
  | .reply reply => (slot, p.phase.reply reply)
  | .finish => (slot, p.phase.finish)
  | .close => (slot, p.phase.close)

def step (client : Client) (event : Event) (slot : Slot κ) (p : Process κ cacheKey) :
    Slot κ × Process κ cacheKey :=
  let result := act client event.input (slot.tick event.elapsed) p
  (result.1, { p with phase := result.2 })

/-! ## Runs -/

abbrev RequestWorld (ι : Type) (cacheKey : String) :=
  Interleaving.World (Slot ι) ι (Process ι cacheKey)

variable {ι : Type} [DecidableEq ι]

abbrev advance (client : Client) (w : RequestWorld ι cacheKey) (turn : ι × Event) :
    RequestWorld ι cacheKey :=
  Interleaving.advance (step client) w turn

/-- Any number of requests with one cache key, none of which has arrived yet. -/
def start (sha256 : String → Digest) (requests : ι → Admitted cacheKey) :
    RequestWorld ι cacheKey :=
  ⟨⟨none, none, 0⟩, fun i =>
    ⟨i, requests i, fingerprintRequest sha256 (requests i).request (requests i).key, .lookup⟩⟩

end MobileMoney.Idempotency
