import MobileMoney.Library.Binary64
import MobileMoney.Library.Interleaving

/-!
# The ingestion of callbacks

`ingest-go/main.go`: requests take a JSON parser from a pool, parse, put it back and go on with the
strings they have taken from it, which are slices of its buffer. The next parse writes over the
front of the buffer. The libraries for JSON, numbers and times are parameters; texts are bytes.

A payload from the pool belongs to one request until it is answered, with every field written anew,
and what `json.Marshal` yields is in no pool, so that these pools are left out. A parser that a pool
has dropped is one that is not taken again. Requests that are no `POST` are left out.
-/

namespace MobileMoney.Ingest

open Binary64

abbrev Bytes := List UInt8

def ascii (text : String) : Bytes := text.toList.map fun c => UInt8.ofNat c.toNat

/-! ## The parser -/

structure Slice where
  offset : ℕ
  length : ℕ
  deriving DecidableEq, Repr

def Slice.read (buffer : Bytes) (slice : Slice) : Bytes :=
  (buffer.drop slice.offset).take slice.length

inductive Entry where
  | string (slice : Slice)
  | number (x : Number)
  | other
  deriving DecidableEq

def Entry.slice? : Entry → Option Slice
  | .string slice => some slice
  | _ => none

/-- `metadata` is the text that `MarshalTo` copies. -/
structure Value where
  fields : List (String × Entry)
  metadata : Option Bytes
  deriving DecidableEq

def Value.get (v : Value) (key : String) : Option Entry :=
  (v.fields.find? fun field => field.1 = key).map (·.2)

/-- What parsing a body leaves in the front of the buffer once its strings have been read, and the
value, the strings of which are there. -/
structure Parsed where
  content : Bytes
  value : Option Value
  within : ∀ v ∈ value, ∀ field ∈ v.fields, ∀ slice ∈ field.2.slice?,
    slice.offset + slice.length ≤ content.length

/-- `append(p.b[:0], s...)`. -/
def Parsed.overwrite (parsed : Parsed) (buffer : Bytes) : Bytes :=
  parsed.content ++ buffer.drop parsed.content.length

/-! ## The payload -/

variable {S T M : Type}

structure CallbackPayload (S M : Type) where
  eventType : S
  provider : S
  reference : S
  amount : Number
  currency : S
  status : S
  timestamp : S
  metadata : Option M
  deriving DecidableEq

namespace CallbackPayload

def map (f : S → T) (p : CallbackPayload S M) : CallbackPayload T M where
  eventType := f p.eventType
  provider := f p.provider
  reference := f p.reference
  amount := p.amount
  currency := f p.currency
  status := f p.status
  timestamp := f p.timestamp
  metadata := p.metadata

def strings (p : CallbackPayload S M) : List S :=
  [p.eventType, p.provider, p.reference, p.currency, p.status, p.timestamp]

end CallbackPayload

/-- A payload in memory; a string that is no slice is the empty one. -/
abbrev Payload (M : Type) := CallbackPayload (Option Slice) M

def readString (buffer : Bytes) : Option Slice → Bytes
  | none => []
  | some slice => slice.read buffer

def CallbackPayload.read (p : Payload M) (buffer : Bytes) : CallbackPayload Bytes M :=
  p.map (readString buffer)

/-- The libraries and the environment. -/
structure Env (M : Type) where
  parseBytes : Bytes → Parsed
  parseFloat : Bytes → Option Number
  unmarshal : Bytes → Option M
  marshal : CallbackPayload Bytes M → Option Bytes
  isRFC3339 : Bytes → Bool
  redisEnabled : Bool
  natsEnabled : Bool

variable (env : Env M)

def getStringFieldOptimized (v : Value) (key : String) : Option (Option Slice) :=
  match v.get key with
  | some (.string slice) => some (some slice)
  | none => some none
  | some _ => none

def getFloatFieldOptimized (content : Bytes) (v : Value) (key : String) : Option Number :=
  match v.get key with
  | none => some .zero
  | some (.number x) => some x
  | some (.string slice) =>
    let s := slice.read content
    if s = [] then none else env.parseFloat s
  | some .other => none

/-- It is only unmarshaled if present. -/
def parseMetadata (v : Value) : Option (Option M) :=
  match v.metadata with
  | none => some none
  | some buf => (env.unmarshal buf).map some

/-- Which step has failed is not reported. -/
def parseCallbackPayload (parsed : Parsed) : Option (Payload M) := do
  let v ← parsed.value
  let eventType ← getStringFieldOptimized v "event_type"
  let provider ← getStringFieldOptimized v "provider"
  let reference ← getStringFieldOptimized v "reference"
  let currency ← getStringFieldOptimized v "currency"
  let status ← getStringFieldOptimized v "status"
  let timestamp ← getStringFieldOptimized v "timestamp"
  let amount ← getFloatFieldOptimized env parsed.content v "amount"
  let metadata ← parseMetadata env v
  return ⟨eventType, provider, reference, amount, currency, status, timestamp, metadata⟩

inductive ValidationError where
  | eventType
  | provider
  | reference
  | amount
  | currency
  | status
  | timestamp
  deriving DecidableEq, Repr

def ValidationError.message : ValidationError → String
  | .eventType => "event_type is required and must be ≤64 chars"
  | .provider => "provider is required and must be ≤32 chars"
  | .reference => "reference is required and must be ≤128 chars"
  | .amount => "amount must be positive"
  | .currency => "currency must be a 3-letter ISO code"
  | .status => "status must be pending|success|failed"
  | .timestamp => "timestamp must be RFC3339"

/-- The error, if there is one. -/
def CallbackPayload.validate (p : CallbackPayload Bytes M) : Option ValidationError :=
  if p.eventType = [] ∨ 64 < p.eventType.length then some .eventType
  else if p.provider = [] ∨ 32 < p.provider.length then some .provider
  else if p.reference = [] ∨ 128 < p.reference.length then some .reference
  else if p.amount.le .zero then some .amount
  else if p.currency.length ≠ 3 then some .currency
  else if p.status ∉ [ascii "pending", ascii "success", ascii "failed"] then some .status
  else if ¬ env.isRFC3339 p.timestamp then some .timestamp
  else none

/-! ## A request -/

/-- The values of `XAdd`. -/
structure StreamEntry where
  eventType : Bytes
  provider : Bytes
  reference : Bytes
  data : Bytes
  deriving DecidableEq

def streamEntry (p : CallbackPayload Bytes M) (data : Bytes) : StreamEntry :=
  ⟨p.eventType, p.provider, p.reference, data⟩

inductive Response where
  | invalidJSON
  | invalid (e : ValidationError)
  | publishFailed
  | accepted (reference : Bytes)
  deriving DecidableEq

def Response.statusCode : Response → ℕ
  | .invalidJSON | .invalid _ => 400
  | .publishFailed => 500
  | .accepted _ => 202

/-- What a request does next when it has put the parser back. -/
inductive Point where
  | validate
  | marshal
  | xAdd (data : Bytes)
  | natsPublish (data : Bytes)
  | respond (data : Bytes)
  deriving DecidableEq

inductive Stage (M : Type) where
  | arrived
  | taken (parser : ℕ)
  | parsed (parser : ℕ) (payload : Option (Payload M))
  | released (parser : ℕ) (payload : Payload M) (point : Point)
  | answered (response : Response)
  deriving DecidableEq

/-- A request with what it has added to the stream and published. -/
structure Request (M : Type) where
  body : Bytes
  stage : Stage M
  added : List StreamEntry
  published : List Bytes
  deriving DecidableEq

/-- How often a message has arrived in attempts that count as failed, and whether the last attempt
has been answered. -/
structure Delivery where
  copies : ℕ
  ok : Bool
  deriving DecidableEq, Repr

def Delivery.count (delivery : Delivery) : ℕ := delivery.copies + if delivery.ok then 1 else 0

/-- What comes from outside: which parser the pool gives, if it has it, and what becomes of a
message. -/
structure Input where
  parser : Option ℕ
  delivery : Delivery
  deriving DecidableEq, Repr

/-- The parsers that have been made are those below `created`. -/
structure Shared where
  buffers : ℕ → Bytes
  created : ℕ
  pool : List ℕ

/-- `parserPool.Get()`. -/
def Shared.get (s : Shared) (choice : Option ℕ) : Shared × ℕ :=
  match choice.filter (· ∈ s.pool) with
  | some parser => ({ s with pool := s.pool.erase parser }, parser)
  | none => ({ s with created := s.created + 1 }, s.created)

def Shared.parse (s : Shared) (parser : ℕ) (parsed : Parsed) : Shared :=
  { s with buffers := Function.update s.buffers parser (parsed.overwrite (s.buffers parser)) }

/-- `parserPool.Put(parser)`. -/
def Shared.put (s : Shared) (parser : ℕ) : Shared := { s with pool := parser :: s.pool }

/-- The turn of a request that has put its parser back: its strings are in the buffer all the
same. -/
def proceed (delivery : Delivery) (request : Request M) (parser : ℕ) (payload : Payload M)
    (fields : CallbackPayload Bytes M) : Point → Request M
  | .validate =>
    match fields.validate env with
    | some e => { request with stage := .answered (.invalid e) }
    | none => { request with stage := .released parser payload .marshal }
  | .marshal =>
    match env.marshal fields with
    | none => { request with stage := .answered .publishFailed }
    | some data => { request with stage := .released parser payload (.xAdd data) }
  | .xAdd data =>
    if env.redisEnabled then
      { request with
        added := request.added ++ List.replicate delivery.count (streamEntry fields data)
        stage := if delivery.ok then .released parser payload (.natsPublish data)
          else .answered .publishFailed }
    else { request with stage := .released parser payload (.natsPublish data) }
  | .natsPublish data =>
    if env.natsEnabled then
      { request with
        published := request.published ++ List.replicate delivery.count data
        stage := if delivery.ok then .released parser payload (.respond data)
          else .answered .publishFailed }
    else { request with stage := .released parser payload (.respond data) }
  | .respond _ => { request with stage := .answered (.accepted fields.reference) }

/-- One turn of `handleIngest`. -/
def step (input : Input) (s : Shared) (request : Request M) : Shared × Request M :=
  match request.stage with
  | .arrived =>
    let (next, parser) := s.get input.parser
    (next, { request with stage := .taken parser })
  | .taken parser =>
    let parsed := env.parseBytes request.body
    (s.parse parser parsed,
      { request with stage := .parsed parser (parseCallbackPayload env parsed) })
  | .parsed parser none => (s.put parser, { request with stage := .answered .invalidJSON })
  | .parsed parser (some payload) =>
    (s.put parser, { request with stage := .released parser payload .validate })
  | .released parser payload point =>
    (s, proceed env input.delivery request parser payload (payload.read (s.buffers parser)) point)
  | .answered _ => (s, request)

open Interleaving

variable {ι : Type}

def start (bodies : ι → Bytes) : World Shared ι (Request M) :=
  ⟨⟨fun _ => [], 0, []⟩, fun i => ⟨bodies i, .arrived, [], []⟩⟩

end MobileMoney.Ingest
