import Mathlib.Algebra.Group.Nat.Defs
import Mathlib.Data.Nat.Notation
import Mathlib.Logic.Function.Basic

/-!
# The stream of transaction events

`services/transactionEventStream.ts`: events are numbered, kept in a bounded buffer and written to
the open streams; a client that comes back sends the id that it has seen last. Frames wait in a
connection until the client reads them, and are lost with it. The buffer, the counter and the
connections are those of one process, and a restart begins anew. `place` counts the events of all
processes, `started`, `seen` and `since` are such places, and nothing in the code reads them. `P` is
what else is in an event.
-/

namespace MobileMoney.EventStream

variable {P ι : Type}

/-! ## Events -/

structure TransactionStreamEvent (P : Type) where
  transactionId : String
  userId : Option String
  timestamp : Option ℕ
  payload : P
  deriving DecidableEq, Repr

structure BufferedTransactionEvent (P : Type) where
  id : ℕ
  transactionId : String
  userId : Option String
  timestamp : ℕ
  payload : P
  place : ℕ
  deriving DecidableEq, Repr

structure TransactionStreamClient where
  userId : String
  transactionId : Option String
  deriving DecidableEq, Repr

/-- An empty text is as good as none. -/
def given (text : Option String) : Option String := text.filter (· ≠ "")

def isEventVisible (event : BufferedTransactionEvent P) (client : TransactionStreamClient) : Bool :=
  if (given client.transactionId).any (· ≠ event.transactionId) then false
  else match given event.userId with
    | some userId => userId = client.userId
    | none => (given client.transactionId).isSome

/-! ## The buffer -/

structure Server (P : Type) where
  buffer : List (BufferedTransactionEvent P)
  nextEventId : ℕ
  deriving DecidableEq, Repr

def Server.init : Server P := ⟨[], 1⟩

structure StreamConfig where
  replayBufferSize : ℕ
  replayBufferSize_pos : 0 < replayBufferSize

def Server.buffered (server : Server P) (event : TransactionStreamEvent P) (now place : ℕ) :
    BufferedTransactionEvent P where
  id := server.nextEventId
  transactionId := event.transactionId
  userId := event.userId
  timestamp := event.timestamp.getD now
  payload := event.payload
  place := place

/-- The oldest events go when there are too many. -/
def Server.push (config : StreamConfig) (server : Server P) (event : BufferedTransactionEvent P) :
    Server P where
  buffer := (server.buffer ++ [event]).drop
    ((server.buffer ++ [event]).length - config.replayBufferSize)
  nextEventId := server.nextEventId + 1

inductive LastEventId where
  | absent
  | invalid (raw : String)
  | valid (value : ℕ)
  deriving DecidableEq, Repr

/-- The header after `trim`. -/
def parseLastEventId : Option String → LastEventId
  | none => .absent
  | some trimmed =>
    if trimmed.toList ≠ [] ∧ trimmed.toList.all Char.isDigit ∧
        Nat.ofDigitChars 10 trimmed.toList 0 < 2 ^ 53 then
      .valid (Nat.ofDigitChars 10 trimmed.toList 0)
    else .invalid trimmed

/-- An id that has been sent comes back. -/
theorem parseLastEventId_repr {id : ℕ} (h : id < 2 ^ 53) :
    parseLastEventId (some (Nat.repr id)) = .valid id := by
  have digits : (Nat.toDigits 10 id).all Char.isDigit = true := by
    rw [List.all_eq_true]
    exact fun c hc => Nat.isDigit_of_mem_toDigits (by omega) (by omega) hc
  have value : Nat.ofDigitChars 10 (Nat.toDigits 10 id) 0 = id :=
    Nat.ofDigitChars_toDigits (by omega) (by omega)
  simp only [parseLastEventId, Nat.toList_repr, value]
  rw [if_pos ⟨Nat.toDigits_ne_nil, digits, h⟩]

structure ReplayGap where
  requestedId : ℕ
  oldestRetainedId : ℕ
  deriving DecidableEq, Repr

structure ReplayResult (P : Type) where
  events : List (BufferedTransactionEvent P)
  gap : Option ReplayGap
  deriving DecidableEq, Repr

def getReplayEvents (server : Server P) (lastEventId : ℕ) : ReplayResult P :=
  match server.buffer.head? with
  | none => ⟨[], none⟩
  | some oldest =>
    if lastEventId + 1 < oldest.id then ⟨server.buffer, some ⟨lastEventId, oldest.id⟩⟩
    else ⟨server.buffer.filter fun event => lastEventId < event.id, none⟩

/-! ## Streams -/

inductive Frame (P : Type) where
  | connected
  | invalidLastEventId (raw : String)
  | streamGap (gap : ReplayGap)
  | event (event : BufferedTransactionEvent P)
  | ping
  deriving DecidableEq, Repr

def Frame.event? : Frame P → Option (BufferedTransactionEvent P)
  | .event published => some published
  | _ => none

def replayFrames (server : Server P) (client : TransactionStreamClient) :
    LastEventId → List (Frame P)
  | .absent => []
  | .invalid raw => [.invalidLastEventId raw]
  | .valid value =>
    (getReplayEvents server value).gap.toList.map .streamGap ++
      ((getReplayEvents server value).events.filter (isEventVisible · client)).map .event

structure Connection (P : Type) where
  since : Option ℕ
  sent : List (Frame P)
  unread : List (Frame P)
  deriving DecidableEq, Repr

def Connection.write (frames : List (Frame P)) (connection : Connection P) : Connection P :=
  { connection with
    sent := connection.sent ++ frames
    unread := connection.unread ++ frames }

/-- The listener of a stream. -/
def Connection.onEvent (client : TransactionStreamClient) (event : BufferedTransactionEvent P)
    (connection : Connection P) : Connection P :=
  if isEventVisible event client then connection.write [.event event] else connection

def attachTransactionStream (server : Server P) (client : TransactionStreamClient)
    (header : LastEventId) (since : Option ℕ) : Connection P :=
  Connection.write (.connected :: replayFrames server client header) ⟨since, [], []⟩

structure Client (P : Type) where
  lastEventId : Option ℕ
  seen : ℕ
  connection : Option (Connection P)
  deriving DecidableEq, Repr

/-- Where the stream has to go on from, for a client that sends the id that it has seen last. -/
def Client.since (client : Client P) (header : LastEventId) : Option ℕ :=
  match client.lastEventId with
  | some lastEventId => if header = .valid lastEventId then some client.seen else none
  | none => none

def Client.take (client : Client P) : Frame P → Client P
  | .event event =>
    { client with
      lastEventId := some event.id
      seen := event.place + 1 }
  | _ => client

/-- The next frame of the stream, if there is one. -/
def Client.read (client : Client P) : Client P :=
  match client.connection with
  | some ⟨since, sent, frame :: unread⟩ =>
    { client.take frame with connection := some ⟨since, sent, unread⟩ }
  | _ => client

/-! ## Runs -/

structure World (P ι : Type) where
  server : Server P
  started : ℕ
  history : List (BufferedTransactionEvent P)
  clients : ι → Client P

def World.init : World P ι := ⟨.init, 0, [], fun _ => ⟨none, 0, none⟩⟩

inductive Turn (P ι : Type) where
  | publish (event : TransactionStreamEvent P) (now : ℕ)
  | connect (i : ι) (header : LastEventId)
  | read (i : ι)
  | disconnect (i : ι)
  | heartbeat (i : ι)
  | restart

variable [DecidableEq ι] (config : StreamConfig) (who : ι → TransactionStreamClient)

namespace World

/-- The streams observe the event before `publishTransactionEvent` is left. -/
def publish (w : World P ι) (event : BufferedTransactionEvent P) : World P ι where
  server := w.server.push config event
  started := w.started
  history := w.history ++ [event]
  clients i := { w.clients i with
    connection := (w.clients i).connection.map (Connection.onEvent (who i) event) }

def connect (w : World P ι) (i : ι) (header : LastEventId) : World P ι :=
  { w with
    clients := Function.update w.clients i { w.clients i with
      connection := some (attachTransactionStream w.server (who i) header
        ((w.clients i).since header)) } }

def step (w : World P ι) : Turn P ι → World P ι
  | .publish event now => w.publish config who (w.server.buffered event now w.history.length)
  | .connect i header => if (w.clients i).connection = none then w.connect who i header else w
  | .read i => { w with clients := Function.update w.clients i (w.clients i).read }
  | .disconnect i =>
    { w with
      clients := Function.update w.clients i { w.clients i with connection := none } }
  | .heartbeat i =>
    { w with
      clients := Function.update w.clients i { w.clients i with
        connection := (w.clients i).connection.map (Connection.write [.ping]) } }
  | .restart =>
    { w with
      server := .init
      started := w.history.length
      clients := fun i => { w.clients i with connection := none } }

end World

end MobileMoney.EventStream
