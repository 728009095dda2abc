import Mathlib.Algebra.BigOperators.Group.Finset.Basic
import MobileMoney.Library.Interleaving

/-!
# SEP-24 interactive sessions

Sessions live in a map in memory, with a second map that counts the active sessions of each
account. Everything between two `await`s runs as one step. Ids are drawn from a counter, as
they never repeat. What only reaches webhooks, the log and the write-through copy in the
database is left out. Time is in milliseconds.
-/

namespace MobileMoney.Sep24

inductive Kind where
  | deposit | withdrawal
  deriving DecidableEq, Repr

inductive Sep24TransactionStatus where
  | pendingUserTransferStart | pendingExternal | pendingAnchor | pendingTrust | pendingStellar
  | completed | failed | expired
  deriving DecidableEq, Repr

/-- The statuses at which the counter of the account is decremented. -/
def Sep24TransactionStatus.isTerminal : Sep24TransactionStatus → Bool
  | .completed | .failed | .expired => true
  | _ => false

/-- `EXPIRABLE_STATUSES`. -/
def Sep24TransactionStatus.isExpirable : Sep24TransactionStatus → Bool
  | .pendingUserTransferStart => true
  | _ => false

inductive Sep24MemoType where
  | text | id | hash
  deriving DecidableEq, Repr

structure Sep24Transaction where
  kind : Kind
  status : Sep24TransactionStatus
  assetIn : String
  amountIn : String
  amountOut : Option String
  account : String
  memo : Option String
  memoType : Option Sep24MemoType
  callback : Option String
  message : Option String
  stellarTransactionId : Option String
  createdAt : ℕ
  deriving DecidableEq, Repr

structure Request where
  assetCode : String
  amount : String
  account : String
  memo : Option String
  memoType : Option Sep24MemoType
  callback : Option String
  deriving DecidableEq, Repr

/-- A call of `sendPayment`, and the deposit it was made for. -/
structure Payment where
  id : ℕ
  destination : String
  amount : String
  memo : Option (String × Sep24MemoType)
  deriving DecidableEq, Repr

/-- The two maps, the payments sent so far and the clock. -/
structure Store where
  transactions : ℕ → Option Sep24Transaction
  nextId : ℕ
  active : String → ℕ
  payments : List Payment
  now : ℕ

/-- The configured session duration, and which memos the Stellar SDK accepts. -/
structure Config where
  interactiveSessionExpiry : ℕ
  buildsMemo : String → Sep24MemoType → Bool

def maxActiveTransactionsPerAccount : ℕ := 5

/-! ## Status writes -/

def Store.put (store : Store) (id : ℕ) (t : Sep24Transaction) : Store :=
  { store with transactions := Function.update store.transactions id (some t) }

/-- Subtraction stops at zero, as the guard of the source has it. -/
def Store.decrementActiveTransactionCount (store : Store) (account : String) : Store :=
  { store with active := Function.update store.active account (store.active account - 1) }

/-- Changes to a session that leave alone what decides over its life. -/
structure Edit where
  apply : Sep24Transaction → Sep24Transaction
  status : ∀ t, (apply t).status = t.status
  account : ∀ t, (apply t).account = t.account
  kind : ∀ t, (apply t).kind = t.kind

/-- What `updateTransactionStatus` and `processCallback` have in common: the status is
written over whatever was there, and a terminal one decrements the counter. -/
def Store.write (store : Store) (id : ℕ) (status : Sep24TransactionStatus) (edit : Edit) :
    Store :=
  match store.transactions id with
  | none => store
  | some t =>
    let stored := store.put id (edit.apply { t with status := status })
    if status.isTerminal then stored.decrementActiveTransactionCount t.account else stored

/-- A text that is there and not empty. -/
def truthy (text : Option String) : Option String := text.filter fun s => s ≠ ""

def messageEdit (message : Option String) : Edit where
  apply t := { t with message := truthy message <|> t.message }
  status _ := rfl
  account _ := rfl
  kind _ := rfl

def updateTransactionStatus (store : Store) (id : ℕ) (status : Sep24TransactionStatus)
    (message : Option String) : Store :=
  store.write id status (messageEdit message)

structure CallbackData where
  transactionId : ℕ
  status : Sep24TransactionStatus
  message : Option String
  amountIn : Option String
  amountOut : Option String
  assetIn : Option String
  memo : Option String
  deriving DecidableEq, Repr

def callbackEdit (data : CallbackData) : Edit where
  apply t :=
    { t with
      message := data.message
      amountIn := (truthy data.amountIn).getD t.amountIn
      amountOut := truthy data.amountOut <|> t.amountOut
      assetIn := (truthy data.assetIn).getD t.assetIn
      memo := truthy data.memo <|> t.memo }
  status _ := rfl
  account _ := rfl
  kind _ := rfl

def processCallback (store : Store) (data : CallbackData) : Store :=
  store.write data.transactionId data.status (callbackEdit data)

/-! ## Creation and expiry -/

def newTransaction (store : Store) (request : Request) (kind : Kind) : Sep24Transaction where
  kind := kind
  status := .pendingUserTransferStart
  assetIn := request.assetCode
  amountIn := request.amount
  amountOut := none
  account := request.account
  memo := request.memo
  memoType := (truthy request.memo).map fun _ => request.memoType.getD .text
  callback := request.callback
  message := none
  stellarTransactionId := none
  createdAt := store.now

inductive Sep24Error where
  | tooManyActive
  | signing
  | notFound (id : ℕ)
  | notDeposit (id : ℕ)
  | submitting (id : ℕ)
  | dead (id : ℕ) (status : Sep24TransactionStatus)
  | missingAmount (id : ℕ)
  | memo
  | payment
  deriving DecidableEq, Repr

/-- `generateInteractiveUrl`: the session is there while the URL is signed, and is taken out
again when that fails. -/
def generateInteractiveUrl (store : Store) (request : Request) (kind : Kind) (signed : Bool) :
    Store × Except Sep24Error ℕ :=
  let currentCount := store.active request.account
  if maxActiveTransactionsPerAccount ≤ currentCount then (store, .error .tooManyActive)
  else
    let id := store.nextId
    let stored : Store :=
      { store.put id (newTransaction store request kind) with
        nextId := id + 1
        active := Function.update store.active request.account (currentCount + 1) }
    if signed then (stored, .ok id)
    else
      let deleted : Store :=
        { stored with transactions := Function.update stored.transactions id none }
      (deleted.decrementActiveTransactionCount request.account, .error .signing)

def isInteractiveSessionExpired (cfg : Config) (t : Sep24Transaction) (now : ℕ) : Bool :=
  t.status.isExpirable && decide (cfg.interactiveSessionExpiry ≤ now - t.createdAt)

/-- `getTransaction`, which expires the session it reads when its time has come. -/
def getTransaction (cfg : Config) (store : Store) (id : ℕ) : Store :=
  match store.transactions id with
  | none => store
  | some t =>
    if isInteractiveSessionExpired cfg t store.now then
      updateTransactionStatus store id .expired
        (some "Interactive session expired before the user completed the flow.")
    else store

/-- The sweep, in the order in which the sessions were created. -/
def expireStaleInteractiveSessions (cfg : Config) (store : Store) : Store :=
  (List.range store.nextId).foldl (getTransaction cfg) store

/-! ## Operations that wait -/

inductive Call where
  | fulfillDeposit (id : ℕ)
  | renewInteractiveSession (id : ℕ)
  deriving DecidableEq, Repr

inductive Phase where
  | called
  | loading (payment : Payment)
  | awaiting (payment : Payment)
  | superseding (renewed : ℕ)
  | returned (id : ℕ)
  | failed (e : Sep24Error)
  deriving DecidableEq, Repr

structure Process where
  call : Call
  phase : Phase
  deriving DecidableEq, Repr

/-- The payment that fulfils a deposit, if it has all it needs. -/
def depositPayment (cfg : Config) (id : ℕ) (t : Sep24Transaction) : Except Sep24Error Payment :=
  match truthy (t.amountOut <|> some t.amountIn) with
  | none => .error (.missingAmount id)
  | some amount =>
    let memo := (truthy t.memo).map fun memo => (memo, t.memoType.getD .text)
    if t.account = "" then .error (.missingAmount id)
    else if memo.all fun m => cfg.buildsMemo m.1 m.2 then .ok ⟨id, t.account, amount, memo⟩
    else .error .memo

/-- What `fulfillDeposit` makes of a session before it waits: the payment it is about to
send, if there is one to send. -/
def checkDeposit (cfg : Config) (store : Store) (id : ℕ) : Except Sep24Error (Option Payment) :=
  match store.transactions id with
  | none => .error (.notFound id)
  | some t =>
    if t.kind ≠ .deposit then .error (.notDeposit id)
    else if t.status = .completed then .ok none
    else if t.status = .pendingStellar then .error (.submitting id)
    else if t.status = .failed ∨ t.status = .expired then .error (.dead id t.status)
    else (depositPayment cfg id t).map some

def Store.amend (store : Store) (id : ℕ) (edit : Edit) : Store :=
  match store.transactions id with
  | none => store
  | some t => store.put id (edit.apply t)

def hashEdit (hash : Option String) : Edit where
  apply t := { t with stellarTransactionId := hash }
  status _ := rfl
  account _ := rfl
  kind _ := rfl

def failureEdit (error : String) : Edit where
  apply t := { t with message := some ("Stellar submission failed: " ++ error) }
  status _ := rfl
  account _ := rfl
  kind _ := rfl

/-- How what a call waits for turns out: with a transaction hash, or with an error. For a
renewal the URL could be signed or not. -/
inductive Outcome where
  | ok (hash : Option String)
  | error (message : String)
  deriving DecidableEq, Repr

def Outcome.isOk : Outcome → Bool
  | .ok _ => true
  | .error _ => false

def renewalRequest (original : Sep24Transaction) : Request :=
  ⟨original.assetIn, (truthy (some original.amountIn)).getD "0", original.account, original.memo,
    original.memoType, original.callback⟩

def fulfillStep (cfg : Config) (outcome : Outcome) (store : Store) (id : ℕ) :
    Phase → Store × Phase
  | .called =>
    match checkDeposit cfg store id with
    | .error e => (store, .failed e)
    | .ok none => (store, .returned id)
    | .ok (some payment) =>
      (updateTransactionStatus store id .pendingStellar none, .loading payment)
  | .loading payment =>
    match outcome with
    | .ok _ => ({ store with payments := store.payments ++ [payment] }, .awaiting payment)
    | .error message => (store.amend id (failureEdit message), .failed .payment)
  | .awaiting _ =>
    match outcome with
    | .ok hash =>
      (updateTransactionStatus (store.amend id (hashEdit hash)) id .completed none, .returned id)
    | .error message => (store.amend id (failureEdit message), .failed .payment)
  | phase => (store, phase)

def renewStep (outcome : Outcome) (store : Store) (id : ℕ) : Phase → Store × Phase
  | .called =>
    match store.transactions id with
    | none => (store, .failed (.notFound id))
    | some original =>
      let result :=
        generateInteractiveUrl store (renewalRequest original) original.kind outcome.isOk
      match result.2 with
      | .ok renewed => (result.1, .superseding renewed)
      | .error e => (result.1, .failed e)
  | .superseding renewed =>
    if (store.transactions id).any fun t => t.status ≠ .expired then
      (updateTransactionStatus store id .expired
        (some ("Superseded by renewed session " ++ toString renewed ++ ".")), .returned renewed)
    else (store, .returned renewed)
  | phase => (store, phase)

/-- A call goes on until it waits again. -/
def step (cfg : Config) (outcome : Outcome) (store : Store) (p : Process) : Store × Process :=
  let result :=
    match p.call with
    | .fulfillDeposit id => fulfillStep cfg outcome store id p.phase
    | .renewInteractiveSession id => renewStep outcome store id p.phase
  (result.1, { p with phase := result.2 })

/-! ## Runs -/

inductive Event (ι : Type) where
  | tick (elapsed : ℕ)
  | create (request : Request) (kind : Kind) (signed : Bool)
  | callback (data : CallbackData)
  | update (id : ℕ) (status : Sep24TransactionStatus) (message : Option String)
  | get (id : ℕ)
  | sweep
  | turn (i : ι) (outcome : Outcome)

abbrev SessionWorld (ι : Type) := Interleaving.World Store ι Process

variable {ι : Type} [DecidableEq ι]

/-- What an event other than a turn does. -/
def serve (cfg : Config) (store : Store) : Event ι → Store
  | .tick elapsed => { store with now := store.now + elapsed }
  | .create request kind signed => (generateInteractiveUrl store request kind signed).1
  | .callback data => processCallback store data
  | .update id status message => updateTransactionStatus store id status message
  | .get id => getTransaction cfg store id
  | .sweep => expireStaleInteractiveSessions cfg store
  | .turn _ _ => store

def advance (cfg : Config) (w : SessionWorld ι) (e : Event ι) : SessionWorld ι :=
  match e with
  | .turn i outcome => Interleaving.advance (step cfg) w (i, outcome)
  | e => { w with shared := serve cfg w.shared e }

def run (cfg : Config) (w : SessionWorld ι) (es : List (Event ι)) : SessionWorld ι :=
  es.foldl (advance cfg) w

/-- No sessions yet, and any number of calls that may be made. -/
def start (calls : ι → Call) : SessionWorld ι :=
  ⟨⟨fun _ => none, 0, fun _ => 0, [], 0⟩, fun i => ⟨calls i, .called⟩⟩

end MobileMoney.Sep24
