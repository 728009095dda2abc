import Mathlib.Data.List.Infix
import Mathlib.Logic.Function.Basic
import Mathlib.Tactic.Common

/-!
# Submissions through the pool of channel accounts

`stellar/pool.ts`: `submitTransaction` acquires a channel account from the `channel_accounts`
table, has the caller build its payment on the account's next sequence and submit it, and
tries again on some errors.

The network has the transactions of the call in its hands from the moment they are submitted,
and may still include one after the call has stopped waiting for it. What is recorded for
statistics and logs is left out; errors are `Error` objects.
-/

namespace MobileMoney.Stellar

variable {K : Type}

/-! ## The errors of a submission -/

/-- An error, with Horizon's `result_codes.transaction` if it is an answer of Horizon. -/
structure SubmitError where
  message : String
  resultCode : Option String
  deriving DecidableEq, Repr

def includes (text part : String) : Bool := part.toList <:+: text.toList

/-- U+212A is the only other character with an ASCII letter as its lower case. -/
def lowerCase (c : Char) : Char := if c = '\u212A' then 'k' else c.toLower

def isSequenceMismatchError (error : SubmitError) : Bool :=
  error.resultCode = some "tx_bad_seq" || includes error.message "tx_bad_seq"

def isRetryableError (error : SubmitError) : Bool :=
  let message := error.message.map lowerCase
  includes message "timeout" || includes message "network" || includes message "econnreset" ||
    includes message "tx_insufficient_fee" || includes message "tx_too_late"

inductive Answer where
  | success
  | error (err : SubmitError)
  deriving DecidableEq, Repr

/-! ## The accounts and the network -/

inductive ChannelAccountStatus where
  | idle | busy | disabled | funding
  deriving DecidableEq, Repr

structure ChannelAccountRow where
  status : ChannelAccountStatus
  sequence : ℕ
  errorCount : ℕ
  deriving DecidableEq, Repr

/-- What has become of a transaction: it is `paid` or `failed` once a ledger includes it, and
`rejected` when none ever will. -/
inductive Fate where
  | pending | paid | failed | rejected
  deriving DecidableEq, Repr

structure Tx (K : Type) where
  source : K
  sequence : ℕ
  fate : Fate
  deriving DecidableEq, Repr

/-- An update of `release` that has been sent to the database and not been awaited. -/
structure Release (K : Type) where
  account : K
  newSequence : Option ℕ
  deriving DecidableEq, Repr

/-- The sequences on the ledger, the table, the updates on their way to it, and the
transactions of the call, the last one first. -/
structure World (K : Type) where
  ledger : K → ℕ
  rows : K → ChannelAccountRow
  releases : List (Release K)
  sent : List (Tx K)

/-- What happens while the call is waiting: other calls, replicas and the maintenance change
the table and use up sequences, an update of the call reaches the table, and the network
includes or drops a transaction of the call. -/
inductive Outside (K : Type) where
  | others (rows : K → ChannelAccountRow) (consumed : K → ℕ)
  | releases
  | includes (ago : ℕ) (pays : Bool)
  | drops (ago : ℕ)

variable [DecidableEq K]

/-- `release` of the model: with a new sequence after a success, else with one error more. -/
def ChannelAccountRow.release (maxErrors : ℕ) (row : ChannelAccountRow) :
    Option ℕ → ChannelAccountRow
  | some newSequence => ⟨.idle, newSequence, 0⟩
  | none =>
    { row with
      status := if maxErrors ≤ row.errorCount + 1 then .disabled else .idle
      errorCount := row.errorCount + 1 }

/-- A ledger includes a transaction only if it has the next sequence of its source. -/
def World.outside (maxErrors : ℕ) (world : World K) : Outside K → World K
  | .others rows consumed =>
    { world with rows := rows, ledger := fun k => world.ledger k + consumed k }
  | .releases =>
    match world.releases with
    | [] => world
    | release :: releases =>
      let row := (world.rows release.account).release maxErrors release.newSequence
      { world with rows := Function.update world.rows release.account row, releases := releases }
  | .includes ago pays =>
    match world.sent[ago]? with
    | some tx =>
      if tx.fate = .pending ∧ tx.sequence = world.ledger tx.source + 1 then
        { world with
          ledger := Function.update world.ledger tx.source tx.sequence
          sent := world.sent.set ago { tx with fate := if pays then .paid else .failed } }
      else world
    | none => world
  | .drops ago =>
    match world.sent[ago]? with
    | some tx =>
      if tx.fate = .pending then
        { world with sent := world.sent.set ago { tx with fate := .rejected } }
      else world
    | none => world

def World.meanwhile (maxErrors : ℕ) (world : World K) (events : List (Outside K)) : World K :=
  events.foldl (World.outside maxErrors) world

/-! ## The call -/

/-- Horizon has answered with the result of the transaction, so that it has not been paid. -/
def Answer.decided : Answer → Bool
  | .success => false
  | .error err =>
    let message := err.message.map lowerCase
    err.resultCode.isSome || isSequenceMismatchError err ||
      includes message "tx_insufficient_fee" || includes message "tx_too_late"

/-- A submission settles well only when it has been paid, and with its result only when it has
not; with an error of another kind nothing is known. -/
def Answer.admits : Answer → Fate → Prop
  | .success, fate => fate = .paid
  | .error err, fate => (Answer.error err).decided = true → fate ≠ .paid

instance Answer.decidableAdmits : ∀ (answer : Answer) (fate : Fate),
    Decidable (answer.admits fate)
  | .success, fate => inferInstanceAs (Decidable (fate = .paid))
  | .error err, fate =>
    inferInstanceAs (Decidable ((Answer.error err).decided = true → fate ≠ .paid))

/-- What one attempt meets at its awaits: the account that `acquireIdle` returns, for the call
or for its place in the queue (`none` when `acquire` rejects), the answer to the submission
(`none` when it never comes), and whether `resyncSequence` succeeds. -/
structure Round (K : Type) where
  acquiring : List (Outside K)
  acquired : Option K
  submitting : List (Outside K)
  answer : Option Answer
  resyncing : List (Outside K)
  resyncs : Bool

/-- How far the call has come. What the network does and its answer may contradict each other;
then the run is `impossible`. -/
inductive Outcome where
  | pending | returned | threw | impossible
  deriving DecidableEq, Repr

structure PoolConfig where
  maxErrors : ℕ
  maxRetries : ℕ

/-- An idle account becomes busy, and a transaction on its next sequence is submitted. -/
def World.submit (world : World K) (channel : K) : World K :=
  let row := world.rows channel
  { world with
    rows := Function.update world.rows channel { row with status := .busy }
    sent := ⟨channel, row.sequence + 1, .pending⟩ :: world.sent }

/-- The answer of the network for the last transaction, if it can be given. -/
def World.answered (world : World K) (answer : Answer) : Option (World K) :=
  match world.sent with
  | [] => none
  | tx :: sent =>
    if answer.admits tx.fate then
      if answer.decided ∧ tx.fate = .pending then
        some { world with sent := { tx with fate := .rejected } :: sent }
      else some world
    else none

def World.release (world : World K) (account : K) (newSequence : Option ℕ) : World K :=
  { world with releases := world.releases ++ [⟨account, newSequence⟩] }

/-- `resyncSequence`, when the account can be loaded. -/
def World.resync (world : World K) (account : K) : World K :=
  let row := { world.rows account with sequence := world.ledger account }
  { world with rows := Function.update world.rows account row }

/-- What follows the answer to an attempt; without an outcome the loop goes on. -/
def settle (config : PoolConfig) (attempt : ℕ) (channel : K) (txSequence : ℕ) (round : Round K)
    (world : World K) : Answer → World K × Option Outcome
  | .success => (world.release channel (some txSequence), some .returned)
  | .error err =>
    if isSequenceMismatchError err then
      let world := world.meanwhile config.maxErrors round.resyncing
      if round.resyncs then ((world.resync channel).release channel none, none)
      else (world, some .threw)
    else if isRetryableError err ∧ attempt + 1 < config.maxRetries then
      (world.release channel none, none)
    else (world.release channel none, some .threw)

/-- The body of the loop in `submitTransaction`. -/
def attemptOnce (config : PoolConfig) (attempt : ℕ) (world : World K) (round : Round K) :
    World K × Option Outcome :=
  let world := world.meanwhile config.maxErrors round.acquiring
  match round.acquired with
  | none => (world, some .threw)
  | some channel =>
    if (world.rows channel).status = .idle then
      let txSequence := (world.rows channel).sequence + 1
      let world := (world.submit channel).meanwhile config.maxErrors round.submitting
      match round.answer with
      | none => (world, some .pending)
      | some answer =>
        match world.answered answer with
        | none => (world, some .impossible)
        | some world => settle config attempt channel txSequence round world answer
    else (world, some .pending)

/-- `submitTransaction` from an attempt on. -/
def submitTransaction (config : PoolConfig) : ℕ → World K → List (Round K) → World K × Outcome
  | attempt, world, [] => (world, if attempt < config.maxRetries then .pending else .threw)
  | attempt, world, round :: rounds =>
    if attempt < config.maxRetries then
      match attemptOnce config attempt world round with
      | (world, some outcome) => (world, outcome)
      | (world, none) => submitTransaction config (attempt + 1) world rounds
    else (world, .threw)

/-- How many transactions of the call have been paid. -/
def World.paid (world : World K) : ℕ := world.sent.countP (·.fate = .paid)

end MobileMoney.Stellar
