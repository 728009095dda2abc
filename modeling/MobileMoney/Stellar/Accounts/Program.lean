import Mathlib.Data.List.Sort
import MobileMoney.Library.Answers
import MobileMoney.Library.Interleaving
import MobileMoney.Library.Keyed
import MobileMoney.Stellar.Pool

/-!
# The table of channel accounts and its users

Any number of calls of `submitTransaction` in any number of replicas, with the queues of the
replicas and their `processQueue`, the maintenance and the emergency tools, over one table. A turn
is a statement at the database or what a call does between two awaits; a release is a statement that
nobody awaits. The payment itself is looked at in `Stellar.Pool`; the statistics are left out.
-/

namespace MobileMoney.Stellar.Accounts

variable {K R ι : Type}

/-! ## The table -/

/-- The public key stands for the id too. -/
structure AccountRow (K : Type) extends ChannelAccountRow where
  publicKey : K
  lockedAt : Option ℕ
  disabledAt : Option ℕ
  lastUsedAt : Option ℕ
  deriving DecidableEq, Repr

/-- With what a release is called. -/
inductive Settling where
  | success (newSequence : ℕ)
  | failure
  | unused
  deriving DecidableEq, Repr

def AccountRow.lock (now : ℕ) (row : AccountRow K) : AccountRow K :=
  { row with status := .busy, lockedAt := some now, lastUsedAt := some now }

def AccountRow.release (maxErrors now : ℕ) (row : AccountRow K) : Settling → AccountRow K
  | .success newSequence =>
    { row with
      toChannelAccountRow := row.toChannelAccountRow.release maxErrors (some newSequence)
      lockedAt := none }
  | .unused => { row with status := .idle, errorCount := 0, lockedAt := none }
  | .failure =>
    let released := row.toChannelAccountRow.release maxErrors none
    { row with
      toChannelAccountRow := released
      lockedAt := none
      disabledAt := if released.status = .disabled then some now else row.disabledAt }

def AccountRow.Stale (now timeoutMs : ℕ) (row : AccountRow K) : Prop :=
  row.status = .busy ∧ ∃ lockedAt ∈ row.lockedAt, lockedAt + timeoutMs < now

def AccountRow.Recovered (now recoveryMs : ℕ) (row : AccountRow K) : Prop :=
  row.status = .disabled ∧ ∃ disabledAt ∈ row.disabledAt, disabledAt + recoveryMs < now

instance (now timeoutMs : ℕ) (row : AccountRow K) : Decidable (row.Stale now timeoutMs) :=
  inferInstanceAs (Decidable (_ ∧ _))

instance (now recoveryMs : ℕ) (row : AccountRow K) : Decidable (row.Recovered now recoveryMs) :=
  inferInstanceAs (Decidable (_ ∧ _))

def AccountRow.recoverStale (now timeoutMs : ℕ) (row : AccountRow K) : AccountRow K :=
  if row.Stale now timeoutMs then
    { row with status := .idle, lockedAt := none, errorCount := row.errorCount + 1 }
  else row

def AccountRow.recoverDisabled (now recoveryMs : ℕ) (row : AccountRow K) : AccountRow K :=
  if row.Recovered now recoveryMs then
    { row with status := .idle, disabledAt := none, errorCount := 0 }
  else row

def AccountRow.enable (row : AccountRow K) : AccountRow K :=
  { row with status := .idle, disabledAt := none, errorCount := 0 }

def AccountRow.resync (sequence : ℕ) (row : AccountRow K) : AccountRow K :=
  { row with sequence := sequence }

theorem publicKey_lock (now : ℕ) (row : AccountRow K) : (row.lock now).publicKey = row.publicKey :=
  rfl

theorem publicKey_enable (row : AccountRow K) : row.enable.publicKey = row.publicKey := rfl

theorem publicKey_resync (sequence : ℕ) (row : AccountRow K) :
    (row.resync sequence).publicKey = row.publicKey := rfl

theorem publicKey_release (maxErrors now : ℕ) (settling : Settling) (row : AccountRow K) :
    (row.release maxErrors now settling).publicKey = row.publicKey := by
  cases settling <;> rfl

theorem publicKey_recoverStale (now timeoutMs : ℕ) (row : AccountRow K) :
    (row.recoverStale now timeoutMs).publicKey = row.publicKey := by
  unfold AccountRow.recoverStale
  split_ifs <;> rfl

theorem publicKey_recoverDisabled (now recoveryMs : ℕ) (row : AccountRow K) :
    (row.recoverDisabled now recoveryMs).publicKey = row.publicKey := by
  unfold AccountRow.recoverDisabled
  split_ifs <;> rfl

abbrev Table (K : Type) := Keyed (AccountRow.publicKey : AccountRow K → K)

/-- `ORDER BY last_used_at ASC NULLS FIRST, error_count ASC`. -/
def AccountRow.before (a b : AccountRow K) : Prop :=
  match a.lastUsedAt, b.lastUsedAt with
  | none, none => a.errorCount ≤ b.errorCount
  | none, some _ => True
  | some _, none => False
  | some t, some u => t < u ∨ t = u ∧ a.errorCount ≤ b.errorCount

instance : DecidableRel (AccountRow.before : AccountRow K → AccountRow K → Prop) := fun a b =>
  match ha : a.lastUsedAt, hb : b.lastUsedAt with
  | none, none => decidable_of_iff (a.errorCount ≤ b.errorCount) (by simp [AccountRow.before, *])
  | none, some _ => isTrue (by simp [AccountRow.before, *])
  | some _, none => isFalse (by simp [AccountRow.before, *])
  | some t, some u => decidable_of_iff (t < u ∨ t = u ∧ a.errorCount ≤ b.errorCount)
      (by simp [AccountRow.before, *])

variable [DecidableEq K]

/-- The row that `acquireIdle` takes; rows that are locked by others are skipped. -/
def Table.oldestIdle (table : Table K) (skipped : List K) : Option (AccountRow K) :=
  ((table.rows.filter fun row => row.status = .idle ∧ row.publicKey ∉ skipped).insertionSort
    AccountRow.before).head?

/-! ## The pool -/

structure PoolConfig where
  maxConsecutiveErrors : ℕ
  maxQueueSize : ℕ

/-- An acquisition, with the sequence that the row had. -/
structure Lease (K : Type) where
  id : ℕ
  account : K
  sequence : ℕ
  deriving DecidableEq, Repr

/-- A release that is on its way to the database. -/
structure Release (K : Type) where
  lease : ℕ
  account : K
  settling : Settling
  deriving DecidableEq, Repr

/-- A call of `submitTransaction` in its replica. -/
structure Call (R : Type) where
  replica : R
  attempt : ℕ
  maxRetries : ℕ
  deriving DecidableEq, Repr

/-- `acquired` and `shifting` have the answer of `acquireIdle`, `finding`, `loading` and `updating`
are in `resyncSequence`, and `pumping` and `shifting` are in `processQueue`. -/
inductive Phase (K R : Type) where
  | idle
  | acquiring (call : Call R)
  | acquired (call : Call R) (found : Option (Lease K))
  | waiting (call : Call R) (ticket : ℕ)
  | submitting (call : Call R) (lease : Lease K)
  | finding (call : Call R) (lease : Lease K) (error : SubmitError)
  | loading (call : Call R) (lease : Lease K) (error : SubmitError)
  | updating (call : Call R) (lease : Lease K) (error : SubmitError) (sequence : ℕ)
  | pumping (replica : R)
  | shifting (replica : R) (found : Option (Lease K))
  | returned
  | threw (message : String)
  deriving DecidableEq, Repr

/-- Beside the table and the queues, what has happened: the account of each acquisition so far, the
acquisitions that have been released, the one by which a locked account is locked, and the releases
that came while the account was locked by another acquisition, with that one. -/
structure State (K R : Type) where
  now : ℕ
  table : Table K
  queues : R → List ℕ
  tickets : ℕ
  handed : List (ℕ × Lease K)
  releases : List (Release K)
  issued : List K
  released : List ℕ
  holder : K → Option ℕ
  robbed : List (ℕ × ℕ)

/-- A message is that of an error. -/
inductive Input (K R : Type) where
  | elapse (ms : ℕ)
  | recoverStale (timeoutMs : ℕ)
  | recoverDisabled (recoveryMs : ℕ)
  | forceRelease (account : K)
  | enableAccount (account : K)
  | execute (index : ℕ) (answer : DbAnswer)
  | submitTransaction (replica : R) (maxRetries : ℕ)
  | processQueue (replica : R)
  | acquireIdle (skipped : List K) (answer : DbAnswer)
  | buildAcquireResult (failure : Option String)
  | resolve
  | reject (message : String)
  | buildAndSubmit (failure : Option SubmitError)
  | findByPublicKey (failure : Option String)
  | loadAccount (answer : Except String ℕ)
  | updateSequence (answer : DbAnswer)

def Phase.AtRest : Phase K R → Bool
  | .idle | .returned | .threw _ => true
  | _ => false

namespace State

def release (s : State K R) (lease : Lease K) (settling : Settling) : State K R :=
  { s with releases := s.releases ++ [⟨lease.id, lease.account, settling⟩] }

/-- The `UPDATE` of `acquireIdle`. -/
def acquireIdle (s : State K R) (skipped : List K) : State K R × Option (Lease K) :=
  match s.table.oldestIdle skipped with
  | none => (s, none)
  | some row =>
    ({ s with
      table := s.table.modify row.publicKey (·.lock s.now) (publicKey_lock s.now)
      issued := s.issued ++ [row.publicKey]
      holder := Function.update s.holder row.publicKey (some s.issued.length) },
      some ⟨s.issued.length, row.publicKey, row.sequence⟩)

/-- The `UPDATE` of `release`, which asks for nothing but the id. -/
def executed (config : PoolConfig) (s : State K R) (release : Release K) : State K R :=
  { s with
    table := s.table.modify release.account
      (·.release config.maxConsecutiveErrors s.now release.settling)
      (publicKey_release config.maxConsecutiveErrors s.now release.settling)
    released := s.released ++ [release.lease]
    holder := Function.update s.holder release.account none
    robbed := s.robbed ++
      ((s.holder release.account).toList.filter fun other => other ≠ release.lease).map
        (release.lease, ·) }

/-- Whether a release fails is only logged. -/
def execute (config : PoolConfig) (s : State K R) (index : ℕ) (answer : DbAnswer) : State K R :=
  match s.releases[index]? with
  | none => s
  | some release =>
    let s := { s with releases := s.releases.eraseIdx index }
    if answer.executed then s.executed config release else s

def recoverStale (s : State K R) (timeoutMs : ℕ) : State K R :=
  { s with
    table := s.table.map (·.recoverStale s.now timeoutMs) (publicKey_recoverStale s.now timeoutMs)
    holder := fun account =>
      match s.table.find? account with
      | some row => if row.Stale s.now timeoutMs then none else s.holder account
      | none => s.holder account }

def recoverDisabled (s : State K R) (recoveryMs : ℕ) : State K R :=
  { s with
    table := s.table.map (·.recoverDisabled s.now recoveryMs)
      (publicKey_recoverDisabled s.now recoveryMs) }

/-- `release(row.id, false)` with the default of `maxErrors`. -/
def forceRelease (s : State K R) (account : K) : State K R :=
  { s with
    table := s.table.modify account (·.release 5 s.now .failure)
      (publicKey_release 5 s.now .failure)
    holder := Function.update s.holder account none }

def enableAccount (s : State K R) (account : K) : State K R :=
  { s with
    table := s.table.modify account AccountRow.enable publicKey_enable
    holder := Function.update s.holder account none }

end State

/-! ## The turns -/

/-- The next round of the loop, if there is one. -/
def Call.next (call : Call R) (error : SubmitError) : Phase K R :=
  if call.attempt + 1 < call.maxRetries then .acquiring { call with attempt := call.attempt + 1 }
  else .threw error.message

variable [DecidableEq R]

/-- What `acquire` does with the answer of `acquireIdle`. -/
def acquired (config : PoolConfig) (failure : Option String) (s : State K R) (call : Call R) :
    Option (Lease K) → State K R × Phase K R
  | some lease => (s, match failure with
    | none => .submitting call lease
    | some message => .threw message)
  | none =>
    if config.maxQueueSize ≤ (s.queues call.replica).length then
      (s, .threw "Pool exhausted: queue is full")
    else
      ({ s with
        queues := Function.update s.queues call.replica (s.queues call.replica ++ [s.tickets])
        tickets := s.tickets + 1 }, .waiting call s.tickets)

/-- What `processQueue` does with it. -/
def shifted (failure : Option String) (s : State K R) (replica : R) :
    Option (Lease K) → State K R × Phase K R
  | none => (s, .idle)
  | some lease =>
    match s.queues replica with
    | [] => (s.release lease .unused, .idle)
    | ticket :: queue =>
      let s := { s with queues := Function.update s.queues replica queue }
      match failure with
      | none => ({ s with handed := s.handed ++ [(ticket, lease)] }, .idle)
      | some message => (s, .threw message)

def settled (s : State K R) (call : Call R) (lease : Lease K) :
    Option SubmitError → State K R × Phase K R
  | none => (s.release lease (.success (lease.sequence + 1)), .returned)
  | some error =>
    if isSequenceMismatchError error then (s, .finding call lease error)
    else if isRetryableError error ∧ call.attempt + 1 < call.maxRetries then
      (s.release lease .failure, call.next error)
    else (s.release lease .failure, .threw error.message)

/-- A waiting call whose promise has been resolved goes on with what it was handed. -/
def resolved (s : State K R) (call : Call R) (ticket : ℕ) : State K R × Phase K R :=
  match s.handed.find? fun entry => entry.1 = ticket with
  | some entry => ({ s with handed := s.handed.erase entry }, .submitting call entry.2)
  | none => (s, .waiting call ticket)

def queryFailed : String := "query failed"

def onAcquireIdle (skipped : List K) (answer : DbAnswer) (s : State K R) (phase : Phase K R) :
    State K R × Phase K R :=
  let (s', found) := if answer.executed then s.acquireIdle skipped else (s, none)
  match phase with
  | .acquiring call => (s', if answer = .answered then .acquired call found else .threw queryFailed)
  | .pumping replica =>
    (s', if answer = .answered then .shifting replica found else .threw queryFailed)
  | phase => (s, phase)

/-- The steps of `resyncSequence`, and the release that follows it. -/
def onUpdateSequence (answer : DbAnswer) (s : State K R) (phase : Phase K R) :
    State K R × Phase K R :=
  match phase with
  | .updating call lease error sequence =>
    let s' := if answer.executed then
        { s with
          table := s.table.modify lease.account (·.resync sequence) (publicKey_resync sequence) }
      else s
    if answer = .answered then (s'.release lease .failure, call.next error)
    else (s', .threw queryFailed)
  | phase => (s, phase)

def step (config : PoolConfig) (input : Input K R) (s : State K R) (phase : Phase K R) :
    State K R × Phase K R :=
  match input with
  | .elapse ms => ({ s with now := s.now + ms }, phase)
  | .recoverStale timeoutMs => (s.recoverStale timeoutMs, phase)
  | .recoverDisabled recoveryMs => (s.recoverDisabled recoveryMs, phase)
  | .forceRelease account => (s.forceRelease account, phase)
  | .enableAccount account => (s.enableAccount account, phase)
  | .execute index answer => (s.execute config index answer, phase)
  | .submitTransaction replica maxRetries =>
    (s, if phase.AtRest then
      if 0 < maxRetries then .acquiring ⟨replica, 0, maxRetries⟩
      else .threw "Transaction failed after all retries"
    else phase)
  | .processQueue replica =>
    (s, if phase.AtRest ∧ s.queues replica ≠ [] then .pumping replica else phase)
  | .acquireIdle skipped answer => onAcquireIdle skipped answer s phase
  | .buildAcquireResult failure => match phase with
    | .acquired call found => acquired config failure s call found
    | .shifting replica found => shifted failure s replica found
    | phase => (s, phase)
  | .resolve => match phase with
    | .waiting call ticket => resolved s call ticket
    | phase => (s, phase)
  | .reject message => match phase with
    | .waiting call ticket =>
      if ticket ∈ s.queues call.replica then
        ({ s with
          queues := Function.update s.queues call.replica
            ((s.queues call.replica).erase ticket) }, .threw message)
      else (s, phase)
    | phase => (s, phase)
  | .buildAndSubmit failure => match phase with
    | .submitting call lease => settled s call lease failure
    | phase => (s, phase)
  | .findByPublicKey failure => (s, match phase with
    | .finding call lease error => match failure with
      | none => .loading call lease error
      | some message => .threw message
    | phase => phase)
  | .loadAccount answer => (s, match phase with
    | .loading call lease error => match answer with
      | .ok sequence => .updating call lease error sequence
      | .error message => .threw message
    | phase => phase)
  | .updateSequence answer => onUpdateSequence answer s phase

abbrev World (K R ι : Type) := Interleaving.World (State K R) ι (Phase K R)

def World.init (table : Table K) : World K R ι :=
  ⟨⟨0, table, fun _ => [], 0, [], [], [], [], fun _ => none, []⟩, fun _ => .idle⟩

end MobileMoney.Stellar.Accounts
