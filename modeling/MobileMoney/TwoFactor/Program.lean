import Mathlib.Data.Nat.Notation
import MobileMoney.Library.Answers
import MobileMoney.Library.Interleaving
import MobileMoney.Library.Keyed

/-!
# The second factor of withdrawals

`twoFactorWithdrawalService` and `twoFactorRateLimiter` for one user: the row in `users`, the backup
codes, and the counter of failures in Redis. A turn of a request is one access to one of the stores,
or the evaluation of a code. The check of a one-time password and the comparison of a backup code
with its hash are parameters. `account_locked_until`, which nothing reads, and the logs are left
out. The client of `config/redis.ts` answers a failing `GET` and `DEL` itself, from a local cache
that never has the key of the counter; `INCR`, `EXPIRE` and `TTL` fail to their callers.
-/

namespace MobileMoney.TwoFactor

variable {I K C H : Type}

/-- The columns of the row that the checks read. -/
structure User (K : Type) where
  twoFactorSecret : Option K
  twoFactorEnabled : Bool
  twoFactorVerified : Bool
  mandatory2FAWithdrawals : Bool
  deriving DecidableEq

/-- `is2FAEnabled`, with the secret that makes it true. -/
def User.enabledSecret (user : User K) : Option K :=
  if user.twoFactorEnabled && user.twoFactorVerified then user.twoFactorSecret else none

structure BackupCode (I H : Type) where
  id : I
  codeHash : H
  used : Bool
  deriving DecidableEq

structure Verifiers (K C H : Type) where
  verifyTOTP : K → C → ℕ → Bool
  compare : C → H → Bool

/-- The codes that come with a withdrawal; an empty text is none. -/
structure Request (C : Type) where
  token : Option C
  backupCode : Option C
  deriving DecidableEq

def maxAttempts : ℕ := 5

/-- The durations in milliseconds. -/
def lockoutDuration : ℕ := 30 * 60 * 1000

def failureWindow : ℕ := 15 * 60 * 1000

/-! ## The counter of failures -/

/-- A key without an expiry stays. -/
structure Counter where
  attempts : ℕ
  expiresAt : Option ℕ
  deriving DecidableEq, Repr

def Counter.Live (counter : Counter) (now : ℕ) : Prop := ∀ e ∈ counter.expiresAt, now < e

instance (counter : Counter) (now : ℕ) : Decidable (counter.Live now) :=
  inferInstanceAs (Decidable (∀ e ∈ counter.expiresAt, now < e))

/-- What a read of the key finds. -/
def found (cell : Option Counter) (now : ℕ) : Option Counter :=
  cell.filter fun counter => counter.Live now

def attempts (cell : Option Counter) (now : ℕ) : ℕ := ((found cell now).map (·.attempts)).getD 0

def incr (cell : Option Counter) (now : ℕ) : Counter :=
  match found cell now with
  | some counter => { counter with attempts := counter.attempts + 1 }
  | none => ⟨1, none⟩

def expire (cell : Option Counter) (now ms : ℕ) : Option Counter :=
  (found cell now).map fun counter => { counter with expiresAt := some (now + ms) }

/-- `TTL` in seconds; a key that is missing or stays has a negative one. -/
def getLockoutTimeRemaining (cell : Option Counter) (now : ℕ) : ℕ :=
  match (found cell now).bind (·.expiresAt) with
  | some e => (e - now + 500) / 1000
  | none => 0

/-! ## Answers to the client -/

def lockedMessage (timeLeft : ℕ) : String :=
  "2FA locked. Too many failed attempts. Try again in " ++ toString ((timeLeft + 59) / 60) ++
    " minutes."

def failedMessage (newCount : ℕ) : String :=
  let triesLeft := 3 - newCount
  if 0 < triesLeft then
    "Invalid 2FA token or backup code. " ++ toString triesLeft ++ " attempts remaining."
  else "Too many failed attempts. 2FA is now locked for 15 minutes."

inductive Method (I : Type) where
  | totp
  | backup (codeId : I)
  deriving DecidableEq

/-- Why `validate2FAForWithdrawal` asks for no code. -/
inductive Waiver (K : Type) where
  | lookupFailed
  | userNotFound
  | notMandatory (user : User K)
  deriving DecidableEq

/-- What a request waits for. From the check of the lock on it carries the count that was read. -/
inductive Phase (I K C H : Type) where
  | idle
  | requiring (request : Request C)
  | finding (request : Request C)
  | checkingLock (secret : K) (request : Request C)
  | measuring
  | verifying (secret : K) (request : Request C) (read : ℕ)
  | selecting (request : Request C) (code : C) (read : ℕ)
  | comparing (request : Request C) (code : C) (rows : List (BackupCode I H)) (read : ℕ)
  | spending (request : Request C) (codeId : I)
  | resetting (request : Request C) (method : Method I)
  | counting
  | expiring
  | locking
  | succeeded (request : Request C) (method : Method I)
  | waived (waiver : Waiver K)
  | refused (message : String)
  | threw
  deriving DecidableEq

/-! ## The stores -/

/-- An evaluation of a code, and whether a lock was in force. -/
structure Evaluation where
  time : ℕ
  correct : Bool
  locked : Bool
  deriving DecidableEq, Repr

/-- The stores, and what has happened: the evaluations, the end of the last lock, the backup codes
that have been issued, those that a request has spent, and the withdrawals that have been
authorised. -/
structure State (I K C H : Type) where
  now : ℕ
  user : Replicated (Option (User K))
  backupCodes : Keyed (BackupCode.id : BackupCode I H → I)
  counter : Option Counter
  evaluations : List Evaluation
  lockedUntil : ℕ
  issued : List (I × H)
  spent : List I
  authorised : List (Method I)

/-- `setUser` and `storeBackupCodes` are other parts of the program; new codes have new ids. -/
inductive Input (I K C H : Type) where
  | elapse (ms : ℕ)
  | setUser (user : Option (User K))
  | storeBackupCodes (codes : List (I × H))
  | withdraw (request : Request C)
  | verify (request : Request C)
  | lookup (source : Replicated.Source) (answer : DbAnswer)
  | query (answer : DbAnswer)
  | redis (isOpen : Bool) (answer : DbAnswer)
  | compute
  | crash

def Phase.AtRest : Phase I K C H → Bool
  | .idle | .succeeded _ _ | .waived _ | .refused _ | .threw => true
  | _ => false

def State.evaluate (s : State I K C H) (correct : Bool) : State I K C H :=
  { s with evaluations := s.evaluations ++ [⟨s.now, correct, s.now < s.lockedUntil⟩] }

def State.incr (s : State I K C H) : State I K C H :=
  let counter := TwoFactor.incr s.counter s.now
  { s with
    counter := some counter
    lockedUntil := if counter.attempts = maxAttempts then s.now + lockoutDuration
      else s.lockedUntil }

def State.expire (s : State I K C H) (ms : ℕ) : State I K C H :=
  { s with counter := TwoFactor.expire s.counter s.now ms }

def State.authorise (s : State I K C H) (method : Method I) : State I K C H :=
  { s with authorised := s.authorised ++ [method] }

/-- `generateAndStoreBackupCodes`. -/
def State.storeBackupCodes [DecidableEq I] (s : State I K C H) (codes : List (I × H)) :
    State I K C H :=
  if fresh : (codes.map Prod.fst).Nodup ∧ ∀ id ∈ codes.map Prod.fst, id ∉ s.issued.map Prod.fst then
    { s with
      backupCodes := ⟨codes.map fun code => ⟨code.1, code.2, false⟩, by
        rw [List.map_map]
        exact fresh.1⟩
      issued := s.issued ++ codes }
  else s

/-- `UPDATE … SET used = TRUE WHERE id = $1 AND used = FALSE RETURNING id`: the new table if there
is such a row. -/
def spend [DecidableEq I] (codes : Keyed (BackupCode.id : BackupCode I H → I)) (id : I) :
    Option (Keyed (BackupCode.id : BackupCode I H → I)) :=
  match codes.find? id with
  | some row =>
    if row.used = false then
      some (codes.modify id (fun code => { code with used := true }) fun _ => rfl)
    else none
  | none => none

/-! ## The turns -/

section Turns

variable (v : Verifiers K C H)

/-- `requires2FAForWithdrawal` with the `catch` of the middleware. -/
def requires2FA (request : Request C) (source : Replicated.Source) (answer : DbAnswer)
    (s : State I K C H) : Phase I K C H :=
  if answer = .answered then
    match s.user.read source with
    | none => .waived .userNotFound
    | some user =>
      if user.mandatory2FAWithdrawals = true then .finding request
      else .waived (.notMandatory user)
  else .waived .lookupFailed

/-- The checks of `verifyWithdrawal2FA` on the row of the user. -/
def checkUser (request : Request C) (source : Replicated.Source) (answer : DbAnswer)
    (s : State I K C H) : Phase I K C H :=
  if answer = .answered then
    match s.user.read source with
    | none => .refused "User not found"
    | some user =>
      match user.enabledSecret with
      | none => .refused "2FA not enabled for user"
      | some secret =>
        if user.mandatory2FAWithdrawals = true then .checkingLock secret request
        else .refused "User has not opted into mandatory 2FA withdrawals"
  else .threw

/-- `isLocked`: no lock is seen while Redis is not connected, nor in the null that the client
answers for a failing `GET`. -/
def isLocked (secret : K) (request : Request C) (isOpen : Bool) (answer : DbAnswer)
    (s : State I K C H) : Phase I K C H :=
  if isOpen = false then .verifying secret request 0
  else if answer = .answered then
    let read := attempts s.counter s.now
    if maxAttempts ≤ read then .measuring else .verifying secret request read
  else .verifying secret request 0

def afterToken (request : Request C) (read : ℕ) : Phase I K C H :=
  match request.backupCode with
  | none => .counting
  | some code => .selecting request code read

def tryToken (secret : K) (request : Request C) (read : ℕ) (s : State I K C H) :
    State I K C H × Phase I K C H :=
  match request.token with
  | none => (s, afterToken request read)
  | some token =>
    let isValidTOTP := v.verifyTOTP secret token s.now
    (s.evaluate isValidTOTP,
      if isValidTOTP then .resetting request .totp else afterToken request read)

/-- The first row whose hash fits is the one. -/
def tryBackupCode (request : Request C) (code : C) (rows : List (BackupCode I H))
    (s : State I K C H) : State I K C H × Phase I K C H :=
  match rows.find? fun row => v.compare code row.codeHash with
  | none => (s.evaluate false, .counting)
  | some row => (s.evaluate true, .spending request row.id)

/-- A withdrawal is authorised as soon as the counter is reset, or Redis has failed to reset it:
the client answers one for a failing `DEL`. -/
def resetFailures (request : Request C) (method : Method I) (isOpen : Bool) (answer : DbAnswer)
    (s : State I K C H) : State I K C H × Phase I K C H :=
  let s' := if isOpen = true ∧ answer.executed then { s with counter := none } else s
  (s'.authorise method, .succeeded request method)

def incrementFailures (isOpen : Bool) (answer : DbAnswer) (s : State I K C H) :
    State I K C H × Phase I K C H :=
  if isOpen = false then (s, .refused (failedMessage 0))
  else
    let s' := if answer.executed then s.incr else s
    let count := (incr s.counter s.now).attempts
    (s', if answer = .answered then
      if count = 1 then .expiring else if count = maxAttempts then .locking
      else .refused (failedMessage count)
    else .threw)

/-- One of the two settings of the expiry. -/
def setExpiry (ms count : ℕ) (answer : DbAnswer) (s : State I K C H) :
    State I K C H × Phase I K C H :=
  (if answer.executed then s.expire ms else s,
    if answer = .answered then .refused (failedMessage count) else .threw)

def onRedis (isOpen : Bool) (answer : DbAnswer) (s : State I K C H) (phase : Phase I K C H) :
    State I K C H × Phase I K C H :=
  match phase with
  | .checkingLock secret request => (s, isLocked secret request isOpen answer s)
  | .measuring =>
    (s, if isOpen = false then .refused (lockedMessage 0)
      else if answer = .answered then
        .refused (lockedMessage (getLockoutTimeRemaining s.counter s.now))
      else .threw)
  | .resetting request method => resetFailures request method isOpen answer s
  | .counting => incrementFailures isOpen answer s
  | .expiring => setExpiry failureWindow 1 answer s
  | .locking => setExpiry lockoutDuration maxAttempts answer s
  | phase => (s, phase)

variable [DecidableEq I]

/-- `verifyBackupCode` catches what fails in it. -/
def onQuery (answer : DbAnswer) (s : State I K C H) (phase : Phase I K C H) :
    State I K C H × Phase I K C H :=
  match phase with
  | .selecting request code read =>
    (s, if answer = .answered then
      .comparing request code (s.backupCodes.rows.filter fun row => row.used = false) read
    else .counting)
  | .comparing _ _ _ _ => (s, if answer = .answered then phase else .counting)
  | .spending request id =>
    match spend s.backupCodes id with
    | none => (s, .counting)
    | some codes =>
      (if answer.executed then { s with backupCodes := codes, spent := s.spent ++ [id] } else s,
        if answer = .answered then .resetting request (.backup id) else .counting)
  | phase => (s, phase)

def step (input : Input I K C H) (s : State I K C H) (phase : Phase I K C H) :
    State I K C H × Phase I K C H :=
  match input with
  | .elapse ms => ({ s with now := s.now + ms }, phase)
  | .setUser user => ({ s with user := s.user.write user }, phase)
  | .storeBackupCodes codes => (s.storeBackupCodes codes, phase)
  | .withdraw request => (s, if phase.AtRest then .requiring request else phase)
  | .verify request => (s, if phase.AtRest then .finding request else phase)
  | .lookup source answer => (s, match phase with
    | .requiring request => requires2FA request source answer s
    | .finding request => checkUser request source answer s
    | phase => phase)
  | .query answer => onQuery answer s phase
  | .redis isOpen answer => onRedis isOpen answer s phase
  | .compute => match phase with
    | .verifying secret request read => tryToken v secret request read s
    | .comparing request code rows _ => tryBackupCode v request code rows s
    | phase => (s, phase)
  | .crash => (s, .threw)

end Turns

abbrev World (I K C H ι : Type) := Interleaving.World (State I K C H) ι (Phase I K C H)

def World.init {ι : Type} (user : Option (User K)) : World I K C H ι :=
  ⟨⟨0, ⟨user, []⟩, ⟨[], List.nodup_nil⟩, none, [], 0, [], [], []⟩, fun _ => .idle⟩

end MobileMoney.TwoFactor
