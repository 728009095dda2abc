import MobileMoney.Library.Binary64
import MobileMoney.Library.Keyed
import MobileMoney.Wallet.Program
import Mathlib.Data.List.Sort

/-!
# The JWT signing keys

The keys live in the memory of a process: a map from versions to entries, in the order in
which they were inserted, and the version of the primary. A call reads the clock once. The
environment is read when the module is loaded, and again by a call that finds the map empty;
the random key that may be drawn then is an argument of the call. Logging is left out.
-/

namespace MobileMoney.Auth

open Binary64
open Wallet (isSpace digitsValue)

structure KeyEntry where
  version : String
  key : String
  createdAt : ℕ
  /-- When the entry stopped being the primary, or `0`. -/
  rotatedOutAt : ℕ
  deriving DecidableEq, Repr

/-- A key with its id, as callers get it. -/
structure SigningKey where
  key : String
  kid : String
  deriving DecidableEq, Repr

def KeyEntry.signingKey (entry : KeyEntry) : SigningKey := ⟨entry.key, entry.version⟩

structure Env where
  /-- The entries of `JWT_SECRETS`, none when it is unset or cannot be parsed. -/
  jwtSecrets : List (String × String)
  jwtSecret : Option String
  activeJwtKeyVersion : Option String
  /-- `GRACE_PERIOD_MS`, rounded up: ages are whole milliseconds. -/
  gracePeriodMs : ℕ
  deriving DecidableEq, Repr

structure Store where
  keyStore : Keyed KeyEntry.version
  activeVersion : String

def defaultActiveVersion : String := "v1"

/-! ## Loading -/

/-- The entries the two secrets give. -/
def configuredKeys (env : Env) (now : ℕ) : Keyed KeyEntry.version :=
  let parsed := env.jwtSecrets.foldl
    (fun keys (version, key) => keys.put ⟨version, key, now, 0⟩) ⟨[], List.nodup_nil⟩
  match env.jwtSecret with
  | none => parsed
  | some legacy =>
    if legacy ≠ "" ∧ parsed.find? defaultActiveVersion = none then
      parsed.put ⟨defaultActiveVersion, legacy, now, 0⟩
    else parsed

/-- `ACTIVE_JWT_KEY_VERSION || DEFAULT_ACTIVE_VERSION`. -/
def Env.requestedVersion (env : Env) : String :=
  (env.activeJwtKeyVersion.filter fun version => version ≠ "").getD defaultActiveVersion

def initFromEnv (env : Env) (now : ℕ) (random : String) : Store :=
  let keyStore := configuredKeys env now
  if keyStore.rows = [] then
    ⟨keyStore.put ⟨defaultActiveVersion, random, now, 0⟩, defaultActiveVersion⟩
  else if keyStore.find? env.requestedVersion = none then ⟨keyStore, defaultActiveVersion⟩
  else ⟨keyStore, env.requestedVersion⟩

/-- The check for an empty map that every exported function begins with. -/
def Store.ready (env : Env) (now : ℕ) (random : String) (s : Store) : Store :=
  if s.keyStore.rows = [] then initFromEnv env now random else s

/-! ## Reading -/

def KeyEntry.deprecationTime (entry : KeyEntry) : ℕ :=
  if entry.rotatedOutAt = 0 then entry.createdAt else entry.rotatedOutAt

/-- A secondary key that has exhausted its grace window. -/
def Store.Expired (env : Env) (now : ℕ) (s : Store) (entry : KeyEntry) : Prop :=
  entry.version ≠ s.activeVersion ∧ entry.deprecationTime + env.gracePeriodMs ≤ now

instance (env : Env) (now : ℕ) (s : Store) : DecidablePred (s.Expired env now) :=
  fun _ => inferInstanceAs (Decidable (_ ∧ _))

def deprecateExpiredKeys (env : Env) (now : ℕ) (random : String) (s : Store) :
    Store × List String :=
  let s := s.ready env now random
  let expired := (s.keyStore.rows.filter fun e => s.Expired env now e).map KeyEntry.version
  (⟨expired.foldl Keyed.erase s.keyStore, s.activeVersion⟩, expired)

def getActiveSigningKey (env : Env) (now : ℕ) (random : String) (s : Store) :
    Store × Except String SigningKey :=
  let s := s.ready env now random
  match s.keyStore.find? s.activeVersion with
  | none =>
    (s, .error ("Active JWT key version \"" ++ s.activeVersion ++ "\" not found in key store"))
  | some entry => (s, .ok entry.signingKey)

/-- The primary, and the secondary keys inside the grace window. -/
def Store.results (env : Env) (now : ℕ) (s : Store) : List SigningKey :=
  (s.keyStore.rows.filter fun entry => entry.version = s.activeVersion ∨
    now < entry.deprecationTime + env.gracePeriodMs).map KeyEntry.signingKey

/-- Whether the sort leaves `a` before `b`. -/
def Store.Before (s : Store) (a b : SigningKey) : Prop :=
  b.kid = s.activeVersion → a.kid = s.activeVersion

instance (s : Store) : DecidableRel s.Before :=
  fun _ _ => inferInstanceAs (Decidable (_ → _))

def getVerificationKeys (env : Env) (now : ℕ) (random : String) (s : Store) :
    Store × Except String (List SigningKey) :=
  let s := s.ready env now random
  let (s, _) := deprecateExpiredKeys env now random s
  if s.results env now = [] then (s, .error "No JWT verification keys available")
  else (s, .ok ((s.results env now).insertionSort s.Before))

/-! ## Changing the primary -/

/-- `parseInt(text, 10)`. -/
def parseInt (text : List Char) : Number :=
  let (sign, text) : ℚ × List Char := match text.dropWhile isSpace with
    | '-' :: rest => (-1, rest)
    | '+' :: rest => (1, rest)
    | rest => (1, rest)
  let digits := text.takeWhile Char.isDigit
  if digits = [] then .nan else .ofRat (sign * digitsValue digits)

/-- The number of a version: a leading `v` or `V` is dropped, and what is no number counts
as zero. -/
def versionNumber (version : String) : Number :=
  let n := parseInt (match version.toList with
    | c :: rest => if c = 'v' ∨ c = 'V' then rest else c :: rest
    | [] => [])
  if n = .nan then .zero else n

def Store.newVersion (s : Store) : String :=
  let numbers := s.keyStore.rows.map fun entry => versionNumber entry.version
  "v" ++ ((numbers.foldl Number.max .zero).add (.ofRat 1)).text

/-- `previous.rotatedOutAt = now`. -/
def KeyEntry.rotateOut (now : ℕ) (entry : KeyEntry) : KeyEntry :=
  { entry with rotatedOutAt := now }

theorem KeyEntry.version_rotateOut (now : ℕ) (entry : KeyEntry) :
    (entry.rotateOut now).version = entry.version :=
  rfl

/-- The previous primary is demoted, and a new one takes its place. -/
def Store.rotated (now : ℕ) (newKey : String) (s : Store) : Store :=
  let demoted :=
    s.keyStore.modify s.activeVersion (.rotateOut now) (KeyEntry.version_rotateOut now)
  ⟨demoted.put ⟨s.newVersion, newKey, now, 0⟩, s.newVersion⟩

/-- The old and the new key id are returned. -/
def rotateKey (env : Env) (now : ℕ) (random newKey : String) (s : Store) :
    Store × String × String :=
  let s := s.ready env now random
  let (next, _) := deprecateExpiredKeys env now random (s.rotated now newKey)
  (next, s.activeVersion, next.activeVersion)

def setActiveVersion (env : Env) (now : ℕ) (random version : String) (s : Store) :
    Store × Except String Unit :=
  let s := s.ready env now random
  if s.keyStore.find? version = none then
    (s, .error ("Unknown JWT key version \"" ++ version ++ "\""))
  else ({ s with activeVersion := version }, .ok ())

/-! ## The process over time -/

inductive Call where
  | rotateKey (newKey : String)
  | setActiveVersion (version : String)
  | getVerificationKeys
  | getActiveSigningKey
  | deprecateExpiredKeys
  deriving DecidableEq

def Call.run (env : Env) (now : ℕ) (random : String) (s : Store) : Call → Store
  | rotateKey newKey => (Auth.rotateKey env now random newKey s).1
  | setActiveVersion version => (Auth.setActiveVersion env now random version s).1
  | getVerificationKeys => (Auth.getVerificationKeys env now random s).1
  | getActiveSigningKey => (Auth.getActiveSigningKey env now random s).1
  | deprecateExpiredKeys => (Auth.deprecateExpiredKeys env now random s).1

inductive Event where
  | elapse (ms : ℕ)
  | call (c : Call) (random : String)
  deriving DecidableEq

/-- The primary as the store has it. -/
def Store.primary? (s : Store) : Option SigningKey :=
  (s.keyStore.find? s.activeVersion).map KeyEntry.signingKey

/-- The store, the clock, and the keys that have been primary so far with the times. -/
structure World where
  store : Store
  now : ℕ
  held : List (SigningKey × ℕ)

def World.load (env : Env) (now : ℕ) (random : String) : World :=
  ⟨initFromEnv env now random, now, []⟩

/-- What has been primary, the present primary included. -/
def World.record (w : World) : List (SigningKey × ℕ) :=
  match w.store.primary? with
  | none => w.held
  | some k => (k, w.now) :: w.held

def World.step (env : Env) (w : World) : Event → World
  | .elapse ms => ⟨w.store, w.now + ms, w.record⟩
  | .call c random => ⟨c.run env w.now random w.store, w.now, w.record⟩

end MobileMoney.Auth
