import MobileMoney.Library.Answers
import MobileMoney.Library.Checked
import MobileMoney.Library.Interleaving
import MobileMoney.Library.Keyed

/-!
# SEP-30 managed keys

`services/sep30/sep30Service.ts` with the tables of its migration. Calls of any number of processes
take turns; a turn is one query or a crash, a transaction is one turn, and a statement that fails
may have been executed. Ids are of one type, and so are all other strings: public keys, secrets,
payloads, tokens, hashes and signatures. Cryptography is a parameter, and what a call draws at
random comes with its turn. The deprecated flow without sessions, changes of a threshold and
signing are left out, and of the audit log only the turn that inserts an entry is kept.
-/

namespace MobileMoney.Sep30

open Checked

variable {I B : Type}

/-- The key pairs, the vault, the hash, and the variable `RECOVERY_SESSION_TTL_MINUTES`. The salt
of an encryption is a number here. -/
structure Environment (B : Type) where
  publicKey : B → B
  isPublicKey : B → Bool
  empty : B
  encrypt : ℕ → B → B
  decrypt : B → Option B
  sha256 : B → B
  verify : B → B → B → Bool
  sessionTtlMinutes : ℕ

inductive RecoverySessionState where
  | pending | collectingApprovals | awaitingCompletion | completed | rejected
  deriving DecidableEq, Repr

@[grind]
def RecoverySessionState.Terminal : RecoverySessionState → Bool
  | .completed | .rejected => true
  | .pending | .collectingApprovals | .awaitingCompletion => false

@[grind →]
theorem RecoverySessionState.Terminal.cases {state : RecoverySessionState}
    (h : state.Terminal = true) : state = .completed ∨ state = .rejected := by
  cases state <;> simp_all [Terminal]

/-- `secured` says that the key, or the one it has replaced, has had as many signers as its
threshold. -/
structure ManagedKey (I B : Type) where
  id : I
  userId : I
  publicKey : B
  encryptedSecret : B
  recoveryThreshold : ℕ
  isActive : Bool
  secured : Bool
  deriving DecidableEq

/-- A row, with what each write of its state has found and put there. -/
structure RecoverySession (I B : Type) where
  id : I
  managedKeyId : I
  requiredApprovals : ℕ
  state : RecoverySessionState
  approvedBy : List B
  requestedNewAddress : Option B
  expiresAt : ℕ
  newPublicKey : Option B
  oldPublicKey : B
  stateWrites : List (RecoverySessionState × RecoverySessionState)
  deriving DecidableEq

/-- A row, with the session of the call that has issued the token; the table does not have it. -/
structure RecoveryToken (I B : Type) where
  managedKeyId : I
  tokenHash : B
  signerPublicKey : B
  expiresAt : ℕ
  used : Bool
  issuedFor : I
  deriving DecidableEq

/-- What a signer has approved a session with. -/
structure Approval (I B : Type) where
  sessionId : I
  signerPublicKey : B
  token : B
  signature : B
  deriving DecidableEq

/-- The tables, and what has happened around them: the signers that an approval has found
registered for a key, the approvals that are written, those that are reported, and the sessions
whose completion is committed. -/
structure State (I B : Type) where
  now : ℕ
  keys : Keyed fun key : ManagedKey I B => key.id
  signers : I → List B
  tokens : List (RecoveryToken I B)
  sessions : Keyed fun session : RecoverySession I B => session.id
  vetted : List (I × B)
  approvals : List (Approval I B)
  reported : List (I × B)
  rotations : List I

inductive Sep30Error (I B : Type) where
  | keyNotFound
  | invalidSigner (signerPublicKey : B)
  | belowThreshold (left : ℤ) (threshold : ℕ)
  | invalidAddress (requestedNewAddress : B)
  | activeSessionExists (sessionId : I)
  | signerNotRegistered
  | sessionNotFound (sessionId : I)
  | otherKey
  | terminalState (state : RecoverySessionState)
  | sessionExpired
  | alreadyApproved (signerPublicKey : B)
  | tokenNotFound
  | invalidSignature
  | notAwaitingCompletion (state : RecoverySessionState)
  | database
  deriving DecidableEq

/-! ## The statements -/

inductive Statement (I B : Type) where
  | insertKey (key : ManagedKey I B)
  | insertSigner (keyId : I) (signerPublicKey : B)
  | deleteSigner (keyId : I) (signerPublicKey : B)
  | insertSession (session : RecoverySession I B)
  | useTokens (keyId : I) (signerPublicKey : B)
  | insertToken (token : RecoveryToken I B)
  | useToken (keyId : I) (tokenHash : B)
  | approve (approval : Approval I B) (approvedBy : List B) (state : RecoverySessionState)
  | reject (sessionId : I)
  | rotate (keyId : I) (key : ManagedKey I B) (session : Option I)
  | insertAuditEntry

def ManagedKey.deactivate (key : ManagedKey I B) : ManagedKey I B := { key with isActive := false }

@[simp] theorem ManagedKey.deactivate_id (key : ManagedKey I B) : key.deactivate.id = key.id := rfl

def ManagedKey.secure (count : ℕ) (key : ManagedKey I B) : ManagedKey I B :=
  { key with secured := key.secured || key.recoveryThreshold ≤ count }

@[simp] theorem ManagedKey.secure_id (count : ℕ) (key : ManagedKey I B) :
    (key.secure count).id = key.id := rfl

def RecoverySession.setState (state : RecoverySessionState) (session : RecoverySession I B) :
    RecoverySession I B :=
  { session with
    state := state
    stateWrites := session.stateWrites ++ [(session.state, state)] }

@[simp] theorem RecoverySession.setState_id (state : RecoverySessionState)
    (session : RecoverySession I B) : (session.setState state).id = session.id := rfl

def RecoverySession.approve (approvedBy : List B) (state : RecoverySessionState)
    (session : RecoverySession I B) : RecoverySession I B :=
  { session.setState state with approvedBy := approvedBy }

@[simp] theorem RecoverySession.approve_id (approvedBy : List B) (state : RecoverySessionState)
    (session : RecoverySession I B) : (session.approve approvedBy state).id = session.id := rfl

def RecoverySession.complete (newPublicKey : B) (session : RecoverySession I B) :
    RecoverySession I B :=
  { session.setState .completed with newPublicKey := some newPublicKey }

@[simp] theorem RecoverySession.complete_id (newPublicKey : B) (session : RecoverySession I B) :
    (session.complete newPublicKey).id = session.id := rfl

section Statements

variable [DecidableEq I] [DecidableEq B]

/-- The constraints of the tables. -/
def Statement.Admitted (s : State I B) : Statement I B → Prop
  | .insertKey key | .rotate _ key _ => 1 ≤ key.recoveryThreshold ∧ s.keys.find? key.id = none
  | .insertSigner keyId signerPublicKey =>
    s.keys.find? keyId ≠ none ∧ signerPublicKey ∉ s.signers keyId
  | .insertSession session => 1 ≤ session.requiredApprovals ∧ s.sessions.find? session.id = none
  | _ => True

instance (s : State I B) (statement : Statement I B) : Decidable (statement.Admitted s) := by
  cases statement <;> unfold Statement.Admitted <;> infer_instance

def State.updateSession (s : State I B) (sessionId : I)
    (f : RecoverySession I B → RecoverySession I B) (h : ∀ session, (f session).id = session.id) :
    State I B :=
  { s with sessions := s.sessions.modify sessionId f h }

/-- A rotated key inherits `secured`. -/
def State.rotate (s : State I B) (keyId : I) (key : ManagedKey I B) : State I B :=
  { s with
    keys := (s.keys.modify keyId ManagedKey.deactivate ManagedKey.deactivate_id).insert
      { key with secured := ((s.keys.find? keyId).map (·.secured)).getD false } }

def Statement.run (s : State I B) : Statement I B → State I B
  | .insertKey key => { s with keys := s.keys.insert key }
  | .insertSigner keyId signerPublicKey =>
    { s with
      keys := s.keys.modify keyId (ManagedKey.secure ((s.signers keyId).length + 1))
        (ManagedKey.secure_id _)
      signers := Function.update s.signers keyId (s.signers keyId ++ [signerPublicKey]) }
  | .deleteSigner keyId signerPublicKey =>
    { s with signers := Function.update s.signers keyId ((s.signers keyId).erase signerPublicKey) }
  | .insertSession session => { s with sessions := s.sessions.insert session }
  | .useTokens keyId signerPublicKey =>
    { s with
      tokens := s.tokens.map fun token =>
        if token.managedKeyId = keyId ∧ token.signerPublicKey = signerPublicKey then
          { token with used := true }
        else token }
  | .insertToken token => { s with tokens := s.tokens ++ [token] }
  | .useToken keyId tokenHash =>
    { s with
      tokens := s.tokens.map fun token =>
        if token.managedKeyId = keyId ∧ token.tokenHash = tokenHash then { token with used := true }
        else token }
  | .approve approval approvedBy state =>
    { s.updateSession approval.sessionId (RecoverySession.approve approvedBy state)
        (RecoverySession.approve_id _ _) with
      approvals := s.approvals ++ [approval] }
  | .reject sessionId =>
    s.updateSession sessionId (RecoverySession.setState .rejected) (RecoverySession.setState_id _)
  | .rotate keyId key none => s.rotate keyId key
  | .rotate keyId key (some sessionId) =>
    { (s.rotate keyId key).updateSession sessionId (RecoverySession.complete key.publicKey)
        (RecoverySession.complete_id _) with
      rotations := s.rotations ++ [sessionId] }
  | .insertAuditEntry => s

end Statements

/-! ## The calls -/

inductive Call (I B : Type) where
  | createManagedKey (userId : I) (recoveryThreshold : ℕ)
  | addRecoverySigner (keyId userId : I) (signerPublicKey : B)
  | removeRecoverySigner (keyId userId : I) (signerPublicKey : B)
  | openRecoverySession (keyId : I) (requestedNewAddress : Option B)
  | initiateRecovery (keyId : I) (signerPublicKey : B) (sessionId : Option I)
  | approveRecovery (keyId : I) (approval : Approval I B)
  | completeRecovery (keyId sessionId : I)
  | cancelRecoverySession (keyId sessionId : I)
  | rotateKey (keyId userId : I) (newStellarAddress : Option B)
  deriving DecidableEq

/-- What a call waits for. A session that is opened on the way to a token has its `signer`; a
rejection goes on from the session that its caller has read, and is `expired` when a completion
asks for it. -/
inductive Phase (I B : Type) where
  | call (call : Call I B)
  | insertingSigner (keyId : I) (signerPublicKey : B)
  | recheckingKey (keyId userId : I) (signerPublicKey : B) (recoveryThreshold : ℕ)
  | listingSigners (keyId : I) (signerPublicKey : B) (recoveryThreshold : ℕ)
  | deletingSigner (keyId : I) (signerPublicKey : B)
  | findingKey (keyId : I) (signer : B)
  | findingActive (key : ManagedKey I B) (requestedNewAddress signer : Option B)
  | insertingSession (key : ManagedKey I B) (requestedNewAddress signer : Option B)
  | auditingOpened (session : RecoverySession I B) (signer : Option B)
  | findingSession (keyId : I) (signer : B) (sessionId : I)
  | invalidatingTokens (session : RecoverySession I B) (signer : B)
  | insertingToken (session : RecoverySession I B) (signer : B)
  | auditingToken (session : RecoverySession I B) (token : B)
  | checkingSigner (session : RecoverySession I B) (approval : Approval I B)
  | checkingToken (session : RecoverySession I B) (approval : Approval I B)
  | usingToken (session : RecoverySession I B) (approval : Approval I B)
  | approving (session : RecoverySession I B) (approval : Approval I B)
  | auditingApproval (approval : Approval I B)
  | rereading (approval : Approval I B)
  | readingKey (session : RecoverySession I B)
  | completing (session : RecoverySession I B) (key : ManagedKey I B)
  | auditingCompletion (newPublicKey oldPublicKey : B)
  | readingRejected (session : RecoverySession I B) (expired : Bool)
  | rejecting (session : RecoverySession I B) (expired : Bool)
  | auditingRejection (expired : Bool)
  | rotating (key : ManagedKey I B) (newStellarAddress : Option B)
  | created (publicKey : B) (keyId : I)
  | added | removed
  | opened (session : RecoverySession I B)
  | issued (token : B) (sessionId : I)
  | approved (session : RecoverySession I B)
  | rotated (newPublicKey oldPublicKey : B)
  | cancelled
  | threw (error : Sep30Error I B)
  | crashed
  deriving DecidableEq

def Phase.AtRest : Phase I B → Bool
  | .created _ _ | .added | .removed | .opened _ | .issued _ _ | .approved _ | .rotated _ _
  | .cancelled | .threw _ | .crashed => true
  | _ => false

/-- What is drawn at random in a turn. -/
structure Fresh (I B : Type) where
  id : I
  secret : B
  salt : ℕ
  token : B

inductive Input (I B : Type) where
  | passes (elapsed : ℕ)
  | turn (fresh : Fresh I B) (answer : DbAnswer)
  | crash

/-! ## What a call writes -/

section Writes

variable (env : Environment B)

/-- The address may be any, and the secret is the drawn one. -/
def newKey (fresh : Fresh I B) (userId : I) (address : Option B) (recoveryThreshold : ℕ) :
    ManagedKey I B where
  id := fresh.id
  userId := userId
  publicKey := address.getD (env.publicKey fresh.secret)
  encryptedSecret := env.encrypt fresh.salt fresh.secret
  recoveryThreshold := recoveryThreshold
  isActive := true
  secured := false

def newSession (fresh : Fresh I B) (now : ℕ) (key : ManagedKey I B)
    (requestedNewAddress : Option B) : RecoverySession I B where
  id := fresh.id
  managedKeyId := key.id
  requiredApprovals := key.recoveryThreshold
  state := .pending
  approvedBy := []
  requestedNewAddress := requestedNewAddress
  expiresAt := now + env.sessionTtlMinutes * 60 * 1000
  newPublicKey := none
  oldPublicKey := key.publicKey
  stateWrites := []

def newToken (fresh : Fresh I B) (now : ℕ) (session : RecoverySession I B) (signer : B) :
    RecoveryToken I B where
  managedKeyId := session.managedKeyId
  tokenHash := env.sha256 fresh.token
  signerPublicKey := signer
  expiresAt := now + 15 * 60 * 1000
  used := false
  issuedFor := session.id

/-- The list that has been read, with one more signer. -/
def RecoverySession.approvedWith (session : RecoverySession I B) (signer : B) : List B :=
  session.approvedBy ++ [signer]

def RecoverySession.nextState (session : RecoverySession I B) (signer : B) :
    RecoverySessionState :=
  if session.requiredApprovals ≤ (session.approvedWith signer).length then .awaitingCompletion
  else .collectingApprovals

/-- The statement that is sent in a phase, if it is one that writes. -/
def Phase.statement (fresh : Fresh I B) (now : ℕ) : Phase I B → Option (Statement I B)
  | .call (.createManagedKey userId recoveryThreshold) =>
    some (.insertKey (newKey env fresh userId none recoveryThreshold))
  | .insertingSigner keyId signerPublicKey => some (.insertSigner keyId signerPublicKey)
  | .deletingSigner keyId signerPublicKey => some (.deleteSigner keyId signerPublicKey)
  | .insertingSession key requestedNewAddress _ =>
    some (.insertSession (newSession env fresh now key requestedNewAddress))
  | .invalidatingTokens session signer => some (.useTokens session.managedKeyId signer)
  | .insertingToken session signer => some (.insertToken (newToken env fresh now session signer))
  | .usingToken session approval =>
    some (.useToken session.managedKeyId (env.sha256 approval.token))
  | .approving session approval =>
    some (.approve approval (session.approvedWith approval.signerPublicKey)
      (session.nextState approval.signerPublicKey))
  | .completing session key =>
    some (.rotate key.id
      (newKey env fresh key.userId session.requestedNewAddress key.recoveryThreshold)
      (some session.id))
  | .rejecting session _ => some (.reject session.id)
  | .rotating key newStellarAddress =>
    some (.rotate key.id (newKey env fresh key.userId newStellarAddress key.recoveryThreshold) none)
  | .auditingOpened _ _ | .auditingToken _ _ | .auditingApproval _ | .auditingCompletion _ _
  | .auditingRejection _ => some .insertAuditEntry
  | _ => none

/-- Where a call goes on after its statement. -/
def Phase.next (fresh : Fresh I B) (now : ℕ) : Phase I B → Phase I B
  | .call (.createManagedKey _ _) => .created (env.publicKey fresh.secret) fresh.id
  | .insertingSigner _ _ => .added
  | .deletingSigner _ _ => .removed
  | .insertingSession key requestedNewAddress signer =>
    .auditingOpened (newSession env fresh now key requestedNewAddress) signer
  | .auditingOpened session none => .opened session
  | .auditingOpened session (some signer) => .invalidatingTokens session signer
  | .invalidatingTokens session signer => .insertingToken session signer
  | .insertingToken session _ => .auditingToken session fresh.token
  | .auditingToken session token => .issued token session.id
  | .usingToken session approval => .approving session approval
  | .approving _ approval => .auditingApproval approval
  | .auditingApproval approval => .rereading approval
  | .completing session key =>
    .auditingCompletion (session.requestedNewAddress.getD (env.publicKey fresh.secret))
      key.publicKey
  | .auditingCompletion newPublicKey oldPublicKey => .rotated newPublicKey oldPublicKey
  | .rejecting _ expired => .auditingRejection expired
  | .auditingRejection expired => if expired then .threw .sessionExpired else .cancelled
  | .rotating key newStellarAddress =>
    .rotated (newStellarAddress.getD (env.publicKey fresh.secret)) key.publicKey
  | phase => phase

end Writes

/-! ## What a call reads -/

section Reads

variable [DecidableEq I] [DecidableEq B] (env : Environment B)

def State.getActiveManagedKeyById (s : State I B) (keyId : I) :
    Except (Sep30Error I B) (ManagedKey I B) :=
  orFail ((s.keys.find? keyId).filter (·.isActive)) .keyNotFound

def State.getManagedKey (s : State I B) (keyId userId : I) :
    Except (Sep30Error I B) (ManagedKey I B) :=
  orFail ((s.keys.find? keyId).filter fun key => key.userId = userId ∧ key.isActive) .keyNotFound

def State.getRecoverySession (s : State I B) (sessionId : I) :
    Except (Sep30Error I B) (RecoverySession I B) :=
  orFail (s.sessions.find? sessionId) (.sessionNotFound sessionId)

/-- The session of a key. -/
def State.getSessionOf (s : State I B) (keyId sessionId : I) :
    Except (Sep30Error I B) (RecoverySession I B) := do
  let session ← s.getRecoverySession sessionId
  require (session.managedKeyId = keyId) .otherKey
  .ok session

omit [DecidableEq I] [DecidableEq B] in
def RecoverySession.assertSessionActive (session : RecoverySession I B) (now : ℕ) :
    Except (Sep30Error I B) Unit := do
  require (session.state.Terminal = false) (.terminalState session.state)
  require (now ≤ session.expiresAt) .sessionExpired

def State.findActiveSession (s : State I B) (keyId : I) : Option (RecoverySession I B) :=
  s.sessions.rows.find? fun session =>
    session.managedKeyId = keyId ∧ session.state.Terminal = false ∧ s.now < session.expiresAt

/-- The rows of `recovery_tokens` that an approval is looked up in. -/
def RecoveryToken.Matches (now : ℕ) (keyId : I) (approval : Approval I B)
    (token : RecoveryToken I B) : Prop :=
  token.managedKeyId = keyId ∧ token.tokenHash = env.sha256 approval.token ∧
    token.signerPublicKey = approval.signerPublicKey ∧ token.used = false ∧ now < token.expiresAt

instance (now : ℕ) (keyId : I) (approval : Approval I B) (token : RecoveryToken I B) :
    Decidable (token.Matches env now keyId approval) :=
  inferInstanceAs (Decidable (_ ∧ _ ∧ _ ∧ _ ∧ _))

/-- The first query of `openRecoverySession`. -/
def openRecoverySession (s : State I B) (keyId : I) (requestedNewAddress signer : Option B) :
    Except (Sep30Error I B) (Phase I B) := do
  let key ← s.getActiveManagedKeyById keyId
  match requestedNewAddress with
  | some address =>
    require (address = env.empty ∨ env.isPublicKey address) (.invalidAddress address)
  | none => .ok ()
  .ok (.findingActive key requestedNewAddress signer)

/-- Where a call goes on after a query that only reads. -/
def look (s : State I B) : Phase I B → Except (Sep30Error I B) (Phase I B)
  | .call (.addRecoverySigner keyId userId signerPublicKey) => do
    let _ ← s.getManagedKey keyId userId
    require (env.isPublicKey signerPublicKey) (.invalidSigner signerPublicKey)
    .ok (.insertingSigner keyId signerPublicKey)
  | .call (.removeRecoverySigner keyId userId signerPublicKey) => do
    let key ← s.getManagedKey keyId userId
    .ok (.recheckingKey keyId userId signerPublicKey key.recoveryThreshold)
  | .recheckingKey keyId userId signerPublicKey recoveryThreshold => do
    let _ ← s.getManagedKey keyId userId
    .ok (.listingSigners keyId signerPublicKey recoveryThreshold)
  | .listingSigners keyId signerPublicKey recoveryThreshold => do
    require (recoveryThreshold + 1 ≤ (s.signers keyId).length)
      (.belowThreshold ((s.signers keyId).length - 1) recoveryThreshold)
    .ok (.deletingSigner keyId signerPublicKey)
  | .call (.openRecoverySession keyId requestedNewAddress) =>
    openRecoverySession env s keyId requestedNewAddress none
  | .findingKey keyId signer => openRecoverySession env s keyId none (some signer)
  | .findingActive key requestedNewAddress signer =>
    match s.findActiveSession key.id with
    | some session => .error (.activeSessionExists session.id)
    | none => .ok (.insertingSession key requestedNewAddress signer)
  | .call (.initiateRecovery keyId signerPublicKey sessionId) => do
    require (signerPublicKey ∈ s.signers keyId) .signerNotRegistered
    match sessionId with
    | some sessionId => .ok (.findingSession keyId signerPublicKey sessionId)
    | none => .ok (.findingKey keyId signerPublicKey)
  | .findingSession keyId signer sessionId => do
    let session ← s.getSessionOf keyId sessionId
    session.assertSessionActive s.now
    .ok (.invalidatingTokens session signer)
  | .call (.approveRecovery keyId approval) => do
    let session ← s.getSessionOf keyId approval.sessionId
    session.assertSessionActive s.now
    require (approval.signerPublicKey ∉ session.approvedBy)
      (.alreadyApproved approval.signerPublicKey)
    .ok (.checkingSigner session approval)
  | .checkingSigner session approval => do
    require (approval.signerPublicKey ∈ s.signers session.managedKeyId) .signerNotRegistered
    .ok (.checkingToken session approval)
  | .checkingToken session approval => do
    require (∃ token ∈ s.tokens, token.Matches env s.now session.managedKeyId approval)
      .tokenNotFound
    require (env.verify approval.signerPublicKey approval.token approval.signature)
      .invalidSignature
    .ok (.usingToken session approval)
  | .rereading approval => do
    let session ← s.getRecoverySession approval.sessionId
    .ok (.approved session)
  | .call (.completeRecovery keyId sessionId) => do
    let session ← s.getSessionOf keyId sessionId
    require (session.state = .awaitingCompletion) (.notAwaitingCompletion session.state)
    if session.expiresAt < s.now then .ok (.readingRejected session true)
    else .ok (.readingKey session)
  | .readingKey session => do
    let key ← s.getActiveManagedKeyById session.managedKeyId
    .ok (.completing session key)
  | .call (.cancelRecoverySession keyId sessionId) => do
    let session ← s.getSessionOf keyId sessionId
    require (session.state.Terminal = false) (.terminalState session.state)
    .ok (.readingRejected session false)
  | .readingRejected session expired => do
    let _ ← s.getRecoverySession session.id
    .ok (.rejecting session expired)
  | .call (.rotateKey keyId userId newStellarAddress) => do
    let key ← s.getManagedKey keyId userId
    .ok (.rotating key newStellarAddress)
  | phase => .ok phase

/-- The phases in which nothing is known of an open session. -/
def Phase.Plain : Phase I B → Prop
  | .checkingSigner _ _ | .checkingToken _ _ | .usingToken _ _ | .approving _ _
  | .auditingApproval _ | .rereading _ | .readingKey _ | .completing _ _ | .readingRejected _ _
  | .rejecting _ _ => False
  | _ => True

/-- What a query that only reads has found. -/
inductive Looked (s : State I B) : Phase I B → Phase I B → Prop where
  | approval (keyId : I) (session : RecoverySession I B) (approval : Approval I B)
      (mem : session ∈ s.sessions.rows) (id_eq : approval.sessionId = session.id)
      (key_eq : session.managedKeyId = keyId) (isOpen : session.state.Terminal = false)
      (live : s.now ≤ session.expiresAt)
      (fresh : approval.signerPublicKey ∉ session.approvedBy) :
      Looked s (.call (.approveRecovery keyId approval)) (.checkingSigner session approval)
  | signer (session : RecoverySession I B) (approval : Approval I B)
      (registered : approval.signerPublicKey ∈ s.signers session.managedKeyId) :
      Looked s (.checkingSigner session approval) (.checkingToken session approval)
  | token (session : RecoverySession I B) (approval : Approval I B)
      (found : ∃ token ∈ s.tokens, token.Matches env s.now session.managedKeyId approval)
      (verifies : env.verify approval.signerPublicKey approval.token approval.signature = true) :
      Looked s (.checkingToken session approval) (.usingToken session approval)
  | awaiting (keyId : I) (session : RecoverySession I B) (mem : session ∈ s.sessions.rows)
      (key_eq : session.managedKeyId = keyId) (awaiting : session.state = .awaitingCompletion) :
      Looked s (.call (.completeRecovery keyId session.id)) (.readingKey session)
  | key (session : RecoverySession I B) (key : ManagedKey I B) :
      Looked s (.readingKey session) (.completing session key)
  | expired (keyId : I) (session : RecoverySession I B) (mem : session ∈ s.sessions.rows)
      (awaiting : session.state = .awaitingCompletion) :
      Looked s (.call (.completeRecovery keyId session.id)) (.readingRejected session true)
  | cancelled (keyId : I) (session : RecoverySession I B) (mem : session ∈ s.sessions.rows)
      (isOpen : session.state.Terminal = false) :
      Looked s (.call (.cancelRecoverySession keyId session.id)) (.readingRejected session false)
  | rejected (session : RecoverySession I B) (expired : Bool) :
      Looked s (.readingRejected session expired) (.rejecting session expired)
  | plain (phase phase' : Phase I B) (idle : phase'.Plain) : Looked s phase phase'
  | same (phase : Phase I B) : Looked s phase phase

variable {env} {s : State I B}

omit [DecidableEq B] in
theorem getSessionOf_eq_ok {keyId sessionId : I} {session : RecoverySession I B}
    (h : s.getSessionOf keyId sessionId = .ok session) :
    session ∈ s.sessions.rows ∧ session.id = sessionId ∧ session.managedKeyId = keyId := by
  simp only [State.getSessionOf, State.getRecoverySession, bind_eq_ok, orFail_eq_ok, require_eq_ok,
    exists_const, Except.ok.injEq] at h
  obtain ⟨row, hrow, hkey, rfl⟩ := h
  exact ⟨(Keyed.of_find? hrow).1, (Keyed.of_find? hrow).2, hkey⟩

theorem openRecoverySession_eq_ok {keyId : I} {requestedNewAddress signer : Option B}
    {phase : Phase I B}
    (h : openRecoverySession env s keyId requestedNewAddress signer = .ok phase) :
    ∃ key, phase = .findingActive key requestedNewAddress signer := by
  cases requestedNewAddress with
  | none =>
    simp only [openRecoverySession, bind_eq_ok, Except.ok.injEq] at h
    obtain ⟨key, -, -, -, rfl⟩ := h
    exact ⟨key, rfl⟩
  | some address =>
    simp only [openRecoverySession, bind_eq_ok, Except.ok.injEq] at h
    obtain ⟨key, -, -, -, rfl⟩ := h
    exact ⟨key, rfl⟩

variable (env) in
theorem look_cases {phase phase' : Phase I B} (h : look env s phase = .ok phase') :
    Looked env s phase phase' := by
  cases phase with
  | call call =>
    cases call with
    | createManagedKey userId recoveryThreshold =>
      cases h
      exact .same _
    | approveRecovery keyId approval =>
      simp only [look, RecoverySession.assertSessionActive, bind_eq_ok, require_eq_ok, exists_const,
        Except.ok.injEq] at h
      obtain ⟨session, hsession, ⟨open_, live⟩, fresh, rfl⟩ := h
      obtain ⟨hmem, hid, hkey⟩ := getSessionOf_eq_ok hsession
      exact .approval keyId session approval hmem hid.symm hkey open_ live fresh
    | completeRecovery keyId sessionId =>
      simp only [look, bind_eq_ok, require_eq_ok, exists_const] at h
      obtain ⟨session, hsession, awaiting, hnext⟩ := h
      obtain ⟨hmem, rfl, hkey⟩ := getSessionOf_eq_ok hsession
      split_ifs at hnext
      · cases hnext
        exact .expired keyId session hmem awaiting
      · cases hnext
        exact .awaiting keyId session hmem hkey awaiting
    | cancelRecoverySession keyId sessionId =>
      simp only [look, bind_eq_ok, require_eq_ok, exists_const, Except.ok.injEq] at h
      obtain ⟨session, hsession, isOpen, rfl⟩ := h
      obtain ⟨hmem, rfl, -⟩ := getSessionOf_eq_ok hsession
      exact .cancelled keyId session hmem isOpen
    | openRecoverySession keyId requestedNewAddress =>
      obtain ⟨key, rfl⟩ := openRecoverySession_eq_ok h
      exact .plain _ _ trivial
    | initiateRecovery keyId signerPublicKey sessionId =>
      cases sessionId <;> simp only [look, bind_eq_ok, Except.ok.injEq] at h
      all_goals
        obtain ⟨-, -, rfl⟩ := h
        exact .plain _ _ trivial
    | addRecoverySigner =>
      simp only [look, bind_eq_ok, Except.ok.injEq] at h
      obtain ⟨-, -, -, -, rfl⟩ := h
      exact .plain _ _ trivial
    | removeRecoverySigner | rotateKey =>
      simp only [look, bind_eq_ok, Except.ok.injEq] at h
      obtain ⟨-, -, rfl⟩ := h
      exact .plain _ _ trivial
  | checkingSigner session approval =>
    simp only [look, bind_eq_ok, require_eq_ok, exists_const, Except.ok.injEq] at h
    obtain ⟨registered, rfl⟩ := h
    exact .signer session approval registered
  | checkingToken session approval =>
    simp only [look, bind_eq_ok, require_eq_ok, exists_const, Except.ok.injEq] at h
    obtain ⟨found, verifies, rfl⟩ := h
    exact .token session approval found verifies
  | readingKey session =>
    simp only [look, bind_eq_ok, Except.ok.injEq] at h
    obtain ⟨key, -, rfl⟩ := h
    exact .key session key
  | findingKey keyId signer =>
    simp only [look] at h
    obtain ⟨key, rfl⟩ := openRecoverySession_eq_ok h
    exact .plain _ _ trivial
  | findingActive key requestedNewAddress signer =>
    simp only [look] at h
    split at h
    · cases h
    · cases h
      exact .plain _ _ trivial
  | findingSession keyId signer sessionId =>
    simp only [look, bind_eq_ok, Except.ok.injEq] at h
    obtain ⟨-, -, -, -, rfl⟩ := h
    exact .plain _ _ trivial
  | readingRejected session expired =>
    simp only [look, bind_eq_ok, Except.ok.injEq] at h
    obtain ⟨-, -, rfl⟩ := h
    exact .rejected session expired
  | recheckingKey | listingSigners | rereading =>
    simp only [look, bind_eq_ok, Except.ok.injEq] at h
    obtain ⟨-, -, rfl⟩ := h
    exact .plain _ _ trivial
  | _ =>
    cases h
    exact .same _

end Reads

/-! ## The turns -/

section Turns

variable [DecidableEq I] [DecidableEq B] (env : Environment B)

/-- What is recorded of a query that only reads. -/
def State.note (s : State I B) : Phase I B → State I B
  | .checkingSigner session approval =>
    { s with vetted := s.vetted ++ [(session.managedKeyId, approval.signerPublicKey)] }
  | .rereading approval =>
    { s with reported := s.reported ++ [(approval.sessionId, approval.signerPublicKey)] }
  | _ => s

def State.execute (s : State I B) (statement : Statement I B) (answer : DbAnswer) : State I B :=
  if statement.Admitted s ∧ answer.executed then statement.run s else s

/-- The statement of a turn is executed. -/
def Phase.Executes (fresh : Fresh I B) (answer : DbAnswer) (s : State I B) (phase : Phase I B) :
    Prop :=
  answer.executed ∧ ∃ statement ∈ phase.statement env fresh s.now, statement.Admitted s

instance (fresh : Fresh I B) (answer : DbAnswer) (s : State I B) (phase : Phase I B) :
    Decidable (phase.Executes env fresh answer s) :=
  inferInstanceAs (Decidable (_ ∧ ∃ statement ∈ phase.statement env fresh s.now, _))

def turn (fresh : Fresh I B) (answer : DbAnswer) (s : State I B) (phase : Phase I B) :
    State I B × Phase I B :=
  match phase.statement env fresh s.now with
  | some statement =>
    (s.execute statement answer,
      if statement.Admitted s ∧ answer = .answered then phase.next env fresh s.now
      else .threw .database)
  | none =>
    if phase.AtRest then (s, phase)
    else if answer = .answered then
      match look env s phase with
      | .ok phase' => (s.note phase, phase')
      | .error error => (s, .threw error)
    else (s, .threw .database)

/-- What one query does. -/
theorem turn_cases (fresh : Fresh I B) (answer : DbAnswer) (s : State I B) (phase : Phase I B) :
    (∃ statement, phase.statement env fresh s.now = some statement ∧
      (turn env fresh answer s phase).1 = s.execute statement answer ∧
      ((turn env fresh answer s phase).2 = .threw .database ∨
        statement.Admitted s ∧ answer = .answered ∧
          (turn env fresh answer s phase).2 = phase.next env fresh s.now)) ∨
    phase.statement env fresh s.now = none ∧
      (phase.AtRest = true ∧ turn env fresh answer s phase = (s, phase) ∨
        (∃ error, turn env fresh answer s phase = (s, .threw error)) ∨
        ∃ phase', look env s phase = .ok phase' ∧
          turn env fresh answer s phase = (s.note phase, phase')) := by
  unfold turn
  cases phase.statement env fresh s.now with
  | some statement =>
    refine Or.inl ⟨statement, rfl, rfl, ?_⟩
    dsimp only
    split_ifs with h
    · exact Or.inr ⟨h.1, h.2, rfl⟩
    · exact Or.inl rfl
  | none =>
    refine Or.inr ⟨rfl, ?_⟩
    dsimp only
    split_ifs with hrest hanswer
    · exact Or.inl ⟨hrest, rfl⟩
    · cases hlook : look env s phase with
      | ok phase' => exact Or.inr (Or.inr ⟨phase', rfl, rfl⟩)
      | error error => exact Or.inr (Or.inl ⟨error, rfl⟩)
    · exact Or.inr (Or.inl ⟨.database, rfl⟩)

def step (input : Input I B) (s : State I B) (phase : Phase I B) : State I B × Phase I B :=
  match input with
  | .passes elapsed => ({ s with now := s.now + elapsed }, phase)
  | .turn fresh answer => turn env fresh answer s phase
  | .crash => (s, .crashed)

abbrev World (I B ι : Type) := Interleaving.World (State I B) ι (Phase I B)

def State.empty (now : ℕ) : State I B where
  now := now
  keys := ⟨[], List.nodup_nil⟩
  signers _ := []
  tokens := []
  sessions := ⟨[], List.nodup_nil⟩
  vetted := []
  approvals := []
  reported := []
  rotations := []

/-- The service starts with empty tables, and with calls that have not begun. -/
structure World.Initial {ι : Type} (w : World I B ι) : Prop where
  shared : ∃ now, w.shared = .empty now
  fresh : ∀ i, ∃ call, w.locals i = .call call

end Turns

/-! ## Plain runs -/

/-- Everything is a number, and the secret shows through. -/
def plainEnvironment : Environment ℕ where
  publicKey secret := secret + 100
  isPublicKey _ := true
  empty := 0
  encrypt _ secret := secret + 1000
  decrypt payload := if 1000 ≤ payload then some (payload - 1000) else none
  sha256 token := token
  verify signer token signature := signature = signer + token
  sessionTtlMinutes := 30

theorem plainEnvironment_decrypts (salt secret : ℕ) :
    plainEnvironment.decrypt (plainEnvironment.encrypt salt secret) = some secret := by
  simp [plainEnvironment]

def World.of (calls : List (Call ℕ ℕ)) : World ℕ ℕ ℕ where
  shared := .empty 0
  locals i := .call (calls.getD i (.rotateKey 0 0 none))

theorem World.of_initial (calls : List (Call ℕ ℕ)) : (World.of calls).Initial :=
  ⟨⟨0, rfl⟩, fun _ => ⟨_, rfl⟩⟩

/-- A turn that is answered, and what it draws. -/
def answered (i id secret : ℕ) : ℕ × Input ℕ ℕ := (i, .turn ⟨id, secret, 0, secret⟩ .answered)

end MobileMoney.Sep30
