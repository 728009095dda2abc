import Mathlib.Tactic.FinCases
import MobileMoney.Library.Answers
import MobileMoney.Library.Interleaving
import MobileMoney.Library.Quorum

/-!
# Cold vault transfers

`services/stellar/vault.ts`: one transfer, and the calls of any number of processes on it. A turn is
one read, one statement, one submission to the network or a crash. Reads may be answered by a
replica that lags behind; one that fails or finds no row ends its call like a crash. Statements and
submissions that fail may have been executed. The signature scheme is a parameter, and what the
network makes of a submission is open. So are the columns of the table, which no migration creates.

A registration looks at the envelope it is given and writes back the record that it has read, and an
execution does not look at the status. As long as the envelopes carry signatures over the stored
transaction, no record changes under a registration and no second execution begins, the list of
signers is a ballot on that transaction.
-/

namespace MobileMoney.ColdVault

open Interleaving

variable {A X D S ι : Type}

/-- The signature scheme, with the passphrase of the network. A public key that is not well formed
verifies nothing. -/
structure Sdk (A X D S : Type) where
  hash : X → D
  verify : A → D → S → Bool

/-- The columns for the destination that `cold_vault_transfers` has. The `INSERT` names
`destination_publicKey`, which the database folds to lower case, and the reads of whole records name
`destination_public_key`. -/
structure Columns where
  destinationPublickey : Bool
  destinationPublicKey : Bool
  deriving DecidableEq

/-- All statements find the columns that they name. -/
def Columns.Complete (columns : Columns) : Prop :=
  columns.destinationPublickey = true ∧ columns.destinationPublicKey = true

instance (columns : Columns) : Decidable columns.Complete :=
  inferInstanceAs (Decidable (_ ∧ _))

structure Envelope (X S : Type) where
  transaction : X
  signatures : List S
  deriving DecidableEq

inductive VaultTransferStatus where
  | pendingSignatures | signed | executed | failed
  deriving DecidableEq, Repr

@[grind]
def VaultTransferStatus.Terminal : VaultTransferStatus → Bool
  | .executed | .failed => true
  | .pendingSignatures | .signed => false

@[grind →]
theorem VaultTransferStatus.Terminal.cases {status : VaultTransferStatus}
    (h : status.Terminal = true) : status = .executed ∨ status = .failed := by
  cases status <;> simp_all [Terminal]

structure VaultTransfer (A X S : Type) where
  envelope : Envelope X S
  status : VaultTransferStatus
  requiredSignatures : ℕ
  registeredSignatures : List A
  deriving DecidableEq

inductive VaultError where
  | generation
  | notFound
  | terminalState (status : VaultTransferStatus)
  | alreadyRegistered
  | malformedEnvelope
  | signatureMismatch
  | insufficientSignatures (count required : ℕ)
  | submissionFailed
  | database
  deriving DecidableEq, Repr

/-- One of the signatures is the signer's, over this transaction. -/
def HasSignature (sdk : Sdk A X D S) (transaction : X) (signer : A) (signatures : List S) : Bool :=
  signatures.any fun signature => sdk.verify signer (sdk.hash transaction) signature

/-- A record as `generateTransferEnvelope` stores it. -/
def VaultTransfer.generate (envelope : Envelope X S) : VaultTransfer A X S where
  envelope := envelope
  status := .pendingSignatures
  requiredSignatures := 2
  registeredSignatures := []

def VaultTransfer.push (row : VaultTransfer A X S) (signer : A) : VaultTransfer A X S :=
  { row with
    registeredSignatures := row.registeredSignatures ++ [signer]
    status :=
      if row.requiredSignatures ≤ row.registeredSignatures.length + 1 then .signed
      else .pendingSignatures }

/-! ## The calls -/

/-- What a call waits for. A registration keeps the record that it has read. -/
inductive Phase (A X S : Type) where
  | generateTransferEnvelope (envelope : Envelope X S)
  | registerSignature (signer : A) (signed : Option (Envelope X S))
  | executeTransfer
  | registering (found : VaultTransfer A X S) (signer : A)
  | submitting (envelope : Envelope X S)
  | markingExecuted
  | markingFailed
  | generated
  | registered (record : VaultTransfer A X S)
  | succeeded
  | threw (error : VaultError)
  | crashed
  deriving DecidableEq

/-- A submission is answered when the network has accepted it and says so. -/
inductive Input where
  | read (source : Replicated.Source)
  | update (answer : DbAnswer)
  | submit (answer : DbAnswer)
  | crash
  deriving DecidableEq

/-- The row, and what has happened around it: which signatures have passed the check of a
registration, and how often the network has accepted the transfer. -/
structure State (A X S : Type) where
  transfer : Replicated (Option (VaultTransfer A X S))
  presented : List (A × List S)
  accepted : ℕ

/-- The update that is sent in a phase. -/
def Phase.statement : Phase A X S → Option (VaultTransfer A X S → VaultTransfer A X S)
  | .registering found signer => some fun row =>
    { row with
      registeredSignatures := (found.push signer).registeredSignatures
      status := (found.push signer).status }
  | .markingExecuted => some fun row => { row with status := .executed }
  | .markingFailed => some fun row => { row with status := .failed }
  | _ => none

/-- An error of the statement that marks the transfer executed is handled like one of the
submission. -/
def Phase.next (answer : DbAnswer) : Phase A X S → Phase A X S
  | .registering found signer =>
    if answer = .answered then .registered (found.push signer) else .threw .database
  | .markingExecuted => if answer = .answered then .succeeded else .markingFailed
  | .markingFailed => .threw (if answer = .answered then .submissionFailed else .database)
  | phase => phase

/-- The id of the transfer is drawn by the call that stores it. -/
def State.store (s : State A X S) (row : VaultTransfer A X S) (answer : DbAnswer) : State A X S :=
  if answer.executed ∧ s.transfer.current.isNone then
    { s with transfer := s.transfer.write (some row) }
  else s

def State.execute (s : State A X S) (statement : VaultTransfer A X S → VaultTransfer A X S)
    (answer : DbAnswer) : State A X S :=
  match s.transfer.current with
  | some row =>
    if answer.executed then { s with transfer := s.transfer.write (some (statement row)) } else s
  | none => s

def update (columns : Columns) (answer : DbAnswer) (s : State A X S) :
    Phase A X S → State A X S × Phase A X S
  | .generateTransferEnvelope envelope =>
    if columns.destinationPublickey then
      (s.store (.generate envelope) answer,
        if answer = .answered then .generated else .threw .generation)
    else (s, .threw .generation)
  | phase =>
    match phase.statement with
    | some statement => (s.execute statement answer, phase.next answer)
    | none => (s, phase)

def submit (answer : DbAnswer) (s : State A X S) : Phase A X S → State A X S × Phase A X S
  | .submitting _ =>
    (if answer.executed then { s with accepted := s.accepted + 1 } else s,
      if answer = .answered then .markingExecuted else .markingFailed)
  | phase => (s, phase)

def State.present (s : State A X S) (signer : A) (signed : Option (Envelope X S)) :
    State A X S :=
  { s with
    presented := s.presented ++ (signed.map fun envelope => (signer, envelope.signatures)).toList }

def executeTransfer (row : VaultTransfer A X S) : Except VaultError (Envelope X S) :=
  if row.registeredSignatures.length < row.requiredSignatures then
    .error (.insufficientSignatures row.registeredSignatures.length row.requiredSignatures)
  else .ok row.envelope

section Turns

variable [DecidableEq A] (sdk : Sdk A X D S) (columns : Columns)

/-- The checks of a registration; the check of the signature looks at the envelope that was
submitted. -/
def registerSignature (row : VaultTransfer A X S) (signer : A)
    (signed : Option (Envelope X S)) : Except VaultError Unit :=
  if row.status.Terminal then .error (.terminalState row.status)
  else if signer ∈ row.registeredSignatures then .error .alreadyRegistered
  else match signed with
    | none => .error .malformedEnvelope
    | some envelope =>
      if HasSignature sdk envelope.transaction signer envelope.signatures then .ok ()
      else .error .signatureMismatch

/-- An execution reads none of the columns for the destination. -/
def read (source : Replicated.Source) (s : State A X S) : Phase A X S → State A X S × Phase A X S
  | .registerSignature signer signed =>
    if columns.destinationPublicKey then
      match s.transfer.read source with
      | none => (s, .threw .notFound)
      | some row =>
        match registerSignature sdk row signer signed with
        | .ok _ => (s.present signer signed, .registering row signer)
        | .error error => (s, .threw error)
    else (s, .threw .database)
  | .executeTransfer =>
    match s.transfer.read source with
    | none => (s, .threw .notFound)
    | some row =>
      match executeTransfer row with
      | .ok envelope => (s, .submitting envelope)
      | .error error => (s, .threw error)
  | phase => (s, phase)

def step (input : Input) (s : State A X S) (phase : Phase A X S) : State A X S × Phase A X S :=
  match input with
  | .read source => read sdk columns source s phase
  | .update answer => update columns answer s phase
  | .submit answer => submit answer s phase
  | .crash => (s, .crashed)

abbrev World (A X S ι : Type) := Interleaving.World (State A X S) ι (Phase A X S)

/-- A call that has not begun; the one that stores the transfer has its envelope. -/
def Phase.Fresh (envelope : Envelope X S) : Phase A X S → Prop
  | .generateTransferEnvelope envelope' => envelope' = envelope
  | .registerSignature _ _ | .executeTransfer => True
  | _ => False

/-- Nothing is stored yet. -/
structure World.Initial (envelope : Envelope X S) (w : World A X S ι) : Prop where
  shared : w.shared = ⟨⟨none, []⟩, [], 0⟩
  fresh : ∀ i, (w.locals i).Fresh envelope

end Turns

/-! ## What is claimed of a transfer -/

section Law

variable (sdk : Sdk A X D S)

/-- The signer has presented a signature over the transaction. -/
def Endorses (transaction : X) (presented : List (A × List S)) (signer : A) : Prop :=
  ∃ signatures, (signer, signatures) ∈ presented ∧ HasSignature sdk transaction signer signatures

/-- At least `k` distinct signers have signed the transaction. -/
def Authorised (transaction : X) (k : ℕ) (presented : List (A × List S)) : Prop :=
  Quorum.Reached (Endorses sdk transaction presented) (presented.map Prod.fst) k

/-- A later version of the row. -/
structure VaultTransfer.Continues (later earlier : VaultTransfer A X S) : Prop where
  absorbing : earlier.status.Terminal → later.status = earlier.status
  kept : earlier.registeredSignatures ⊆ later.registeredSignatures

structure Lawful (s : State A X S) : Prop where
  authorised : (0 < s.accepted ∨ ∃ row ∈ s.transfer.current, row.status = .executed) →
    ∃ row ∈ s.transfer.current,
      Authorised sdk row.envelope.transaction row.requiredSignatures s.presented
  continues : ∀ version ∈ s.transfer.past, ∀ earlier ∈ version,
    ∃ row ∈ s.transfer.current, row.Continues earlier
  once : s.accepted ≤ 1

/-- The call is an execution that has passed its check and has not returned. -/
def Phase.Executing : Phase A X S → Bool
  | .submitting _ | .markingExecuted | .markingFailed => true
  | _ => false

/-- A signature that is over the submitted envelope, which is what a registration checks, is one
over the stored transaction. When an execution passes its check, no other is under way or has been,
with a submission that was accepted or a status that is terminal. Since a registration has read its
record, nobody has finished the transfer or registered. And a transfer is not marked executed by a
statement whose answer is lost. -/
def Proper (columns : Columns) (w : World A X S ι) (turn : ι × Input) : Prop :=
  match turn.2, w.locals turn.1 with
  | .read source, .registerSignature signer (some signed) =>
    columns.destinationPublicKey → ∀ row ∈ w.shared.transfer.read source,
      row.status.Terminal = false → signer ∉ row.registeredSignatures →
      HasSignature sdk signed.transaction signer signed.signatures →
      HasSignature sdk row.envelope.transaction signer signed.signatures
  | .read source, .executeTransfer => ∀ row ∈ w.shared.transfer.read source,
    row.requiredSignatures ≤ row.registeredSignatures.length →
      (∀ now ∈ w.shared.transfer.current, now.status.Terminal = false) ∧
        w.shared.accepted = 0 ∧ ∀ j, (w.locals j).Executing = false
  | .update answer, .registering found signer =>
    answer.executed → ∀ row ∈ w.shared.transfer.current,
      (found.status.Terminal = false → row.status.Terminal = false) ∧
        ∀ other ∈ row.registeredSignatures, other ∈ found.registeredSignatures ∨ other = signer
  | .update answer, .markingExecuted => answer ≠ .failed true
  | _, _ => True

instance [DecidableEq A] [Fintype ι] (columns : Columns) (w : World A X S ι) (turn : ι × Input) :
    Decidable (Proper sdk columns w turn) := by
  unfold Proper
  split <;> infer_instance

end Law

/-! ## Ballots -/

section Ballots

/-- All signers in the list of the record have signed its transaction. -/
structure VaultTransfer.Backed (sdk : Sdk A X D S) (envelope : Envelope X S)
    (presented : List (A × List S)) (row : VaultTransfer A X S) : Prop where
  envelope_eq : row.envelope = envelope
  required_eq : row.requiredSignatures = 2
  nodup : row.registeredSignatures.Nodup
  endorsed : ∀ signer ∈ row.registeredSignatures, Endorses sdk envelope.transaction presented signer

variable {sdk : Sdk A X D S} {envelope : Envelope X S} {presented more : List (A × List S)}
  {row : VaultTransfer A X S} {k : ℕ}

theorem Endorses.append {transaction : X} {signer : A}
    (h : Endorses sdk transaction presented signer) :
    Endorses sdk transaction (presented ++ more) signer := by
  obtain ⟨signatures, hmem, hsigned⟩ := h
  exact ⟨signatures, List.mem_append_left _ hmem, hsigned⟩

theorem Authorised.append {transaction : X} (h : Authorised sdk transaction k presented) :
    Authorised sdk transaction k (presented ++ more) := by
  refine h.imp ?_
  rintro signer hroster hendorses
  refine ⟨?_, hendorses.append⟩
  rw [List.map_append]
  exact List.mem_append_left _ hroster

theorem VaultTransfer.backed_generate :
    (VaultTransfer.generate envelope : VaultTransfer A X S).Backed sdk envelope presented :=
  ⟨rfl, rfl, List.nodup_nil, nofun⟩

theorem VaultTransfer.Backed.append (h : row.Backed sdk envelope presented) :
    row.Backed sdk envelope (presented ++ more) :=
  ⟨h.envelope_eq, h.required_eq, h.nodup, fun signer hsigner => (h.endorsed signer hsigner).append⟩

theorem VaultTransfer.Backed.authorised [DecidableEq A] (h : row.Backed sdk envelope presented)
    (enough : 2 ≤ row.registeredSignatures.length) :
    Authorised sdk envelope.transaction 2 presented := by
  have members : ∀ signer ∈ row.registeredSignatures, signer ∈ presented.map Prod.fst ∧
      Endorses sdk envelope.transaction presented signer := by
    intro signer hsigner
    obtain ⟨signatures, hmem, hsigned⟩ := h.endorsed signer hsigner
    exact ⟨List.mem_map_of_mem hmem, signatures, hmem, hsigned⟩
  apply Quorum.reached_of_ballot members
  rwa [List.toFinset_card_of_nodup h.nodup]

theorem VaultTransfer.Backed.push (h : row.Backed sdk envelope presented) {signer : A}
    (fresh : signer ∉ row.registeredSignatures)
    (endorses : Endorses sdk envelope.transaction presented signer) :
    (row.push signer).Backed sdk envelope presented where
  envelope_eq := h.envelope_eq
  required_eq := h.required_eq
  nodup := List.nodup_append.2 ⟨h.nodup, List.nodup_singleton _, by
    rintro a ha b hb rfl
    rw [List.mem_singleton.1 hb] at ha
    exact fresh ha⟩
  endorsed := by
    intro a ha
    rcases List.mem_append.1 ha with ha | ha
    · exact h.endorsed a ha
    · rw [List.mem_singleton.1 ha]
      exact endorses

theorem VaultTransfer.push_status (row : VaultTransfer A X S) (signer : A) :
    (row.push signer).status.Terminal = false := by
  unfold VaultTransfer.push
  grind

theorem VaultTransfer.Continues.refl (row : VaultTransfer A X S) : row.Continues row :=
  ⟨fun _ => rfl, fun _ h => h⟩

theorem VaultTransfer.Continues.trans {later between earlier : VaultTransfer A X S}
    (h : later.Continues between) (h' : between.Continues earlier) : later.Continues earlier where
  absorbing := by
    intro terminal
    have same := h'.absorbing terminal
    rw [h.absorbing (same ▸ terminal), same]
  kept := fun _ hsigner => h.kept (h'.kept hsigner)

/-- A record whose status is not terminal is continued by one with the same signers. -/
theorem VaultTransfer.continues_of_live {later earlier : VaultTransfer A X S}
    (live : earlier.status.Terminal = false)
    (kept : earlier.registeredSignatures ⊆ later.registeredSignatures) :
    later.Continues earlier := by
  refine ⟨fun terminal => ?_, kept⟩
  rw [live] at terminal
  cases terminal

end Ballots

/-! ## Turns -/

section Sound

variable {sdk : Sdk A X D S} {columns : Columns} {envelope : Envelope X S}

/-- The transfer, with the versions that a replica may still hold. -/
structure State.Sound (sdk : Sdk A X D S) (envelope : Envelope X S) (s : State A X S) : Prop where
  backed : s.transfer.All fun version =>
    ∀ row ∈ version, row.Backed sdk envelope s.presented
  executed : (0 < s.accepted ∨ ∃ row ∈ s.transfer.current, row.status = .executed) →
    s.transfer.current.isSome ∧ Authorised sdk envelope.transaction 2 s.presented
  continues : ∀ version ∈ s.transfer.past, ∀ earlier ∈ version,
    ∃ row ∈ s.transfer.current, row.Continues earlier

/-- What a call relies on. -/
def Phase.Sound (sdk : Sdk A X D S) (envelope : Envelope X S) (s : State A X S) :
    Phase A X S → Prop
  | .generateTransferEnvelope envelope' => envelope' = envelope
  | .registering found signer =>
    (found.push signer).Backed sdk envelope s.presented ∧ found.status.Terminal = false
  | .submitting _ | .markingExecuted | .markingFailed =>
    s.transfer.current.isSome ∧ Authorised sdk envelope.transaction 2 s.presented
  | _ => True

/-- Signatures are added, and a row that is there stays. -/
structure State.Extends (s' s : State A X S) : Prop where
  presented : ∃ more, s'.presented = s.presented ++ more
  stored : s.transfer.current.isSome → s'.transfer.current.isSome

theorem State.Extends.refl (s : State A X S) : s.Extends s :=
  ⟨⟨[], (List.append_nil _).symm⟩, fun h => h⟩

theorem Phase.Sound.extends {s s' : State A X S} {phase : Phase A X S}
    (h : phase.Sound sdk envelope s) (extends_ : s'.Extends s) : phase.Sound sdk envelope s' := by
  obtain ⟨⟨more, hmore⟩, stored⟩ := extends_
  cases phase with
  | registering =>
    rw [Phase.Sound, hmore]
    exact ⟨h.1.append, h.2⟩
  | submitting | markingExecuted | markingFailed =>
    rw [Phase.Sound, hmore]
    exact ⟨stored h.1, h.2.append⟩
  | generateTransferEnvelope => exact h
  | _ => trivial

theorem State.Sound.present {s : State A X S} (h : s.Sound sdk envelope) (signer : A)
    (signed : Option (Envelope X S)) : (s.present signer signed).Sound sdk envelope where
  backed := h.backed.mono fun _ hversion row hrow => (hversion row hrow).append
  executed := fun hexecuted => ⟨(h.executed hexecuted).1, (h.executed hexecuted).2.append⟩
  continues := h.continues

/-- A statement that goes on from the row it finds. -/
theorem State.Sound.execute {s : State A X S} (h : s.Sound sdk envelope)
    {statement : VaultTransfer A X S → VaultTransfer A X S} {answer : DbAnswer}
    (backed : ∀ row ∈ s.transfer.current, (statement row).Backed sdk envelope s.presented)
    (continues : answer.executed → ∀ row ∈ s.transfer.current, (statement row).Continues row)
    (executed : ∀ row ∈ s.transfer.current, (statement row).status = .executed →
      Authorised sdk envelope.transaction 2 s.presented) :
    (s.execute statement answer).Sound sdk envelope := by
  unfold State.execute
  cases hcurrent : s.transfer.current with
  | none => exact h
  | some row =>
    dsimp only
    split_ifs with hexecuted
    · constructor
      case backed =>
        refine h.backed.write ?_
        rintro _ ⟨⟩
        exact backed row hcurrent
      case executed =>
        rintro (haccepted | ⟨_, ⟨⟩, hstatus⟩)
        · exact ⟨rfl, (h.executed (.inl haccepted)).2⟩
        · exact ⟨rfl, executed row hcurrent hstatus⟩
      case continues =>
        have next := continues hexecuted row hcurrent
        intro version hversion earlier hearlier
        refine ⟨statement row, rfl, ?_⟩
        rcases List.mem_cons.1 hversion with rfl | hpast
        · obtain rfl : row = earlier := by simpa [hcurrent] using hearlier
          exact next
        · obtain ⟨now, hnow, hcontinues⟩ := h.continues version hpast earlier hearlier
          obtain rfl : row = now := by simpa [hcurrent] using hnow
          exact next.trans hcontinues
    · exact h

theorem State.Sound.store {s : State A X S} (h : s.Sound sdk envelope) (answer : DbAnswer) :
    (s.store (.generate envelope) answer).Sound sdk envelope := by
  unfold State.store
  split_ifs with hstored
  · have absent : s.transfer.current = none := by simpa using hstored.2
    constructor
    case backed =>
      refine h.backed.write ?_
      rintro _ ⟨⟩
      exact VaultTransfer.backed_generate
    case executed =>
      rintro (haccepted | ⟨_, ⟨⟩, hstatus⟩)
      · exact ⟨rfl, (h.executed (.inl haccepted)).2⟩
      · cases hstatus
    case continues =>
      intro version hversion earlier hearlier
      rcases List.mem_cons.1 hversion with rfl | hpast
      · rw [absent] at hearlier
        cases hearlier
      · obtain ⟨now, hnow, -⟩ := h.continues version hpast earlier hearlier
        rw [absent] at hnow
        cases hnow
  · exact h

theorem State.extends_store (s : State A X S) (row : VaultTransfer A X S) (answer : DbAnswer) :
    (s.store row answer).Extends s := by
  unfold State.store
  split_ifs
  · exact ⟨⟨[], (List.append_nil _).symm⟩, fun _ => rfl⟩
  · exact .refl s

theorem State.extends_execute (s : State A X S)
    (statement : VaultTransfer A X S → VaultTransfer A X S) (answer : DbAnswer) :
    (s.execute statement answer).Extends s := by
  unfold State.execute
  cases s.transfer.current with
  | none => exact .refl s
  | some row =>
    dsimp only
    split_ifs
    · exact ⟨⟨[], (List.append_nil _).symm⟩, fun _ => rfl⟩
    · exact .refl s

/-- What a read has found is there still, in a later version. -/
theorem stored_of_read {s : State A X S} (h : s.Sound sdk envelope) {source : Replicated.Source}
    {row : VaultTransfer A X S} (hread : s.transfer.read source = some row) :
    s.transfer.current.isSome := by
  have versions := s.transfer.read_mem_versions source
  rw [hread] at versions
  rcases List.mem_cons.1 versions with hnow | hpast
  · rw [← hnow]
    rfl
  · obtain ⟨now, hnow, -⟩ := h.continues _ hpast row rfl
    rw [Option.mem_def.1 hnow]
    rfl

variable [DecidableEq A]

theorem registerSignature_eq_ok {row : VaultTransfer A X S} {signer : A}
    {signed : Option (Envelope X S)} (h : registerSignature sdk row signer signed = .ok ()) :
    ∃ envelope, signed = some envelope ∧ row.status.Terminal = false ∧
      signer ∉ row.registeredSignatures ∧
      HasSignature sdk envelope.transaction signer envelope.signatures := by
  unfold registerSignature at h
  split_ifs at h with hterminal hmem
  cases signed with
  | none => cases h
  | some envelope =>
    simp only at h
    split_ifs at h with hsigned
    exact ⟨envelope, rfl, by simpa using hterminal, hmem, hsigned⟩

variable {w : World A X S ι} {i : ι}

/-- A read leaves the transfer alone. -/
theorem read_sound {source : Replicated.Source} (h : w.shared.Sound sdk envelope)
    (hphase : (w.locals i).Sound sdk envelope w.shared)
    (proper : Proper sdk columns w (i, .read source)) :
    (read sdk columns source w.shared (w.locals i)).1.Sound sdk envelope ∧
      (read sdk columns source w.shared (w.locals i)).2.Sound sdk envelope
        (read sdk columns source w.shared (w.locals i)).1 ∧
      (read sdk columns source w.shared (w.locals i)).1.Extends w.shared := by
  have unchanged := State.Extends.refl w.shared
  have seen := h.backed.read source
  cases hlocal : w.locals i with
  | registerSignature signer signed =>
    simp only [read]
    split_ifs with hcolumn
    · cases hread : w.shared.transfer.read source with
      | none => exact ⟨h, trivial, unchanged⟩
      | some row =>
        dsimp only
        cases hcheck : registerSignature sdk row signer signed with
        | error error => exact ⟨h, trivial, unchanged⟩
        | ok checked =>
          obtain ⟨presents, rfl, live, fresh, signs⟩ := registerSignature_eq_ok hcheck
          have extends_ : (w.shared.present signer (some presents)).Extends w.shared :=
            ⟨⟨_, rfl⟩, fun hstored => hstored⟩
          refine ⟨h.present signer _, ⟨?_, live⟩, extends_⟩
          rw [hread] at seen
          have backed := seen row rfl
          simp only [Proper, hlocal] at proper
          have signed := proper hcolumn row hread live fresh signs
          rw [backed.envelope_eq] at signed
          refine backed.append.push fresh ⟨presents.signatures, ?_, signed⟩
          simp
    · exact ⟨h, trivial, unchanged⟩
  | executeTransfer =>
    simp only [read]
    cases hread : w.shared.transfer.read source with
    | none => exact ⟨h, trivial, unchanged⟩
    | some row =>
      dsimp only
      cases hcheck : executeTransfer row with
      | error error => exact ⟨h, trivial, unchanged⟩
      | ok stored =>
        rw [hread] at seen
        have backed := seen row rfl
        simp only [executeTransfer, backed.required_eq] at hcheck
        split_ifs at hcheck with few
        exact ⟨h, ⟨stored_of_read h hread, backed.authorised (Nat.le_of_not_lt few)⟩, unchanged⟩
  | _ =>
    rw [hlocal] at hphase
    exact ⟨h, hphase, unchanged⟩

omit [DecidableEq A] in
/-- An execution that is under way finds the transfer neither executed nor failed. -/
theorem update_sound {answer : DbAnswer} (h : w.shared.Sound sdk envelope)
    (hphase : (w.locals i).Sound sdk envelope w.shared)
    (live : (w.locals i).Executing = true → ∀ row ∈ w.shared.transfer.current,
      row.status.Terminal = false)
    (proper : Proper sdk columns w (i, .update answer)) :
    (update columns answer w.shared (w.locals i)).1.Sound sdk envelope ∧
      (update columns answer w.shared (w.locals i)).2.Sound sdk envelope
        (update columns answer w.shared (w.locals i)).1 ∧
      (update columns answer w.shared (w.locals i)).1.Extends w.shared := by
  have now := h.backed.1
  cases hlocal : w.locals i with
  | generateTransferEnvelope envelope' =>
    rw [hlocal] at hphase
    obtain rfl : envelope' = envelope := hphase
    simp only [update]
    split_ifs
    · exact ⟨h.store answer, trivial, State.extends_store ..⟩
    · exact ⟨h.store answer, trivial, State.extends_store ..⟩
    · exact ⟨h, trivial, .refl _⟩
  | registering found signer =>
    rw [hlocal] at hphase
    obtain ⟨backed, open_⟩ := hphase
    simp only [Proper, hlocal] at proper
    simp only [update, Phase.statement, Phase.next]
    refine ⟨h.execute ?_ ?_ ?_, ?_, State.extends_execute ..⟩
    · exact fun row hrow =>
        ⟨(now row hrow).envelope_eq, (now row hrow).required_eq, backed.nodup, backed.endorsed⟩
    · intro hexecuted row hrow
      obtain ⟨still, seen⟩ := proper hexecuted row hrow
      apply VaultTransfer.continues_of_live (still open_)
      intro other hother
      rcases seen other hother with hfound | rfl
      · exact List.mem_append_left _ hfound
      · exact List.mem_append_right _ (List.mem_singleton_self _)
    · intro row hrow hstatus
      have terminal := VaultTransfer.push_status found signer
      rw [show (found.push signer).status = .executed from hstatus] at terminal
      cases terminal
    · split_ifs <;> trivial
  | markingExecuted | markingFailed =>
    rw [hlocal] at hphase live
    have extends_ := State.extends_execute w.shared
    simp only [update, Phase.statement, Phase.next]
    refine ⟨h.execute ?_ ?_ ?_, ?_, extends_ _ answer⟩
    · exact fun row hrow => ⟨(now row hrow).envelope_eq, (now row hrow).required_eq,
        (now row hrow).nodup, (now row hrow).endorsed⟩
    · exact fun _ row hrow => VaultTransfer.continues_of_live (live rfl row hrow) fun _ hs => hs
    · exact fun _ _ _ => hphase.2
    · first
        | trivial
        | split_ifs
          · trivial
          · have failing : Phase.Sound sdk envelope w.shared .markingFailed := hphase
            exact failing.extends (extends_ _ answer)
  | _ =>
    rw [hlocal] at hphase
    exact ⟨h, hphase, .refl _⟩

omit [DecidableEq A] in
theorem submit_sound {answer : DbAnswer} (h : w.shared.Sound sdk envelope)
    (hphase : (w.locals i).Sound sdk envelope w.shared) :
    (submit answer w.shared (w.locals i)).1.Sound sdk envelope ∧
      (submit answer w.shared (w.locals i)).2.Sound sdk envelope
        (submit answer w.shared (w.locals i)).1 ∧
      (submit answer w.shared (w.locals i)).1.Extends w.shared := by
  cases hlocal : w.locals i with
  | submitting stored =>
    rw [hlocal] at hphase
    simp only [submit]
    refine ⟨?_, ?_, ?_⟩
    · split_ifs
      · exact ⟨h.backed, fun _ => hphase, h.continues⟩
      · exact h
    · split_ifs <;> exact hphase
    · split_ifs <;> exact ⟨⟨[], (List.append_nil _).symm⟩, fun hstored => hstored⟩
  | _ =>
    rw [hlocal] at hphase
    exact ⟨h, hphase, .refl _⟩

/-! ## One execution -/

/-- At most one execution is under way. It finds the transfer open, and the network has not
accepted the transfer before its submission. -/
structure Single (w : World A X S ι) : Prop where
  sole : ∀ i j, (w.locals i).Executing = true → (w.locals j).Executing = true → i = j
  live : ∀ i, (w.locals i).Executing = true → ∀ row ∈ w.shared.transfer.current,
    row.status.Terminal = false
  first : ∀ i stored, w.locals i = .submitting stored → w.shared.accepted = 0
  once : w.shared.accepted ≤ 1

omit [DecidableEq A] in
theorem execute_live {s : State A X S} {statement : VaultTransfer A X S → VaultTransfer A X S}
    {answer : DbAnswer} (h : ∀ row ∈ s.transfer.current, row.status.Terminal = false)
    (keeps : answer.executed → ∀ row ∈ s.transfer.current,
      (statement row).status.Terminal = false) :
    ∀ row ∈ (s.execute statement answer).transfer.current, row.status.Terminal = false := by
  unfold State.execute
  cases hcurrent : s.transfer.current with
  | none =>
    rw [hcurrent] at h
    rw [hcurrent]
    exact h
  | some row =>
    dsimp only
    split_ifs with hexecuted
    · rintro _ ⟨⟩
      exact keeps hexecuted row hcurrent
    · rw [hcurrent] at h
      rw [hcurrent]
      exact h

omit [DecidableEq A] in
theorem store_live {s : State A X S} {envelope' : Envelope X S} {answer : DbAnswer}
    (h : ∀ row ∈ s.transfer.current, row.status.Terminal = false) :
    ∀ row ∈ (s.store (.generate envelope') answer).transfer.current,
      row.status.Terminal = false := by
  unfold State.store
  split_ifs
  · rintro _ ⟨⟩
    rfl
  · exact h

omit [DecidableEq A] in
theorem execute_accepted (s : State A X S)
    (statement : VaultTransfer A X S → VaultTransfer A X S) (answer : DbAnswer) :
    (s.execute statement answer).accepted = s.accepted := by
  unfold State.execute
  cases s.transfer.current with
  | none => rfl
  | some row =>
    dsimp only
    split_ifs <;> rfl

omit [DecidableEq A] in
theorem store_unsigned (incomplete : ¬ columns.Complete) (hcolumn : columns.destinationPublickey)
    {s : State A X S} {envelope' : Envelope X S} {answer : DbAnswer}
    (h : s.transfer.All fun version => ∀ row ∈ version,
      columns.destinationPublicKey = false ∧ row.registeredSignatures = [] ∧
        row.requiredSignatures = 2) :
    (s.store (.generate envelope') answer).transfer.All fun version => ∀ row ∈ version,
      columns.destinationPublicKey = false ∧ row.registeredSignatures = [] ∧
        row.requiredSignatures = 2 := by
  unfold State.store
  split_ifs
  · refine h.write ?_
    rintro _ ⟨⟩
    exact ⟨Bool.eq_false_iff.2 fun hkey => incomplete ⟨hcolumn, hkey⟩, rfl, rfl⟩
  · exact h

variable (sdk columns) in
theorem read_quiet (source : Replicated.Source) (s : State A X S) (phase : Phase A X S) :
    (read sdk columns source s phase).1.transfer = s.transfer ∧
      (read sdk columns source s phase).1.accepted = s.accepted := by
  cases phase with
  | registerSignature signer signed =>
    simp only [read]
    split_ifs
    · cases s.transfer.read source with
      | none => exact ⟨rfl, rfl⟩
      | some row =>
        dsimp only
        cases registerSignature sdk row signer signed <;> exact ⟨rfl, rfl⟩
    · exact ⟨rfl, rfl⟩
  | executeTransfer =>
    simp only [read]
    cases s.transfer.read source with
    | none => exact ⟨rfl, rfl⟩
    | some row =>
      dsimp only
      cases executeTransfer row <;> exact ⟨rfl, rfl⟩
  | _ => exact ⟨rfl, rfl⟩

variable (sdk columns) in
/-- A registration is no execution. -/
theorem registerSignature_idle (source : Replicated.Source) (s : State A X S) (signer : A)
    (signed : Option (Envelope X S)) :
    (read sdk columns source s (.registerSignature signer signed)).2.Executing = false := by
  simp only [read]
  split_ifs
  · cases s.transfer.read source with
    | none => rfl
    | some row =>
      dsimp only
      cases registerSignature sdk row signer signed <;> rfl
  · rfl

/-- An execution that goes on has found enough signers. -/
theorem enough_of_executing {source : Replicated.Source} {s : State A X S}
    (begins : (read sdk columns source s .executeTransfer).2.Executing = true) :
    ∃ row, s.transfer.read source = some row ∧
      row.requiredSignatures ≤ row.registeredSignatures.length := by
  simp only [read] at begins
  cases hread : s.transfer.read source with
  | none =>
    rw [hread] at begins
    cases begins
  | some row =>
    refine ⟨row, rfl, ?_⟩
    rw [hread] at begins
    by_contra few
    simp [executeTransfer, Nat.lt_of_not_le few, Phase.Executing] at begins

variable [DecidableEq ι]

/-- A turn of a call that is no execution, before and after it. -/
theorem Single.idle (h : Single w) {input : Input}
    (idle : (step sdk columns input w.shared (w.locals i)).2.Executing = false)
    (live : (∀ row ∈ w.shared.transfer.current, row.status.Terminal = false) →
      (∃ j, j ≠ i ∧ (w.locals j).Executing = true) →
      ∀ row ∈ (step sdk columns input w.shared (w.locals i)).1.transfer.current,
        row.status.Terminal = false)
    (accepted : (step sdk columns input w.shared (w.locals i)).1.accepted = w.shared.accepted) :
    Single (advance (step sdk columns) w (i, input)) := by
  have others : ∀ j, ((advance (step sdk columns) w (i, input)).locals j).Executing = true →
      j ≠ i ∧ (w.locals j).Executing = true ∧
        (advance (step sdk columns) w (i, input)).locals j = w.locals j := by
    intro j hj
    by_cases hne : j = i
    · rw [hne, advance_self, idle] at hj
      cases hj
    · have hsame := advance_other (step sdk columns) w input hne
      rw [hsame] at hj
      exact ⟨hne, hj, hsame⟩
  constructor
  · intro j k hj hk
    exact h.sole j k (others j hj).2.1 (others k hk).2.1
  · intro j hj
    obtain ⟨hne, hbefore, -⟩ := others j hj
    exact live (h.live j hbefore) ⟨j, hne, hbefore⟩
  · intro j stored hj
    obtain ⟨-, -, hsame⟩ := others j (by rw [hj]; rfl)
    rw [hsame] at hj
    exact accepted.trans (h.first j stored hj)
  · exact accepted.trans_le h.once

/-- A turn of the execution that is under way, or of the one that begins. -/
theorem Single.mine {input : Input}
    (alone : ∀ j, j ≠ i → (w.locals j).Executing = false)
    (live : (step sdk columns input w.shared (w.locals i)).2.Executing = true →
      ∀ row ∈ (step sdk columns input w.shared (w.locals i)).1.transfer.current,
        row.status.Terminal = false)
    (first : ∀ stored, (step sdk columns input w.shared (w.locals i)).2 = .submitting stored →
      (step sdk columns input w.shared (w.locals i)).1.accepted = 0)
    (once : (step sdk columns input w.shared (w.locals i)).1.accepted ≤ 1) :
    Single (advance (step sdk columns) w (i, input)) := by
  have only : ∀ j, ((advance (step sdk columns) w (i, input)).locals j).Executing = true →
      j = i := by
    intro j hj
    by_contra hne
    rw [advance_other (step sdk columns) w input hne, alone j hne] at hj
    cases hj
  constructor
  · intro j k hj hk
    rw [only j hj, only k hk]
  · intro j hj
    obtain rfl := only j hj
    rw [advance_self] at hj
    exact live hj
  · intro j stored hj
    obtain rfl := only j (by rw [hj]; rfl)
    rw [advance_self] at hj
    exact first stored hj
  · exact once

/-- A call that has nothing to do in a turn leaves all as it is. -/
theorem advance_of_rest {input : Input}
    (rest : step sdk columns input w.shared (w.locals i) = (w.shared, w.locals i)) :
    advance (step sdk columns) w (i, input) = w := by
  simp only [advance, rest, Function.update_eq_self]

theorem single_read {source : Replicated.Source} (h : Single w)
    (proper : Proper sdk columns w (i, .read source)) :
    Single (advance (step sdk columns) w (i, .read source)) := by
  obtain ⟨transfer, accepted⟩ := read_quiet sdk columns source w.shared (w.locals i)
  cases hlocal : w.locals i with
  | registerSignature signer signed =>
    refine h.idle ?_ (fun live _ => ?_) accepted
    · rw [hlocal]
      exact registerSignature_idle sdk columns source w.shared signer signed
    · rw [step, transfer]
      exact live
  | executeTransfer =>
    by_cases begins : (read sdk columns source w.shared (w.locals i)).2.Executing = true
    · obtain ⟨row, hread, enough⟩ := enough_of_executing (hlocal ▸ begins)
      simp only [Proper, hlocal] at proper
      obtain ⟨live, unaccepted, alone⟩ := proper row hread enough
      refine Single.mine (fun j _ => alone j) (fun _ => ?_) (fun _ _ => ?_) ?_
      · rw [step, transfer]
        exact live
      · exact accepted.trans unaccepted
      · exact accepted.trans_le h.once
    · refine h.idle (Bool.eq_false_iff.2 begins) (fun live _ => ?_) accepted
      rw [step, transfer]
      exact live
  | _ =>
    rw [advance_of_rest]
    · exact h
    · rw [hlocal]
      rfl

omit [DecidableEq A] [DecidableEq ι] in
theorem Single.others_quiet (h : Single w) (busy : (w.locals i).Executing = true) (j : ι)
    (hne : j ≠ i) : (w.locals j).Executing = false :=
  Bool.eq_false_iff.2 fun hj => hne (h.sole j i hj busy)

theorem single_update {answer : DbAnswer} (h : Single w)
    (proper : Proper sdk columns w (i, .update answer)) :
    Single (advance (step sdk columns) w (i, .update answer)) := by
  cases hlocal : w.locals i with
  | generateTransferEnvelope envelope' =>
    refine h.idle ?_ (fun live _ => ?_) ?_
    · rw [hlocal]
      simp only [step, update]
      split_ifs <;> rfl
    · rw [hlocal]
      simp only [step, update]
      split_ifs
      · exact store_live live
      · exact store_live live
      · exact live
    · rw [hlocal]
      simp only [step, update, State.store]
      split_ifs <;> rfl
  | registering found signer =>
    refine h.idle ?_ (fun live _ => ?_) ?_
    · rw [hlocal]
      simp only [step, update, Phase.statement, Phase.next]
      split_ifs <;> rfl
    · rw [hlocal]
      exact execute_live live fun _ _ _ => VaultTransfer.push_status found signer
    · rw [hlocal]
      exact execute_accepted ..
  | markingExecuted =>
    have busy : (w.locals i).Executing = true := by rw [hlocal]; rfl
    simp only [Proper, hlocal] at proper
    refine Single.mine (h.others_quiet busy) (fun again => ?_) (fun _ hsubmitting => ?_) ?_
    · rw [hlocal] at again ⊢
      refine execute_live (h.live i busy) fun hexecuted => ?_
      cases answer with
      | answered => cases again
      | failed executed =>
        obtain rfl : executed = true := hexecuted
        exact absurd rfl proper
    · rw [hlocal] at hsubmitting
      simp only [step, update, Phase.statement, Phase.next] at hsubmitting
      split_ifs at hsubmitting
    · rw [hlocal]
      exact (execute_accepted ..).trans_le h.once
  | markingFailed =>
    have busy : (w.locals i).Executing = true := by rw [hlocal]; rfl
    refine Single.mine (h.others_quiet busy) (fun again => ?_) (fun _ hsubmitting => ?_) ?_
    · rw [hlocal] at again
      cases again
    · rw [hlocal] at hsubmitting
      cases hsubmitting
    · rw [hlocal]
      exact (execute_accepted ..).trans_le h.once
  | _ =>
    rw [advance_of_rest]
    · exact h
    · rw [hlocal]
      rfl

theorem single_submit {answer : DbAnswer} (h : Single w) :
    Single (advance (step sdk columns) w (i, .submit answer)) := by
  cases hlocal : w.locals i with
  | submitting stored =>
    have busy : (w.locals i).Executing = true := by rw [hlocal]; rfl
    have unaccepted := h.first i stored hlocal
    refine Single.mine (h.others_quiet busy) (fun _ => ?_) (fun _ hsubmitting => ?_) ?_
    · have live := h.live i busy
      rw [hlocal]
      simp only [step, submit]
      split_ifs <;> exact live
    · rw [hlocal] at hsubmitting
      simp only [step, submit] at hsubmitting
      split_ifs at hsubmitting
    · rw [hlocal]
      simp only [step, submit]
      split_ifs
      · simp [unaccepted]
      · exact h.once
  | _ =>
    rw [advance_of_rest]
    · exact h
    · rw [hlocal]
      rfl

theorem single_advance {turn : ι × Input} (h : Single w) (proper : Proper sdk columns w turn) :
    Single (advance (step sdk columns) w turn) := by
  obtain ⟨i, input⟩ := turn
  cases input with
  | read source => exact single_read h proper
  | update answer => exact single_update h proper
  | submit answer => exact single_submit h
  | crash => exact h.idle rfl (fun live _ => live) rfl

omit [DecidableEq ι] in
theorem step_sound {turn : ι × Input} (h : w.shared.Sound sdk envelope)
    (hphase : (w.locals turn.1).Sound sdk envelope w.shared) (single : Single w)
    (proper : Proper sdk columns w turn) :
    (step sdk columns turn.2 w.shared (w.locals turn.1)).1.Sound sdk envelope ∧
      (step sdk columns turn.2 w.shared (w.locals turn.1)).2.Sound sdk envelope
        (step sdk columns turn.2 w.shared (w.locals turn.1)).1 ∧
      (step sdk columns turn.2 w.shared (w.locals turn.1)).1.Extends w.shared := by
  obtain ⟨i, input⟩ := turn
  cases input with
  | read source => exact read_sound h hphase proper
  | update answer => exact update_sound h hphase (single.live i) proper
  | submit answer => exact submit_sound h hphase
  | crash => exact ⟨h, trivial, .refl _⟩

end Sound

/-! ## Runs -/

section Runs

variable {sdk : Sdk A X D S} {columns : Columns} {envelope : Envelope X S}

/-- All that a run of proper turns keeps. -/
structure World.Sound (sdk : Sdk A X D S) (envelope : Envelope X S) (w : World A X S ι) :
    Prop where
  holds : Holds (State.Sound sdk envelope) (Phase.Sound sdk envelope) w
  single : Single w

theorem World.Sound.lawful {w : World A X S ι} (h : World.Sound sdk envelope w) :
    Lawful sdk w.shared where
  authorised := by
    intro hexecuted
    obtain ⟨stored, authorised⟩ := h.holds.1.executed hexecuted
    obtain ⟨row, hrow⟩ := Option.isSome_iff_exists.1 stored
    have backed := h.holds.1.backed.1 row hrow
    refine ⟨row, hrow, ?_⟩
    rw [backed.envelope_eq, backed.required_eq]
    exact authorised
  continues := h.holds.1.continues
  once := h.single.once

theorem World.Initial.sound {w : World A X S ι} (h : w.Initial envelope) :
    World.Sound sdk envelope w := by
  have quiet : ∀ i, (w.locals i).Executing = false := by
    intro i
    have fresh := h.fresh i
    revert fresh
    cases w.locals i <;> simp [Phase.Fresh, Phase.Executing]
  refine ⟨⟨?_, ?_⟩, ?_⟩
  · rw [h.shared]
    exact
      { backed := ⟨nofun, nofun⟩
        executed := by simp
        continues := nofun }
  · intro i
    have fresh := h.fresh i
    revert fresh
    cases w.locals i <;> simp [Phase.Fresh, Phase.Sound]
  · constructor
    · intro i j hi
      rw [quiet i] at hi
      cases hi
    · intro i hi
      rw [quiet i] at hi
      cases hi
    · intro i stored hi
      have idle := quiet i
      rw [hi] at idle
      cases idle
    · rw [h.shared]
      exact Nat.zero_le 1

/-- On a table that lacks a column, a row that can be stored cannot be signed. -/
structure World.Barren (columns : Columns) (w : World A X S ι) : Prop where
  unsigned : w.shared.transfer.All fun version => ∀ row ∈ version,
    columns.destinationPublicKey = false ∧ row.registeredSignatures = [] ∧
      row.requiredSignatures = 2
  idle : ∀ i, (w.locals i).Executing = false ∧ (w.locals i).statement = none

theorem World.Initial.barren {w : World A X S ι} (h : w.Initial envelope) :
    World.Barren columns w := by
  constructor
  · rw [h.shared]
    exact ⟨nofun, nofun⟩
  · intro i
    have fresh := h.fresh i
    revert fresh
    cases w.locals i <;> simp [Phase.Fresh, Phase.Executing, Phase.statement]

variable [DecidableEq A] [DecidableEq ι]

theorem barren_advance (incomplete : ¬ columns.Complete) (w : World A X S ι) (turn : ι × Input)
    (h : World.Barren columns w) : World.Barren columns (advance (step sdk columns) w turn) := by
  obtain ⟨i, input⟩ := turn
  suffices own : (step sdk columns input w.shared (w.locals i)).1.transfer.All (fun version =>
        ∀ row ∈ version, columns.destinationPublicKey = false ∧ row.registeredSignatures = [] ∧
          row.requiredSignatures = 2) ∧
      ((step sdk columns input w.shared (w.locals i)).2.Executing = false ∧
        (step sdk columns input w.shared (w.locals i)).2.statement = none) from
    ⟨own.1, locals_advance (step sdk columns)
      (fun phase => phase.Executing = false ∧ phase.statement = none) own.2 fun j _ => h.idle j⟩
  have own := h.idle i
  cases input with
  | read source =>
    have seen := h.unsigned.read source
    cases hlocal : w.locals i with
    | registerSignature signer signed =>
      simp only [step, read]
      split_ifs with hcolumn
      · cases hread : w.shared.transfer.read source with
        | none => exact ⟨h.unsigned, rfl, rfl⟩
        | some row =>
          have lacks := (seen row hread).1
          rw [hcolumn] at lacks
          cases lacks
      · exact ⟨h.unsigned, rfl, rfl⟩
    | executeTransfer =>
      simp only [step, read]
      cases hread : w.shared.transfer.read source with
      | none => exact ⟨h.unsigned, rfl, rfl⟩
      | some row =>
        obtain ⟨-, unsigned, required⟩ := seen row hread
        simp only [executeTransfer, unsigned, required, List.length_nil, Nat.zero_lt_two, if_true]
        exact ⟨h.unsigned, rfl, rfl⟩
    | _ =>
      rw [hlocal] at own
      exact ⟨h.unsigned, own⟩
  | update answer =>
    cases hlocal : w.locals i with
    | generateTransferEnvelope envelope' =>
      simp only [step, update]
      split_ifs with hcolumn hanswer
      · exact ⟨store_unsigned incomplete hcolumn h.unsigned, rfl, rfl⟩
      · exact ⟨store_unsigned incomplete hcolumn h.unsigned, rfl, rfl⟩
      · exact ⟨h.unsigned, rfl, rfl⟩
    | registering | markingExecuted | markingFailed =>
      rw [hlocal] at own
      cases own.2
    | _ =>
      rw [hlocal] at own
      exact ⟨h.unsigned, own⟩
  | submit answer =>
    cases hlocal : w.locals i with
    | submitting stored =>
      rw [hlocal] at own
      cases own.1
    | _ =>
      rw [hlocal] at own
      exact ⟨h.unsigned, own⟩
  | crash => exact ⟨h.unsigned, rfl, rfl⟩

omit [DecidableEq A] [DecidableEq ι] in
/-- No signature is registered there and nothing is executed. -/
theorem proper_of_barren (w : World A X S ι) (turn : ι × Input) (h : World.Barren columns w) :
    Proper sdk columns w turn := by
  obtain ⟨i, input⟩ := turn
  have idle := h.idle i
  cases input with
  | read source =>
    have seen := h.unsigned.read source
    cases hlocal : w.locals i with
    | registerSignature signer signed =>
      cases signed with
      | none => simp [Proper, hlocal]
      | some signed =>
        simp only [Proper, hlocal]
        intro hcolumn row hrow
        rw [(seen row hrow).1] at hcolumn
        cases hcolumn
    | executeTransfer =>
      simp only [Proper, hlocal]
      intro row hrow enough
      obtain ⟨-, unsigned, required⟩ := seen row hrow
      rw [unsigned, required] at enough
      cases enough
    | _ => simp [Proper, hlocal]
  | update answer =>
    cases hlocal : w.locals i with
    | registering | markingExecuted =>
      rw [hlocal] at idle
      cases idle.2
    | _ => simp [Proper, hlocal]
  | submit answer => simp [Proper]
  | crash => simp [Proper]

/-- On a table that lacks a column, and in a run all whose turns are proper, only a transfer that
enough distinct signers have signed is executed, no registered signer is lost, a terminal status
stays, and the network accepts at most one submission. -/
theorem transfers_lawful {w : World A X S ι} (initial : w.Initial envelope)
    {schedule : List (ι × Input)}
    (proper : columns.Complete →
      Runs.Every (advance (step sdk columns)) (Proper sdk columns) w schedule)
    {pre : List (ι × Input)} (h : pre <+: schedule) :
    Lawful sdk (run (step sdk columns) w pre).shared := by
  have every : Runs.Every (advance (step sdk columns)) (Proper sdk columns) w schedule := by
    by_cases complete : columns.Complete
    · exact proper complete
    · exact Runs.Every.of_inv (World.Barren columns) (barren_advance complete) proper_of_barren
        initial.barren schedule
  refine World.Sound.lawful (?_ : World.Sound sdk envelope _)
  apply inv_run_of_every _ _ initial.sound (every.of_prefix h)
  intro w turn hw hturn
  obtain ⟨kept, own, extends_⟩ := step_sound hw.holds.1 (hw.holds.2 turn.1) hw.single hturn
  exact ⟨holds_advance hw.holds ⟨kept, own⟩ fun _ hphase => hphase.extends extends_,
    single_advance hw.single hturn⟩

/-- A transaction is its own hash, and a signature says who has signed what. -/
def plainSdk : Sdk ℕ ℕ ℕ (ℕ × ℕ) where
  hash := id
  verify signer digest signature := signature = (signer, digest)

/-- The only table on which all statements find their columns. -/
def bothColumns : Columns := ⟨true, true⟩

/-- One call stores transaction 5, two signers submit a transaction with their signatures, and two
executions follow. -/
def start (transaction : ℕ) : World ℕ ℕ (ℕ × ℕ) (Fin 5) where
  shared := ⟨⟨none, []⟩, [], 0⟩
  locals := ![.generateTransferEnvelope ⟨5, []⟩,
    .registerSignature 1 (some ⟨transaction, [(1, transaction)]⟩),
    .registerSignature 2 (some ⟨transaction, [(2, transaction)]⟩),
    .executeTransfer, .executeTransfer]

theorem start_initial (transaction : ℕ) : (start transaction).Initial ⟨5, []⟩ where
  shared := rfl
  fresh i := by fin_cases i <;> trivial

def registrations : List (Fin 5 × Input) :=
  [(0, .update .answered), (1, .read .primary), (1, .update .answered),
    (2, .read .primary), (2, .update .answered)]

def execution : List (Fin 5 × Input) :=
  [(3, .read .primary), (3, .submit .answered), (3, .update .answered)]

theorem signed_transfer_lawful :
    let final := (run (step plainSdk bothColumns) (start 5) (registrations ++ execution)).shared
    (∃ row ∈ final.transfer.current, row.status = .executed) ∧ Lawful plainSdk final :=
  ⟨by decide +kernel,
    transfers_lawful (start_initial 5) (fun _ => by decide +kernel) List.prefix_rfl⟩

/-- Both sign another transaction, and the stored one is executed. A second execution, which the
network refuses, marks an executed transfer failed. Of two registrations side by side, one is
lost. -/
theorem foreign_signatures_execute :
    (∀ transaction, (start transaction).Initial ⟨5, []⟩) ∧
    ¬ Lawful plainSdk
      (run (step plainSdk bothColumns) (start 7) (registrations ++ execution)).shared ∧
    ¬ Lawful plainSdk (run (step plainSdk bothColumns) (start 5) (registrations ++ execution ++
      [(4, Input.read .primary), (4, Input.submit (.failed false)),
        (4, Input.update .answered)])).shared ∧
    ¬ Lawful plainSdk (run (step plainSdk bothColumns) (start 5)
      [(0, .update .answered), (1, .read .primary), (2, .read .primary), (1, .update .answered),
        (2, .update .answered)]).shared := by
  refine ⟨start_initial, ?_, ?_, ?_⟩
  · intro hlawful
    obtain ⟨row, hrow, signed⟩ := hlawful.authorised (Or.inl (by decide +kernel))
    have stored : ∀ row ∈ (run (step plainSdk bothColumns) (start 7)
        (registrations ++ execution)).shared.transfer.current,
        row.envelope.transaction = 5 ∧ row.requiredSignatures = 2 := by
      decide +kernel
    rw [(stored row hrow).1, (stored row hrow).2] at signed
    have forOther : ∀ ballot ∈ (run (step plainSdk bothColumns) (start 7)
        (registrations ++ execution)).shared.presented,
        HasSignature plainSdk 5 ballot.1 ballot.2 = false := by
      decide +kernel
    have few : 2 ≤ ([] : List ℕ).toFinset.card := by
      refine signed.le_card ?_
      rintro signer ⟨signatures, hmem, hsigned⟩
      exact absurd hsigned (Bool.eq_false_iff.1 (forOther _ hmem))
    simp at few
  · intro hlawful
    obtain ⟨version, hversion, reopened⟩ : ∃ version ∈ (run (step plainSdk bothColumns) (start 5)
        (registrations ++ execution ++ [(4, .read .primary), (4, .submit (.failed false)),
          (4, .update .answered)])).shared.transfer.past, ∃ earlier ∈ version,
        earlier.status = .executed ∧ ∀ row ∈ (run (step plainSdk bothColumns) (start 5)
          (registrations ++ execution ++ [(4, .read .primary), (4, .submit (.failed false)),
            (4, .update .answered)])).shared.transfer.current, row.status = .failed := by
      decide +kernel
    obtain ⟨earlier, hearlier, hexecuted, hfailed⟩ := reopened
    obtain ⟨row, hrow, continues⟩ := hlawful.continues version hversion earlier hearlier
    have stays := continues.absorbing (by rw [hexecuted]; rfl)
    rw [hfailed row hrow, hexecuted] at stays
    cases stays
  · intro hlawful
    obtain ⟨version, hversion, lost⟩ : ∃ version ∈ (run (step plainSdk bothColumns) (start 5)
        [(0, .update .answered), (1, .read .primary), (2, .read .primary), (1, .update .answered),
          (2, .update .answered)]).shared.transfer.past, ∃ earlier ∈ version,
        1 ∈ earlier.registeredSignatures ∧ ∀ row ∈ (run (step plainSdk bothColumns) (start 5)
          [(0, .update .answered), (1, .read .primary), (2, .read .primary), (1, .update .answered),
            (2, .update .answered)]).shared.transfer.current, 1 ∉ row.registeredSignatures := by
      decide +kernel
    obtain ⟨earlier, hearlier, signed, unsigned⟩ := lost
    obtain ⟨row, hrow, continues⟩ := hlawful.continues version hversion earlier hearlier
    exact unsigned row hrow (continues.kept signed)

end Runs

end MobileMoney.ColdVault
