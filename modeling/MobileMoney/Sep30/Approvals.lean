import MobileMoney.Library.Quorum
import MobileMoney.Sep30.Program

/-!
# Who has authorised a recovery

A challenge is stored for a key and a signer, not for a session. As long as each approval brings a
challenge that was issued for its own session, the list of a session is a ballot on that session.
-/

namespace MobileMoney.Sep30

open Interleaving
open Checked

variable {I B ι : Type}

/-! ## What is never lost -/

/-- The same session, whatever has been written to its row. -/
structure RecoverySession.Same (session' session : RecoverySession I B) : Prop where
  id_eq : session'.id = session.id
  key_eq : session'.managedKeyId = session.managedKeyId
  required_eq : session'.requiredApprovals = session.requiredApprovals

/-- The same token, used or not. -/
def RecoveryToken.Same (token' token : RecoveryToken I B) : Prop :=
  token' = { token with used := token'.used }

structure State.Extends (s' s : State I B) : Prop where
  vetted : s.vetted ⊆ s'.vetted
  approvals : s.approvals ⊆ s'.approvals
  tokens : ∀ token ∈ s.tokens, ∃ token' ∈ s'.tokens, token'.Same token
  sessions : ∀ session ∈ s.sessions.rows, ∃ session' ∈ s'.sessions.rows, session'.Same session

theorem RecoverySession.Same.refl (session : RecoverySession I B) : session.Same session :=
  ⟨rfl, rfl, rfl⟩

theorem RecoverySession.Same.trans {session'' session' session : RecoverySession I B}
    (h : session''.Same session') (h' : session'.Same session) : session''.Same session :=
  ⟨h.id_eq.trans h'.id_eq, h.key_eq.trans h'.key_eq, h.required_eq.trans h'.required_eq⟩

theorem RecoveryToken.Same.refl (token : RecoveryToken I B) : token.Same token := rfl

theorem State.Extends.refl (s : State I B) : s.Extends s where
  vetted := fun _ h => h
  approvals := fun _ h => h
  tokens := fun token h => ⟨token, h, .refl token⟩
  sessions := fun session h => ⟨session, h, .refl session⟩

section Extends

variable [DecidableEq I] [DecidableEq B] {s : State I B}

omit [DecidableEq B] in
theorem extends_updateSession (sessionId : I) {f : RecoverySession I B → RecoverySession I B}
    (same : ∀ session, (f session).Same session) :
    (s.updateSession sessionId f fun session => (same session).id_eq).Extends s where
  vetted := fun _ h => h
  approvals := fun _ h => h
  tokens := fun token h => ⟨token, h, .refl token⟩
  sessions := by
    intro session h
    refine ⟨_, (Keyed.mem_modify fun session => (same session).id_eq).2 ⟨session, h, rfl⟩, ?_⟩
    split_ifs
    · exact same session
    · exact .refl session

omit [DecidableEq I] [DecidableEq B] in
theorem exists_same_map (p : RecoveryToken I B → Prop) [DecidablePred p] :
    ∀ token ∈ s.tokens, ∃ token' ∈ s.tokens.map fun token =>
      if p token then { token with used := true } else token, token'.Same token := by
  intro token h
  refine ⟨_, List.mem_map_of_mem h, ?_⟩
  split_ifs <;> rfl

theorem run_extends (statement : Statement I B) : (statement.run s).Extends s := by
  have unchanged := State.Extends.refl s
  cases statement with
  | insertSession session =>
    exact { unchanged with
      sessions := fun session' h => ⟨session', Keyed.mem_insert_of_mem h, .refl session'⟩ }
  | useTokens keyId signerPublicKey =>
    exact { unchanged with tokens := exists_same_map _ }
  | insertToken token =>
    exact { unchanged with
      tokens := fun token' h => ⟨token', List.mem_append_left _ h, .refl token'⟩ }
  | useToken keyId tokenHash => exact { unchanged with tokens := exists_same_map _ }
  | approve approval approvedBy state =>
    have updated := extends_updateSession (s := s) approval.sessionId
      (f := RecoverySession.approve approvedBy state) fun _ => ⟨rfl, rfl, rfl⟩
    exact { updated with approvals := List.subset_append_left _ _ }
  | reject sessionId =>
    exact extends_updateSession sessionId (f := RecoverySession.setState .rejected)
      fun _ => ⟨rfl, rfl, rfl⟩
  | rotate keyId key session =>
    cases session with
    | none => exact { unchanged with }
    | some sessionId =>
      have updated := extends_updateSession (s := s) sessionId
        (f := RecoverySession.complete key.publicKey) fun _ => ⟨rfl, rfl, rfl⟩
      exact { updated with }
  | _ => exact { unchanged with }

omit [DecidableEq I] [DecidableEq B] in
theorem note_extends (phase : Phase I B) : (s.note phase).Extends s := by
  have unchanged := State.Extends.refl s
  cases phase with
  | checkingSigner session approval =>
    exact { unchanged with vetted := List.subset_append_left _ _ }
  | _ => exact { unchanged with }

theorem execute_extends (statement : Statement I B) (answer : DbAnswer) :
    (s.execute statement answer).Extends s := by
  unfold State.execute
  split_ifs
  · exact run_extends statement
  · exact .refl s

theorem step_extends (env : Environment B) (input : Input I B) (phase : Phase I B) :
    (step env input s phase).1.Extends s := by
  cases input with
  | passes elapsed => exact { State.Extends.refl s with }
  | crash => exact .refl s
  | turn fresh answer =>
    rcases turn_cases env fresh answer s phase with
      ⟨statement, -, hs, -⟩ | ⟨-, ⟨-, hs⟩ | ⟨error, hs⟩ | ⟨phase', -, hs⟩⟩
    · rw [step, hs]
      exact execute_extends statement answer
    · rw [step, hs]
      exact .refl s
    · rw [step, hs]
      exact .refl s
    · rw [step, hs]
      exact note_extends phase

end Extends

/-! ## Signatures and ballots -/

section Ballots

variable (env : Environment B) (s : State I B)

/-- The signer has signed a challenge that was issued to it for this session. -/
def SignedChallenge (keyId sessionId : I) (approval : Approval I B) : Prop :=
  env.verify approval.signerPublicKey approval.token approval.signature = true ∧
    ∃ token ∈ s.tokens, token.managedKeyId = keyId ∧
      token.tokenHash = env.sha256 approval.token ∧
      token.signerPublicKey = approval.signerPublicKey ∧ token.issuedFor = sessionId

/-- A registered signer has approved the session with such a signature. -/
def Approves (keyId sessionId : I) (signer : B) : Prop :=
  (keyId, signer) ∈ s.vetted ∧
    ∃ approval ∈ s.approvals, approval.sessionId = sessionId ∧
      approval.signerPublicKey = signer ∧ SignedChallenge env s keyId sessionId approval

/-- Enough distinct signers have. -/
def Authorised (session : RecoverySession I B) : Prop :=
  Quorum.Reached (Approves env s session.managedKeyId session.id)
    (s.approvals.map (·.signerPublicKey)) session.requiredApprovals

/-- Whatever is completed is authorised. -/
def Lawful : Prop :=
  ∀ session ∈ s.sessions.rows, session.state = .completed ∨ session.id ∈ s.rotations →
    Authorised env s session

/-- A row, with its list of approvals. -/
structure RecoverySession.Ballot (session : RecoverySession I B) : Prop where
  nodup : session.approvedBy.Nodup
  approves : ∀ signer ∈ session.approvedBy, Approves env s session.managedKeyId session.id signer

structure RecoverySession.Sound (session : RecoverySession I B) : Prop extends
    session.Ballot env s where
  enough : session.state = .awaitingCompletion →
    session.requiredApprovals ≤ session.approvedBy.length
  completed : session.state = .completed ∨ session.id ∈ s.rotations → Authorised env s session

structure State.Sound : Prop where
  sessions : ∀ session ∈ s.sessions.rows, session.Sound env s
  rotations : ∀ sessionId ∈ s.rotations, ∃ session ∈ s.sessions.rows, session.id = sessionId

variable {env s} {s' : State I B} {keyId sessionId : I} {session : RecoverySession I B}

theorem SignedChallenge.mono {approval : Approval I B}
    (h : SignedChallenge env s keyId sessionId approval) (extends_ : s'.Extends s) :
    SignedChallenge env s' keyId sessionId approval := by
  obtain ⟨verifies, token, hmem, hkey, hhash, hsigner, hissued⟩ := h
  obtain ⟨token', hmem', hsame⟩ := extends_.tokens token hmem
  rw [RecoveryToken.Same] at hsame
  refine ⟨verifies, token', hmem', ?_⟩
  rw [hsame]
  exact ⟨hkey, hhash, hsigner, hissued⟩

theorem Approves.mono {signer : B} (h : Approves env s keyId sessionId signer)
    (extends_ : s'.Extends s) : Approves env s' keyId sessionId signer := by
  obtain ⟨vetted, approval, hmem, hsession, hsigner, signed⟩ := h
  exact ⟨extends_.vetted vetted, approval, extends_.approvals hmem, hsession, hsigner,
    signed.mono extends_⟩

theorem Authorised.mono (h : Authorised env s session) (extends_ : s'.Extends s) :
    Authorised env s' session := by
  refine h.imp ?_
  intro signer hroster happroves
  obtain ⟨approval, hmem, rfl⟩ := List.mem_map.1 hroster
  exact ⟨List.mem_map_of_mem (extends_.approvals hmem), happroves.mono extends_⟩

theorem Authorised.same {session' : RecoverySession I B} (h : Authorised env s session)
    (same : session'.Same session) : Authorised env s session' := by
  rw [Authorised, same.id_eq, same.key_eq, same.required_eq]
  exact h

theorem RecoverySession.Ballot.mono (h : session.Ballot env s) (extends_ : s'.Extends s) :
    session.Ballot env s' :=
  ⟨h.nodup, fun signer hsigner => (h.approves signer hsigner).mono extends_⟩

theorem RecoverySession.Ballot.authorised [DecidableEq B] (h : session.Ballot env s)
    (enough : session.requiredApprovals ≤ session.approvedBy.length) :
    Authorised env s session := by
  have members : ∀ signer ∈ session.approvedBy,
      signer ∈ s.approvals.map (·.signerPublicKey) ∧
        Approves env s session.managedKeyId session.id signer := by
    intro signer hsigner
    obtain ⟨vetted, approval, hmem, hsession, rfl, signed⟩ := h.approves signer hsigner
    exact ⟨List.mem_map_of_mem hmem, vetted, approval, hmem, hsession, rfl, signed⟩
  apply Quorum.reached_of_ballot members
  rwa [List.toFinset_card_of_nodup h.nodup]

theorem RecoverySession.Sound.mono (h : session.Sound env s) (extends_ : s'.Extends s)
    (rotations : s'.rotations = s.rotations) : session.Sound env s' where
  toBallot := h.toBallot.mono extends_
  enough := h.enough
  completed := by
    rw [rotations]
    intro hcompleted
    exact (h.completed hcompleted).mono extends_

theorem State.Sound.of_eq (h : s.Sound env) (extends_ : s'.Extends s)
    (sessions : s'.sessions = s.sessions) (rotations : s'.rotations = s.rotations) :
    s'.Sound env where
  sessions := by
    rw [sessions]
    exact fun session hsession => (h.sessions session hsession).mono extends_ rotations
  rotations := by
    rw [sessions, rotations]
    exact h.rotations

end Ballots

/-! ## Turns -/

/-- What an approval has read. -/
structure ReadFor (env : Environment B) (s : State I B) (session : RecoverySession I B)
    (approval : Approval I B) : Prop where
  ballot : session.Ballot env s
  row : ∃ row ∈ s.sessions.rows, row.Same session
  id_eq : approval.sessionId = session.id
  fresh : approval.signerPublicKey ∉ session.approvedBy

def Phase.Sound (env : Environment B) (s : State I B) : Phase I B → Prop
  | .checkingSigner session approval => ReadFor env s session approval
  | .checkingToken session approval =>
    ReadFor env s session approval ∧
      (session.managedKeyId, approval.signerPublicKey) ∈ s.vetted
  | .usingToken session approval | .approving session approval =>
    ReadFor env s session approval ∧
      (session.managedKeyId, approval.signerPublicKey) ∈ s.vetted ∧
      SignedChallenge env s session.managedKeyId session.id approval
  | .readingKey session | .completing session _ =>
    Authorised env s session ∧ ∃ row ∈ s.sessions.rows, row.Same session
  | _ => True

section Turns

variable {env : Environment B} {s s' : State I B} {session : RecoverySession I B}
  {approval : Approval I B}

theorem State.Extends.row (h : s'.Extends s) (row : ∃ row ∈ s.sessions.rows, row.Same session) :
    ∃ row ∈ s'.sessions.rows, row.Same session := by
  obtain ⟨row, hmem, hsame⟩ := row
  obtain ⟨row', hmem', hsame'⟩ := h.sessions row hmem
  exact ⟨row', hmem', hsame'.trans hsame⟩

theorem ReadFor.mono (h : ReadFor env s session approval) (extends_ : s'.Extends s) :
    ReadFor env s' session approval :=
  ⟨h.ballot.mono extends_, extends_.row h.row, h.id_eq, h.fresh⟩

theorem Phase.Sound.mono {phase : Phase I B} (h : phase.Sound env s) (extends_ : s'.Extends s) :
    phase.Sound env s' := by
  cases phase with
  | checkingSigner session approval => exact ReadFor.mono h extends_
  | checkingToken session approval => exact ⟨h.1.mono extends_, extends_.vetted h.2⟩
  | usingToken session approval | approving session approval =>
    exact ⟨h.1.mono extends_, extends_.vetted h.2.1, h.2.2.mono extends_⟩
  | readingKey session | completing session key =>
    exact ⟨h.1.mono extends_, extends_.row h.2⟩
  | _ => exact trivial

variable [DecidableEq I]

/-- An update of one row. -/
theorem State.Sound.modify (h : s.Sound env) (extends_ : s'.Extends s) {sessionId : I}
    (f : RecoverySession I B → RecoverySession I B) (same : ∀ session, (f session).Same session)
    (sessions : s'.sessions = s.sessions.modify sessionId f fun session => (same session).id_eq)
    (rotations : ∀ id ∈ s'.rotations, id ∈ s.rotations ∨
      id = sessionId ∧ ∃ session ∈ s.sessions.rows, session.id = sessionId)
    (sound : ∀ row ∈ s.sessions.rows, row.id = sessionId → row.Sound env s →
      (f row).Sound env s') : s'.Sound env where
  sessions := by
    rw [sessions]
    intro session hsession
    obtain ⟨row, hrow, rfl⟩ := (Keyed.mem_modify fun session => (same session).id_eq).1 hsession
    have before := h.sessions row hrow
    split_ifs with hid
    · exact sound row hrow hid before
    · refine ⟨before.toBallot.mono extends_, before.enough, ?_⟩
      rintro (hcompleted | hrotated)
      · exact (before.completed (Or.inl hcompleted)).mono extends_
      · rcases rotations row.id hrotated with hrotated | ⟨hid', -⟩
        · exact (before.completed (Or.inr hrotated)).mono extends_
        · exact absurd hid' hid
  rotations := by
    intro id hid
    have known : ∃ session ∈ s.sessions.rows, session.id = id := by
      rcases rotations id hid with hid | ⟨rfl, hknown⟩
      · exact h.rotations id hid
      · exact hknown
    obtain ⟨session, hsession, rfl⟩ := known
    obtain ⟨session', hsession', hsame⟩ := extends_.sessions session hsession
    exact ⟨session', hsession', hsame.id_eq⟩

variable [DecidableEq B]

theorem sound_approve (h : s.Sound env) (read : ReadFor env s session approval)
    (vetted : (session.managedKeyId, approval.signerPublicKey) ∈ s.vetted)
    (signed : SignedChallenge env s session.managedKeyId session.id approval) :
    State.Sound env (Statement.run s (.approve approval
      (session.approvedWith approval.signerPublicKey)
      (session.nextState approval.signerPublicKey))) := by
  have extends_ := run_extends (s := s) (.approve approval
    (session.approvedWith approval.signerPublicKey) (session.nextState approval.signerPublicKey))
  refine h.modify extends_ (RecoverySession.approve _ _) (fun _ => ⟨rfl, rfl, rfl⟩) rfl
    (fun _ hid => Or.inl hid) ?_
  intro row hrow hid before
  obtain ⟨row', hrow', hsame⟩ := read.row
  obtain rfl := s.sessions.eq_of_mem hrow hrow' (hid.trans (read.id_eq.trans hsame.id_eq.symm))
  refine ⟨⟨?_, ?_⟩, ?_, ?_⟩
  · refine List.nodup_append.2 ⟨read.ballot.nodup, List.nodup_singleton _, ?_⟩
    rintro a ha b hb rfl
    rw [List.mem_singleton.1 hb] at ha
    exact read.fresh ha
  · intro signer hsigner
    show Approves env _ row.managedKeyId row.id signer
    rw [hsame.key_eq, hsame.id_eq]
    rcases List.mem_append.1 hsigner with hsigner | hsigner
    · exact (read.ballot.approves signer hsigner).mono extends_
    · rw [List.mem_singleton.1 hsigner]
      exact ⟨vetted, approval, List.mem_append_right _ (List.mem_singleton_self _), read.id_eq, rfl,
        signed.mono extends_⟩
  · show session.nextState approval.signerPublicKey = .awaitingCompletion →
      row.requiredApprovals ≤ (session.approvedWith approval.signerPublicKey).length
    rw [hsame.required_eq, RecoverySession.nextState]
    split_ifs with henough
    · exact fun _ => henough
    · exact nofun
  · rintro (hcompleted | hrotated)
    · have hnext : session.nextState approval.signerPublicKey = .completed := hcompleted
      unfold RecoverySession.nextState at hnext
      split_ifs at hnext
    · exact ((before.completed (Or.inr hrotated)).mono extends_).same ⟨rfl, rfl, rfl⟩

theorem sound_reject (h : s.Sound env) (sessionId : I) :
    State.Sound env (Statement.run s (.reject sessionId)) := by
  have extends_ := run_extends (s := s) (.reject sessionId)
  refine h.modify extends_ (RecoverySession.setState .rejected) (fun _ => ⟨rfl, rfl, rfl⟩) rfl
    (fun _ hid => Or.inl hid) ?_
  intro row hrow hid before
  refine ⟨⟨before.nodup, (before.toBallot.mono extends_).approves⟩, nofun, ?_⟩
  rintro (hcompleted | hrotated)
  · cases hcompleted
  · exact ((before.completed (Or.inr hrotated)).mono extends_).same ⟨rfl, rfl, rfl⟩

theorem sound_complete (h : s.Sound env) (authorised : Authorised env s session)
    (known : ∃ row ∈ s.sessions.rows, row.Same session) (keyId : I) (key : ManagedKey I B) :
    State.Sound env (Statement.run s (.rotate keyId key (some session.id))) := by
  have extends_ := run_extends (s := s) (.rotate keyId key (some session.id))
  obtain ⟨row', hrow', hsame⟩ := known
  refine h.modify extends_ (RecoverySession.complete key.publicKey) (fun _ => ⟨rfl, rfl, rfl⟩) rfl
    ?_ ?_
  · intro id hid
    rcases List.mem_append.1 hid with hid | hid
    · exact Or.inl hid
    · exact Or.inr ⟨List.mem_singleton.1 hid, row', hrow', hsame.id_eq⟩
  · intro row hrow hid before
    obtain rfl := s.sessions.eq_of_mem hrow hrow' (hid.trans hsame.id_eq.symm)
    refine ⟨⟨before.nodup, (before.toBallot.mono extends_).approves⟩, nofun, fun _ => ?_⟩
    exact ((authorised.same hsame).mono extends_).same ⟨rfl, rfl, rfl⟩

theorem sound_insertSession (h : s.Sound env) {session : RecoverySession I B}
    (absent : s.sessions.find? session.id = none) (pending : session.state = .pending)
    (empty : session.approvedBy = []) :
    State.Sound env (Statement.run s (.insertSession session)) where
  sessions := by
    have extends_ := run_extends (s := s) (.insertSession session)
    intro row hrow
    rcases Keyed.mem_insert_cases hrow with hrow | rfl
    · exact (h.sessions row hrow).mono extends_ rfl
    · refine ⟨⟨by simp [empty], by simp [empty]⟩, by simp [pending], ?_⟩
      rintro (hcompleted | hrotated)
      · rw [pending] at hcompleted
        cases hcompleted
      · obtain ⟨other, hother, hid⟩ := h.rotations row.id hrotated
        rw [← hid, Keyed.find?_of_mem hother] at absent
        cases absent
  rotations := by
    intro id hid
    obtain ⟨other, hother, rfl⟩ := h.rotations id hid
    exact ⟨other, Keyed.mem_insert_of_mem hother, rfl⟩

/-- What a statement makes of the sessions. -/
theorem run_sound (h : s.Sound env) {fresh : Fresh I B} {phase : Phase I B}
    (hphase : phase.Sound env s) {statement : Statement I B}
    (sent : phase.statement env fresh s.now = some statement) (admitted : statement.Admitted s) :
    (statement.run s).Sound env := by
  cases phase with
  | call call =>
    cases call with
    | createManagedKey userId recoveryThreshold =>
      cases sent
      exact h.of_eq (run_extends _) rfl rfl
    | _ => cases sent
  | insertingSession key requestedNewAddress signer =>
    cases sent
    exact sound_insertSession h admitted.2 rfl rfl
  | approving session approval =>
    cases sent
    exact sound_approve h hphase.1 hphase.2.1 hphase.2.2
  | completing session key =>
    cases sent
    exact sound_complete h hphase.1 hphase.2 _ _
  | rejecting session expired =>
    cases sent
    exact sound_reject h session.id
  | insertingSigner | deletingSigner | rotating | invalidatingTokens | insertingToken | usingToken
  | auditingOpened | auditingToken | auditingApproval | auditingCompletion | auditingRejection =>
    cases sent
    exact h.of_eq (run_extends _) rfl rfl
  | _ => cases sent

/-- An approval that finds its challenge finds one that was issued for its session. -/
def OwnChallenge (env : Environment B) (input : Input I B) (s : State I B) (phase : Phase I B) :
    Prop :=
  match input, phase with
  | .turn _ _, .checkingToken session approval =>
    (∃ token ∈ s.tokens, token.Matches env s.now session.managedKeyId approval) →
      env.verify approval.signerPublicKey approval.token approval.signature →
      ∃ token ∈ s.tokens, token.Matches env s.now session.managedKeyId approval ∧
        token.issuedFor = session.id
  | _, _ => True

instance (env : Environment B) (input : Input I B) (s : State I B) (phase : Phase I B) :
    Decidable (OwnChallenge env input s phase) := by
  cases input <;> cases phase <;> unfold OwnChallenge <;> infer_instance

theorem look_sound (h : s.Sound env) {fresh : Fresh I B} {answer : DbAnswer}
    {phase phase' : Phase I B} (hphase : phase.Sound env s)
    (own : OwnChallenge env (.turn fresh answer) s phase) (hlook : look env s phase = .ok phase') :
    phase'.Sound env (s.note phase) := by
  cases look_cases env hlook with
  | approval keyId session approval hmem hid hkey open_ live fresh =>
    exact ⟨(h.sessions session hmem).toBallot, ⟨session, hmem, .refl session⟩, hid, fresh⟩
  | signer session approval registered =>
    exact ⟨hphase.mono (note_extends _), List.mem_append_right _ (List.mem_singleton_self _)⟩
  | token session approval found verifies =>
    obtain ⟨token, hmem, ⟨hkey, hhash, hsigner, -, -⟩, hissued⟩ := own found verifies
    exact ⟨hphase.1, hphase.2, verifies, token, hmem, hkey, hhash, hsigner, hissued⟩
  | awaiting keyId session hmem hkey awaiting =>
    have sound := h.sessions session hmem
    exact ⟨sound.toBallot.authorised (sound.enough awaiting), session, hmem, .refl session⟩
  | key session key => exact hphase
  | expired | cancelled | rejected => exact trivial
  | plain _ _ idle => cases phase' <;> first | exact trivial | cases idle
  | same => exact hphase.mono (note_extends _)

omit [DecidableEq I] [DecidableEq B] in
/-- Where a call goes on after its statement. -/
theorem next_sound (env : Environment B) {fresh : Fresh I B} {now : ℕ} {phase : Phase I B}
    (hphase : phase.Sound env s) : (phase.next env fresh now).Sound env s := by
  cases phase with
  | call call => cases call <;> exact trivial
  | auditingOpened session signer => cases signer <;> exact trivial
  | auditingRejection expired => cases expired <;> exact trivial
  | checkingSigner | checkingToken | usingToken | readingKey => exact hphase
  | _ => exact trivial

theorem step_sound {input : Input I B} {phase : Phase I B} (h : s.Sound env)
    (hphase : phase.Sound env s) (own : OwnChallenge env input s phase) :
    (step env input s phase).1.Sound env ∧
      (step env input s phase).2.Sound env (step env input s phase).1 := by
  cases input with
  | passes elapsed =>
    have extends_ := step_extends (s := s) env (.passes elapsed) phase
    exact ⟨h.of_eq extends_ rfl rfl, hphase.mono extends_⟩
  | crash => exact ⟨h, trivial⟩
  | turn fresh answer =>
    rcases turn_cases env fresh answer s phase with
      ⟨statement, sent, hs, hnext⟩ | ⟨-, ⟨-, hs⟩ | ⟨error, hs⟩ | ⟨phase', hlook, hs⟩⟩
    · simp only [step, hs]
      constructor
      · unfold State.execute
        split_ifs with hexecutes
        · exact run_sound h hphase sent hexecutes.1
        · exact h
      · rcases hnext with hnext | ⟨-, -, hnext⟩
        · rw [hnext]
          exact trivial
        · rw [hnext]
          exact (next_sound env hphase).mono (execute_extends statement answer)
    · rw [step, hs]
      exact ⟨h, hphase⟩
    · rw [step, hs]
      exact ⟨h, trivial⟩
    · rw [step, hs]
      refine ⟨h.of_eq (note_extends phase) ?_ ?_, look_sound h hphase own hlook⟩
      · cases phase <;> rfl
      · cases phase <;> rfl

end Turns

/-! ## Runs -/

variable [DecidableEq I] [DecidableEq B] [DecidableEq ι] {env : Environment B}

/-- In a run in which every approval that passes its check has a challenge of its own session,
only authorised sessions are completed. -/
theorem recoveries_authorised {w : World I B ι} (initial : w.Initial)
    {schedule : List (ι × Input I B)}
    (own : Runs.Every (advance (step env))
      (fun w turn => OwnChallenge env turn.2 w.shared (w.locals turn.1)) w schedule)
    {pre : List (ι × Input I B)} (h : pre <+: schedule) :
    Lawful env (run (step env) w pre).shared := by
  have start : Holds (State.Sound env) (fun s phase => phase.Sound env s) w := by
    obtain ⟨now, hnow⟩ := initial.shared
    constructor
    · rw [hnow]
      exact ⟨nofun, nofun⟩
    · intro i
      obtain ⟨call, hcall⟩ := initial.fresh i
      rw [hcall]
      exact trivial
  have sound :
      Holds (State.Sound env) (fun s phase => phase.Sound env s) (run (step env) w pre) := by
    apply inv_run_of_every _ _ start (own.of_prefix h)
    intro w turn hw hturn
    refine holds_advance hw (step_sound hw.1 (hw.2 turn.1) hturn) ?_
    intro phase hphase
    exact hphase.mono (step_extends env turn.2 _)
  exact fun session hsession => (sound.1.sessions session hsession).completed

/-- User 7 opens session 5 with the challenge 31 for the signer 201. -/
def openedSession (recoveryThreshold : ℕ) : List (Call ℕ ℕ) :=
  [.createManagedKey 7 recoveryThreshold, .addRecoverySigner 1 7 201, .addRecoverySigner 1 7 202,
    .initiateRecovery 1 201 none]

def openSession : List (ℕ × Input ℕ ℕ) :=
  [answered 0 1 11, answered 1 0 0, answered 1 0 0, answered 2 0 0, answered 2 0 0] ++
    List.replicate 8 (answered 3 5 31)

theorem two_signers_recover :
    let calls := openedSession 2 ++ [Call.initiateRecovery 1 202 (some 5),
      Call.approveRecovery 1 ⟨5, 201, 31, 232⟩, Call.approveRecovery 1 ⟨5, 202, 32, 234⟩,
      Call.completeRecovery 1 5]
    let final := (run (step plainEnvironment) (World.of calls) (openSession ++
      List.replicate 5 (answered 4 0 32) ++ List.replicate 7 (answered 5 0 0) ++
      List.replicate 7 (answered 6 0 0) ++ List.replicate 4 (answered 7 2 12))).shared
    final.rotations = [5] ∧ Lawful plainEnvironment final :=
  ⟨by decide +kernel,
    recoveries_authorised (World.of_initial _) (by decide +kernel) List.prefix_rfl⟩

/-- The challenge of session 5, which is cancelled, approves session 6. -/
theorem foreign_challenge_recovers :
    let calls := openedSession 1 ++ [Call.cancelRecoverySession 1 5,
      Call.openRecoverySession 1 none, Call.approveRecovery 1 ⟨6, 201, 31, 232⟩,
      Call.completeRecovery 1 6]
    let final := (run (step plainEnvironment) (World.of calls) (openSession ++
      List.replicate 4 (answered 4 0 0) ++ List.replicate 4 (answered 5 6 0) ++
      List.replicate 7 (answered 6 0 0) ++ List.replicate 4 (answered 7 2 12))).shared
    final.rotations = [6] ∧ ¬ Lawful plainEnvironment final := by
  intro calls final
  refine ⟨by decide +kernel, ?_⟩
  intro hlawful
  have completed : ∃ session ∈ final.sessions.rows, session.id = 6 ∧
      session.requiredApprovals = 1 ∧ session.state = .completed := by
    decide +kernel
  have elsewhere : ∀ token ∈ final.tokens, token.issuedFor ≠ 6 := by decide +kernel
  obtain ⟨session, hmem, hid, hrequired, hstate⟩ := completed
  have authorised := hlawful session hmem (Or.inl hstate)
  have none_ : session.requiredApprovals ≤ ([] : List ℕ).toFinset.card := by
    refine authorised.le_card ?_
    rintro signer ⟨-, approval, -, -, -, -, token, htoken, -, -, -, hissued⟩
    exact absurd (hissued.trans hid) (elsewhere token htoken)
  rw [hrequired] at none_
  simp at none_

end MobileMoney.Sep30
