import MobileMoney.Sep30.Approvals

/-!
# The life of a recovery session

Every call checks the session that it has read, and writes to its row what follows from it. As long
as no other call has finished the session or approved it in between, nothing is lost.
-/

namespace MobileMoney.Sep30

open Interleaving
open Checked

variable {I B ι : Type}

/-! ## Laws -/

/-- Once completed or rejected, a session stays so. -/
def RecoverySession.Absorbed (session : RecoverySession I B) : Prop :=
  ∀ write ∈ session.stateWrites, write.1.Terminal → write.2 = write.1

def Recorded (s : State I B) (sessionId : I) (signer : B) : Prop :=
  ∃ session ∈ s.sessions.rows, session.id = sessionId ∧ signer ∈ session.approvedBy

section Laws

variable [DecidableEq I]

structure SessionsLawful (s : State I B) : Prop where
  absorbed : ∀ session ∈ s.sessions.rows, session.Absorbed
  recorded : ∀ report ∈ s.reported, Recorded s report.1 report.2
  once : ∀ sessionId, s.rotations.count sessionId ≤ 1

/-- Since a call has read the session that it is about to write to, no other call has finished it
or, where it is to be approved, added an approval. -/
def Phase.Undisturbed (s : State I B) : Phase I B → Prop
  | .approving session approval => ∀ row ∈ s.sessions.find? approval.sessionId,
    (session.state.Terminal = false → row.state.Terminal = false) ∧
      ∀ signer ∈ row.approvedBy,
        signer ∈ session.approvedBy ∨ signer = approval.signerPublicKey
  | .completing session _ => ∀ row ∈ s.sessions.find? session.id,
    session.state.Terminal = false → row.state.Terminal = false
  | .rejecting session _ => ∀ row ∈ s.sessions.find? session.id,
    session.state ≠ .completed → row.state ≠ .completed
  | _ => True

variable [DecidableEq B]

instance (s : State I B) : DecidablePred (Phase.Undisturbed s)
  | .approving session approval => inferInstanceAs (Decidable
      (∀ row ∈ s.sessions.find? approval.sessionId,
        (session.state.Terminal = false → row.state.Terminal = false) ∧ ∀ signer ∈ row.approvedBy,
          signer ∈ session.approvedBy ∨ signer = approval.signerPublicKey))
  | .completing session _ => inferInstanceAs (Decidable
      (∀ row ∈ s.sessions.find? session.id,
        session.state.Terminal = false → row.state.Terminal = false))
  | .rejecting session _ => inferInstanceAs (Decidable
      (∀ row ∈ s.sessions.find? session.id,
        session.state ≠ .completed → row.state ≠ .completed))
  | .call _ | .insertingSigner _ _ | .recheckingKey .. | .listingSigners ..
  | .deletingSigner _ _ | .findingKey _ _ | .findingActive .. | .insertingSession ..
  | .auditingOpened _ _ | .findingSession .. | .invalidatingTokens _ _ | .insertingToken _ _
  | .auditingToken _ _ | .checkingSigner _ _ | .checkingToken _ _ | .usingToken _ _
  | .auditingApproval _ | .rereading _ | .readingKey _ | .auditingCompletion _ _
  | .readingRejected _ _ | .auditingRejection _ | .rotating _ _ | .created _ _ | .added
  | .removed | .opened _ | .issued _ _ | .approved _ | .rotated _ _ | .cancelled | .threw _
  | .crashed =>
    instDecidableTrue

def Undisturbed (env : Environment B) (input : Input I B) (s : State I B) (phase : Phase I B) :
    Prop :=
  match input with
  | .turn fresh answer => phase.Executes env fresh answer s → phase.Undisturbed s
  | _ => True

instance (env : Environment B) (s : State I B) (phase : Phase I B) :
    DecidablePred fun input => Undisturbed env input s phase
  | .turn fresh answer => inferInstanceAs (Decidable
      (phase.Executes env fresh answer s → phase.Undisturbed s))
  | .passes _ | .crash => instDecidableTrue

end Laws

/-! ## What a write may do to a row -/

/-- A later version of a row. -/
structure RecoverySession.Follows (session' session : RecoverySession I B) : Prop where
  id_eq : session'.id = session.id
  approvedBy : session.approvedBy ⊆ session'.approvedBy
  absorbed : session.Absorbed → session'.Absorbed
  completed : session.state = .completed → session'.state = .completed

theorem RecoverySession.Follows.refl (session : RecoverySession I B) : session.Follows session :=
  ⟨rfl, fun _ h => h, fun h => h, fun h => h⟩

theorem RecoverySession.Absorbed.setState {session : RecoverySession I B} (h : session.Absorbed)
    (state : RecoverySessionState) (write : session.state.Terminal → state = session.state) :
    (session.setState state).Absorbed := by
  intro write' hmem
  rcases List.mem_append.1 hmem with hmem | hmem
  · exact h write' hmem
  · rw [List.mem_singleton.1 hmem]
    exact write

theorem RecoverySession.follows_approve {session row : RecoverySession I B} {signer : B}
    (open_ : row.state.Terminal = false) (kept : row.approvedBy ⊆ session.approvedWith signer) :
    (row.approve (session.approvedWith signer) (session.nextState signer)).Follows row := by
  refine ⟨rfl, kept, fun h => ?_, fun completed => ?_⟩
  · apply h.setState
    grind
  · grind

theorem RecoverySession.follows_reject {row : RecoverySession I B}
    (open_ : row.state ≠ .completed) :
    (row.setState .rejected).Follows row := by
  refine ⟨rfl, fun _ h => h, fun h => ?_, fun completed => absurd completed open_⟩
  apply h.setState
  grind

theorem RecoverySession.follows_complete {row : RecoverySession I B}
    (open_ : row.state.Terminal = false) (newPublicKey : B) :
    (row.complete newPublicKey).Follows row := by
  refine ⟨rfl, fun _ h => h, fun h => ?_, fun _ => rfl⟩
  apply h.setState .completed
  grind

def State.Grows (s' s : State I B) : Prop :=
  ∀ session ∈ s.sessions.rows, ∃ session' ∈ s'.sessions.rows, session'.Follows session

theorem State.Grows.of_eq {s' s : State I B} (sessions : s'.sessions = s.sessions) :
    s'.Grows s := by
  intro session hsession
  exact ⟨session, sessions ▸ hsession, .refl session⟩

theorem State.Grows.recorded {s' s : State I B} (h : s'.Grows s) {sessionId : I} {signer : B}
    (recorded : Recorded s sessionId signer) : Recorded s' sessionId signer := by
  obtain ⟨session, hmem, hid, hsigner⟩ := recorded
  obtain ⟨session', hmem', follows⟩ := h session hmem
  exact ⟨session', hmem', follows.id_eq.trans hid, follows.approvedBy hsigner⟩

/-- The session is in the table. -/
def Known (s : State I B) (sessionId : I) : Prop :=
  ∃ session ∈ s.sessions.rows, session.id = sessionId

theorem State.Grows.known {s' s : State I B} (h : s'.Grows s) {sessionId : I}
    (known : Known s sessionId) : Known s' sessionId := by
  obtain ⟨session, hmem, hid⟩ := known
  obtain ⟨session', hmem', follows⟩ := h session hmem
  exact ⟨session', hmem', follows.id_eq.trans hid⟩

/-- A rotation is made for a session that is completed by it. -/
structure State.Tracked (s : State I B) : Prop where
  absorbed : ∀ session ∈ s.sessions.rows, session.Absorbed
  completed : ∀ session ∈ s.sessions.rows, session.id ∈ s.rotations → session.state = .completed
  known : ∀ sessionId ∈ s.rotations, Known s sessionId
  nodup : s.rotations.Nodup
  recorded : ∀ report ∈ s.reported, Recorded s report.1 report.2

def Phase.Tracked (s : State I B) : Phase I B → Prop
  | .checkingSigner _ approval | .checkingToken _ approval | .usingToken _ approval
  | .approving _ approval => Known s approval.sessionId
  | .auditingApproval approval | .rereading approval =>
    Recorded s approval.sessionId approval.signerPublicKey
  | .readingKey session | .completing session _ => Known s session.id
  | _ => True

/-- The session that a call goes on with was open when the call has read it. -/
def Phase.Checked : Phase I B → Prop
  | .checkingSigner session _ | .checkingToken session _ | .usingToken session _
  | .approving session _ | .readingKey session | .completing session _
  | .readingRejected session _ | .rejecting session _ => session.state.Terminal = false
  | _ => True

theorem Phase.Tracked.grows {s s' : State I B} {phase : Phase I B} (h : phase.Tracked s)
    (grows : s'.Grows s) : phase.Tracked s' := by
  cases phase with
  | checkingSigner | checkingToken | usingToken | approving | readingKey | completing =>
    exact grows.known h
  | auditingApproval | rereading => exact grows.recorded h
  | _ => exact trivial

theorem State.Tracked.of_eq {s s' : State I B} (h : s.Tracked) (sessions : s'.sessions = s.sessions)
    (rotations : s'.rotations = s.rotations) (reported : s'.reported = s.reported) :
    s'.Tracked where
  absorbed := by
    rw [sessions]
    exact h.absorbed
  completed := by
    rw [sessions, rotations]
    exact h.completed
  known := by
    rw [rotations]
    exact fun sessionId hid => (State.Grows.of_eq sessions).known (h.known sessionId hid)
  nodup := by
    rw [rotations]
    exact h.nodup
  recorded := by
    rw [reported]
    exact fun report hreport => (State.Grows.of_eq sessions).recorded (h.recorded report hreport)

/-! ## Turns -/

section Turns

variable [DecidableEq I] {s s' : State I B}

/-- An update of one row that goes on from it. -/
theorem grows_modify {sessionId : I} {f : RecoverySession I B → RecoverySession I B}
    (same : ∀ session, (f session).id = session.id)
    (sessions : s'.sessions = s.sessions.modify sessionId f same)
    (follows : ∀ row ∈ s.sessions.rows, row.id = sessionId → (f row).Follows row) :
    s'.Grows s := by
  intro session hsession
  rw [sessions]
  refine ⟨_, (Keyed.mem_modify same).2 ⟨session, hsession, rfl⟩, ?_⟩
  split_ifs with hid
  · exact follows session hsession hid
  · exact .refl session

theorem State.Tracked.modify (h : s.Tracked) {sessionId : I}
    {f : RecoverySession I B → RecoverySession I B} (same : ∀ session, (f session).id = session.id)
    (sessions : s'.sessions = s.sessions.modify sessionId f same)
    (follows : ∀ row ∈ s.sessions.rows, row.id = sessionId → (f row).Follows row)
    (rotations : s'.rotations = s.rotations) (reported : s'.reported = s.reported) :
    s'.Tracked where
  absorbed := by
    rw [sessions]
    intro session hsession
    obtain ⟨row, hrow, rfl⟩ := (Keyed.mem_modify same).1 hsession
    split_ifs with hid
    · exact (follows row hrow hid).absorbed (h.absorbed row hrow)
    · exact h.absorbed row hrow
  completed := by
    rw [sessions, rotations]
    intro session hsession
    obtain ⟨row, hrow, rfl⟩ := (Keyed.mem_modify same).1 hsession
    split_ifs with hid
    · rw [same]
      exact fun hrotated => (follows row hrow hid).completed (h.completed row hrow hrotated)
    · exact h.completed row hrow
  known := by
    rw [rotations]
    exact fun id hid => (grows_modify same sessions follows).known (h.known id hid)
  nodup := by
    rw [rotations]
    exact h.nodup
  recorded := by
    rw [reported]
    exact fun report hreport =>
      (grows_modify same sessions follows).recorded (h.recorded report hreport)

omit [DecidableEq I] in
theorem State.Tracked.rotate (h : s.Tracked) {sessionId : I} (known : Known s sessionId)
    (fresh : sessionId ∉ s.rotations)
    (completed : ∀ session ∈ s.sessions.rows, session.id = sessionId →
      session.state = .completed) :
    State.Tracked { s with rotations := s.rotations ++ [sessionId] } where
  absorbed := h.absorbed
  completed := by
    intro session hsession hrotated
    rcases List.mem_append.1 hrotated with hrotated | hrotated
    · exact h.completed session hsession hrotated
    · exact completed session hsession (List.mem_singleton.1 hrotated)
  known := by
    intro id hid
    rcases List.mem_append.1 hid with hid | hid
    · exact h.known id hid
    · rw [List.mem_singleton.1 hid]
      exact known
  nodup := by
    refine List.nodup_append.2 ⟨h.nodup, List.nodup_singleton _, ?_⟩
    rintro id hid id' hid' rfl
    rw [List.mem_singleton.1 hid'] at hid
    exact fresh hid
  recorded := h.recorded

theorem grows_insert (session : RecoverySession I B) :
    State.Grows { s with sessions := s.sessions.insert session } s :=
  fun row hrow => ⟨row, Keyed.mem_insert_of_mem hrow, .refl row⟩

theorem tracked_insert (h : s.Tracked) {session : RecoverySession I B}
    (absent : s.sessions.find? session.id = none) (unwritten : session.stateWrites = []) :
    State.Tracked { s with sessions := s.sessions.insert session } where
  absorbed := by
    intro row hrow
    rcases Keyed.mem_insert_cases hrow with hrow | rfl
    · exact h.absorbed row hrow
    · rw [RecoverySession.Absorbed, unwritten]
      exact nofun
  completed := by
    intro row hrow hrotated
    rcases Keyed.mem_insert_cases hrow with hrow | rfl
    · exact h.completed row hrow hrotated
    · obtain ⟨other, hother, hid⟩ := h.known row.id hrotated
      rw [← hid, Keyed.find?_of_mem hother] at absent
      cases absent
  known := fun id hid => (grows_insert session).known (h.known id hid)
  nodup := h.nodup
  recorded := fun report hreport => (grows_insert session).recorded (h.recorded report hreport)

variable [DecidableEq B]

/-- What a completed recovery writes. -/
theorem tracked_complete (h : s.Tracked) {session : RecoverySession I B}
    (known : Known s session.id)
    (open_ : ∀ row ∈ s.sessions.rows, row.id = session.id → row.state.Terminal = false)
    (keyId : I) (key : ManagedKey I B) :
    (Statement.run s (.rotate keyId key (some session.id))).Tracked := by
  have follows : ∀ row ∈ s.sessions.rows, row.id = session.id →
      (row.complete key.publicKey).Follows row :=
    fun row hrow hid => RecoverySession.follows_complete (open_ row hrow hid) key.publicKey
  have updated : ((s.rotate keyId key).updateSession session.id
      (RecoverySession.complete key.publicKey) (RecoverySession.complete_id _)).Tracked :=
    h.modify (RecoverySession.complete_id _) rfl follows rfl rfl
  refine updated.rotate
    ((grows_modify (RecoverySession.complete_id _) rfl follows).known known) ?_ ?_
  · intro hrotated
    obtain ⟨row, hrow, hid⟩ := known
    have completed := h.completed row hrow (hid ▸ hrotated)
    have := open_ row hrow hid
    grind
  · intro row hrow hid
    obtain ⟨old, hold, rfl⟩ := (Keyed.mem_modify (RecoverySession.complete_id _)).1 hrow
    split_ifs at hid ⊢ with hold_id
    · rfl
    · exact absurd hid hold_id

/-- What a statement makes of the sessions. -/
theorem tracked_run (h : s.Tracked) {env : Environment B} {fresh : Fresh I B}
    {phase : Phase I B} (hphase : phase.Tracked s) (checked : phase.Checked)
    {statement : Statement I B} (sent : phase.statement env fresh s.now = some statement)
    (admitted : statement.Admitted s) (calm : phase.Undisturbed s) :
    (statement.run s).Tracked ∧ (statement.run s).Grows s := by
  cases phase with
  | call call =>
    cases call with
    | createManagedKey userId recoveryThreshold =>
      cases sent
      exact ⟨h.of_eq rfl rfl rfl, .of_eq rfl⟩
    | _ => cases sent
  | insertingSession key requestedNewAddress signer =>
    cases sent
    exact ⟨tracked_insert h admitted.2 rfl, grows_insert _⟩
  | approving session approval =>
    cases sent
    have follows : ∀ row ∈ s.sessions.rows, row.id = approval.sessionId →
        (row.approve (session.approvedWith approval.signerPublicKey)
          (session.nextState approval.signerPublicKey)).Follows row := by
      intro row hrow hid
      obtain ⟨still, seen⟩ := calm row (by rw [← hid]; exact Keyed.find?_of_mem hrow)
      apply RecoverySession.follows_approve (still checked)
      intro signer hsigner
      rcases seen signer hsigner with hread | rfl
      · exact List.mem_append_left _ hread
      · exact List.mem_append_right _ (List.mem_singleton_self _)
    exact ⟨h.modify (RecoverySession.approve_id _ _) rfl follows rfl rfl,
      grows_modify (RecoverySession.approve_id _ _) rfl follows⟩
  | completing session key =>
    cases sent
    have isOpen : ∀ row ∈ s.sessions.rows, row.id = session.id → row.state.Terminal = false :=
      fun row hrow hid => calm row (by rw [← hid]; exact Keyed.find?_of_mem hrow) checked
    refine ⟨tracked_complete h hphase isOpen _ _, ?_⟩
    refine grows_modify (RecoverySession.complete_id _) rfl ?_
    exact fun row hrow hid => RecoverySession.follows_complete (isOpen row hrow hid) _
  | rejecting session expired =>
    cases sent
    have uncompleted : session.state ≠ .completed := by
      intro completed
      rw [Phase.Checked, completed] at checked
      cases checked
    have follows : ∀ row ∈ s.sessions.rows, row.id = session.id →
        (row.setState .rejected).Follows row := by
      intro row hrow hid
      apply RecoverySession.follows_reject
      exact calm row (by rw [← hid]; exact Keyed.find?_of_mem hrow) uncompleted
    exact ⟨h.modify (RecoverySession.setState_id _) rfl follows rfl rfl,
      grows_modify (RecoverySession.setState_id _) rfl follows⟩
  | insertingSigner | deletingSigner | rotating | invalidatingTokens | insertingToken | usingToken
  | auditingOpened | auditingToken | auditingApproval | auditingCompletion | auditingRejection =>
    cases sent
    exact ⟨h.of_eq rfl rfl rfl, .of_eq rfl⟩
  | _ => cases sent

theorem tracked_next {env : Environment B} {fresh : Fresh I B} {phase : Phase I B}
    (hphase : phase.Tracked s) {statement : Statement I B}
    (sent : phase.statement env fresh s.now = some statement) (grows : (statement.run s).Grows s) :
    (phase.next env fresh s.now).Tracked (statement.run s) := by
  cases phase with
  | call call =>
    cases call with
    | createManagedKey userId recoveryThreshold => exact trivial
    | _ => cases sent
  | usingToken session approval => exact grows.known hphase
  | approving session approval =>
    cases sent
    obtain ⟨row, hrow, hid⟩ := hphase
    refine ⟨_, (Keyed.mem_modify (RecoverySession.approve_id _ _)).2 ⟨row, hrow, rfl⟩, ?_⟩
    rw [if_pos hid]
    exact ⟨hid, List.mem_append_right _ (List.mem_singleton_self _)⟩
  | auditingApproval approval => exact grows.recorded hphase
  | auditingOpened session signer => cases signer <;> exact trivial
  | auditingRejection expired => cases expired <;> exact trivial
  | insertingSigner | deletingSigner | rotating | invalidatingTokens | insertingToken | completing
  | rejecting | insertingSession | auditingToken | auditingCompletion => exact trivial
  | _ => cases sent

omit [DecidableEq I] [DecidableEq B] in
theorem State.Tracked.note (h : s.Tracked) {phase : Phase I B} (hphase : phase.Tracked s) :
    (s.note phase).Tracked := by
  cases phase with
  | rereading approval =>
    refine { h with recorded := ?_ }
    intro report hreport
    rcases List.mem_append.1 hreport with hreport | hreport
    · exact h.recorded report hreport
    · rw [List.mem_singleton.1 hreport]
      exact hphase
  | _ => exact h.of_eq rfl rfl rfl

theorem tracked_look {env : Environment B} {phase phase' : Phase I B} (hphase : phase.Tracked s)
    (hlook : look env s phase = .ok phase') : phase'.Tracked s := by
  cases look_cases env hlook with
  | approval keyId session approval hmem hid => exact ⟨session, hmem, hid.symm⟩
  | signer | token | key | same => exact hphase
  | awaiting keyId session hmem => exact ⟨session, hmem, rfl⟩
  | expired | cancelled | rejected => exact trivial
  | plain _ _ idle => cases phase' <;> first | exact trivial | cases idle

theorem checked_look {env : Environment B} {phase phase' : Phase I B} (checked : phase.Checked)
    (hlook : look env s phase = .ok phase') : phase'.Checked := by
  cases look_cases env hlook with
  | approval keyId session approval hmem hid hkey isOpen => exact isOpen
  | cancelled keyId session hmem isOpen => exact isOpen
  | awaiting keyId session hmem hkey awaiting | expired keyId session hmem awaiting =>
    rw [Phase.Checked, awaiting]
    rfl
  | signer | token | key | rejected | same => exact checked
  | plain _ _ idle => cases phase' <;> first | exact trivial | cases idle

omit [DecidableEq I] [DecidableEq B] in
theorem checked_next {env : Environment B} {fresh : Fresh I B} {now : ℕ} {phase : Phase I B}
    (checked : phase.Checked) : (phase.next env fresh now).Checked := by
  cases phase with
  | call call => cases call <;> exact trivial
  | auditingOpened session signer => cases signer <;> exact trivial
  | auditingRejection expired => cases expired <;> exact trivial
  | checkingSigner | checkingToken | usingToken | readingKey | readingRejected => exact checked
  | _ => exact trivial

theorem step_checked {env : Environment B} {input : Input I B} {phase : Phase I B}
    (checked : phase.Checked) : (step env input s phase).2.Checked := by
  cases input with
  | passes elapsed => exact checked
  | crash => exact trivial
  | turn fresh answer =>
    rcases turn_cases env fresh answer s phase with
      ⟨statement, -, -, hnext | ⟨-, -, hnext⟩⟩ | ⟨-, ⟨-, hs⟩ | ⟨error, hs⟩ | ⟨phase', hlook, hs⟩⟩
    · rw [step, hnext]
      exact trivial
    · rw [step, hnext]
      exact checked_next checked
    · rw [step, hs]
      exact checked
    · rw [step, hs]
      exact trivial
    · rw [step, hs]
      exact checked_look checked hlook

omit [DecidableEq I] [DecidableEq B] in
theorem note_grows (phase : Phase I B) : (s.note phase).Grows s := by
  cases phase <;> exact .of_eq rfl

theorem step_tracked {env : Environment B} {input : Input I B} {phase : Phase I B} (h : s.Tracked)
    (hphase : phase.Tracked s) (checked : phase.Checked)
    (calm : Undisturbed env input s phase) :
    (step env input s phase).1.Tracked ∧
      (step env input s phase).2.Tracked (step env input s phase).1 ∧
      (step env input s phase).1.Grows s := by
  have unchanged : s.Grows s := .of_eq rfl
  cases input with
  | passes elapsed =>
    have grows : (step env (.passes elapsed) s phase).1.Grows s := .of_eq rfl
    exact ⟨h.of_eq rfl rfl rfl, hphase.grows grows, grows⟩
  | crash => exact ⟨h, trivial, unchanged⟩
  | turn fresh answer =>
    rcases turn_cases env fresh answer s phase with
      ⟨statement, sent, hs, hnext⟩ | ⟨-, ⟨-, hs⟩ | ⟨error, hs⟩ | ⟨phase', hlook, hs⟩⟩
    · simp only [step, hs, State.execute]
      by_cases hexecutes : statement.Admitted s ∧ answer.executed
      · have undisturbed := calm ⟨hexecutes.2, statement, sent, hexecutes.1⟩
        obtain ⟨tracked, grows⟩ := tracked_run h hphase checked sent hexecutes.1 undisturbed
        simp only [if_pos hexecutes]
        refine ⟨tracked, ?_, grows⟩
        rcases hnext with hnext | ⟨-, -, hnext⟩
        · rw [hnext]
          exact trivial
        · rw [hnext]
          exact tracked_next hphase sent grows
      · simp only [if_neg hexecutes]
        refine ⟨h, ?_, unchanged⟩
        rcases hnext with hnext | ⟨admitted, answered, -⟩
        · rw [hnext]
          exact trivial
        · exact absurd ⟨admitted, DbAnswer.executed_of_answered answered⟩ hexecutes
    · rw [step, hs]
      exact ⟨h, hphase, unchanged⟩
    · rw [step, hs]
      exact ⟨h, trivial, unchanged⟩
    · rw [step, hs]
      have grows := note_grows (s := s) phase
      exact ⟨h.note hphase, (tracked_look hphase hlook).grows grows, grows⟩

end Turns

/-! ## Runs -/

variable [DecidableEq I] [DecidableEq B] [DecidableEq ι] {env : Environment B}

/-- In a run in which no call writes to a session that another has finished, or approved, since the
call has read it, no terminal state is left, no reported approval is lost, and no session rotates
twice. -/
theorem sessions_lawful {w : World I B ι} (initial : w.Initial) {schedule : List (ι × Input I B)}
    (calm : Runs.Every (advance (step env))
      (fun w turn => Undisturbed env turn.2 w.shared (w.locals turn.1)) w schedule)
    {pre : List (ι × Input I B)} (h : pre <+: schedule) :
    SessionsLawful (run (step env) w pre).shared := by
  have start : Holds State.Tracked (fun s phase => phase.Tracked s ∧ phase.Checked) w := by
    obtain ⟨now, hnow⟩ := initial.shared
    constructor
    · rw [hnow]
      exact ⟨nofun, nofun, nofun, List.nodup_nil, nofun⟩
    · intro i
      obtain ⟨call, hcall⟩ := initial.fresh i
      rw [hcall]
      exact ⟨trivial, trivial⟩
  have tracked : Holds State.Tracked (fun s phase => phase.Tracked s ∧ phase.Checked)
      (run (step env) w pre) := by
    apply inv_run_of_every _ _ start (calm.of_prefix h)
    intro w turn hw hturn
    obtain ⟨hphase, checked⟩ := hw.2 turn.1
    obtain ⟨own, phase_, grows⟩ := step_tracked hw.1 hphase checked hturn
    exact holds_advance hw ⟨own, phase_, step_checked checked⟩
      fun phase hphase => ⟨hphase.1.grows grows, hphase.2⟩
  exact ⟨tracked.1.absorbed, tracked.1.recorded, List.nodup_iff_count_le_one.1 tracked.1.nodup⟩

theorem approvals_in_turn_kept :
    let calls := openedSession 2 ++ [Call.initiateRecovery 1 202 (some 5),
      Call.approveRecovery 1 ⟨5, 201, 31, 232⟩, Call.approveRecovery 1 ⟨5, 202, 32, 234⟩,
      Call.completeRecovery 1 5]
    let final := (run (step plainEnvironment) (World.of calls) (openSession ++
      List.replicate 5 (answered 4 0 32) ++ List.replicate 7 (answered 5 0 0) ++
      List.replicate 7 (answered 6 0 0) ++ List.replicate 4 (answered 7 2 12))).shared
    final.reported = [(5, 201), (5, 202)] ∧ SessionsLawful final :=
  ⟨by decide +kernel, sessions_lawful (World.of_initial _) (by decide +kernel) List.prefix_rfl⟩

/-- Two signers approve side by side, and the second writes over the first. -/
def approvedSideBySide : World ℕ ℕ ℕ :=
  run (step plainEnvironment) (World.of (openedSession 2 ++ [.initiateRecovery 1 202 (some 5),
    .approveRecovery 1 ⟨5, 201, 31, 232⟩, .approveRecovery 1 ⟨5, 202, 32, 234⟩]))
    (openSession ++ List.replicate 5 (answered 4 0 32) ++ List.replicate 4 (answered 5 0 0) ++
      List.replicate 4 (answered 6 0 0) ++ List.replicate 3 (answered 5 0 0) ++ [answered 6 0 0])

/-- An approved session, and two calls that each take two turns before the first of them, and then
the second, goes on to its write. -/
def finishedSideBySide (first second : Call ℕ ℕ) : World ℕ ℕ ℕ :=
  run (step plainEnvironment)
    (World.of (openedSession 1 ++ [.approveRecovery 1 ⟨5, 201, 31, 232⟩, first, second]))
    (openSession ++ List.replicate 7 (answered 4 0 0) ++ List.replicate 2 (answered 5 0 0) ++
      List.replicate 2 (answered 6 0 0) ++ [answered 5 2 12, answered 6 3 13])

/-- A reported approval is lost, a completed session is rejected, and one session rotates twice. -/
theorem side_by_side_unlawful :
    ¬ SessionsLawful approvedSideBySide.shared ∧
    ¬ SessionsLawful (finishedSideBySide (.completeRecovery 1 5)
      (.cancelRecoverySession 1 5)).shared ∧
    ¬ SessionsLawful (finishedSideBySide (.completeRecovery 1 5)
      (.completeRecovery 1 5)).shared := by
  refine ⟨?_, ?_, ?_⟩
  · intro hlawful
    obtain ⟨session, hmem, hid, hsigner⟩ := hlawful.recorded (5, 201) (by decide +kernel)
    have lost : ∀ session ∈ approvedSideBySide.shared.sessions.rows, 201 ∉ session.approvedBy := by
      decide +kernel
    exact lost session hmem hsigner
  · intro hlawful
    have left : ∃ session ∈ (finishedSideBySide (.completeRecovery 1 5)
        (.cancelRecoverySession 1 5)).shared.sessions.rows,
        (RecoverySessionState.completed, RecoverySessionState.rejected) ∈ session.stateWrites := by
      decide +kernel
    obtain ⟨session, hmem, hwrite⟩ := left
    exact absurd (hlawful.absorbed session hmem _ hwrite rfl) nofun
  · intro hlawful
    exact absurd (hlawful.once 5) (by decide +kernel)

end MobileMoney.Sep30
