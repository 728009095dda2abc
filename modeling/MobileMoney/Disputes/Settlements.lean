import MobileMoney.Disputes.Program
import MobileMoney.Library.Ownership

/-!
# The settlements of disputes

Sweeps, resolutions and manual updates read a dispute, find it active and write its status without
looking at it again. As long as no other process has closed it in between, no dispute leaves a
terminal status, and at most one process at a time is between such a write and the settlement that
follows it, which makes a second settlement impossible.
-/

namespace MobileMoney.Disputes

variable {D T : Type}

/-! ## What a phase has before it -/

/-- The status that the next statement writes, and to which dispute. -/
def Phase.write : Phase D T → Option (D × DisputeStatus)
  | .updateStatus dispute input => input.status.map fun status => (dispute.id, status)
  | .resolveDispute dispute action _ _ => some (dispute.id, action.disputeStatus)
  | .advance updated _ => some (updated.id, .investigating)
  | .autoResolve (row :: _) => some (row.id, .resolved)
  | _ => none

/-- The process has resolved the dispute and its settlement is still to come. -/
def Phase.Pending (d : D) : Phase D T → Prop
  | .resolveTransaction dispute _ action => dispute.id = d ∧ action = .reverse
  | .autoNote (row :: _) | .retrieve (row :: _) | .sendPayout _ (row :: _) => row.id = d
  | _ => False

/-! ## Where nothing is pending -/

section Pending

variable {d : D}

theorem not_pending_dueDatesOf (rows : List (Dispute D T)) : ¬ (dueDatesOf rows).Pending d := by
  cases rows <;> exact id

theorem not_pending_visit (rows : List (Dispute D T)) : ¬ (visit rows).Pending d := by
  cases rows <;> exact id

theorem not_pending_checkTransaction (input : CreateDisputeInput T) (found : Option Transaction) :
    ¬ (checkTransaction input found : Phase D T).Pending d := by
  cases found with
  | none => exact id
  | some transaction =>
    simp only [checkTransaction]
    split_ifs <;> exact id

theorem not_pending_checkActive (input : CreateDisputeInput T) (found : Option (Dispute D T)) :
    ¬ (checkActive input found).Pending d := by
  cases found <;> exact id

theorem not_pending_checkUpdate (id' : D) (newStatus : DisputeStatus)
    (resolution assignedTo : Option String) (found : Option (Dispute D T)) :
    ¬ (checkUpdate id' newStatus resolution assignedTo found).Pending d := by
  cases found with
  | none => exact id
  | some dispute =>
    simp only [checkUpdate]
    split_ifs <;> exact id

theorem not_pending_checkResolve (id' : D) (action : DisputeResolutionAction)
    (resolution : String) (adminId : Option String) (found : Option (Dispute D T)) :
    ¬ (checkResolve id' action resolution adminId found).Pending d := by
  cases found with
  | none => exact id
  | some dispute =>
    simp only [checkResolve]
    split_ifs <;> exact id

theorem not_pending_checkAssign (id' : D) (agentName : String) (found : Option (Dispute D T)) :
    ¬ (checkAssign id' agentName found).Pending d := by
  cases found with
  | none => exact id
  | some dispute =>
    simp only [checkAssign]
    split_ifs <;> exact id

theorem not_pending_afterAssign (agentName : String) (updated : Dispute D T) :
    ¬ (afterAssign agentName updated).Pending d := by
  unfold afterAssign
  split_ifs <;> exact id

theorem not_pending_begin (call : Call D T) : ¬ call.begin.Pending d := by
  cases call with
  | resolvePayment id' action resolution adminId =>
    simp only [Call.begin]
    split_ifs <;> exact id
  | _ => exact id

end Pending

/-! ## The kinds of turns -/

def Input.executed : Input D T → Bool
  | .query _ answer => answer.executed
  | _ => false

variable [DecidableEq D]

def Database.statusOf (db : Database D T) (d : D) : Option DisputeStatus :=
  (db.disputes.find? d).map (·.status)

/-- No status is changed; new disputes may have come. -/
def Keeps (s s' : State D T) : Prop :=
  ∀ d status, s.tables.current.statusOf d = some status →
    s'.tables.current.statusOf d = some status

theorem Keeps.refl (s : State D T) : Keeps s s := fun _ _ h => h

/-- The three kinds of turns: one that changes no status and no settlement, one that writes a
status, and one that settles a dispute that it has resolved. -/
inductive Turn (s : State D T) (phase : Phase D T) (executed : Bool) :
    State D T → Phase D T → Prop
  | keeps {s' phase'} (statuses : Keeps s s') (settlements : s'.settlements = s.settlements)
      (pending : ∀ d, phase'.Pending d → phase.Pending d) : Turn s phase executed s' phase'
  | writes {s' phase'} (id : D) (status : DisputeStatus)
      (write : phase.write = some (id, status)) (wasExecuted : executed = true)
      (written : ∀ d, s'.tables.current.statusOf d =
        if d = id then (s.tables.current.statusOf d).map fun _ => status
        else s.tables.current.statusOf d)
      (settlements : s'.settlements = s.settlements)
      (pending : ∀ d, phase'.Pending d → d = id ∧ status ∈ terminalStatuses)
      (idle : ∀ d, ¬ phase.Pending d) : Turn s phase executed s' phase'
  | settles {s' phase'} (settlement : Settlement D) (pending : phase.Pending settlement.disputeId)
      (statuses : Keeps s s') (settlements : s'.settlements = s.settlements ++ [settlement])
      (ended : ∀ d, ¬ phase'.Pending d) : Turn s phase executed s' phase'

/-! ## The statements and the statuses -/

section Statements

variable {s : State D T} {answer : DbAnswer} {id : D} {input : UpdateDisputeInput}

omit [DecidableEq D] in
@[simp] theorem execute_settlements (s : State D T) (statement : Statement D T)
    (answer : DbAnswer) : (s.execute statement answer).settlements = s.settlements := by
  unfold State.execute
  split_ifs <;> rfl

theorem keeps_execute {statement : Statement D T}
    (h : ∀ d status, s.tables.current.statusOf d = some status →
      (statement.run s.tables.current).statusOf d = some status) :
    Keeps s (s.execute statement answer) := by
  unfold State.execute
  split_ifs
  · exact h
  · exact Keeps.refl s

theorem statusOf_updateDispute (db : Database D T) {status : DisputeStatus}
    (h : input.status = some status) (d : D) :
    ((Statement.updateDispute id input).run db).statusOf d =
      if d = id then (db.statusOf d).map fun _ => status else db.statusOf d := by
  unfold Database.statusOf
  split_ifs with hd
  · subst hd
    rw [updateDispute_find?_self, Option.map_map, Option.map_map]
    apply Option.map_congr
    intro dispute _
    simp [UpdateDisputeInput.apply, h]
  · rw [updateDispute_find?_of_ne db input hd]

theorem statusOf_assign (db : Database D T) (h : input.status = none) (d : D) :
    ((Statement.updateDispute id input).run db).statusOf d = db.statusOf d := by
  unfold Database.statusOf
  by_cases hd : d = id
  · subst hd
    rw [updateDispute_find?_self, Option.map_map]
    apply Option.map_congr
    intro dispute _
    simp [UpdateDisputeInput.apply, h]
  · rw [updateDispute_find?_of_ne db input hd]

theorem statusOf_setDueDate (db : Database D T) (slaDueDate : ℕ) (d : D) :
    ((Statement.setDueDate id slaDueDate).run db).statusOf d = db.statusOf d := by
  rw [Database.statusOf, setDueDate_find?, Option.map_map]
  apply Option.map_congr
  intro dispute _
  simp only [Function.comp_apply]
  split_ifs <;> rfl

variable [DecidableEq T]

theorem statusOf_insertDispute (db : Database D T) (dispute : Dispute D T) {d : D}
    {status : DisputeStatus} (h : db.statusOf d = some status) :
    ((Statement.insertDispute dispute).run db).statusOf d = some status := by
  obtain ⟨row, hfound, hstatus⟩ := Option.map_eq_some_iff.1 h
  obtain ⟨hmem, rfl⟩ := Keyed.of_find? hfound
  simp only [Statement.insertDispute]
  split_ifs
  · rw [Database.statusOf, Keyed.find?_insert_of_mem hmem, Option.map_some, hstatus]
  · exact h

end Statements

/-! ## Every turn is of one of these kinds -/

section Turns

variable {s : State D T} {phase : Phase D T} {executed : Bool}

/-- A turn that has changed nothing. -/
theorem Turn.of_not_pending {phase' : Phase D T} (h : ∀ d, ¬ phase'.Pending d) :
    Turn s phase executed s phase' :=
  .keeps (Keeps.refl s) rfl fun d hd => absurd hd (h d)

theorem turn_find {source : Replicated.Source} {answer : DbAnswer}
    {next : Database D T → Phase D T} (h : ∀ db d, ¬ (next db).Pending d) :
    Turn s phase executed (s.find source answer next).1 (s.find source answer next).2 := by
  unfold State.find
  split_ifs
  · exact .of_not_pending (h _)
  · exact .of_not_pending fun _ => id

/-- A statement that leaves the statuses as they are. -/
theorem turn_write {statement : Statement D T} {answer : DbAnswer} {next : Phase D T}
    (h : ∀ d status, s.tables.current.statusOf d = some status →
      (statement.run s.tables.current).statusOf d = some status)
    (hnext : ∀ d, ¬ next.Pending d) :
    Turn s phase executed (s.write statement answer next).1 (s.write statement answer next).2 := by
  refine .keeps (keeps_execute h) (execute_settlements ..) ?_
  intro d hd
  simp only [State.write] at hd
  split_ifs at hd
  · exact absurd hd (hnext d)
  · exact hd.elim

/-- A statement that writes a status. -/
theorem Turn.of_update {id : D} {input : UpdateDisputeInput} {status : DisputeStatus}
    {answer : DbAnswer} {phase' : Phase D T} (hwrite : phase.write = some (id, status))
    (hstatus : input.status = some status) (idle : ∀ d, ¬ phase.Pending d)
    (hnext : ∀ d, phase'.Pending d →
      answer.executed = true ∧ d = id ∧ status ∈ terminalStatuses) :
    Turn s phase answer.executed (s.execute (.updateDispute id input) answer) phase' := by
  by_cases hexecuted : answer.executed = true
  · refine .writes id status hwrite hexecuted ?_ (execute_settlements ..)
      (fun d hd => (hnext d hd).2) idle
    intro d
    rw [← statusOf_updateDispute s.tables.current hstatus d]
    simp [State.execute, hexecuted]
  · have hsame : s.execute (.updateDispute id input) answer = s := by
      simp [State.execute, hexecuted]
    rw [hsame]
    exact .of_not_pending fun d hd => hexecuted (hnext d hd).1

theorem turn_update {id : D} {input : UpdateDisputeInput} {status : DisputeStatus}
    {answer : DbAnswer} {next : Dispute D T → Phase D T}
    (hwrite : phase.write = some (id, status)) (hstatus : input.status = some status)
    (idle : ∀ d, ¬ phase.Pending d)
    (hnext : ∀ dispute d, (next dispute).Pending d → d = id ∧ status ∈ terminalStatuses) :
    Turn s phase answer.executed (s.update id input answer next).1
      (s.update id input answer next).2 := by
  refine .of_update hwrite hstatus idle ?_
  intro d hd
  simp only [State.update] at hd
  split_ifs at hd with hanswer
  · cases found : s.tables.current.disputes.find? id with
    | none =>
      rw [found] at hd
      exact hd.elim
    | some dispute =>
      rw [found] at hd
      obtain ⟨rfl, hterminal⟩ := hnext _ d hd
      exact ⟨DbAnswer.executed_of_answered hanswer, rfl, hterminal⟩
  · exact hd.elim

theorem turn_assign {id : D} {input : UpdateDisputeInput} {answer : DbAnswer}
    {next : Dispute D T → Phase D T} (hstatus : input.status = none)
    (hnext : ∀ dispute d, ¬ (next dispute).Pending d) :
    Turn s phase executed (s.update id input answer next).1 (s.update id input answer next).2 := by
  refine .keeps (keeps_execute ?_) (execute_settlements ..) ?_
  · intro d status h
    rw [statusOf_assign _ hstatus, h]
  · intro d hd
    simp only [State.update] at hd
    split_ifs at hd
    · cases found : s.tables.current.disputes.find? id with
      | none =>
        rw [found] at hd
        exact hd.elim
      | some dispute =>
        rw [found] at hd
        exact absurd hd (hnext _ d)
    · exact hd.elim

theorem turn_note {answer : DbAnswer} {next thrown : Phase D T}
    (hnext : ∀ d, next.Pending d → phase.Pending d) (hthrown : ∀ d, ¬ thrown.Pending d) :
    Turn s phase executed (s.note answer next thrown).1 (s.note answer next thrown).2 := by
  unfold State.note
  split_ifs
  · exact .keeps (Keeps.refl s) rfl hnext
  · exact .of_not_pending hthrown

variable [DecidableEq T]

theorem turn_resolveTransaction {dispute updated : Dispute D T}
    {action : DisputeResolutionAction} {answer : DbAnswer} :
    Turn s (.resolveTransaction dispute updated action) executed
      (resolveTransaction s dispute updated action answer).1
      (resolveTransaction s dispute updated action answer).2 := by
  have statuses : Keeps s (s.execute
      (.updateTransaction dispute.transactionId action.transactionStatus) answer) :=
    keeps_execute fun _ _ h => h
  have ended : ∀ d, ¬ (resolveTransaction s dispute updated action answer).2.Pending d := by
    intro d
    simp only [resolveTransaction, State.write]
    split_ifs <;> exact id
  by_cases hreverses : answer.executed = true ∧
      s.tables.current.Reverses dispute.transactionId action.transactionStatus
  · have hreverse : action = .reverse := by
      obtain ⟨-, hstatus, -⟩ := hreverses
      cases action with
      | reverse => rfl
      | uphold => cases hstatus
    have hshared : (resolveTransaction s dispute updated action answer).1 =
        (s.execute (.updateTransaction dispute.transactionId action.transactionStatus)
          answer).settle (.reversal dispute.id) := by
      simp only [resolveTransaction, State.write]
      rw [if_pos hreverses]
    rw [hshared]
    refine .settles (.reversal dispute.id) ⟨rfl, hreverse⟩ statuses ?_ ended
    simp [State.settle]
  · have hshared : (resolveTransaction s dispute updated action answer).1 =
        s.execute (.updateTransaction dispute.transactionId action.transactionStatus) answer := by
      simp only [resolveTransaction, State.write]
      rw [if_neg hreverses]
    rw [hshared]
    exact .keeps statuses (execute_settlements ..) fun d hd => absurd hd (ended d)

theorem turn_query (source : Replicated.Source) (answer : DbAnswer) :
    Turn s phase answer.executed (query source answer s phase).1
      (query source answer s phase).2 := by
  cases phase with
  | findTransaction input => exact turn_find fun _ _ => not_pending_checkTransaction _ _
  | findActive input => exact turn_find fun _ _ => not_pending_checkActive _ _
  | findForUpdate => exact turn_find fun _ _ => not_pending_checkUpdate _ _ _ _ _
  | findForResolve => exact turn_find fun _ _ => not_pending_checkResolve _ _ _ _ _
  | findForAssign => exact turn_find fun _ _ => not_pending_checkAssign _ _ _
  | markDispute dispute => exact turn_write (fun _ _ h => h) fun _ => id
  | updateStatus dispute input =>
    cases hstatus : input.status with
    | none => exact turn_assign hstatus fun _ _ => not_false
    | some status =>
      exact turn_update (by simp [Phase.write, hstatus]) hstatus (fun _ => not_false)
        fun _ _ h => h.elim
  | resolveDispute dispute action resolution adminId =>
    refine turn_update rfl rfl (fun _ => id) ?_
    rintro updated d ⟨rfl, rfl⟩
    exact ⟨rfl, by decide⟩
  | resolveTransaction => exact turn_resolveTransaction
  | noteResolution => exact turn_note (fun _ h => h.elim) fun _ => id
  | assign => exact turn_assign rfl fun _ _ => not_pending_afterAssign _ _
  | advance => exact turn_update rfl rfl (fun _ => id) fun _ _ h => h.elim
  | setDueDates rows =>
    cases rows with
    | nil => exact .of_not_pending fun _ => id
    | cons row rows =>
      refine turn_write ?_ fun _ => not_pending_dueDatesOf rows
      intro d status h
      rw [statusOf_setDueDate, h]
  | autoResolve rows =>
    cases rows with
    | nil => exact .of_not_pending fun _ => id
    | cons row rows =>
      refine .of_update rfl rfl (fun _ => id) ?_
      intro d hd
      simp only [query, State.write] at hd
      split_ifs at hd with hanswer
      · obtain rfl : row.id = d := hd
        exact ⟨DbAnswer.executed_of_answered hanswer, rfl, by decide⟩
      · exact hd.elim
  | autoNote rows =>
    cases rows with
    | nil => exact turn_note (fun _ h => h) fun _ => id
    | cons row rows => exact turn_note (fun _ h => h) fun _ => id
  | retrieve rows =>
    cases rows with
    | nil => exact .of_not_pending fun _ => id
    | cons row rows =>
      refine .keeps (Keeps.refl s) rfl ?_
      intro d hd
      simp only [query, State.find] at hd
      split_ifs at hd
      · cases found : (s.tables.read source).transactions row.transactionId with
        | none =>
          rw [found] at hd
          exact absurd hd (not_pending_visit rows)
        | some transaction =>
          rw [found] at hd
          exact hd
      · exact hd.elim
  | notePayout rows => exact turn_note (fun _ h => absurd h (not_pending_visit _)) fun _ => id
  | noteException rows =>
    exact turn_note (fun _ h => absurd h (not_pending_visit _)) fun _ => id
  | selectUntimelocked => exact turn_find fun _ _ => id
  | selectOverdue => exact turn_find fun _ _ => id
  | _ => exact .keeps (Keeps.refl s) rfl fun _ h => h

theorem turn_step (input : Input D T) :
    Turn s phase input.executed (step input s phase).1 (step input s phase).2 := by
  cases input with
  | query source answer => exact turn_query source answer
  | passes elapsed => exact .keeps (Keeps.refl s) rfl fun _ h => h
  | crash => exact .of_not_pending fun _ => id
  | begin call =>
    refine .keeps (Keeps.refl s) rfl ?_
    intro d hd
    simp only [step] at hd
    split_ifs at hd
    · exact absurd hd (not_pending_begin call)
    · exact hd
  | select source rows =>
    refine .keeps (Keeps.refl s) rfl ?_
    intro d hd
    cases phase with
    | selectUntimelocked =>
      simp only [step, select] at hd
      split_ifs at hd
      · exact absurd hd (not_pending_dueDatesOf rows)
      · exact hd
    | selectOverdue =>
      simp only [step, select] at hd
      split_ifs at hd
      · exact absurd hd (not_pending_visit rows)
      · exact hd
    | _ => exact hd
  | insert id answer =>
    cases phase with
    | create input =>
      refine turn_write (fun d status h => statusOf_insertDispute _ _ h) ?_
      intro d
      split_ifs <;> exact not_false
    | _ => exact .keeps (Keeps.refl s) rfl fun _ h => h
  | payout throws =>
    cases phase with
    | sendPayout transaction rows =>
      cases rows with
      | nil => exact .keeps (Keeps.refl s) rfl fun _ h => h
      | cons row rows =>
        refine .settles (.payout row.id transaction) rfl (fun _ _ h => h) rfl ?_
        intro d
        cases throws <;> exact id
    | _ => exact .keeps (Keeps.refl s) rfl fun _ h => h

end Turns

/-! ## Disputes that are settled once -/

/-- The dispute has a terminal status. -/
def Closed (s : State D T) (d : D) : Prop :=
  ∃ status ∈ s.tables.current.statusOf d, status ∈ terminalStatuses

def settled (s : State D T) (d : D) : ℕ := (s.settlements.map (·.disputeId)).count d

/-- The dispute that the next statement writes a status to, as the process has read it. -/
def Phase.read : Phase D T → Option (Dispute D T)
  | .updateStatus dispute _ | .resolveDispute dispute _ _ _ | .advance dispute _ => some dispute
  | .autoResolve (row :: _) => some row
  | _ => none

/-- A dispute that was active when the process has read it is active still when the statement that
writes its status is executed. -/
def Undisturbed (executed : Bool) (s : State D T) (phase : Phase D T) : Prop :=
  executed = true → ∀ dispute ∈ phase.read, dispute.Active →
    ∃ row ∈ s.tables.current.disputes.find? dispute.id, row.Active

instance (executed : Bool) (s : State D T) (phase : Phase D T) :
    Decidable (Undisturbed executed s phase) :=
  inferInstanceAs (Decidable (_ → ∀ dispute ∈ phase.read, _ → ∃ row ∈ _, _))

/-- What a process has read was active, where it is going to write its status. -/
def Phase.Checked : Phase D T → Prop
  | .updateStatus dispute _ | .resolveDispute dispute _ _ _ | .advance dispute _ => dispute.Active
  | .autoResolve rows | .autoNote rows | .retrieve rows | .sendPayout _ rows | .notePayout rows
  | .noteException rows => ∀ row ∈ rows, row.Active
  | _ => True

/-- A statement that writes a status finds the dispute active. -/
def Timely (executed : Bool) (s : State D T) (phase : Phase D T) : Prop :=
  executed = true → ∀ write ∈ phase.write,
    ∃ dispute ∈ s.tables.current.disputes.find? write.1, dispute.Active

theorem timely_of_checked {executed : Bool} {s : State D T} {phase : Phase D T}
    (checked : phase.Checked) (calm : Undisturbed executed s phase) :
    Timely executed s phase := by
  intro hexecuted write hwrite
  cases phase with
  | updateStatus dispute input =>
    obtain ⟨status, -, rfl⟩ := Option.mem_map.1 hwrite
    exact calm hexecuted dispute rfl checked
  | resolveDispute dispute =>
    cases hwrite
    exact calm hexecuted dispute rfl checked
  | advance updated =>
    cases hwrite
    exact calm hexecuted updated rfl checked
  | autoResolve rows =>
    cases rows with
    | nil => cases hwrite
    | cons row rows =>
      cases hwrite
      exact calm hexecuted row rfl (checked row List.mem_cons_self)
  | _ => cases hwrite

/-- Nobody is about to settle the dispute, which has been settled once at most. -/
def Unclaimed (d : D) (s : State D T) : Prop :=
  settled s d = 0 ∨ settled s d = 1 ∧ Closed s d

/-- The process is the one to settle the dispute. -/
def Claimed (d : D) (s : State D T) (phase : Phase D T) : Prop :=
  phase.Pending d ∧ settled s d = 0 ∧ Closed s d

section Steps

variable {s s' : State D T} {phase phase' : Phase D T} {executed : Bool} {d : D}

theorem not_closed_of_active {dispute : Dispute D T}
    (h : s.tables.current.disputes.find? d = some dispute) (hactive : dispute.Active) :
    ¬ Closed s d := by
  rintro ⟨status, hstatus, hterminal⟩
  simp only [Database.statusOf, h, Option.map_some, Option.mem_some_iff] at hstatus
  subst hstatus
  rcases hactive with hactive | hactive <;> rw [hactive] at hterminal <;> revert hterminal <;>
    decide

theorem settled_congr (h : s'.settlements = s.settlements) : settled s' d = settled s d := by
  rw [settled, settled, h]

theorem settled_settle {settlement : Settlement D}
    (h : s'.settlements = s.settlements ++ [settlement]) :
    settled s' d = settled s d + if settlement.disputeId = d then 1 else 0 := by
  simp [settled, h, List.count_append, List.count_singleton, beq_iff_eq]

omit [DecidableEq D] in
theorem Phase.Pending.unique {d d' : D} (h : phase.Pending d) (h' : phase.Pending d') :
    d = d' := by
  cases phase with
  | resolveTransaction => exact h.1.symm.trans h'.1
  | autoNote rows | retrieve rows | sendPayout _ rows =>
    cases rows with
    | nil => exact h.elim
    | cons row rows => exact h.symm.trans h'
  | _ => exact h.elim

theorem Turn.terminal_kept (h : Turn s phase executed s' phase')
    (timely : Timely executed s phase) {status : DisputeStatus}
    (hstatus : s.tables.current.statusOf d = some status)
    (hterminal : status ∈ terminalStatuses) : s'.tables.current.statusOf d = some status := by
  cases h with
  | keeps statuses => exact statuses d status hstatus
  | settles settlement pending statuses => exact statuses d status hstatus
  | writes id status' write wasExecuted written =>
    obtain ⟨dispute, hfound, hactive⟩ := timely wasExecuted _ write
    have hne : d ≠ id := by
      rintro rfl
      exact not_closed_of_active hfound hactive ⟨status, hstatus, hterminal⟩
    rw [written d, if_neg hne, hstatus]

theorem Turn.closed (h : Turn s phase executed s' phase')
    (timely : Timely executed s phase) (hclosed : Closed s d) : Closed s' d := by
  obtain ⟨status, hstatus, hterminal⟩ := hclosed
  exact ⟨status, h.terminal_kept timely hstatus hterminal, hterminal⟩

/-- Only the process that is about to settle the dispute settles it. -/
theorem Turn.settled_eq (h : Turn s phase executed s' phase') (hnot : ¬ phase.Pending d) :
    settled s' d = settled s d := by
  cases h with
  | keeps _ settlements => exact settled_congr settlements
  | writes _ _ _ _ _ settlements => exact settled_congr settlements
  | settles settlement pending _ settlements =>
    have hne : settlement.disputeId ≠ d := by
      rintro rfl
      exact hnot pending
    rw [settled_settle settlements, if_neg hne, Nat.add_zero]

/-- A process becomes the one to settle the dispute by closing it. -/
theorem Turn.claims (h : Turn s phase executed s' phase')
    (timely : Timely executed s phase) (hnot : ¬ phase.Pending d)
    (hpending : phase'.Pending d) : ¬ Closed s d ∧ Closed s' d := by
  cases h with
  | keeps _ _ pending => exact absurd (pending d hpending) hnot
  | settles _ _ _ _ ended => exact absurd hpending (ended d)
  | writes id status write wasExecuted written _ pending =>
    obtain ⟨rfl, hterminal⟩ := pending d hpending
    obtain ⟨dispute, hfound, hactive⟩ := timely wasExecuted _ write
    refine ⟨not_closed_of_active hfound hactive, status, ?_, hterminal⟩
    rw [written, if_pos rfl, Database.statusOf, hfound]
    rfl

/-- The process that is to settle the dispute is still the one, or has settled it, or gives up. -/
theorem Turn.claimed (h : Turn s phase executed s' phase')
    (timely : Timely executed s phase) (hclaimed : Claimed d s phase) :
    Claimed d s' phase' ∨ Unclaimed d s' ∧ ¬ phase'.Pending d := by
  have hclosed := h.closed timely hclaimed.2.2
  cases h with
  | writes _ _ _ _ _ _ _ idle => exact absurd hclaimed.1 (idle d)
  | keeps _ settlements =>
    have hnone : settled s' d = 0 := (settled_congr settlements).trans hclaimed.2.1
    by_cases hpending : phase'.Pending d
    · exact .inl ⟨hpending, hnone, hclosed⟩
    · exact .inr ⟨.inl hnone, hpending⟩
  | settles settlement pending _ settlements ended =>
    have hone : settled s' d = 1 := by
      rw [settled_settle settlements, if_pos (pending.unique hclaimed.1), hclaimed.2.1]
    exact .inr ⟨.inr ⟨hone, hclosed⟩, ended d⟩

theorem Unclaimed.settled_eq_zero (h : Unclaimed d s) (hopen : ¬ Closed s d) :
    settled s d = 0 := by
  rcases h with h | h
  · exact h
  · exact absurd h.2 hopen

end Steps

/-! ## The checks of what is read -/

section Checks

omit [DecidableEq D] in
theorem active_of_not_terminal {dispute : Dispute D T} (h : dispute.status ∉ terminalStatuses) :
    dispute.Active := by
  unfold Dispute.Active
  cases hstatus : dispute.status <;> simp_all [terminalStatuses]

omit [DecidableEq D] in
theorem checkUpdate_checked (id : D) (newStatus : DisputeStatus)
    (resolution assignedTo : Option String) (found : Option (Dispute D T)) :
    (checkUpdate id newStatus resolution assignedTo found).Checked := by
  cases found with
  | none => exact trivial
  | some dispute =>
    simp only [checkUpdate]
    split_ifs with htransition
    · exact trivial
    · apply active_of_not_terminal
      intro hterminal
      cases hstatus : dispute.status <;> simp_all [terminalStatuses, transitions]
    · exact trivial

omit [DecidableEq D] in
theorem checkResolve_checked (id : D) (action : DisputeResolutionAction) (resolution : String)
    (adminId : Option String) (found : Option (Dispute D T)) :
    (checkResolve id action resolution adminId found).Checked := by
  cases found with
  | none => exact trivial
  | some dispute =>
    simp only [checkResolve]
    split_ifs with hterminal
    · exact trivial
    · exact active_of_not_terminal hterminal

omit [DecidableEq D] in
theorem visit_checked {rows : List (Dispute D T)} (h : ∀ row ∈ rows, row.Active) :
    (visit rows).Checked := by
  cases rows with
  | nil => exact trivial
  | cons row rows => exact h

omit [DecidableEq D] in
theorem find_checked {s : State D T} {source : Replicated.Source} {answer : DbAnswer}
    {next : Database D T → Phase D T} (h : ∀ db, (next db).Checked) :
    (s.find source answer next).2.Checked := by
  simp only [State.find]
  split_ifs
  · exact h _
  · exact trivial

theorem update_checked {s : State D T} {id : D} {input : UpdateDisputeInput} {answer : DbAnswer}
    {next : Dispute D T → Phase D T} (h : ∀ dispute, (next dispute).Checked) :
    (s.update id input answer next).2.Checked := by
  simp only [State.update]
  split_ifs
  · cases s.tables.current.disputes.find? id with
    | none => exact trivial
    | some dispute => exact h _
  · exact trivial

omit [DecidableEq D] in
theorem note_checked {s : State D T} {answer : DbAnswer} {next thrown : Phase D T}
    (hnext : next.Checked) (hthrown : thrown.Checked) :
    (s.note answer next thrown).2.Checked := by
  simp only [State.note]
  split_ifs
  · exact hnext
  · exact hthrown

variable [DecidableEq T] {s : State D T} {phase : Phase D T}

theorem query_checked (source : Replicated.Source) (answer : DbAnswer) (checked : phase.Checked) :
    (query source answer s phase).2.Checked := by
  cases phase with
  | findTransaction input =>
    apply find_checked
    intro db
    cases db.transactions input.transactionId with
    | none => exact trivial
    | some transaction =>
      simp only [checkTransaction]
      split_ifs <;> exact trivial
  | findActive input =>
    apply find_checked
    intro db
    cases db.findActiveByTransactionId input.transactionId <;> exact trivial
  | findForUpdate => exact find_checked fun _ => checkUpdate_checked _ _ _ _ _
  | findForResolve => exact find_checked fun _ => checkResolve_checked _ _ _ _ _
  | findForAssign id agentName =>
    apply find_checked
    intro db
    cases db.disputes.find? id with
    | none => exact trivial
    | some dispute =>
      simp only [checkAssign]
      split_ifs <;> exact trivial
  | selectUntimelocked | selectOverdue => exact find_checked fun _ => trivial
  | updateStatus | resolveDispute | advance => exact update_checked fun _ => trivial
  | assign =>
    apply update_checked
    intro updated
    simp only [afterAssign]
    split_ifs with hopened
    · exact Or.inl hopened
    · exact trivial
  | markDispute | resolveTransaction =>
    simp only [query, State.write, resolveTransaction]
    split_ifs <;> exact trivial
  | setDueDates rows =>
    cases rows with
    | nil => exact trivial
    | cons row rows =>
      simp only [query, State.write]
      split_ifs
      · cases rows <;> exact trivial
      · exact trivial
  | autoResolve rows =>
    cases rows with
    | nil => exact checked
    | cons row rows =>
      simp only [query, State.write]
      split_ifs
      · exact checked
      · exact trivial
  | retrieve rows =>
    cases rows with
    | nil => exact checked
    | cons row rows =>
      apply find_checked
      intro db
      cases db.transactions row.transactionId with
      | none => exact visit_checked fun row' hrow' => checked row' (List.mem_cons_of_mem _ hrow')
      | some transaction => exact checked
  | autoNote rows => exact note_checked checked trivial
  | notePayout rows =>
    exact note_checked (visit_checked fun row hrow => checked row (List.mem_of_mem_tail hrow))
      checked
  | noteException rows =>
    exact note_checked (visit_checked fun row hrow => checked row (List.mem_of_mem_tail hrow))
      trivial
  | noteResolution updated => exact note_checked trivial trivial
  | _ => exact checked

/-- A process goes on to write only to disputes that it has found active. -/
theorem step_checked (input : Input D T) (checked : phase.Checked) :
    (step input s phase).2.Checked := by
  cases input with
  | passes elapsed => exact checked
  | crash => exact trivial
  | query source answer => exact query_checked source answer checked
  | begin call =>
    simp only [step]
    split_ifs
    · cases call with
      | resolvePayment =>
        simp only [Call.begin]
        split_ifs <;> exact trivial
      | _ => exact trivial
    · exact checked
  | select source rows =>
    cases phase with
    | selectUntimelocked =>
      simp only [step, select]
      split_ifs
      · cases rows <;> exact trivial
      · exact trivial
    | selectOverdue =>
      simp only [step, select]
      split_ifs with hrows
      · apply visit_checked
        intro row hrow
        have hoverdue := List.mem_filter.1 (hrows.mem_iff.1 hrow)
        exact (of_decide_eq_true hoverdue.2).1
      · exact trivial
    | _ => exact checked
  | insert id answer =>
    cases phase with
    | create input =>
      simp only [step, insert, State.write]
      split_ifs <;> exact trivial
    | _ => exact checked
  | payout throws =>
    cases phase with
    | sendPayout transaction rows =>
      cases rows with
      | nil => exact checked
      | cons row rows => cases throws <;> exact checked
    | _ => exact checked

end Checks

/-! ## Runs -/

section Runs

open Interleaving (Exclusive)

variable [DecidableEq T] {ι : Type} [DecidableEq ι]

theorem exclusive_step {w : World D T ι} {turn : ι × Input D T} {d : D}
    (h : Exclusive (Phase.Pending d) (Unclaimed d) (Claimed d) w)
    (timely : Timely turn.2.executed w.shared (w.locals turn.1)) :
    Exclusive (Phase.Pending d) (Unclaimed d) (Claimed d)
      (Interleaving.advance step w turn) := by
  have hturn : Turn w.shared (w.locals turn.1) turn.2.executed
      (step turn.2 w.shared (w.locals turn.1)).1 (step turn.2 w.shared (w.locals turn.1)).2 :=
    turn_step turn.2
  apply Interleaving.exclusive_advance h
  · intro hfree hnot _
    rcases hfree with hnone | ⟨hone, hclosed⟩
    · exact .inl ((hturn.settled_eq hnot).trans hnone)
    · exact .inr ⟨(hturn.settled_eq hnot).trans hone, hturn.closed timely hclosed⟩
  · intro hfree hnot hpending
    obtain ⟨hopen, hclosed⟩ := hturn.claims timely hnot hpending
    exact ⟨hpending, (hturn.settled_eq hnot).trans (hfree.settled_eq_zero hopen), hclosed⟩
  · exact hturn.claimed timely
  · intro i _ hclaimed hnot
    refine ⟨⟨hclaimed.1, (hturn.settled_eq hnot).trans hclaimed.2.1,
      hturn.closed timely hclaimed.2.2⟩, ?_⟩
    intro hpending
    exact (hturn.claims timely hnot hpending).1 hclaimed.2.2

/-- Any tables without a replica behind, and processes that have just been started. -/
def start (db : Database D T) : World D T ι := ⟨.of db, fun _ => .idle⟩

def TimelyTurn (w : World D T ι) (turn : ι × Input D T) : Prop :=
  Timely turn.2.executed w.shared (w.locals turn.1)

def UndisturbedTurn (w : World D T ι) (turn : ι × Input D T) : Prop :=
  Undisturbed turn.2.executed w.shared (w.locals turn.1)

instance (w : World D T ι) (turn : ι × Input D T) : Decidable (UndisturbedTurn w turn) :=
  inferInstanceAs (Decidable (Undisturbed _ _ _))

theorem timely_of_undisturbed {db : Database D T} {schedule : List (ι × Input D T)}
    (calm : Runs.Every (Interleaving.advance step) UndisturbedTurn (start db) schedule) :
    Runs.Every (Interleaving.advance step) TimelyTurn (start db) schedule := by
  have initial : ∀ i, ((start db : World D T ι).locals i).Checked := fun _ => trivial
  apply Runs.Every.imp_of_inv (fun w : World D T ι => ∀ i, (w.locals i).Checked) _ _ initial
    schedule calm
  · intro w turn checked _
    exact Interleaving.locals_advance step Phase.Checked (step_checked turn.2 (checked turn.1))
      fun i _ => checked i
  · exact fun w turn checked hturn => timely_of_checked (checked turn.1) hturn

theorem statusOf_run_of_terminal {w : World D T ι} {schedule : List (ι × Input D T)}
    (timely : Runs.Every (Interleaving.advance step) TimelyTurn w schedule) {d : D}
    {status : DisputeStatus} (hterminal : status ∈ terminalStatuses)
    (h : w.shared.tables.current.statusOf d = some status) :
    (Interleaving.run step w schedule).shared.tables.current.statusOf d = some status :=
  Interleaving.inv_run_of_every (fun w => w.shared.tables.current.statusOf d = some status)
    (fun _ turn h hC => (turn_step turn.2).terminal_kept hC h hterminal) h timely

/-- As long as no dispute is closed between the moment in which a process has read it as active and
the process' own write of its status, no dispute is settled twice or leaves a terminal status. -/
theorem disputes_settled_once (db : Database D T) (schedule : List (ι × Input D T))
    (calm : Runs.Every (Interleaving.advance step) UndisturbedTurn (start db) schedule) :
    (∀ d, settled (Interleaving.run step (start db) schedule).shared d ≤ 1) ∧
      ∀ pre post, schedule = pre ++ post → ∀ d status,
        (Interleaving.run step (start db) pre).shared.tables.current.statusOf d = some status →
        status ∈ terminalStatuses →
        (Interleaving.run step (start db) schedule).shared.tables.current.statusOf d =
          some status := by
  have timely := timely_of_undisturbed calm
  constructor
  · intro d
    have initial : Exclusive (Phase.Pending d) (Unclaimed d) (Claimed d)
        (start db : World D T ι) := .inl ⟨.inl rfl, fun _ => id⟩
    have final := Interleaving.inv_run_of_every
      (Exclusive (Phase.Pending d) (Unclaimed d) (Claimed d))
      (fun _ _ h hC => exclusive_step h hC) initial timely
    rcases final with ⟨hnone | ⟨hone, -⟩, -⟩ | ⟨i, ⟨-, hnone, -⟩, -⟩ <;> omega
  · rintro pre post rfl d status h hterminal
    rw [Interleaving.run_append]
    exact statusOf_run_of_terminal (timely.drop pre) hterminal h

end Runs

/-! ## Particular runs -/

def overdueDispute : Dispute ℕ ℕ :=
  ⟨7, 0, "Not received", .opened, none, none, none, .medium, none, some 1, 0⟩

def oneDispute : Database ℕ ℕ :=
  ⟨⟨[overdueDispute], List.nodup_singleton _⟩, fun t =>
    if t = 0 then some ⟨.dispute, "mtn", "+237670000000", "5000"⟩ else none⟩

def answered (i : Bool) : Bool × Input ℕ ℕ := (i, .query .primary .answered)

/-- A sweep up to the dispute it finds overdue. -/
def findOverdue (i : Bool) : List (Bool × Input ℕ ℕ) :=
  [(i, .passes 5), (i, .begin .checkSlaDeadlines), (i, .select .primary []),
    (i, .select .primary [overdueDispute])]

/-- The resolution of the dispute, the note, the transaction and the payout. -/
def settle (i : Bool) : List (Bool × Input ℕ ℕ) :=
  [answered i, answered i, answered i, (i, .payout false)]

/-- The rejection of the dispute comes after the sweep and finds it resolved. -/
def rejection (i : Bool) : List (Bool × Input ℕ ℕ) :=
  [(i, .begin (.updateStatus 7 .rejected (some "No proof") none)), answered i, answered i]

theorem one_sweep_settles :
    settled (Interleaving.run step (start oneDispute)
      (findOverdue true ++ settle true ++ rejection false)).shared 7 ≤ 1 :=
  (disputes_settled_once oneDispute (findOverdue true ++ settle true ++ rejection false)
    (by decide +kernel)).1 7

/-- Two sweeps find the dispute overdue and both pay it out; a sweep resolves a dispute that has
been rejected since it was found, and pays it out. -/
theorem settled_twice :
    settled (Interleaving.run step (start oneDispute)
        (findOverdue true ++ findOverdue false ++ settle true ++ settle false)).shared 7 = 2 ∧
      (Interleaving.run step (start oneDispute)
        (findOverdue true ++ rejection false)).shared.tables.current.statusOf 7 =
          some .rejected ∧
      (Interleaving.run step (start oneDispute)
        (findOverdue true ++ rejection false ++ settle true)).shared.tables.current.statusOf 7 =
          some .resolved := by
  decide +kernel

end MobileMoney.Disputes
