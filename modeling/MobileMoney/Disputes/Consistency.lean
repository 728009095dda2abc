import MobileMoney.Disputes.Program

/-!
# Disputes and their transactions

A call of `openDispute` or `resolvePayment` that runs alone, with any reads and any failures on
the way. The update of the transaction can be refused by its own table of transitions, and the
call succeeds all the same.
-/

namespace MobileMoney.Disputes

open Queue (TransactionStatus)

variable {D T : Type}

/-- The turns of a call, up to its end. -/
def runCall [DecidableEq D] [DecidableEq T] :
    List (Input D T) → State D T → Phase D T → State D T × Phase D T
  | [], s, phase => (s, phase)
  | input :: inputs, s, phase =>
    if phase.AtRest then (s, phase)
    else runCall inputs (step input s phase).1 (step input s phase).2

theorem inv_runCall [DecidableEq D] [DecidableEq T] (I : State D T → Phase D T → Prop)
    (keeps : ∀ input s phase, I s phase → phase.AtRest = false →
      I (step input s phase).1 (step input s phase).2)
    {s : State D T} {phase : Phase D T} (h : I s phase) (inputs : List (Input D T)) :
    I (runCall inputs s phase).1 (runCall inputs s phase).2 := by
  induction inputs generalizing s phase with
  | nil => exact h
  | cons input inputs ih =>
    unfold runCall
    split_ifs with hrest
    · exact h
    · exact ih (keeps input s phase h (by simpa using hrest))

/-! ## What the statements leave alone -/

section Tables

variable {s : State D T} {statement : Statement D T} {answer : DbAnswer}

theorem execute_of_executed (h : answer.executed = true) :
    (s.execute statement answer).tables.current = statement.run s.tables.current := by
  simp [State.execute, h]

theorem execute_answered :
    (s.execute statement .answered).tables.current = statement.run s.tables.current :=
  execute_of_executed rfl

theorem execute_transactions
    (h : (statement.run s.tables.current).transactions = s.tables.current.transactions) :
    (s.execute statement answer).tables.current.transactions = s.tables.current.transactions := by
  unfold State.execute
  split_ifs
  · exact h
  · rfl

theorem insertDispute_transactions [DecidableEq D] [DecidableEq T] (db : Database D T)
    (dispute : Dispute D T) :
    ((Statement.insertDispute dispute).run db).transactions = db.transactions := by
  simp only [Statement.insertDispute]
  split_ifs <;> rfl

end Tables

/-! ## Opening a dispute -/

/-- The transaction as the update to the status of a dispute leaves it. -/
def Database.disputed (db : Database D T) (t : T) : Option Transaction :=
  (db.transactions t).map (·.withStatus .dispute)

/-- The status of the transaction, if there is one, is among these. -/
def Database.HasStatus (db : Database D T) (t : T) (statuses : List TransactionStatus) : Prop :=
  ∃ transaction ∈ db.transactions t, transaction.status ∈ statuses

instance (db : Database D T) (t : T) (statuses : List TransactionStatus) :
    Decidable (db.HasStatus t statuses) :=
  inferInstanceAs (Decidable (∃ transaction ∈ db.transactions t, _))

theorem hasStatus_dispute_iff {db db' : Database D T} {t : T}
    (h : db'.transactions t = db.disputed t) :
    db'.HasStatus t [.dispute] ↔ db.HasStatus t [.completed, .dispute] := by
  have hdispute : ∀ status, Queue.updateStatus status .dispute = .dispute ↔
      status = .completed ∨ status = .dispute := by
    intro status
    cases status <;> decide
  simp [Database.HasStatus, h, Database.disputed, Transaction.withStatus, hdispute]

/-- What is known of the transactions while `openDispute` runs. -/
def Opening (db : Database D T) (input : CreateDisputeInput T) (s : State D T) :
    Phase D T → Prop
  | .findTransaction input' | .findActive input' | .create input' =>
    input' = input ∧ s.tables.current.transactions = db.transactions
  | .markDispute dispute =>
    dispute.transactionId = input.transactionId ∧
      s.tables.current.transactions = db.transactions
  | .succeeded dispute =>
    dispute.transactionId = input.transactionId ∧
      s.tables.current.transactions input.transactionId = db.disputed input.transactionId
  | .idle | .threw _ => True
  | _ => False

section Opening

variable {db : Database D T} {input : CreateDisputeInput T} {s : State D T}

theorem opening_checkTransaction (h : s.tables.current.transactions = db.transactions)
    (found : Option Transaction) : Opening db input s (checkTransaction input found) := by
  cases found with
  | none => trivial
  | some transaction =>
    simp only [checkTransaction]
    split_ifs
    · exact ⟨rfl, h⟩
    · trivial

theorem opening_checkActive (h : s.tables.current.transactions = db.transactions)
    (found : Option (Dispute D T)) : Opening db input s (checkActive input found) := by
  cases found with
  | none => exact ⟨rfl, h⟩
  | some existing => trivial

variable [DecidableEq D] [DecidableEq T]

theorem opening_query {source : Replicated.Source} {answer : DbAnswer} {phase : Phase D T}
    (h : Opening db input s phase) (running : phase.AtRest = false) :
    Opening db input (query source answer s phase).1 (query source answer s phase).2 := by
  cases phase with
  | findTransaction input' =>
    obtain ⟨rfl, hsame⟩ := h
    simp only [query, State.find]
    split_ifs
    · exact opening_checkTransaction hsame _
    · trivial
  | findActive input' =>
    obtain ⟨rfl, hsame⟩ := h
    simp only [query, State.find]
    split_ifs
    · exact opening_checkActive hsame _
    · trivial
  | create input' => exact h
  | markDispute dispute =>
    obtain ⟨ht, hsame⟩ := h
    simp only [query, State.write]
    split_ifs with hanswer
    · subst hanswer
      refine ⟨ht, ?_⟩
      rw [execute_answered]
      simp [Statement.updateTransaction, Database.disputed, ht, hsame]
    · trivial
  | succeeded | idle | threw => cases running
  | _ => exact h.elim

theorem opening_step {turn : Input D T} {phase : Phase D T} (h : Opening db input s phase)
    (running : phase.AtRest = false) :
    Opening db input (step turn s phase).1 (step turn s phase).2 := by
  cases turn with
  | query source answer => exact opening_query h running
  | passes => cases phase <;> exact h
  | select => cases phase <;> first | exact h | exact h.elim
  | begin call =>
    simp only [step, running]
    exact h
  | insert id answer =>
    cases phase with
    | create input' =>
      obtain ⟨rfl, hsame⟩ := h
      simp only [step, insert, State.write]
      split_ifs
      · refine ⟨rfl, ?_⟩
        rw [execute_transactions (insertDispute_transactions _ _), hsame]
      · trivial
      · trivial
    | _ => exact h
  | payout => cases phase <;> first | exact h | exact h.elim
  | crash => trivial

end Opening

/-! ## Resolving a payment -/

/-- The dispute is recorded as reversed just when its transaction is. -/
def Database.Consistent (db : Database D T) (dispute : Dispute D T) : Prop :=
  dispute.status = .reversed ↔
    ∃ transaction ∈ db.transactions dispute.transactionId, transaction.status = .reversed

/-- The transactions that the action leaves as the dispute then says. -/
def Database.Settles (db : Database D T) (t : T) : DisputeResolutionAction → Prop
  | .reverse => ∃ transaction ∈ db.transactions t,
    transaction.status = .completed ∨ transaction.status = .dispute ∨
      transaction.status = .reversed
  | .uphold => ∀ transaction ∈ db.transactions t, transaction.status ≠ .reversed

/-- The dispute has the status that the action gives it. -/
def Recorded [DecidableEq D] (id : D) (action : DisputeResolutionAction) (s : State D T)
    (dispute : Dispute D T) : Prop :=
  s.tables.current.disputes.find? id = some dispute ∧ dispute.status = action.disputeStatus

/-- What is known of the tables while `resolvePayment` runs. -/
def Resolving [DecidableEq D] (db : Database D T) (id : D) (action : DisputeResolutionAction)
    (s : State D T) : Phase D T → Prop
  | .findForResolve id' action' _ _ =>
    id' = id ∧ action' = action ∧ s.tables.current.transactions = db.transactions
  | .resolveDispute dispute action' _ _ =>
    dispute.id = id ∧ action' = action ∧ s.tables.current.transactions = db.transactions ∧
      ∀ dispute' ∈ s.tables.current.disputes.find? id,
        dispute'.transactionId = dispute.transactionId
  | .resolveTransaction dispute updated action' =>
    action' = action ∧ s.tables.current.transactions = db.transactions ∧
      Recorded id action s updated ∧ updated.transactionId = dispute.transactionId
  | .noteResolution updated | .succeeded updated =>
    Recorded id action s updated ∧
      s.tables.current.transactions updated.transactionId =
        (db.transactions updated.transactionId).map (·.withStatus action.transactionStatus)
  | .idle | .threw _ => True
  | _ => False

section Resolving

variable [DecidableEq D] {db : Database D T} {id : D} {action : DisputeResolutionAction}
  {s : State D T}

/-- Whatever replica has answered, the dispute belongs to the transaction that was read. -/
theorem transactionId_of_read {source : Replicated.Source} {dispute dispute' : Dispute D T}
    (h : (s.tables.read source).disputes.find? id = some dispute)
    (h' : s.tables.current.disputes.find? id = some dispute') :
    dispute'.transactionId = dispute.transactionId := by
  obtain ⟨hmem, rfl⟩ := Keyed.of_find? h
  obtain ⟨hmem', hid'⟩ := Keyed.of_find? h'
  obtain ⟨row, hrow, hid, ht⟩ := s.current_extends.read source dispute hmem
  rw [← ht, Keyed.eq_of_mem _ hmem' hrow (hid'.trans hid.symm)]

theorem resolving_checkResolve {source : Replicated.Source} {resolution : String}
    {adminId : Option String} (h : s.tables.current.transactions = db.transactions) :
    Resolving db id action s
      (checkResolve id action resolution adminId ((s.tables.read source).disputes.find? id)) := by
  cases found : (s.tables.read source).disputes.find? id with
  | none => trivial
  | some dispute =>
    simp only [checkResolve]
    split_ifs
    · trivial
    · exact ⟨(Keyed.of_find? found).2, rfl, h,
        fun dispute' hdispute' => transactionId_of_read found hdispute'⟩

variable [DecidableEq T]

theorem resolving_resolveDispute {dispute : Dispute D T} {resolution : String}
    {adminId : Option String} {answer : DbAnswer} (source : Replicated.Source)
    (h : Resolving db id action s (.resolveDispute dispute action resolution adminId)) :
    Resolving db id action
      (query source answer s (.resolveDispute dispute action resolution adminId)).1
      (query source answer s (.resolveDispute dispute action resolution adminId)).2 := by
  obtain ⟨rfl, -, hsame, ht⟩ := h
  simp only [query, State.update]
  split_ifs with hanswer
  · subst hanswer
    cases found : s.tables.current.disputes.find? dispute.id with
    | none => trivial
    | some dispute' =>
      refine ⟨rfl, ?_, ⟨?_, rfl⟩, ht dispute' found⟩
      · rw [execute_answered, ← hsame]
        rfl
      · rw [execute_answered, updateDispute_find?_self, found]
        rfl
  · trivial

theorem resolving_resolveTransaction {dispute updated : Dispute D T} {answer : DbAnswer}
    (h : Resolving db id action s (.resolveTransaction dispute updated action)) :
    Resolving db id action (resolveTransaction s dispute updated action answer).1
      (resolveTransaction s dispute updated action answer).2 := by
  obtain ⟨-, hsame, hrecorded, ht⟩ := h
  have hsettle : (resolveTransaction s dispute updated action answer).1.tables =
      (s.execute (.updateTransaction dispute.transactionId action.transactionStatus)
        answer).tables := by
    simp only [resolveTransaction, State.write]
    split_ifs <;> rfl
  cases answer with
  | failed executed => trivial
  | answered =>
    refine ⟨⟨?_, hrecorded.2⟩, ?_⟩
    · rw [hsettle, execute_answered]
      exact hrecorded.1
    · rw [hsettle, execute_answered, ht]
      simp [Statement.updateTransaction, hsame]

theorem resolving_step {turn : Input D T} {phase : Phase D T} (h : Resolving db id action s phase)
    (running : phase.AtRest = false) :
    Resolving db id action (step turn s phase).1 (step turn s phase).2 := by
  cases turn with
  | query source answer =>
    cases phase with
    | findForResolve id' action' resolution adminId =>
      obtain ⟨rfl, rfl, hsame⟩ := h
      simp only [step, query, State.find]
      split_ifs
      · exact resolving_checkResolve hsame
      · trivial
    | resolveDispute dispute action' resolution adminId =>
      obtain rfl := h.2.1
      exact resolving_resolveDispute source h
    | resolveTransaction dispute updated action' =>
      obtain rfl := h.1
      exact resolving_resolveTransaction h
    | noteResolution updated =>
      simp only [step, query, State.note]
      split_ifs
      · exact h
      · trivial
    | succeeded | idle | threw => cases running
    | _ => exact h.elim
  | passes => cases phase <;> exact h
  | begin call =>
    simp only [step, running]
    exact h
  | select | insert | payout => cases phase <;> first | exact h | exact h.elim
  | crash => trivial

end Resolving

/-- The update to `reversed` is refused unless the transaction was completed, disputed or
reversed; upholding never reverses anything. -/
theorem consistent_iff_settles {db db' : Database D T} {action : DisputeResolutionAction}
    {dispute : Dispute D T} (hstatus : dispute.status = action.disputeStatus)
    (h : db'.transactions dispute.transactionId =
      (db.transactions dispute.transactionId).map (·.withStatus action.transactionStatus)) :
    db'.Consistent dispute ↔ db.Settles dispute.transactionId action := by
  simp only [Database.Consistent, h, hstatus]
  cases action with
  | reverse =>
    simp [Database.Settles, DisputeResolutionAction.disputeStatus,
      DisputeResolutionAction.transactionStatus, Transaction.withStatus,
      Queue.updateStatus_reversed]
  | uphold =>
    have hcompleted : ∀ status, Queue.updateStatus status .completed = .reversed ↔
        status = .reversed := by
      intro status
      cases status <;> decide
    simp [Database.Settles, DisputeResolutionAction.disputeStatus,
      DisputeResolutionAction.transactionStatus, Transaction.withStatus, hcompleted]

/-! ## Both calls -/

/-- After `openDispute` the transaction is disputed just when it was completed or disputed
before, and after `resolvePayment` the two records agree just when the transaction had a status
that the action leaves as it should. -/
theorem records_agree_iff [DecidableEq D] [DecidableEq T] (s : State D T)
    (inputs : List (Input D T)) (s' : State D T) (dispute : Dispute D T) :
    (∀ input, runCall inputs s (Call.openDispute input).begin = (s', .succeeded dispute) →
      dispute.transactionId = input.transactionId ∧
        (s'.tables.current.HasStatus input.transactionId [.dispute] ↔
          s.tables.current.HasStatus input.transactionId [.completed, .dispute])) ∧
    ∀ id action resolution adminId,
      runCall inputs s (Call.resolvePayment id action resolution adminId).begin =
        (s', .succeeded dispute) →
      s'.tables.current.disputes.find? id = some dispute ∧
        (s'.tables.current.Consistent dispute ↔
          s.tables.current.Settles dispute.transactionId action) := by
  constructor
  · intro input hrun
    have started : Opening s.tables.current input s (Call.openDispute input).begin := ⟨rfl, rfl⟩
    have opening := inv_runCall (Opening s.tables.current input)
      (fun _ _ _ h running => opening_step h running) started inputs
    rw [hrun] at opening
    obtain ⟨ht, htransaction⟩ := opening
    exact ⟨ht, hasStatus_dispute_iff htransaction⟩
  · intro id action resolution adminId hrun
    have started : Resolving s.tables.current id action s
        (Call.resolvePayment id action resolution adminId).begin := by
      simp only [Call.begin]
      split_ifs
      · trivial
      · exact ⟨rfl, rfl, rfl⟩
    have resolving := inv_runCall (Resolving s.tables.current id action)
      (fun _ _ _ h running => resolving_step h running) started inputs
    rw [hrun] at resolving
    obtain ⟨⟨hfound, hstatus⟩, htransaction⟩ := resolving
    exact ⟨hfound, consistent_iff_settles hstatus htransaction⟩

/-! ## Particular calls -/

/-- One transaction, and nothing disputed yet. -/
def oneTransaction (status : TransactionStatus) : State ℕ ℕ :=
  .of ⟨⟨[], List.nodup_nil⟩, fun t =>
    if t = 0 then some ⟨status, "mtn", "+237670000000", "5000"⟩ else none⟩

def complaint : CreateDisputeInput ℕ := ⟨0, "Not received", none, none, none⟩

def read : Input ℕ ℕ := .query .primary .answered

def openingTurns : List (Input ℕ ℕ) := [read, read, .insert 7 .answered, read]

def resolvingTurns : List (Input ℕ ℕ) := [read, read, read, read]

theorem records_agree_completed :
    (runCall openingTurns (oneTransaction .completed)
      (Call.openDispute complaint).begin).1.tables.current.HasStatus 0 [.dispute] := by
  have agrees := (records_agree_iff (oneTransaction .completed) openingTurns
    (runCall openingTurns (oneTransaction .completed) (Call.openDispute complaint).begin).1
    (complaint.row 7 0)).1 complaint (by rfl)
  exact agrees.2.2 (by decide)

/-- A dispute about a failed transaction is opened and then reversed; the transaction stays
failed all the time. -/
theorem failed_transaction_disagrees :
    let opened := runCall openingTurns (oneTransaction .failed) (Call.openDispute complaint).begin
    let resolved := runCall resolvingTurns opened.1
      (Call.resolvePayment 7 .reverse "Refund" none).begin
    opened.2 = .succeeded (complaint.row 7 0) ∧
      opened.1.tables.current.HasStatus 0 [.failed] ∧
      resolved.2 = .succeeded { complaint.row 7 0 with
        status := .reversed, resolution := some "Refund" } ∧
      resolved.1.tables.current.HasStatus 0 [.failed] := by
  refine ⟨by rfl, by decide, by rfl, by decide⟩

end MobileMoney.Disputes
