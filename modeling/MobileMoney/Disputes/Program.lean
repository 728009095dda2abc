import MobileMoney.Library.Answers
import MobileMoney.Library.Interleaving
import MobileMoney.Library.Keyed
import MobileMoney.Queue.Status

/-!
# Disputes

`services/dispute.ts` and the sweep `checkSlaDeadlines` of `services/disputeStateMachine.ts`.
Calls and sweeps of any number of processes take turns; a turn is one query, one payout or a
crash. Reads may be answered by a replica that lags behind, and a query that fails may have been
executed. Notifications, the texts of errors and calls that write no status are left out; of the
notes only the turn that inserts one is kept.
-/

namespace MobileMoney.Disputes

open Queue (TransactionStatus)

variable {D T : Type}

/-- An open dispute is `opened` here. -/
inductive DisputeStatus where
  | opened | investigating | resolved | rejected | reversed | upheld
  deriving DecidableEq, Repr

inductive DisputePriority where
  | low | medium | high | critical
  deriving DecidableEq, Repr

/-- `TRANSITIONS`. -/
def transitions : DisputeStatus → List DisputeStatus
  | .opened => [.investigating, .resolved, .rejected, .reversed, .upheld]
  | .investigating => [.resolved, .rejected, .reversed, .upheld]
  | .resolved | .rejected | .reversed | .upheld => []

/-- `TERMINAL_STATUSES`. -/
def terminalStatuses : List DisputeStatus := [.resolved, .rejected, .reversed, .upheld]

def getSlaHoursHelper : DisputePriority → ℕ
  | .critical => 4
  | .high => 24
  | .medium => 72
  | .low => 168

structure CreateDisputeInput (T : Type) where
  transactionId : T
  reason : String
  reportedBy : Option String
  priority : Option DisputePriority
  category : Option String
  deriving DecidableEq

structure Dispute (D T : Type) where
  id : D
  transactionId : T
  reason : String
  status : DisputeStatus
  assignedTo : Option String
  resolution : Option String
  reportedBy : Option String
  priority : DisputePriority
  category : Option String
  slaDueDate : Option ℕ
  createdAt : ℕ
  deriving DecidableEq

structure Transaction where
  status : TransactionStatus
  provider : String
  phoneNumber : String
  amount : String
  deriving DecidableEq

def Dispute.Active (dispute : Dispute D T) : Prop :=
  dispute.status = .opened ∨ dispute.status = .investigating

instance (dispute : Dispute D T) : Decidable dispute.Active :=
  inferInstanceAs (Decidable (_ ∨ _))

/-! ## The tables -/

structure Database (D T : Type) where
  disputes : Keyed fun dispute : Dispute D T => dispute.id
  transactions : T → Option Transaction

/-- No dispute is deleted or handed to another transaction. -/
def Database.Extends (new old : Database D T) : Prop :=
  ∀ dispute ∈ old.disputes.rows, ∃ dispute' ∈ new.disputes.rows,
    dispute'.id = dispute.id ∧ dispute'.transactionId = dispute.transactionId

theorem Database.Extends.refl (db : Database D T) : db.Extends db :=
  fun dispute hdispute => ⟨dispute, hdispute, rfl, rfl⟩

theorem Database.Extends.trans {newer new old : Database D T} (h : newer.Extends new)
    (h' : new.Extends old) : newer.Extends old := by
  intro dispute hdispute
  obtain ⟨dispute', hmem', hid', ht'⟩ := h' dispute hdispute
  obtain ⟨dispute'', hmem'', hid'', ht''⟩ := h dispute' hmem'
  exact ⟨dispute'', hmem'', hid''.trans hid', ht''.trans ht'⟩

structure Statement (D T : Type) where
  run : Database D T → Database D T
  extends_run : ∀ db, (run db).Extends db

structure UpdateDisputeInput where
  status : Option DisputeStatus
  resolution : Option String
  assignedTo : Option String

def UpdateDisputeInput.apply (input : UpdateDisputeInput) (dispute : Dispute D T) :
    Dispute D T :=
  { dispute with
    status := input.status.getD dispute.status
    resolution := input.resolution <|> dispute.resolution
    assignedTo := input.assignedTo <|> dispute.assignedTo }

@[simp] theorem UpdateDisputeInput.apply_id (input : UpdateDisputeInput) (dispute : Dispute D T) :
    (input.apply dispute).id = dispute.id := rfl

def Dispute.withDueDate (slaDueDate : ℕ) (dispute : Dispute D T) : Dispute D T :=
  { dispute with slaDueDate := some slaDueDate }

@[simp] theorem Dispute.withDueDate_id (slaDueDate : ℕ) (dispute : Dispute D T) :
    (dispute.withDueDate slaDueDate).id = dispute.id := rfl

def CreateDisputeInput.row (input : CreateDisputeInput T) (id : D) (now : ℕ) : Dispute D T where
  id := id
  transactionId := input.transactionId
  reason := input.reason
  status := .opened
  assignedTo := none
  resolution := none
  reportedBy := input.reportedBy
  priority := input.priority.getD .medium
  category := input.category
  slaDueDate := none
  createdAt := now

section Statements

variable [DecidableEq D] [DecidableEq T]

def Database.findActiveByTransactionId (db : Database D T) (t : T) : Option (Dispute D T) :=
  db.disputes.rows.find? fun dispute => dispute.transactionId = t ∧ dispute.Active

/-- The unique index on the transactions of active disputes, and the primary key. -/
def Database.Admits (db : Database D T) (dispute : Dispute D T) : Prop :=
  db.findActiveByTransactionId dispute.transactionId = none ∧
    db.disputes.find? dispute.id = none

instance (db : Database D T) (dispute : Dispute D T) : Decidable (db.Admits dispute) :=
  inferInstanceAs (Decidable (_ ∧ _))

def Statement.insertDispute (dispute : Dispute D T) : Statement D T where
  run db := if db.Admits dispute then { db with disputes := db.disputes.insert dispute } else db
  extends_run db := by
    intro row hrow
    split_ifs
    · exact ⟨row, Keyed.mem_insert_of_mem hrow, rfl, rfl⟩
    · exact ⟨row, hrow, rfl, rfl⟩

omit [DecidableEq T] in
theorem extends_modify (db : Database D T) (id : D) (f : Dispute D T → Dispute D T)
    (hid : ∀ dispute, (f dispute).id = dispute.id)
    (ht : ∀ dispute, (f dispute).transactionId = dispute.transactionId) :
    Database.Extends { db with disputes := db.disputes.modify id f hid } db := by
  intro row hrow
  refine ⟨if row.id = id then f row else row, ?_, ?_, ?_⟩
  · exact (Keyed.mem_modify hid).2 ⟨row, hrow, rfl⟩
  · split_ifs
    · exact hid row
    · rfl
  · split_ifs
    · exact ht row
    · rfl

def Statement.updateDispute (id : D) (input : UpdateDisputeInput) : Statement D T where
  run db := { db with disputes := db.disputes.modify id input.apply input.apply_id }
  extends_run db := extends_modify db id input.apply input.apply_id fun _ => rfl

omit [DecidableEq T] in
theorem updateDispute_find?_self (db : Database D T) (id : D) (input : UpdateDisputeInput) :
    ((Statement.updateDispute id input).run db).disputes.find? id =
      (db.disputes.find? id).map input.apply :=
  Keyed.find?_modify_self input.apply_id

omit [DecidableEq T] in
theorem updateDispute_find?_of_ne (db : Database D T) {id id' : D} (input : UpdateDisputeInput)
    (h : id' ≠ id) : ((Statement.updateDispute id input).run db).disputes.find? id' =
      db.disputes.find? id' :=
  Keyed.find?_modify_of_ne input.apply_id h

def Statement.setDueDate (id : D) (slaDueDate : ℕ) : Statement D T where
  run db := { db with
    disputes :=
      db.disputes.modify id (Dispute.withDueDate slaDueDate) (Dispute.withDueDate_id slaDueDate) }
  extends_run db := extends_modify db id _ (Dispute.withDueDate_id slaDueDate) fun _ => rfl

omit [DecidableEq T] in
theorem setDueDate_find? (db : Database D T) (id id' : D) (slaDueDate : ℕ) :
    ((Statement.setDueDate id slaDueDate).run db).disputes.find? id' =
      (db.disputes.find? id').map fun dispute =>
        if dispute.id = id then dispute.withDueDate slaDueDate else dispute :=
  Keyed.find?_modify (Dispute.withDueDate_id slaDueDate) id'

def Transaction.withStatus (status : TransactionStatus) (transaction : Transaction) :
    Transaction :=
  { transaction with status := Queue.updateStatus transaction.status status }

def Statement.updateTransaction (t : T) (status : TransactionStatus) : Statement D T where
  run db := { db with
    transactions :=
      Function.update db.transactions t ((db.transactions t).map (·.withStatus status)) }
  extends_run db := Database.Extends.refl db

end Statements

/-! ## What happens outside the tables -/

/-- Money that has been moved for a dispute: a payout of the sweep, or a transaction that
`resolvePayment` has reversed. -/
inductive Settlement (D : Type) where
  | payout (disputeId : D) (transaction : Transaction)
  | reversal (disputeId : D)
  deriving DecidableEq

def Settlement.disputeId : Settlement D → D
  | .payout disputeId _ => disputeId
  | .reversal disputeId => disputeId

structure State (D T : Type) where
  now : ℕ
  tables : Replicated (Database D T)
  current_extends : tables.All tables.current.Extends
  settlements : List (Settlement D)

def State.execute (s : State D T) (statement : Statement D T) (answer : DbAnswer) : State D T :=
  if answer.executed then
    { s with
      tables := s.tables.write (statement.run s.tables.current)
      current_extends :=
        (s.current_extends.mono fun _ => (statement.extends_run _).trans).write
          (Database.Extends.refl _) }
  else s

def State.settle (s : State D T) (settlement : Settlement D) : State D T :=
  { s with settlements := s.settlements ++ [settlement] }

/-! ## The calls -/

inductive DisputeResolutionAction where
  | reverse | uphold
  deriving DecidableEq, Repr

/-- The `resolution` of `resolvePayment` is the text without the white space around it. -/
inductive Call (D T : Type) where
  | openDispute (input : CreateDisputeInput T)
  | updateStatus (id : D) (newStatus : DisputeStatus) (resolution assignedTo : Option String)
  | resolvePayment (id : D) (action : DisputeResolutionAction) (resolution : String)
      (adminId : Option String)
  | assignToAgent (id : D) (agentName : String)
  | checkSlaDeadlines

inductive DisputeError (D T : Type) where
  | transactionNotFound (t : T)
  | notDisputable (status : TransactionStatus)
  | alreadyActive (id : D)
  | disputeNotFound (id : D)
  | cannotTransition (status newStatus : DisputeStatus)
  | resolutionRequired
  | cannotResolve (status : DisputeStatus)
  | cannotAssign (status : DisputeStatus)
  | database
  deriving DecidableEq

/-- What a process waits for, with what it has read. A sweep keeps the rows it has still to
visit, the first one being the one it is at. -/
inductive Phase (D T : Type) where
  | idle
  | findTransaction (input : CreateDisputeInput T)
  | findActive (input : CreateDisputeInput T)
  | create (input : CreateDisputeInput T)
  | markDispute (dispute : Dispute D T)
  | findForUpdate (id : D) (newStatus : DisputeStatus) (resolution assignedTo : Option String)
  | updateStatus (dispute : Dispute D T) (input : UpdateDisputeInput)
  | findForResolve (id : D) (action : DisputeResolutionAction) (resolution : String)
      (adminId : Option String)
  | resolveDispute (dispute : Dispute D T) (action : DisputeResolutionAction)
      (resolution : String) (adminId : Option String)
  | resolveTransaction (dispute updated : Dispute D T) (action : DisputeResolutionAction)
  | noteResolution (updated : Dispute D T)
  | findForAssign (id : D) (agentName : String)
  | assign (id : D) (agentName : String)
  | advance (updated : Dispute D T) (agentName : String)
  | selectUntimelocked
  | setDueDates (rows : List (Dispute D T))
  | selectOverdue
  | autoResolve (rows : List (Dispute D T))
  | autoNote (rows : List (Dispute D T))
  | retrieve (rows : List (Dispute D T))
  | sendPayout (transaction : Transaction) (rows : List (Dispute D T))
  | notePayout (rows : List (Dispute D T))
  | noteException (rows : List (Dispute D T))
  | succeeded (dispute : Dispute D T)
  | swept
  | threw (error : DisputeError D T)

/-- `rows` are what a select of a sweep has answered, in the order of the database. -/
inductive Input (D T : Type) where
  | passes (elapsed : ℕ)
  | begin (call : Call D T)
  | query (source : Replicated.Source) (answer : DbAnswer)
  | select (source : Replicated.Source) (rows : List (Dispute D T))
  | insert (id : D) (answer : DbAnswer)
  | payout (throws : Bool)
  | crash

def Phase.AtRest : Phase D T → Bool
  | .idle | .succeeded _ | .swept | .threw _ => true
  | _ => false

def Call.begin : Call D T → Phase D T
  | .openDispute input => .findTransaction input
  | .updateStatus id newStatus resolution assignedTo =>
    .findForUpdate id newStatus resolution assignedTo
  | .resolvePayment id action resolution adminId =>
    if resolution = "" then .threw .resolutionRequired
    else .findForResolve id action resolution adminId
  | .assignToAgent id agentName => .findForAssign id agentName
  | .checkSlaDeadlines => .selectUntimelocked

/-! ## The checks on what has been read -/

def checkTransaction (input : CreateDisputeInput T) : Option Transaction → Phase D T
  | none => .threw (.transactionNotFound input.transactionId)
  | some transaction =>
    if transaction.status = .completed ∨ transaction.status = .failed then .findActive input
    else .threw (.notDisputable transaction.status)

def checkActive (input : CreateDisputeInput T) : Option (Dispute D T) → Phase D T
  | none => .create input
  | some existing => .threw (.alreadyActive existing.id)

def checkUpdate (id : D) (newStatus : DisputeStatus) (resolution assignedTo : Option String) :
    Option (Dispute D T) → Phase D T
  | none => .threw (.disputeNotFound id)
  | some dispute =>
    if newStatus ∈ transitions dispute.status then
      if newStatus ∈ terminalStatuses ∧ (resolution = none ∨ resolution = some "") then
        .threw .resolutionRequired
      else .updateStatus dispute ⟨some newStatus, resolution, assignedTo⟩
    else .threw (.cannotTransition dispute.status newStatus)

def checkResolve (id : D) (action : DisputeResolutionAction) (resolution : String)
    (adminId : Option String) : Option (Dispute D T) → Phase D T
  | none => .threw (.disputeNotFound id)
  | some dispute =>
    if dispute.status ∈ terminalStatuses then .threw (.cannotResolve dispute.status)
    else .resolveDispute dispute action resolution adminId

def checkAssign (id : D) (agentName : String) : Option (Dispute D T) → Phase D T
  | none => .threw (.disputeNotFound id)
  | some dispute =>
    if dispute.status ∈ terminalStatuses then .threw (.cannotAssign dispute.status)
    else .assign id agentName

/-! ## The turns -/

def State.find (s : State D T) (source : Replicated.Source) (answer : DbAnswer)
    (next : Database D T → Phase D T) : State D T × Phase D T :=
  (s, if answer = .answered then next (s.tables.read source) else .threw .database)

def State.write (s : State D T) (statement : Statement D T) (answer : DbAnswer)
    (next : Phase D T) : State D T × Phase D T :=
  (s.execute statement answer, if answer = .answered then next else .threw .database)

/-- The insertion of a note. -/
def State.note (s : State D T) (answer : DbAnswer) (next thrown : Phase D T) :
    State D T × Phase D T :=
  (s, if answer = .answered then next else thrown)

def DisputeResolutionAction.disputeStatus : DisputeResolutionAction → DisputeStatus
  | .reverse => .reversed
  | .uphold => .upheld

def DisputeResolutionAction.transactionStatus : DisputeResolutionAction → TransactionStatus
  | .reverse => .reversed
  | .uphold => .completed

def Dispute.slaDue (dispute : Dispute D T) : ℕ :=
  dispute.createdAt + getSlaHoursHelper dispute.priority * 60 * 60 * 1000

def Dispute.Overdue (now : ℕ) (dispute : Dispute D T) : Prop :=
  dispute.Active ∧ ∃ slaDueDate ∈ dispute.slaDueDate, slaDueDate < now

instance (now : ℕ) (dispute : Dispute D T) : Decidable (dispute.Overdue now) :=
  inferInstanceAs (Decidable (_ ∧ _))

def autoResolution : UpdateDisputeInput where
  status := some .resolved
  resolution :=
    some "Auto-resolved in favor of user: Provider response SLA deadline expired."
  assignedTo := none

def dueDatesOf : List (Dispute D T) → Phase D T
  | [] => .selectOverdue
  | rows => .setDueDates rows

def visit : List (Dispute D T) → Phase D T
  | [] => .swept
  | rows => .autoResolve rows

section Turns

variable [DecidableEq D] [DecidableEq T]

/-- `DisputeModel.update`, which fails on the answer when there is no such row. -/
def State.update (s : State D T) (id : D) (input : UpdateDisputeInput) (answer : DbAnswer)
    (next : Dispute D T → Phase D T) : State D T × Phase D T :=
  (s.execute (.updateDispute id input) answer,
    if answer = .answered then
      match s.tables.current.disputes.find? id with
      | some dispute => next (input.apply dispute)
      | none => .threw .database
    else .threw .database)

/-- The statement of `TransactionModel.updateStatus` turns the transaction into a reversed one. -/
def Database.Reverses (db : Database D T) (t : T) (status : TransactionStatus) : Prop :=
  status = .reversed ∧ ∃ transaction ∈ db.transactions t,
    transaction.status ≠ .reversed ∧ Queue.updateStatus transaction.status status = .reversed

instance (db : Database D T) (t : T) (status : TransactionStatus) :
    Decidable (db.Reverses t status) :=
  inferInstanceAs (Decidable (_ ∧ _))

def resolveTransaction (s : State D T) (dispute updated : Dispute D T)
    (action : DisputeResolutionAction) (answer : DbAnswer) : State D T × Phase D T :=
  let result := s.write (.updateTransaction dispute.transactionId action.transactionStatus) answer
    (.noteResolution updated)
  (if answer.executed ∧
      s.tables.current.Reverses dispute.transactionId action.transactionStatus then
    result.1.settle (.reversal dispute.id)
  else result.1, result.2)

def afterAssign (agentName : String) (updated : Dispute D T) : Phase D T :=
  if updated.status = .opened then .advance updated agentName else .succeeded updated

def query (source : Replicated.Source) (answer : DbAnswer) (s : State D T) :
    Phase D T → State D T × Phase D T
  | .findTransaction input => s.find source answer fun db =>
    checkTransaction input (db.transactions input.transactionId)
  | .findActive input => s.find source answer fun db =>
    checkActive input (db.findActiveByTransactionId input.transactionId)
  | .markDispute dispute =>
    s.write (.updateTransaction dispute.transactionId .dispute) answer (.succeeded dispute)
  | .findForUpdate id newStatus resolution assignedTo => s.find source answer fun db =>
    checkUpdate id newStatus resolution assignedTo (db.disputes.find? id)
  | .updateStatus dispute input => s.update dispute.id input answer .succeeded
  | .findForResolve id action resolution adminId => s.find source answer fun db =>
    checkResolve id action resolution adminId (db.disputes.find? id)
  | .resolveDispute dispute action resolution adminId =>
    s.update dispute.id ⟨some action.disputeStatus, some resolution, adminId⟩ answer
      fun updated => .resolveTransaction dispute updated action
  | .resolveTransaction dispute updated action =>
    resolveTransaction s dispute updated action answer
  | .noteResolution updated => s.note answer (.succeeded updated) (.threw .database)
  | .findForAssign id agentName => s.find source answer fun db =>
    checkAssign id agentName (db.disputes.find? id)
  | .assign id agentName =>
    s.update id ⟨none, none, some agentName⟩ answer (afterAssign agentName)
  | .advance updated agentName =>
    s.update updated.id ⟨some .investigating, none, some agentName⟩ answer .succeeded
  | .selectUntimelocked => s.find source answer fun _ => .selectUntimelocked
  | .selectOverdue => s.find source answer fun _ => .selectOverdue
  | .setDueDates (row :: rows) =>
    s.write (.setDueDate row.id row.slaDue) answer (dueDatesOf rows)
  | .autoResolve (row :: rows) =>
    s.write (.updateDispute row.id autoResolution) answer (.autoNote (row :: rows))
  | .autoNote rows => s.note answer (.retrieve rows) (.threw .database)
  | .retrieve (row :: rows) => s.find source answer fun db =>
    match db.transactions row.transactionId with
    | some transaction => .sendPayout transaction (row :: rows)
    | none => visit rows
  -- an error of the first note is handled like one of the payout
  | .notePayout rows => s.note answer (visit rows.tail) (.noteException rows)
  | .noteException rows => s.note answer (visit rows.tail) (.threw .database)
  | phase => (s, phase)

def insert (id : D) (answer : DbAnswer) (s : State D T) : Phase D T → State D T × Phase D T
  | .create input =>
    let dispute := input.row id s.now
    s.write (.insertDispute dispute) answer
      (if s.tables.current.Admits dispute then .markDispute dispute else .threw .database)
  | phase => (s, phase)

def select (source : Replicated.Source) (rows : List (Dispute D T)) (s : State D T) :
    Phase D T → Phase D T
  | .selectUntimelocked =>
    let untimelocked := (s.tables.read source).disputes.rows.filter (·.slaDueDate = none)
    if rows.Perm untimelocked then dueDatesOf rows else .selectUntimelocked
  | .selectOverdue =>
    let overdue := (s.tables.read source).disputes.rows.filter (·.Overdue s.now)
    if rows.Perm overdue then visit rows else .selectOverdue
  | phase => phase

def payout (throws : Bool) (s : State D T) : Phase D T → State D T × Phase D T
  | .sendPayout transaction (row :: rows) =>
    (s.settle (.payout row.id transaction),
      if throws then .noteException (row :: rows) else .notePayout (row :: rows))
  | phase => (s, phase)

def step (input : Input D T) (s : State D T) (phase : Phase D T) : State D T × Phase D T :=
  match input with
  | .passes elapsed => ({ s with now := s.now + elapsed }, phase)
  | .begin call => (s, if phase.AtRest then call.begin else phase)
  | .query source answer => query source answer s phase
  | .select source rows => (s, select source rows s phase)
  | .insert id answer => insert id answer s phase
  | .payout throws => payout throws s phase
  | .crash => (s, .idle)

/-- The tables with no replica behind. -/
def State.of (db : Database D T) : State D T :=
  ⟨0, ⟨db, []⟩, ⟨Database.Extends.refl db, nofun⟩, []⟩

abbrev World (D T ι : Type) := Interleaving.World (State D T) ι (Phase D T)

end Turns

end MobileMoney.Disputes
