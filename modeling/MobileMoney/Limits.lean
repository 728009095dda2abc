import MobileMoney.Library.Answers
import MobileMoney.Library.Budget
import MobileMoney.Library.Interleaving
import MobileMoney.Library.Keyed
import MobileMoney.Queue.Status

/-!
# Transaction limits

`services/transactionLimit/transactionLimitService.ts` between the arrival of a request and the
row that `TransactionModel.create` stores for it. Requests of any number of users take turns; a
turn is one query, one update of a transaction's status by whoever processes it, or a crash. The
user's level and the regional limit may be another at every turn. Amounts are whole numbers of
the last decimal place of their column.

The check adds up what is completed, and the row is stored later. Which transactions are accepted
is left open here: all that are stored, or only those whose status counts. In either case the
sums stay within the limit as long as what a check has found to fit still fits when its row is
stored.
-/

namespace MobileMoney.Limits

open Interleaving
open Queue (TransactionStatus)

variable {U T ι : Type}

inductive KYCLevel where
  | unverified | basic | full
  deriving DecidableEq, Repr

/-- `TRANSACTION_LIMITS` with the bounds of a single amount. -/
structure LimitConfig where
  transactionLimits : KYCLevel → ℕ
  minTransactionAmount : ℕ
  maxTransactionAmount : ℕ

structure RegionalProviderLimit where
  code : String
  dailyLimit : ℕ
  perTransactionLimit : ℕ
  deriving DecidableEq

/-- A row with the daily limit that has been applied to its request. -/
structure Transaction (U T : Type) where
  id : T
  userId : U
  amount : ℕ
  status : TransactionStatus
  createdAt : ℕ
  dailyLimit : ℕ
  deriving DecidableEq

def dayMs : ℕ := 24 * 60 * 60 * 1000

/-! ## The check -/

inductive LimitSource where
  | kyc (level : KYCLevel)
  | regional (code : String)
  | kycBased (level : KYCLevel)
  deriving DecidableEq

/-- The message of a refusal, with the numbers in its text. -/
inductive LimitMessage where
  | tooSmall (minimum attempted : ℕ)
  | tooLarge (maximum attempted : ℕ)
  | perTransaction (source : LimitSource) (limit attempted : ℕ)
  | exceeded (source : LimitSource) (limit current attempted : ℕ) (upgradeFrom : Option KYCLevel)
  deriving DecidableEq

structure LimitCheckResult where
  allowed : Bool
  kycLevel : KYCLevel
  dailyLimit : ℕ
  currentDailyTotal : ℕ
  remainingLimit : ℤ
  message : Option LimitMessage
  upgradeAvailable : Option Bool
  deriving DecidableEq

/-- The limits that a request has to respect, when its level is known. -/
structure AppliedLimit where
  kycLevel : KYCLevel
  dailyLimit : ℕ
  perTransactionLimit : ℕ
  source : LimitSource
  deriving DecidableEq

/-- The level whose upgrade a refusal suggests. -/
def AppliedLimit.upgradeFrom (limit : AppliedLimit) : Option KYCLevel :=
  match limit.source with
  | .regional _ => none
  | _ => if limit.kycLevel = .full then none else some limit.kycLevel

def refuseAmount (message : LimitMessage) : LimitCheckResult where
  allowed := false
  kycLevel := .unverified
  dailyLimit := 0
  currentDailyTotal := 0
  remainingLimit := 0
  message := some message
  upgradeAvailable := none

def checkAmount (config : LimitConfig) (amount : ℕ) : Option LimitCheckResult :=
  if amount < config.minTransactionAmount then
    some (refuseAmount (.tooSmall config.minTransactionAmount amount))
  else if config.maxTransactionAmount < amount then
    some (refuseAmount (.tooLarge config.maxTransactionAmount amount))
  else none

/-- `checkTransactionLimit`. -/
def kycLimit (config : LimitConfig) (kycLevel : KYCLevel) : AppliedLimit where
  kycLevel := kycLevel
  dailyLimit := config.transactionLimits kycLevel
  perTransactionLimit := config.maxTransactionAmount
  source := .kyc kycLevel

/-- `checkTransactionLimitWithRegional`: a regional limit takes precedence. -/
def limitWithRegional (config : LimitConfig) (kycLevel : KYCLevel) :
    Option RegionalProviderLimit → AppliedLimit
  | some regional =>
    ⟨kycLevel, regional.dailyLimit, regional.perTransactionLimit, .regional regional.code⟩
  | none =>
    ⟨kycLevel, config.transactionLimits kycLevel, config.maxTransactionAmount,
      .kycBased kycLevel⟩

/-- The amount that is checked here again is within the bounds of `checkAmount`, so that without
a regional limit it passes. -/
def checkPerTransaction (limit : AppliedLimit) (amount : ℕ) : Option LimitCheckResult :=
  if limit.perTransactionLimit < amount then
    some {
      allowed := false
      kycLevel := limit.kycLevel
      dailyLimit := limit.dailyLimit
      currentDailyTotal := 0
      remainingLimit := 0
      message := some (.perTransaction limit.source limit.perTransactionLimit amount)
      upgradeAvailable := some limit.upgradeFrom.isSome }
  else none

def checkDailyTotal (limit : AppliedLimit) (currentDailyTotal amount : ℕ) : LimitCheckResult :=
  let newTotal := currentDailyTotal + amount
  if limit.dailyLimit < newTotal then
    { allowed := false
      kycLevel := limit.kycLevel
      dailyLimit := limit.dailyLimit
      currentDailyTotal := currentDailyTotal
      remainingLimit := (limit.dailyLimit : ℤ) - currentDailyTotal
      message :=
        some (.exceeded limit.source limit.dailyLimit currentDailyTotal amount limit.upgradeFrom)
      upgradeAvailable := some limit.upgradeFrom.isSome }
  else
    { allowed := true
      kycLevel := limit.kycLevel
      dailyLimit := limit.dailyLimit
      currentDailyTotal := currentDailyTotal
      remainingLimit := (limit.dailyLimit : ℤ) - newTotal
      message := none
      upgradeAvailable := none }

/-! ## The requests -/

/-- `withRegional` says which of the two checks a request goes through. -/
structure TransactionRequest (U : Type) where
  userId : U
  amount : ℕ
  withRegional : Bool

/-- What a request waits for. -/
inductive Phase (U T : Type) where
  | idle
  | checkRegionalLimits (request : TransactionRequest U)
  | getUserKYCLevel (request : TransactionRequest U) (regional : Option RegionalProviderLimit)
  | findCompleted (request : TransactionRequest U) (limit : AppliedLimit)
  | create (request : TransactionRequest U) (check : LimitCheckResult)
  | accepted (id : T)
  | refused (check : LimitCheckResult)
  | threw

inductive Input (U T : Type) where
  | passes (elapsed : ℕ)
  | request (request : TransactionRequest U)
  | regionalLimit (limit : Option RegionalProviderLimit)
  | kycLevel (level : Option KYCLevel)
  | completed (source : Replicated.Source)
  | create (id : T) (answer : DbAnswer)
  | updateStatus (id : T) (status : TransactionStatus)
  | throws
  | crash

def Phase.AtRest : Phase U T → Bool
  | .idle | .accepted _ | .refused _ | .threw => true
  | _ => false

structure State (U T : Type) where
  now : ℕ
  transactions : Replicated (Keyed fun transaction : Transaction U T => transaction.id)

def TransactionRequest.begin (config : LimitConfig) (request : TransactionRequest U) :
    Phase U T :=
  match checkAmount config request.amount with
  | some check => .refused check
  | none =>
    if request.withRegional then .checkRegionalLimits request
    else .getUserKYCLevel request none

def TransactionRequest.limit (config : LimitConfig) (request : TransactionRequest U)
    (regional : Option RegionalProviderLimit) (kycLevel : KYCLevel) : AppliedLimit :=
  if request.withRegional then limitWithRegional config kycLevel regional
  else kycLimit config kycLevel

def afterLevel (request : TransactionRequest U) (limit : AppliedLimit) : Phase U T :=
  match checkPerTransaction limit request.amount with
  | some check => .refused check
  | none => .findCompleted request limit

def afterTotal (request : TransactionRequest U) (check : LimitCheckResult) : Phase U T :=
  if check.allowed then .create request check else .refused check

def TransactionRequest.row (request : TransactionRequest U) (check : LimitCheckResult) (id : T)
    (now : ℕ) : Transaction U T where
  id := id
  userId := request.userId
  amount := request.amount
  status := .pending
  createdAt := now
  dailyLimit := check.dailyLimit

def Transaction.withStatus (status : TransactionStatus) (transaction : Transaction U T) :
    Transaction U T :=
  { transaction with status := Queue.updateStatus transaction.status status }

@[simp] theorem Transaction.withStatus_id (status : TransactionStatus)
    (transaction : Transaction U T) : (transaction.withStatus status).id = transaction.id := rfl

/-- The sum over the rows of `findCompletedByUserSince`. -/
def completedSince [DecidableEq U] (userId : U) (since : ℕ) (rows : List (Transaction U T)) : ℕ :=
  Budget.total (·.amount) (fun transaction => transaction.userId = userId ∧
    transaction.status = .completed ∧ since ≤ transaction.createdAt) rows

section Turns

variable [DecidableEq U] [DecidableEq T] (config : LimitConfig)

def create (id : T) (answer : DbAnswer) (s : State U T) : Phase U T → State U T × Phase U T
  | .create request check =>
    let row := request.row check id s.now
    let fresh := s.transactions.current.find? id = none
    (if fresh ∧ answer.executed then
      { s with transactions := s.transactions.write (s.transactions.current.insert row) }
    else s,
      if fresh ∧ answer = .answered then .accepted id else .threw)
  | phase => (s, phase)

def State.updateStatus (s : State U T) (id : T) (status : TransactionStatus) : State U T :=
  { s with
    transactions := s.transactions.write
      (s.transactions.current.modify id (Transaction.withStatus status)
        (Transaction.withStatus_id status)) }

def step (input : Input U T) (s : State U T) (phase : Phase U T) : State U T × Phase U T :=
  match input with
  | .passes elapsed => ({ s with now := s.now + elapsed }, phase)
  | .request request => (s, if phase.AtRest then request.begin config else phase)
  | .regionalLimit limit =>
    (s, match phase with
      | .checkRegionalLimits request => .getUserKYCLevel request limit
      | phase => phase)
  | .kycLevel level =>
    (s, match phase, level with
      | .getUserKYCLevel request regional, some level =>
        afterLevel request (request.limit config regional level)
      | .getUserKYCLevel _ _, none => .threw
      | phase, _ => phase)
  | .completed source =>
    (s, match phase with
      | .findCompleted request limit =>
        let total := completedSince request.userId (s.now - dayMs)
          (s.transactions.read source).rows
        afterTotal request (checkDailyTotal limit total request.amount)
      | phase => phase)
  | .create id answer => create id answer s phase
  | .updateStatus id status => (s.updateStatus id status, phase)
  | .throws => (s, if phase.AtRest then phase else .threw)
  | .crash => (s, .idle)

abbrev World (U T ι : Type) := Interleaving.World (State U T) ι (Phase U T)

/-- Nothing has been requested. -/
def World.init {ι : Type} : World U T ι := ⟨⟨0, ⟨⟨[], List.nodup_nil⟩, []⟩⟩, fun _ => .idle⟩

end Turns

/-! ## What a turn does to the rows -/

/-- The row that a request is about to store. -/
def Phase.creating : Phase U T → Option (TransactionRequest U × LimitCheckResult)
  | .create request check => some (request, check)
  | _ => none

/-- The input makes the database store a row. -/
def Input.Stores : Input U T → Prop
  | .create _ answer => answer.executed = true
  | _ => False

instance (input : Input U T) : Decidable input.Stores := by
  cases input <;> unfold Input.Stores <;> infer_instance

def Input.writes : Input U T → Option (T × TransactionStatus)
  | .updateStatus id status => some (id, status)
  | _ => none

section Effects

variable [DecidableEq U] [DecidableEq T] (config : LimitConfig)

theorem step_cases (input : Input U T) (s : State U T) (phase : Phase U T) :
    let s' := (step config input s phase).1
    s'.transactions.current = s.transactions.current ∨
    (∃ id status, input.writes = some (id, status) ∧
      s'.transactions.current = s.transactions.current.modify id
        (Transaction.withStatus status) (Transaction.withStatus_id status)) ∨
    ∃ request check id, phase.creating = some (request, check) ∧ input.Stores ∧
      s.transactions.current.find? id = none ∧
      s'.transactions.current = s.transactions.current.insert (request.row check id s.now) := by
  cases input with
  | passes elapsed => exact Or.inl rfl
  | updateStatus id status => exact Or.inr (Or.inl ⟨id, status, rfl, rfl⟩)
  | create id answer =>
    cases phase with
    | create request check =>
      simp only [step, create]
      split_ifs with hstored
      · exact Or.inr (Or.inr ⟨request, check, id, rfl, hstored.2, hstored.1, rfl⟩)
      · exact Or.inl rfl
    | _ => exact Or.inl rfl
  | _ => exact Or.inl rfl

/-- Next to the total that it has read, the check of a row about to be stored has let its amount
pass. -/
def Phase.Checked (phase : Phase U T) : Prop :=
  ∀ pair ∈ phase.creating, pair.2.currentDailyTotal + pair.1.amount ≤ pair.2.dailyLimit

omit [DecidableEq U] [DecidableEq T] in
theorem checked_of_not_creating {phase : Phase U T} (h : phase.creating = none) :
    phase.Checked := by
  intro pair hpair
  rw [h] at hpair
  cases hpair

omit [DecidableEq U] [DecidableEq T] in
theorem begin_checked (request : TransactionRequest U) :
    (request.begin config : Phase U T).Checked := by
  apply checked_of_not_creating
  unfold TransactionRequest.begin
  cases checkAmount config request.amount with
  | some check => rfl
  | none =>
    dsimp only
    split_ifs <;> rfl

omit [DecidableEq U] [DecidableEq T] in
theorem afterLevel_checked (request : TransactionRequest U) (limit : AppliedLimit) :
    (afterLevel request limit : Phase U T).Checked := by
  apply checked_of_not_creating
  unfold afterLevel
  cases checkPerTransaction limit request.amount <;> rfl

omit [DecidableEq U] [DecidableEq T] in
theorem afterTotal_checked (request : TransactionRequest U) (limit : AppliedLimit) (total : ℕ) :
    (afterTotal request (checkDailyTotal limit total request.amount) : Phase U T).Checked := by
  by_cases hexceeds : limit.dailyLimit < total + request.amount
  · apply checked_of_not_creating
    simp [afterTotal, checkDailyTotal, hexceeds, Phase.creating]
  · intro pair hpair
    simp only [afterTotal, checkDailyTotal, if_neg hexceeds, if_true, Phase.creating,
      Option.mem_some_iff] at hpair
    subst hpair
    exact Nat.le_of_not_lt hexceeds

theorem step_checked {input : Input U T} {s : State U T} {phase : Phase U T}
    (h : phase.Checked) : (step config input s phase).2.Checked := by
  cases input with
  | passes | updateStatus => exact h
  | crash => exact checked_of_not_creating rfl
  | throws =>
    simp only [step]
    split_ifs
    · exact h
    · exact checked_of_not_creating rfl
  | request request =>
    simp only [step]
    split_ifs
    · exact begin_checked config request
    · exact h
  | regionalLimit limit =>
    cases phase with
    | checkRegionalLimits request => exact checked_of_not_creating rfl
    | _ => exact h
  | kycLevel level =>
    cases phase with
    | getUserKYCLevel request regional =>
      cases level with
      | none => exact checked_of_not_creating rfl
      | some level => exact afterLevel_checked request _
    | _ => exact h
  | completed source =>
    cases phase with
    | findCompleted request limit => exact afterTotal_checked request limit _
    | _ => exact h
  | create id answer =>
    cases phase with
    | create request check =>
      apply checked_of_not_creating
      simp only [step, create]
      split_ifs <;> rfl
    | _ => exact h

end Effects

/-! ## Windows -/

/-- A transaction of the user in the window of a day from `start` on. -/
def Transaction.InWindow (userId : U) (start : ℕ) (transaction : Transaction U T) : Prop :=
  transaction.userId = userId ∧ start ≤ transaction.createdAt ∧
    transaction.createdAt ≤ start + dayMs

section Law

variable [DecidableEq U]

instance (userId : U) (start : ℕ) (transaction : Transaction U T) :
    Decidable (transaction.InWindow userId start) :=
  inferInstanceAs (Decidable (_ ∧ _ ∧ _))

def acceptedIn (counts : TransactionStatus → Bool) (userId : U) (start : ℕ)
    (rows : List (Transaction U T)) : ℕ :=
  Budget.total (·.amount) (fun transaction => counts transaction.status ∧
    transaction.InWindow userId start) rows

def acceptedSince (counts : TransactionStatus → Bool) (userId : U) (since : ℕ)
    (rows : List (Transaction U T)) : ℕ :=
  Budget.total (·.amount) (fun transaction => counts transaction.status ∧
    transaction.userId = userId ∧ since ≤ transaction.createdAt) rows

/-- In every window, when a transaction is accepted in it, those accepted in it so far do not
exceed the daily limit that applies to it. -/
def WithinLimits (counts : TransactionStatus → Bool) (rows : List (Transaction U T)) : Prop :=
  ∀ userId start earlier transaction, earlier ++ [transaction] <+: rows →
    counts transaction.status → transaction.InWindow userId start →
      acceptedIn counts userId start (earlier ++ [transaction]) ≤ transaction.dailyLimit

variable {counts : TransactionStatus → Bool} {rows : List (Transaction U T)}

/-- With one limit for all of them, the whole of a window is within it. -/
theorem acceptedIn_le_of_withinLimits (h : WithinLimits counts rows) (userId : U) (start : ℕ)
    (limit : ℕ) (hlimit : ∀ transaction ∈ rows, transaction.userId = userId →
      transaction.dailyLimit ≤ limit) : acceptedIn counts userId start rows ≤ limit := by
  induction rows using List.reverseRecOn with
  | nil => exact Nat.zero_le _
  | append_singleton rows transaction ih =>
    by_cases hin : counts transaction.status ∧ transaction.InWindow userId start
    · have happlied := h userId start rows transaction List.prefix_rfl hin.1 hin.2
      exact happlied.trans (hlimit transaction (by simp) hin.2.1)
    · rw [acceptedIn, Budget.total_concat, if_neg hin]
      apply ih
      · intro userId start earlier transaction' hpre
        exact h userId start earlier transaction' (hpre.trans (List.prefix_append _ _))
      · intro transaction' hmem
        exact hlimit transaction' (List.mem_append_left _ hmem)

theorem withinLimits_concat {transaction : Transaction U T} (h : WithinLimits counts rows)
    (hroom : acceptedSince counts transaction.userId (transaction.createdAt - dayMs) rows +
      transaction.amount ≤ transaction.dailyLimit) :
    WithinLimits counts (rows ++ [transaction]) := by
  intro userId start earlier latest hpre hcounts hin
  rcases List.prefix_concat_iff.1 hpre with heq | hpre
  · obtain ⟨rfl, rfl⟩ : earlier = rows ∧ latest = transaction := by simpa using heq
    obtain ⟨rfl, hstart, hend⟩ := hin
    have hsince : acceptedIn counts latest.userId start earlier ≤
        acceptedSince counts latest.userId (latest.createdAt - dayMs) earlier := by
      apply Budget.total_mono
      rintro transaction - ⟨hstatus, huser, hafter, -⟩
      exact ⟨hstatus, huser, by omega⟩
    rw [acceptedIn, Budget.total_concat, if_pos ⟨hcounts, rfl, hstart, hend⟩]
    exact (Nat.add_le_add_right hsince _).trans hroom
  · exact h userId start earlier latest hpre hcounts hin

/-- Updates by which no transaction comes to count. -/
theorem withinLimits_map {f : Transaction U T → Transaction U T} (h : WithinLimits counts rows)
    (same : ∀ transaction, (f transaction).userId = transaction.userId ∧
      (f transaction).amount = transaction.amount ∧
      (f transaction).createdAt = transaction.createdAt ∧
      (f transaction).dailyLimit = transaction.dailyLimit)
    (hcounts : ∀ transaction ∈ rows, counts (f transaction).status → counts transaction.status) :
    WithinLimits counts (rows.map f) := by
  have hwindow : ∀ userId start transaction,
      (f transaction).InWindow userId start ↔ transaction.InWindow userId start := by
    intro userId start transaction
    simp only [Transaction.InWindow, same transaction]
  intro userId start earlier latest hpre hcounted hin
  obtain ⟨old, hold, hmap⟩ := List.prefix_map_iff.1 hpre
  obtain ⟨before, last, rfl, rfl, rfl⟩ : ∃ before last, old = before ++ [last] ∧
      earlier = before.map f ∧ latest = f last := by
    rcases List.eq_nil_or_concat old with rfl | ⟨before, last, rfl⟩
    · simp at hmap
    · simp only [List.concat_eq_append, List.map_append, List.map_singleton] at hmap ⊢
      obtain ⟨rfl, hlast⟩ := List.append_inj' hmap rfl
      exact ⟨before, last, rfl, rfl, List.head_eq_of_cons_eq hlast⟩
  have hmem : ∀ transaction ∈ before ++ [last], transaction ∈ rows := fun _ => hold.mem
  have hless : acceptedIn counts userId start ((before ++ [last]).map f) ≤
      acceptedIn counts userId start (before ++ [last]) := by
    apply Budget.total_map_le
    · exact fun transaction => (same transaction).2.1
    · rintro transaction hbefore ⟨hstatus, hwin⟩
      exact ⟨hcounts transaction (hmem transaction hbefore) hstatus,
        (hwindow userId start transaction).1 hwin⟩
  rw [List.map_append, List.map_singleton] at hless
  rw [(same last).2.2.2]
  refine hless.trans (h userId start before last hold ?_ ?_)
  · exact hcounts last (hmem last (by simp)) hcounted
  · exact (hwindow userId start last).1 hin

end Law

/-! ## Runs -/

section Runs

variable [DecidableEq U] [DecidableEq T] [DecidableEq ι] {config : LimitConfig}
  {counts : TransactionStatus → Bool}

/-- If its amount has fitted next to the total that its check has read, the row that a turn stores
fits next to all that its user has been given in the last day; and no update makes a transaction
count that has not. -/
def Seen (counts : TransactionStatus → Bool) (w : World U T ι) (turn : ι × Input U T) : Prop :=
  (∀ pair ∈ (w.locals turn.1).creating, turn.2.Stores →
    pair.2.currentDailyTotal + pair.1.amount ≤ pair.2.dailyLimit →
    acceptedSince counts pair.1.userId (w.shared.now - dayMs)
        w.shared.transactions.current.rows + pair.1.amount ≤ pair.2.dailyLimit) ∧
  ∀ written ∈ turn.2.writes, ∀ transaction ∈ w.shared.transactions.current.find? written.1,
    counts (transaction.withStatus written.2).status → counts transaction.status

instance (w : World U T ι) (turn : ι × Input U T) : Decidable (Seen counts w turn) :=
  inferInstanceAs (Decidable ((∀ _ ∈ _, _ → _ → _) ∧ ∀ _ ∈ _, ∀ _ ∈ _, _ → _))

theorem withinLimits_advance {w : World U T ι} {turn : ι × Input U T}
    (h : WithinLimits counts w.shared.transactions.current.rows)
    (hchecked : (w.locals turn.1).Checked) (hseen : Seen counts w turn) :
    WithinLimits counts (advance (step config) w turn).shared.transactions.current.rows := by
  rw [advance_shared]
  rcases step_cases config turn.2 w.shared (w.locals turn.1) with
    hsame | ⟨id, status, hwrites, hrows⟩ | ⟨request, check, id, hcreating, hstores, hfresh, hrows⟩
  · rw [hsame]
    exact h
  · rw [hrows]
    apply withinLimits_map h
    · intro transaction
      split_ifs <;> exact ⟨rfl, rfl, rfl, rfl⟩
    · intro transaction hmem
      split_ifs with hid
      · have hfound : w.shared.transactions.current.find? id = some transaction := by
          rw [← hid]
          exact Keyed.find?_of_mem hmem
        exact hseen.2 (id, status) hwrites transaction hfound
      · exact fun hcounts => hcounts
  · rw [hrows, Keyed.rows_insert hfresh]
    exact withinLimits_concat h
      (hseen.1 (request, check) hcreating hstores (hchecked _ hcreating))

end Runs

section Examples

def defaultLimits : LimitConfig where
  transactionLimits
    | .unverified => 50000
    | .basic => 200000
    | .full => 1000000
  minTransactionAmount := 100
  maxTransactionAmount := 5000000

/-- The turns of an unverified user's request up to the point where it has been allowed. -/
def check (caller amount : ℕ) : List (ℕ × Input Unit ℕ) :=
  [(caller, .request ⟨(), amount, false⟩), (caller, .kycLevel (some .unverified)),
    (caller, .completed .primary)]

end Examples

end MobileMoney.Limits
