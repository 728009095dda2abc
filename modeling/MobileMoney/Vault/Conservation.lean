import MobileMoney.Vault.Program

/-!
# Conservation of a user's money

A transfer that commits moves its vault's balance and inserts a row meant to move the main
balance the other way. That row carries the vault's id, and the main balance only counts
rows without one, so the main balance never moves: the law of transfers holds of a run
exactly when no transfer of it commits.
-/

namespace MobileMoney.Vault

open Binary64 Checked
open Ledger (amountType parseAmount)

variable {ι : Type} [DecidableEq ι]

/-! ## What a query does to the tables -/

/-- The tables of two databases agree, whatever is locked. -/
structure SameTables (db db' : Db) : Prop where
  vaults : db'.vaults = db.vaults
  vaultTransactions : db'.vaultTransactions = db.vaultTransactions
  transactions : db'.transactions = db.transactions

theorem SameTables.rfl {db : Db} : SameTables db db := ⟨Eq.refl _, Eq.refl _, Eq.refl _⟩

theorem sameTables_setLock (db : Db) (vaultId : String) (locked : Bool) :
    SameTables db (db.setLock vaultId locked) := ⟨Eq.refl _, Eq.refl _, Eq.refl _⟩

theorem SameTables.summary {db db' : Db} (h : SameTables db db') (userId : String) :
    getUserBalanceSummary db' userId = getUserBalanceSummary db userId := by
  simp only [getUserBalanceSummary, h.vaults, h.transactions]

theorem proceed_tables (db : Db) (p : Process) (next : Except TransferError Phase) :
    SameTables db (proceed db p next).1 := by
  unfold proceed
  split
  · exact .rfl
  · exact sameTables_setLock db _ _

theorem select_tables (db : Db) (p : Process) : SameTables db (select db p).1 := by
  unfold select
  split
  · exact .rfl
  · split_ifs
    · exact .rfl
    · split
      · exact sameTables_setLock db _ _
      · exact .rfl

/-- The vault and the rows that the next query would commit. -/
def Phase.commit? : Phase → Option (VaultRow × VaultTransactionRow × TransactionRow)
  | .committing updated record row => some (updated, record, row)
  | _ => none

/-- A query leaves the tables alone, or it is the COMMIT of its call. -/
theorem step_tables (answer : Answer) (db : Db) (p : Process) :
    SameTables db (step answer db p).1 ∨
      ∃ updated record row, p.phase = .committing updated record row ∧
        answer.outcome ≠ .failed ∧
        (step answer db p).1 = (db.setLock p.call.vaultId false).apply updated record row := by
  unfold step
  split
  · left
    split_ifs <;> exact .rfl
  · left
    split_ifs
    · exact select_tables db p
    · exact .rfl
  · exact .inl (proceed_tables db p _)
  · exact .inl (proceed_tables db p _)
  · exact .inl (proceed_tables db p _)
  · exact .inl (proceed_tables db p _)
  · next updated record row h =>
    cases hout : answer.outcome with
    | failed => exact .inl (sameTables_setLock db _ _)
    | done | unacknowledged => exact .inr ⟨updated, record, row, h, by simp, rfl⟩
  · left
    split_ifs <;> exact .rfl
  · exact .inl .rfl
  · exact .inl .rfl

/-! ## The law of transfers -/

/-- Whether a step is a COMMIT that takes effect, of which call. -/
def committed (w : VaultWorld ι) : Event ι → Option ι
  | .turn i answer =>
    if (w.locals i).phase.commit?.isSome ∧ answer.outcome ≠ .failed then some i else none
  | .external _ => none

def Phase.isFailed : Phase → Bool
  | .failed _ => true
  | _ => false

/-- The call has committed and only reads its result back. -/
def Phase.isReturning : Phase → Bool
  | .returning _ => true
  | _ => false

def vaultBalance (db : Db) (vaultId : String) : ℤ := ((findVault db vaultId).map (·.balance)).getD 0

/-- What a step must do: the reported totals change only by outside transactions; a commit
moves the main balance and the vault by exactly the amount; nothing is made negative; and a
call that fails has changed nothing. -/
structure Lawful (w : VaultWorld ι) (e : Event ι) : Prop where
  conserved : ∀ i answer, e = .turn i answer → ∀ userId,
    (getUserBalanceSummary (advance w e).shared userId).totalBalance =
      (getUserBalanceSummary w.shared userId).totalBalance
  moved : ∀ i, committed w e = some i →
    let call := (w.locals i).call
    mainBalance (advance w e).shared.transactions call.userId =
        mainBalance w.shared.transactions call.userId + call.type.opposite.signed call.amount ∧
      vaultBalance (advance w e).shared call.vaultId =
        vaultBalance w.shared call.vaultId + call.type.signed call.amount
  nonneg : ∀ i answer, e = .turn i answer →
    (∀ userId, 0 ≤ mainBalance w.shared.transactions userId →
      0 ≤ mainBalance (advance w e).shared.transactions userId) ∧
    ∀ vault ∈ (advance w e).shared.vaults, 0 ≤ vault.balance
  failed : ∀ i answer, e = .turn i answer → (advance w e).locals i ≠ w.locals i →
    ((advance w e).locals i).phase.isFailed = true →
    SameTables w.shared (advance w e).shared ∧ (w.locals i).phase.isReturning = false

theorem mainPart_of_vault {row : TransactionRow} {vaultId : String}
    (h : row.vaultId = some vaultId) (userId : String) : mainPart userId row = 0 := by
  simp [mainPart, h]

/-! ## What a call has prepared -/

/-- The row a call is about to commit is the one it has made from its arguments. -/
def Prepared (p : Process) : Prop :=
  ∀ updated record row, p.phase = .committing updated record row →
    createTransaction p.call = .ok row

theorem createTransaction_vaultId {call : Call} {row : TransactionRow}
    (h : createTransaction call = .ok row) : row.vaultId = some call.vaultId := by
  simp only [createTransaction, bind_eq_ok, require_eq_ok, orFail_eq_ok, pure_eq_ok,
    exists_const] at h
  obtain ⟨-, amount, -, rfl⟩ := h
  rfl

theorem checkMain_phase {call : Call} {vault : VaultRow} {main : ℤ} {phase : Phase}
    (h : checkMain call vault main = .ok phase) :
    ∃ newBalance, phase = .updating vault newBalance := by
  simp only [checkMain, bind_eq_ok, require_eq_ok, pure_eq_ok, exists_const] at h
  obtain ⟨-, rfl⟩ := h
  exact ⟨_, rfl⟩

theorem validate_phase {call : Call} {vault : VaultRow} {phase : Phase}
    (h : validate call vault = .ok phase) :
    phase = .readingMain vault ∨ ∃ newBalance, phase = .updating vault newBalance := by
  simp only [validate, bind_eq_ok, require_eq_ok, exists_const] at h
  obtain ⟨-, h⟩ := h
  cases htype : call.type with
  | deposit =>
    simp only [htype, pure_eq_ok] at h
    exact .inl h.symm
  | withdraw =>
    simp only [htype, bind_eq_ok, require_eq_ok, pure_eq_ok, exists_const] at h
    exact .inr ⟨_, h.2.symm⟩

/-- The phases from which a call neither commits nor reads its result back. -/
def Phase.isEarly : Phase → Bool
  | .committing _ _ _ | .returning _ => false
  | _ => true

theorem proceed_early {db : Db} {p : Process} {next : Except TransferError Phase}
    (h : ∀ phase, next = .ok phase → phase.isEarly = true) :
    (proceed db p next).2.phase.isEarly = true := by
  cases next with
  | ok phase => exact h phase rfl
  | error e => rfl

theorem query_early {answer : Answer} {db : Db} {p : Process} {next : Except TransferError Phase}
    (h : ∀ phase, next = .ok phase → phase.isEarly = true) :
    (query answer db p next).2.phase.isEarly = true := by
  apply proceed_early
  intro phase hnext
  split_ifs at hnext
  exact h phase hnext

theorem select_early {db : Db} {p : Process} (h : p.phase = .selecting) :
    (select db p).2.phase.isEarly = true := by
  unfold select
  split
  · rfl
  · split_ifs
    · rw [h]
      rfl
    · split
      · next phase hvalid =>
        rcases validate_phase hvalid with rfl | ⟨_, rfl⟩ <;> rfl
      · rfl

theorem step_call (answer : Answer) (db : Db) (p : Process) :
    (step answer db p).2.call = p.call := by
  unfold step query proceed select
  grind

/-- A query leads on to the COMMIT with the row made from the arguments, it is the COMMIT, or
it leads to none of the phases around it. -/
theorem step_phase (answer : Answer) (db : Db) (p : Process) :
    (step answer db p).2.phase.isEarly = true ∨
      (∃ updated record row, (step answer db p).2.phase = .committing updated record row ∧
        createTransaction p.call = .ok row) ∨
      (∃ updated record row, p.phase = .committing updated record row ∧ answer.outcome = .done) ∨
      p.phase.isReturning = true := by
  cases hphase : p.phase with
  | beginning =>
    left
    simp only [step, hphase]
    split_ifs <;> rfl
  | selecting =>
    left
    simp only [step, hphase]
    split_ifs
    · exact select_early hphase
    · rfl
  | readingMain vault =>
    left
    simp only [step, hphase]
    apply query_early
    intro phase h
    obtain ⟨_, rfl⟩ := checkMain_phase h
    rfl
  | updating vault newBalance =>
    left
    simp only [step, hphase]
    apply query_early
    intro phase h
    obtain ⟨_, -, rfl⟩ := map_eq_ok.1 h
    rfl
  | recording updated =>
    left
    simp only [step, hphase]
    apply query_early
    intro phase h
    obtain ⟨_, -, rfl⟩ := map_eq_ok.1 h
    rfl
  | inserting updated record =>
    simp only [step, hphase, query]
    split_ifs
    · cases hrow : createTransaction p.call with
      | ok row => exact .inr (.inl ⟨updated, record, row, rfl, rfl⟩)
      | error e => exact .inl rfl
    · exact .inl rfl
  | committing updated record row =>
    cases hout : answer.outcome with
    | done => exact .inr (.inr (.inl ⟨updated, record, row, rfl, rfl⟩))
    | failed | unacknowledged =>
      left
      simp [step, hphase, hout, Phase.isEarly]
  | returning record => exact .inr (.inr (.inr rfl))
  | returned vault record =>
    left
    simp [step, hphase, Phase.isEarly]
  | failed e =>
    left
    simp [step, hphase, Phase.isEarly]

/-- No call has committed: what each is about to commit is its own row, and none is reading
its result back. -/
def Uncommitted (w : VaultWorld ι) : Prop :=
  ∀ i, Prepared (w.locals i) ∧ (w.locals i).phase.isReturning = false

omit [DecidableEq ι] in
theorem committed_turn {w : VaultWorld ι} {i : ι} {answer : Answer}
    {updated : VaultRow} {record : VaultTransactionRow} {row : TransactionRow}
    (h : (w.locals i).phase = .committing updated record row) (hdone : answer.outcome ≠ .failed) :
    committed w (.turn i answer) = some i := by
  simp [committed, h, Phase.commit?, hdone]

theorem uncommitted_advance {w : VaultWorld ι} {e : Event ι} (h : Uncommitted w)
    (hnone : committed w e = none) : Uncommitted (advance w e) := by
  cases e with
  | external x => exact h
  | turn i answer =>
    refine Interleaving.locals_advance step
      (fun p => Prepared p ∧ p.phase.isReturning = false) ?_ (fun j _ => h j)
    rcases step_phase answer w.shared (w.locals i) with hearly | ⟨u, r, row, hnext, hrow⟩ |
      ⟨u, r, row, hphase, hdone⟩ | hreturning
    · constructor
      · intro u r row hnext
        rw [hnext] at hearly
        cases hearly
      · generalize (step answer w.shared (w.locals i)).2.phase = phase at hearly ⊢
        cases phase <;> first | rfl | cases hearly
    · refine ⟨fun u' r' row' hnext' => ?_, by rw [hnext]; rfl⟩
      rw [hnext] at hnext'
      cases hnext'
      rw [step_call]
      exact hrow
    · have hsome := committed_turn hphase (show answer.outcome ≠ .failed by rw [hdone]; decide)
      rw [hnone] at hsome
      cases hsome
    · rw [(h i).2] at hreturning
      cases hreturning

/-! ## Commits break the law -/

theorem mainBalance_concat (transactions : List TransactionRow) (row : TransactionRow)
    (userId : String) : mainBalance (transactions ++ [row]) userId =
      mainBalance transactions userId + mainPart userId row := by
  simp [mainBalance]

theorem opposite_signed_ne_zero (call : Call) :
    call.type.opposite.signed call.amount ≠ 0 := by
  have positive := call.positive
  cases call.type <;> simp only [TransferType.opposite, TransferType.signed] <;> omega

/-- A commit leaves every main balance where it was. -/
theorem mainBalance_of_committed {w : VaultWorld ι} {e : Event ι} {i : ι} (h : Uncommitted w)
    (hcommit : committed w e = some i) (userId : String) :
    mainBalance (advance w e).shared.transactions userId =
      mainBalance w.shared.transactions userId := by
  cases e with
  | external x => cases hcommit
  | turn j answer =>
    simp only [committed, Option.ite_none_right_eq_some, Option.some.injEq] at hcommit
    obtain ⟨⟨hsome, hdone⟩, rfl⟩ := hcommit
    rcases step_tables answer w.shared (w.locals j) with same | ⟨u, r, row, hphase, -, hdb⟩
    · simp only [advance, Interleaving.advance_shared]
      rw [same.transactions]
    · have hrow := createTransaction_vaultId ((h j).1 u r row hphase)
      simp only [advance, Interleaving.advance_shared, hdb, Db.apply, Db.setLock]
      rw [mainBalance_concat, mainPart_of_vault hrow, add_zero]

theorem lawful_of_uncommitted {w : VaultWorld ι} {e : Event ι} (h : Uncommitted w)
    (hnone : committed w e = none) : Lawful w e := by
  have same : ∀ i answer, e = .turn i answer → SameTables w.shared (advance w e).shared := by
    rintro i answer rfl
    rcases step_tables answer w.shared (w.locals i) with same | ⟨u, r, row, hphase, hdone, -⟩
    · exact same
    · rw [committed_turn hphase hdone] at hnone
      cases hnone
  constructor
  case conserved =>
    intro i answer he userId
    rw [(same i answer he).summary userId]
  case moved =>
    intro i hcommit
    rw [hnone] at hcommit
    cases hcommit
  case nonneg =>
    intro i answer he
    refine ⟨fun userId hmain => ?_, fun vault _ => vault.nonneg⟩
    rw [(same i answer he).transactions]
    exact hmain
  case failed =>
    intro i answer he _ _
    exact ⟨same i answer he, (h i).2⟩

theorem committed_of_lawful {w : VaultWorld ι} {e : Event ι} (h : Uncommitted w)
    (lawful : Lawful w e) : committed w e = none := by
  cases hcommit : committed w e with
  | none => rfl
  | some i =>
    have moved := (lawful.moved i hcommit).1
    rw [mainBalance_of_committed h hcommit] at moved
    have nonzero := opposite_signed_ne_zero (w.locals i).call
    omega

omit [DecidableEq ι] in
theorem uncommitted_start (calls : ι → Call) (db : Db) : Uncommitted (start calls db) := by
  intro i
  refine ⟨?_, rfl⟩
  intro u r row h
  cases h

/-- In a lawful run no call commits. -/
theorem every_uncommitted {w : VaultWorld ι} {es : List (Event ι)} (h : Uncommitted w)
    (every : Runs.Every advance Lawful w es) :
    Runs.Every advance (fun w e => committed w e = none) w es :=
  Runs.Every.imp_of_inv Uncommitted
    (fun _ _ h lawful => uncommitted_advance h (committed_of_lawful h lawful))
    (fun _ _ h lawful => committed_of_lawful h lawful) h es every

/-- Whatever the calls, the tables and the schedule, the law of transfers holds of a run
exactly when none of its calls gets as far as a COMMIT that takes effect. -/
theorem vault_lawful_iff (calls : ι → Call) (db : Db) (es : List (Event ι)) :
    Runs.Every advance Lawful (start calls db) es ↔
      Runs.Every advance (fun w e => committed w e = none) (start calls db) es := by
  have initial := uncommitted_start calls db
  constructor
  · exact every_uncommitted initial
  · exact Runs.Every.imp_of_inv Uncommitted (fun _ _ h hnone => uncommitted_advance h hnone)
      (fun _ _ h hnone => lawful_of_uncommitted h hnone) initial es

/-! ## A transfer that commits -/

/-- A call that moves 1000 into a vault. -/
def savingCall : Call :=
  ⟨"user", "vault", 1000 * 10 ^ 7, .deposit, "VAULT-1767225600000-i", by decide⟩

/-- A user who has deposited 10000 and has an empty vault. -/
def savingDb : Db :=
  ⟨[⟨"vault", "user", "Savings", 0, true, le_refl 0⟩], [],
    [⟨"TXN-1", .deposit, 10000 * 10 ^ 7, .completed, "user", none⟩], fun _ => false⟩

/-- The seven queries up to the COMMIT all succeed. -/
def savingRun : List (Event Unit) := List.replicate 7 (.turn () ⟨.done, none⟩)

/-- The vault goes up, the main balance stays, and the total has grown from 10000. -/
example : getUserBalanceSummary (run (start (fun _ => savingCall) savingDb) savingRun).shared
    "user" = ⟨10000 * 10 ^ 7, [⟨"vault", "Savings", 1000 * 10 ^ 7⟩], "11000"⟩ := by
  decide +kernel

/-- A user who saves 1000 of 10000 still has 10000 to spend. -/
theorem transfer_creates_money : ¬ ∀ (calls : Unit → Call) (db : Db) (es : List (Event Unit)),
    Runs.Every advance Lawful (start calls db) es := by
  intro lawful
  have every := every_uncommitted (uncommitted_start _ _)
    (lawful (fun _ => savingCall) savingDb savingRun)
  revert every
  decide +kernel

end MobileMoney.Vault
