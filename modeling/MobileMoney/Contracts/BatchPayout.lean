import MobileMoney.Library.MachineInt
import MobileMoney.Library.Runs
import MobileMoney.Soroban.Host

/-!
# The batch payout contract

`contracts/batch_payout`: the admin pays a list of recipients out of the contract's own balance in
one call. The list is checked before the first transfer, so a batch is paid as a whole or not at
all; batches are numbered. TTL extensions are left out.
-/

namespace MobileMoney.BatchPayout

open Soroban MachineInt

variable {A : Type}

/-- Hard ceiling on recipients per call. -/
def maxBatchSize : ℕ := 30

inductive BatchPayoutError where
  | alreadyInitialized
  | notInitialized
  | emptyBatch
  | batchTooLarge
  | invalidAmount
  | overflow
  | insufficientBalance
  deriving DecidableEq

structure PayoutRecipient (A : Type) where
  recipient : A
  amount : ℤ
  deriving DecidableEq

inductive Published (A : Type) where
  | payoutSent (batchId : ℕ) (recipient : A) (amount : ℤ)
  | batchCompleted (batchId recipientCount : ℕ) (totalAmount : ℤ)
  deriving DecidableEq

/-- Instance storage under `ADMIN`, `TOKEN` and `NEXT_BID`. -/
structure Storage (A : Type) where
  admin : Option A
  token : Option A
  nextBatchId : Option ℕ

abbrev PayoutWorld (A : Type) := World A (Storage A) (Published A)

abbrev Result (α : Type) := Outcome BatchPayoutError α

variable {contract : A}

def getAdmin (w : PayoutWorld A) : Result A := orFail w.storage.admin (.error .notInitialized)

def initializePayout (env : Invocation A contract) (admin token : A) (w : PayoutWorld A) :
    Result (PayoutWorld A) := do
  require (w.storage.admin.isSome = false) (.error .alreadyInitialized)
  env.requireAuth admin
  return w.store ⟨some admin, some token, some 0⟩

/-- The loop over the entries before anything is paid. -/
def addUp : List (PayoutRecipient A) → ℤ → Result ℤ
  | [], total => .ok total
  | entry :: rest, total => do
    require (¬ entry.amount ≤ 0) (.error .invalidAmount)
    let total ← orFail (i128.checkedAdd total entry.amount) (.error .overflow)
    addUp rest total

/-- The `u64` increment traps when it overflows. -/
def takeBatchId (w : PayoutWorld A) : Result (ℕ × PayoutWorld A) := do
  let id := w.storage.nextBatchId.getD 0
  require ((id + 1 : ℕ) ≤ u64.max) .arithmetic
  return (id, w.store { w.storage with nextBatchId := some (id + 1) })

variable [DecidableEq A]

def payEach (env : Invocation A contract) (token : A) (batchId : ℕ) :
    List (PayoutRecipient A) → PayoutWorld A → Result (PayoutWorld A)
  | [], w => .ok w
  | entry :: rest, w => do
    let w ← env.transfer ⟨token, contract, entry.recipient, entry.amount⟩ w
    payEach env token batchId rest (w.publish (.payoutSent batchId entry.recipient entry.amount))

def payoutBatch (env : Invocation A contract) (recipients : List (PayoutRecipient A))
    (w : PayoutWorld A) : Result (ℕ × PayoutWorld A) := do
  let admin ← getAdmin w
  env.requireAuth admin
  require (recipients.length ≠ 0) (.error .emptyBatch)
  require (¬ maxBatchSize < recipients.length) (.error .batchTooLarge)
  let total ← addUp recipients 0
  let token ← orFail w.storage.token (.error .notInitialized)
  require (¬ w.balances token contract < total) (.error .insufficientBalance)
  let (batchId, w) ← takeBatchId w
  let w ← payEach env token batchId recipients w
  return (batchId, w.publish (.batchCompleted batchId recipients.length total))

inductive Operation (A : Type) where
  | initializePayout (admin token : A)
  | payoutBatch (recipients : List (PayoutRecipient A))

/-- The entry points that write; `admin` and `token` only read. -/
def invoke (env : Invocation A contract) (op : Operation A) (w : PayoutWorld A) :
    Result (PayoutWorld A) :=
  match op with
  | .initializePayout admin token => initializePayout env admin token w
  | .payoutBatch recipients => (payoutBatch env recipients w).map (·.2)

/-- A deployed contract that has not been initialised. -/
def deployed (balances : A → A → ℤ) : PayoutWorld A where
  storage := ⟨none, none, none⟩
  balances := balances
  transfers := []
  events := []

/-! ## A batch -/

def amounts (recipients : List (PayoutRecipient A)) : ℤ := (recipients.map (·.amount)).sum

omit [DecidableEq A] in
theorem amounts_nonneg {recipients : List (PayoutRecipient A)}
    (positive : ∀ entry ∈ recipients, 0 < entry.amount) : 0 ≤ amounts recipients := by
  apply List.sum_nonneg
  intro amount hamount
  obtain ⟨entry, hentry, rfl⟩ := List.mem_map.1 hamount
  exact (positive entry hentry).le

omit [DecidableEq A] in
theorem addUp_eq_ok {recipients : List (PayoutRecipient A)} {start total : ℤ} (hstart : 0 ≤ start)
    (hmax : start ≤ i128.max) :
    addUp recipients start = .ok total ↔ (∀ entry ∈ recipients, 0 < entry.amount) ∧
      start + amounts recipients ≤ i128.max ∧ start + amounts recipients = total := by
  induction recipients generalizing start with
  | nil => simp [addUp, amounts, hmax]
  | cons entry rest ih =>
    simp only [addUp, bind_eq_ok, require_eq_ok, orFail_eq_ok, exists_const, not_le,
      IntType.checkedAdd, List.forall_mem_cons]
    have split : amounts (entry :: rest) = entry.amount + amounts rest := by simp [amounts]
    constructor
    · rintro ⟨positive, next, hchecked, h⟩
      obtain ⟨rfl, -, hnext⟩ := IntType.checked_eq_some.1 hchecked
      obtain ⟨hrest, bound, rfl⟩ := (ih (by omega) hnext).1 h
      exact ⟨⟨positive, hrest⟩, by omega, by omega⟩
    · rintro ⟨⟨positive, hrest⟩, bound, rfl⟩
      have := amounts_nonneg hrest
      refine ⟨positive, start + entry.amount, ?_, ?_⟩
      · exact (checked_i128_of_nonneg (by omega)).2 (by omega)
      · exact (ih (by omega) (by omega)).2 ⟨hrest, by omega, by omega⟩

/-- What the contract transfers for a batch. -/
def payments (contract token : A) (recipients : List (PayoutRecipient A)) : List (Transfer A) :=
  recipients.map fun entry => ⟨token, contract, entry.recipient, entry.amount⟩

/-- What indexers are told of the entries of a batch. -/
def sent (batchId : ℕ) (recipients : List (PayoutRecipient A)) : List (Published A) :=
  recipients.map fun entry => .payoutSent batchId entry.recipient entry.amount

/-- The effects of the transfers of a batch. -/
def paidOut (contract token : A) (batchId : ℕ) (recipients : List (PayoutRecipient A))
    (w : PayoutWorld A) : PayoutWorld A :=
  recipients.foldl (fun w entry =>
    (w.pay ⟨token, contract, entry.recipient, entry.amount⟩).publish
      (.payoutSent batchId entry.recipient entry.amount)) w

theorem paidOut_storage (token : A) (batchId : ℕ) (recipients : List (PayoutRecipient A))
    (w : PayoutWorld A) :
    (paidOut contract token batchId recipients w).storage = w.storage := by
  induction recipients generalizing w with
  | nil => rfl
  | cons entry rest ih => exact ih _

theorem paidOut_events (token : A) (batchId : ℕ) (recipients : List (PayoutRecipient A))
    (w : PayoutWorld A) : (paidOut contract token batchId recipients w).events =
      w.events ++ sent batchId recipients := by
  induction recipients generalizing w with
  | nil => simp [paidOut, sent]
  | cons entry rest ih =>
    rw [paidOut, List.foldl_cons, ← paidOut, ih]
    simp [sent]

theorem paidOut_paid (token : A) (batchId : ℕ) (recipients : List (PayoutRecipient A))
    (w : PayoutWorld A) : Paid w (paidOut contract token batchId recipients w)
      (payments contract token recipients) := by
  induction recipients using List.reverseRecOn with
  | nil => exact .of_same rfl rfl
  | append_singleton recipients entry ih =>
    rw [paidOut, List.foldl_append, payments, List.map_append]
    exact (ih.pay _).congr rfl rfl rfl rfl

/-- The total is there before the first transfer, so no transfer of a batch lacks funds, whoever
the recipients are. -/
theorem payEach_eq_ok {env : Invocation A contract} {token : A} {batchId : ℕ}
    {recipients : List (PayoutRecipient A)} {w w' : PayoutWorld A}
    (positive : ∀ entry ∈ recipients, 0 < entry.amount)
    (funded : amounts recipients ≤ w.balances token contract) :
    payEach env token batchId recipients w = .ok w' ↔
      (∀ t ∈ payments contract token recipients, env.accepts (.transfer t) = true) ∧
        paidOut contract token batchId recipients w = w' := by
  induction recipients generalizing w with
  | nil => simp [payEach, payments, paidOut]
  | cons entry rest ih =>
    obtain ⟨hentry, hrest⟩ := List.forall_mem_cons.1 positive
    have split : amounts (entry :: rest) = entry.amount + amounts rest := by simp [amounts]
    have nonneg := amounts_nonneg hrest
    have left : amounts rest ≤ ((w.pay ⟨token, contract, entry.recipient, entry.amount⟩).publish
        (Published.payoutSent batchId entry.recipient entry.amount)).balances token contract := by
      simp only [World.publish_balances, World.pay_balances, Transfer.effect, if_true]
      split_ifs <;> omega
    simp only [payEach, bind_eq_ok, Invocation.transfer_eq_ok]
    constructor
    · rintro ⟨_, ⟨⟨accepted, -, -⟩, rfl⟩, h⟩
      obtain ⟨accepts, rfl⟩ := (ih hrest left).1 h
      exact ⟨List.forall_mem_cons.2 ⟨accepted, accepts⟩, rfl⟩
    · rintro ⟨accepts, rfl⟩
      obtain ⟨accepted, accepts⟩ := List.forall_mem_cons.1 accepts
      exact ⟨_, ⟨⟨accepted, hentry.le, by omega⟩, rfl⟩, (ih hrest left).2 ⟨accepts, rfl⟩⟩

/-- What `payoutBatch` asks for before it pays. -/
structure Payable (env : Invocation A contract) (recipients : List (PayoutRecipient A))
    (token : A) (w : PayoutWorld A) : Prop where
  authorised : ∃ admin ∈ w.storage.admin, env.authorised admin = true
  token_stored : w.storage.token = some token
  nonempty : recipients ≠ []
  small : recipients.length ≤ maxBatchSize
  positive : ∀ entry ∈ recipients, 0 < entry.amount
  no_overflow : amounts recipients ≤ i128.max
  funded : amounts recipients ≤ w.balances token contract
  numbered : (w.storage.nextBatchId.getD 0 + 1 : ℕ) ≤ u64.max
  accepted : ∀ t ∈ payments contract token recipients, env.accepts (.transfer t) = true

/-- The world after a batch. -/
def completed (contract token : A) (recipients : List (PayoutRecipient A)) (w : PayoutWorld A) :
    PayoutWorld A :=
  let batchId := w.storage.nextBatchId.getD 0
  (paidOut contract token batchId recipients
    (w.store { w.storage with nextBatchId := some (batchId + 1) })).publish
      (.batchCompleted batchId recipients.length (amounts recipients))

theorem payoutBatch_eq_ok {env : Invocation A contract} {recipients : List (PayoutRecipient A)}
    {w w' : PayoutWorld A} {batchId : ℕ} :
    payoutBatch env recipients w = .ok (batchId, w') ↔
      ∃ token, Payable env recipients token w ∧ batchId = w.storage.nextBatchId.getD 0 ∧
        completed contract token recipients w = w' := by
  have bound : (0 : ℤ) ≤ i128.max := by norm_num [i128]
  simp only [payoutBatch, getAdmin, takeBatchId, bind_eq_ok, pure_eq_ok, require_eq_ok,
    orFail_eq_ok, Invocation.requireAuth_eq_ok, exists_const, not_lt, Prod.exists, Prod.mk.injEq,
    addUp_eq_ok le_rfl bound, zero_add]
  constructor
  · rintro ⟨admin, hadmin, auth, hne, small, _, ⟨positive, no_overflow, rfl⟩, token, htoken,
      funded, _, _, ⟨numbered, rfl, rfl⟩, _, h, rfl, rfl⟩
    have funded' : amounts recipients ≤ (w.store { w.storage with
      nextBatchId := some (w.storage.nextBatchId.getD 0 + 1) }).balances token contract := funded
    obtain ⟨accepted, rfl⟩ := (payEach_eq_ok positive funded').1 h
    exact ⟨token, ⟨⟨admin, hadmin, auth⟩, htoken, fun h => hne (by simp [h]), small, positive,
      no_overflow, funded, numbered, accepted⟩, rfl, rfl⟩
  · rintro ⟨token, h, rfl, rfl⟩
    obtain ⟨admin, hadmin, auth⟩ := h.authorised
    refine ⟨admin, hadmin, auth, fun h0 => h.nonempty (List.length_eq_zero_iff.1 h0), h.small, _,
      ⟨h.positive, h.no_overflow, rfl⟩, token, h.token_stored, h.funded, _, _,
      ⟨h.numbered, rfl, rfl⟩, _, ?_, rfl, rfl⟩
    have funded : amounts recipients ≤ (w.store { w.storage with
      nextBatchId := some (w.storage.nextBatchId.getD 0 + 1) }).balances token contract := h.funded
    exact (payEach_eq_ok h.positive funded).2 ⟨h.accepted, rfl⟩

theorem invoke_paid (env : Invocation A contract) (op : Operation A) (w w' : PayoutWorld A)
    (_ : True) (h : invoke env op w = .ok w') : ∃ ts, Paid w w' ts := by
  cases op with
  | initializePayout admin token =>
    simp only [invoke, initializePayout, bind_eq_ok, pure_eq_ok] at h
    obtain ⟨-, -, -, -, rfl⟩ := h
    exact ⟨[], .of_same rfl rfl⟩
  | payoutBatch recipients =>
    obtain ⟨⟨batchId, w''⟩, result, rfl⟩ := map_eq_ok.1 h
    obtain ⟨token, -, -, rfl⟩ := payoutBatch_eq_ok.1 result
    have paid : Paid _ (paidOut contract token _ recipients _) _ := paidOut_paid token
      (w.storage.nextBatchId.getD 0) recipients (w.store { w.storage with
        nextBatchId := some (w.storage.nextBatchId.getD 0 + 1) })
    exact ⟨payments contract token recipients, paid.transfers, paid.balances⟩

/-! ## Runs -/

/-- The batches that were paid in a run, each with its token. -/
def batches (w : PayoutWorld A) :
    Event A contract (Operation A) → List (A × List (PayoutRecipient A))
  | .call env (.payoutBatch recipients) =>
    match payoutBatch env recipients w, w.storage.token with
    | .ok _, some token => [(token, recipients)]
    | _, _ => []
  | _ => []

/-- What indexers are told of the batches, numbered from `first`. -/
def told : ℕ → List (A × List (PayoutRecipient A)) → List (Published A)
  | _, [] => []
  | first, batch :: rest =>
    sent first batch.2 ++ .batchCompleted first batch.2.length (amounts batch.2) ::
      told (first + 1) rest

omit [DecidableEq A] in
theorem told_concat (first : ℕ) (paid : List (A × List (PayoutRecipient A)))
    (batch : A × List (PayoutRecipient A)) : told first (paid ++ [batch]) =
      told first paid ++ (sent (first + paid.length) batch.2 ++
        [.batchCompleted (first + paid.length) batch.2.length (amounts batch.2)]) := by
  induction paid generalizing first with
  | nil => simp [told]
  | cons other rest ih =>
    rw [List.cons_append, told, told, ih, List.length_cons, Nat.add_right_comm, ← Nat.add_assoc]
    simp

/-- What was transferred for the batches. -/
def transferred (contract : A) (paid : List (A × List (PayoutRecipient A))) : List (Transfer A) :=
  paid.flatMap fun batch => payments contract batch.1 batch.2

/-- The world agrees with the batches that were paid so far. -/
structure Consistent (contract : A) (w : PayoutWorld A)
    (paid : List (A × List (PayoutRecipient A))) : Prop where
  events : w.events = told 0 paid
  transfers : w.transfers = transferred contract paid
  numbered : w.storage.nextBatchId.getD 0 = paid.length
  fresh : w.storage.admin = none → paid = []

theorem Consistent.step {w : PayoutWorld A} {paid : List (A × List (PayoutRecipient A))}
    (h : Consistent contract w paid) (e : Event A contract (Operation A)) :
    Consistent contract (step invoke w e) (paid ++ batches w e) := by
  have idle (hnone : batches w e = []) (hsame : Soroban.step invoke w e = w) :
      Consistent contract (Soroban.step invoke w e) (paid ++ batches w e) := by
    rwa [hnone, hsame, List.append_nil]
  cases e with
  | outside move =>
    rw [show batches w (.outside move) = [] from rfl, List.append_nil]
    exact ⟨h.events, h.transfers, h.numbered, h.fresh⟩
  | call env op =>
    cases op with
    | initializePayout admin token =>
      cases result : initializePayout env admin token w with
      | error failure => exact idle rfl (step_of_error result)
      | ok w' =>
        rw [step_of_ok result, show batches w (.call env (.initializePayout admin token)) = []
          from rfl, List.append_nil]
        simp only [initializePayout, bind_eq_ok, require_eq_ok, pure_eq_ok,
          Option.isSome_eq_false_iff, Option.isNone_iff_eq_none] at result
        obtain ⟨-, hadmin, -, -, rfl⟩ := result
        have none := h.fresh hadmin
        exact ⟨h.events, h.transfers, by simp [none], fun _ => none⟩
    | payoutBatch recipients =>
      cases result : payoutBatch env recipients w with
      | error failure =>
        have refused : invoke env (.payoutBatch recipients) w = .error failure := by
          rw [invoke, result]
          rfl
        exact idle (by simp [batches, result]) (step_of_error refused)
      | ok answer =>
        obtain ⟨batchId, w'⟩ := answer
        obtain ⟨token, payable, -, rfl⟩ := payoutBatch_eq_ok.1 result
        have one : batches w (.call env (.payoutBatch recipients)) = [(token, recipients)] := by
          simp [batches, result, payable.token_stored]
        have after : Soroban.step invoke w (.call env (.payoutBatch recipients)) =
            completed contract token recipients w := by
          apply step_of_ok
          rw [invoke, result]
          rfl
        rw [one, after]
        obtain ⟨admin, hadmin, -⟩ := payable.authorised
        constructor
        · rw [told_concat, Nat.zero_add, completed, World.publish_events, paidOut_events,
            World.store_events, h.events, h.numbered, List.append_assoc]
        · rw [completed, World.publish_transfers, (paidOut_paid _ _ _ _).transfers,
            World.store_transfers, h.transfers, transferred, transferred, List.flatMap_append,
            List.flatMap_singleton]
        · rw [completed, World.publish_storage, paidOut_storage, World.store_storage,
            List.length_append, List.length_singleton]
          simp [h.numbered]
        · intro hnone
          rw [completed, World.publish_storage, paidOut_storage, World.store_storage] at hnone
          rw [hnone] at hadmin
          cases hadmin

/-- After any run the events and the transfers are those of the batches that were paid, each in
full, under the numbers from zero on. -/
theorem batches_paid_as_told (balances : A → A → ℤ) (es : List (Event A contract (Operation A))) :
    let w := run invoke (deployed balances) es
    let paid := Runs.collect (step invoke) batches (deployed balances) es
    w.events = told 0 paid ∧ w.transfers = transferred contract paid ∧
      ∀ token, w.balances token contract = balances token contract + donated es token +
        ((transferred contract paid).map (·.effect token contract)).sum := by
  intro w paid
  have consistent : Consistent contract w paid :=
    Runs.inv_collect (Consistent contract) (fun _ _ e h => h.step e)
      ⟨rfl, rfl, rfl, fun _ => rfl⟩ es
  have anything : Invariant (@invoke A contract _) fun _ => True :=
    ⟨fun _ _ _ => trivial, fun _ _ _ _ _ _ => trivial⟩
  obtain ⟨ts, hts, balance⟩ := anything.balance invoke_paid (w := deployed balances) trivial es
  have same : ts = transferred contract paid := by
    rw [← consistent.transfers, hts]
    rfl
  exact ⟨consistent.events, consistent.transfers, fun token => by rw [← same]; exact balance token⟩

end MobileMoney.BatchPayout
