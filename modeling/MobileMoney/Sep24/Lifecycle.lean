import MobileMoney.Library.Checked
import MobileMoney.Library.Tally
import MobileMoney.Sep24.Program

/-!
# The life of a session

Callbacks, updates and renewals write a status over whatever was there, and the counter of an
account is adjusted by whoever writes a terminal one. As long as they leave alone what is over
and what is being paid, the checks of the other operations do the rest: a fulfilment begins only
for a deposit that nobody is paying, and only sessions that wait for their user expire.
-/

namespace MobileMoney.Sep24

variable {ι : Type} [DecidableEq ι]

/-! ## The law -/

/-- What a session adds to the count of an account. -/
def activePart (account : String) : Option Sep24Transaction → ℕ
  | none => 0
  | some t => if t.account = account ∧ t.status.isTerminal = false then 1 else 0

/-- The number of sessions of an account that are not in a terminal status. -/
def activeSessions (store : Store) (account : String) : ℕ :=
  ∑ id ∈ Finset.range store.nextId, activePart account (store.transactions id)

/-- Terminal statuses stay as they are. -/
def Kept (store store' : Store) : Prop :=
  ∀ id t, store.transactions id = some t → t.status.isTerminal = true →
    ∃ t', store'.transactions id = some t' ∧ t'.status = t.status

/-- A deposit that has neither failed nor expired. -/
def Alive (store : Store) (id : ℕ) : Prop :=
  ∃ t, store.transactions id = some t ∧ t.kind = .deposit ∧ t.status ≠ .failed ∧
    t.status ≠ .expired

def paidIds (store : Store) : List ℕ := store.payments.map (·.id)

/-- What a step must meet: statuses are absorbing; no deposit is paid twice, and none after
it has failed or expired; the counters count, and never more than the limit. -/
structure Lawful (cfg : Config) (w : SessionWorld ι) (e : Event ι) : Prop where
  kept : Kept w.shared (advance cfg w e).shared
  once : (paidIds (advance cfg w e).shared).Nodup
  sent : ∀ payment ∈ (advance cfg w e).shared.payments,
    payment ∈ w.shared.payments ∨ Alive w.shared payment.id
  counted : ∀ account, (advance cfg w e).shared.active account =
    activeSessions (advance cfg w e).shared account
  limited : ∀ account, activeSessions (advance cfg w e).shared account ≤
    maxActiveTransactionsPerAccount

/-! ## The condition -/

/-- The session that a call is about to pay, between its check and its payment. -/
def Phase.loads : Phase → Option ℕ
  | .loading payment => some payment.id
  | _ => none

/-- The session that a call is paying, from its check to the answer. -/
def Phase.fulfils : Phase → Option ℕ
  | .loading payment | .awaiting payment => some payment.id
  | _ => none

theorem Phase.fulfils_of_loads {phase : Phase} {id : ℕ} (h : phase.loads = some id) :
    phase.fulfils = some id := by
  cases phase <;> first | exact h | cases h

/-- The expiry that reading a session writes. -/
def expiring (cfg : Config) (store : Store) (id : ℕ) : List (ℕ × Sep24TransactionStatus) :=
  if (store.transactions id).any fun t => isInteractiveSessionExpired cfg t store.now then
    [(id, .expired)]
  else []

/-- The statuses that are written without a look at the one that is there: those of callbacks and
updates, and of a renewal, which looks only whether the session has expired. -/
def blindWrites (w : SessionWorld ι) : Event ι → List (ℕ × Sep24TransactionStatus)
  | .callback data => [(data.transactionId, data.status)]
  | .update id status _ => [(id, status)]
  | .turn i _ =>
    match (w.locals i).call, (w.locals i).phase with
    | .renewInteractiveSession id, .superseding _ =>
      if (w.shared.transactions id).any fun t => t.status ≠ .expired then [(id, .expired)] else []
    | _, _ => []
  | .tick _ | .create _ _ _ | .get _ | .sweep => []

/-- A write that does not hit a session that is over: at most it repeats its status while
the account has no active session left to miscount. -/
def MayWrite (store : Store) (id : ℕ) (status : Sep24TransactionStatus) : Prop :=
  ∀ t, store.transactions id = some t → t.status.isTerminal = true →
    status = t.status ∧ store.active t.account = 0

/-- The condition on a step: what it writes blindly does not hit a session that is over, leaves a
deposit pending on Stellar while a fulfilment is paying it, and does not open a deposit again for
which a payment has been sent. -/
structure Careful (w : SessionWorld ι) (e : Event ι) : Prop where
  live : ∀ x ∈ blindWrites w e, MayWrite w.shared x.1 x.2
  underway : ∀ x ∈ blindWrites w e, ∀ j, (w.locals j).phase.fulfils = some x.1 →
    x.2 = .pendingStellar
  settled : ∀ x ∈ blindWrites w e, x.1 ∈ paidIds w.shared →
    x.2 = .pendingStellar ∨ x.2.isTerminal = true

instance (store : Store) (id : ℕ) (status : Sep24TransactionStatus) :
    Decidable (MayWrite store id status) :=
  inferInstanceAs (Decidable (∀ t ∈ store.transactions id, t.status.isTerminal = true →
    status = t.status ∧ store.active t.account = 0))

instance [Fintype ι] (w : SessionWorld ι) (e : Event ι) : Decidable (Careful w e) :=
  decidable_of_iff (_ ∧ _ ∧ _) ⟨fun ⟨live, underway, settled⟩ => ⟨live, underway, settled⟩,
    fun h => ⟨h.live, h.underway, h.settled⟩⟩

/-- The statuses that an event writes. -/
def writes (cfg : Config) (w : SessionWorld ι) (e : Event ι) :
    List (ℕ × Sep24TransactionStatus) :=
  match e with
  | .get id => expiring cfg w.shared id
  | .sweep => (List.range w.shared.nextId).flatMap (expiring cfg w.shared)
  | .turn i (.ok _) =>
    match (w.locals i).call, (w.locals i).phase with
    | .fulfillDeposit id, .awaiting _ => [(id, .completed)]
    | _, _ => blindWrites w e
  | e => blindWrites w e

/-! ## What a change of the store must keep -/

/-- No session has an id that has not been drawn, and the counters count. -/
structure Counted (store : Store) : Prop where
  drawn : ∀ id, store.nextId ≤ id → store.transactions id = none
  counted : ∀ account, store.active account = activeSessions store account

/-- A change of the store, with the statuses that it may write. -/
structure Change (wrote : ℕ → Sep24TransactionStatus → Prop) (store store' : Store) : Prop where
  counted : Counted store → Counted store'
  limited : (∀ account, store.active account ≤ maxActiveTransactionsPerAccount) →
    ∀ account, store'.active account ≤ maxActiveTransactionsPerAccount
  kept : Kept store store'
  statuses : ∀ id t, store.transactions id = some t → ∃ t', store'.transactions id = some t' ∧
    t'.kind = t.kind ∧ (t'.status = t.status ∨ wrote id t'.status)
  payments : store'.payments = store.payments

theorem Change.rfl {wrote : ℕ → Sep24TransactionStatus → Prop} {store : Store} :
    Change wrote store store where
  counted h := h
  limited h := h
  kept _ t h _ := ⟨t, h, Eq.refl _⟩
  statuses _ t h := ⟨t, h, Eq.refl _, .inl (Eq.refl _)⟩
  payments := Eq.refl _

theorem Change.trans {wrote : ℕ → Sep24TransactionStatus → Prop} {store₁ store₂ store₃ : Store}
    (h₁ : Change wrote store₁ store₂) (h₂ : Change wrote store₂ store₃) :
    Change wrote store₁ store₃ where
  counted h := h₂.counted (h₁.counted h)
  limited h := h₂.limited (h₁.limited h)
  kept id t ht hterminal := by
    obtain ⟨t₂, ht₂, hstatus₂⟩ := h₁.kept id t ht hterminal
    obtain ⟨t₃, ht₃, hstatus₃⟩ := h₂.kept id t₂ ht₂ (hstatus₂ ▸ hterminal)
    exact ⟨t₃, ht₃, hstatus₃.trans hstatus₂⟩
  statuses id t ht := by
    obtain ⟨t₂, ht₂, hkind₂, hstatus₂⟩ := h₁.statuses id t ht
    obtain ⟨t₃, ht₃, hkind₃, hstatus₃⟩ := h₂.statuses id t₂ ht₂
    refine ⟨t₃, ht₃, hkind₃.trans hkind₂, ?_⟩
    rcases hstatus₃ with hsame | hwrote
    · rw [hsame]
      exact hstatus₂
    · exact .inr hwrote
  payments := h₂.payments.trans h₁.payments

theorem Change.mono {wrote wrote' : ℕ → Sep24TransactionStatus → Prop} {store store' : Store}
    (h : Change wrote store store') (imp : ∀ id status, wrote id status → wrote' id status) :
    Change wrote' store store' :=
  { h with
    statuses := by
      intro id t ht
      obtain ⟨t', ht', hkind, hstatus⟩ := h.statuses id t ht
      exact ⟨t', ht', hkind, hstatus.imp_right (imp id _)⟩ }

/-! ## Writes -/

theorem lt_nextId {store : Store} (h : Counted store) {id : ℕ} {t : Sep24Transaction}
    (ht : store.transactions id = some t) : id < store.nextId := by
  by_contra hge
  rw [h.drawn id (by omega)] at ht
  cases ht

theorem activePart_eq (account : String) (t : Sep24Transaction) : activePart account (some t) =
    if t.account = account ∧ t.status.isTerminal = false then 1 else 0 := rfl

/-- A session counts towards the counter of its account. -/
theorem activePart_le {store : Store} (h : Counted store) {id : ℕ} {t : Sep24Transaction}
    (ht : store.transactions id = some t) (account : String) :
    activePart account (some t) ≤ store.active account := by
  rw [h.counted, ← ht, activeSessions,
    ← Finset.sum_erase_add _ _ (Finset.mem_range.2 (lt_nextId h ht))]
  exact Nat.le_add_left _ _

/-- One session is exchanged for another, and the counters follow. -/
theorem change_of_put {wrote : ℕ → Sep24TransactionStatus → Prop} {store store' : Store} {id : ℕ}
    {t t' : Sep24Transaction}
    (ht : store.transactions id = some t)
    (transactions : store'.transactions = Function.update store.transactions id (some t'))
    (nextId : store'.nextId = store.nextId) (payments : store'.payments = store.payments)
    (kept : t.status.isTerminal = true → t'.status = t.status)
    (status : t'.kind = t.kind ∧ (t'.status = t.status ∨ wrote id t'.status))
    (fewer : ∀ account, store'.active account ≤ store.active account)
    (active : Counted store → ∀ account, store'.active account + activePart account (some t) =
      store.active account + activePart account (some t')) : Change wrote store store' where
  payments := payments
  limited h account := (fewer account).trans (h account)
  counted h := by
    have hid := lt_nextId h ht
    constructor
    case drawn =>
      intro id' hid'
      rw [transactions, Function.update_of_ne (by omega), h.drawn id' (nextId ▸ hid')]
    case counted =>
      intro account
      have count : activeSessions store' account + activePart account (some t) =
          activeSessions store account + activePart account (some t') := by
        rw [activeSessions, transactions, nextId, ← ht]
        exact Tally.sum_update _ (activePart account) store.transactions (Finset.mem_range.2 hid) _
      have := active h account
      rw [h.counted account] at this
      omega
  kept id' u hu hterminal := by
    rw [transactions]
    by_cases hid : id' = id
    · subst hid
      cases ht.symm.trans hu
      exact ⟨t', Function.update_self _ _ _, kept hterminal⟩
    · exact ⟨u, by rw [Function.update_of_ne hid, hu], rfl⟩
  statuses id' u hu := by
    by_cases hid : id' = id
    · subst hid
      cases ht.symm.trans hu
      exact ⟨t', by rw [transactions, Function.update_self], status⟩
    · exact ⟨u, by rw [transactions, Function.update_of_ne hid, hu], rfl, .inl rfl⟩

/-- What is written over a session that is not over, or again over one that is. -/
theorem change_write {store : Store} {id : ℕ} {status : Sep24TransactionStatus} {edit : Edit}
    (may : MayWrite store id status) :
    Change (fun id' status' => id' = id ∧ status' = status) store (store.write id status edit) := by
  unfold Store.write
  cases ht : store.transactions id with
  | none => exact .rfl
  | some t =>
    have may := may t ht
    dsimp only
    set t' := edit.apply { t with status := status } with ht'
    have hstatus : t'.status = status := edit.status _
    have haccount : t'.account = t.account := edit.account _
    have hkind : t'.kind = t.kind := edit.kind _
    have kept : t.status.isTerminal = true → t'.status = t.status :=
      fun hterminal => hstatus.trans (may hterminal).1
    split_ifs with hterminal
    · apply change_of_put ht
      case transactions | nextId | payments => rfl
      case kept => exact kept
      case status => exact ⟨hkind, .inr ⟨rfl, hstatus⟩⟩
      case fewer =>
        intro account
        simp only [Store.decrementActiveTransactionCount, Store.put, Function.update_apply]
        split_ifs with h
        · rw [h]
          exact Nat.sub_le _ _
        · exact Nat.le_refl _
      case active =>
        intro counted account
        have counts := activePart_le counted ht account
        simp only [Store.decrementActiveTransactionCount, Store.put, Function.update_apply,
          activePart_eq, haccount, hstatus, hterminal] at counts ⊢
        grind
    · apply change_of_put ht
      case transactions | nextId | payments => rfl
      case kept => exact kept
      case status => exact ⟨hkind, .inr ⟨rfl, hstatus⟩⟩
      case fewer => exact fun account => Nat.le_refl _
      case active =>
        intro _ account
        simp only [activePart_eq, haccount, hstatus, Store.put]
        grind

theorem change_amend {wrote : ℕ → Sep24TransactionStatus → Prop} (store : Store) (id : ℕ)
    (edit : Edit) : Change wrote store (store.amend id edit) := by
  unfold Store.amend
  cases ht : store.transactions id with
  | none => exact .rfl
  | some t =>
    apply change_of_put ht
    case transactions | nextId | payments => rfl
    case kept => exact fun _ => edit.status t
    case status => exact ⟨edit.kind t, .inl (edit.status t)⟩
    case fewer => exact fun account => Nat.le_refl _
    case active =>
      intro _ account
      simp only [activePart_eq, edit.status, edit.account, Store.put]

theorem mayWrite_amend {store : Store} {id : ℕ} {status : Sep24TransactionStatus} (edit : Edit)
    (may : MayWrite store id status) : MayWrite (store.amend id edit) id status := by
  unfold Store.amend
  cases ht : store.transactions id with
  | none =>
    intro t ht'
    rw [ht] at ht'
    cases ht'
  | some t =>
    intro t' ht' hterminal
    simp only [Store.put, Function.update_self, Option.some.injEq] at ht'
    rw [← ht', edit.status] at hterminal ⊢
    rw [edit.account]
    exact may t ht hterminal

/-! ## Expiry and creation -/

theorem mem_expiring {cfg : Config} {store : Store} {id : ℕ} {x : ℕ × Sep24TransactionStatus} :
    x ∈ expiring cfg store id ↔ x = (id, .expired) ∧ ∃ t, store.transactions id = some t ∧
      isInteractiveSessionExpired cfg t store.now = true := by
  unfold expiring
  cases store.transactions id with
  | none => simp
  | some t => by_cases h : isInteractiveSessionExpired cfg t store.now = true <;> simp [h]

/-- Only a session that is not over expires. -/
theorem mayWrite_of_expired {cfg : Config} {store : Store} {id : ℕ} {t : Sep24Transaction}
    (ht : store.transactions id = some t)
    (expired : isInteractiveSessionExpired cfg t store.now = true)
    (status : Sep24TransactionStatus) : MayWrite store id status := by
  intro u hu hterminal
  cases ht.symm.trans hu
  unfold isInteractiveSessionExpired at expired
  cases hstatus : t.status <;>
    simp [hstatus, Sep24TransactionStatus.isExpirable, Sep24TransactionStatus.isTerminal]
      at expired hterminal

theorem change_getTransaction (cfg : Config) (store : Store) (id : ℕ) :
    Change (fun id' status => (id', status) ∈ expiring cfg store id) store
      (getTransaction cfg store id) := by
  unfold getTransaction
  cases ht : store.transactions id with
  | none => exact .rfl
  | some t =>
    dsimp only
    split_ifs with expired
    · refine (change_write (mayWrite_of_expired ht expired _)).mono ?_
      rintro id' status ⟨rfl, rfl⟩
      exact mem_expiring.2 ⟨rfl, t, ht, expired⟩
    · exact .rfl

theorem write_now (store : Store) (id : ℕ) (status : Sep24TransactionStatus) (edit : Edit) :
    (store.write id status edit).now = store.now := by
  unfold Store.write
  split
  · rfl
  · dsimp only
    split_ifs <;> rfl

theorem write_transactions {store : Store} {id : ℕ} {t : Sep24Transaction}
    (ht : store.transactions id = some t) (status : Sep24TransactionStatus) (edit : Edit) :
    (store.write id status edit).transactions =
      Function.update store.transactions id (some (edit.apply { t with status := status })) := by
  simp only [Store.write, ht]
  split_ifs <;> rfl

/-- Reading one session makes no other one expire. -/
theorem expiring_getTransaction {cfg : Config} {store : Store} {id id' : ℕ}
    {x : ℕ × Sep24TransactionStatus} (h : x ∈ expiring cfg (getTransaction cfg store id) id') :
    x ∈ expiring cfg store id' := by
  unfold getTransaction at h
  split at h
  · exact h
  · next t ht =>
    split_ifs at h with expired
    · obtain ⟨rfl, t', ht', expired'⟩ := mem_expiring.1 h
      rw [updateTransactionStatus, write_now] at expired'
      rw [updateTransactionStatus, write_transactions ht] at ht'
      by_cases hid : id' = id
      · rw [hid, Function.update_self, Option.some.injEq] at ht'
        rw [← ht'] at expired'
        cases expired'
      · rw [Function.update_of_ne hid] at ht'
        exact mem_expiring.2 ⟨rfl, t', ht', expired'⟩
    · exact h

theorem change_sweep (cfg : Config) (ids : List ℕ) (store : Store) :
    Change (fun id' status => (id', status) ∈ ids.flatMap (expiring cfg store)) store
      (ids.foldl (getTransaction cfg) store) := by
  induction ids generalizing store with
  | nil => exact .rfl
  | cons id ids ih =>
    rw [List.foldl_cons]
    apply Change.trans ((change_getTransaction cfg store id).mono ?_) ((ih _).mono ?_)
    · exact fun id' status hx => List.mem_flatMap.2 ⟨id, List.mem_cons_self, hx⟩
    · intro id' status hx
      obtain ⟨id'', hid'', hx⟩ := List.mem_flatMap.1 hx
      exact List.mem_flatMap.2 ⟨id'', List.mem_cons_of_mem _ hid'', expiring_getTransaction hx⟩

theorem generate_full {store : Store} {request : Request}
    (full : maxActiveTransactionsPerAccount ≤ store.active request.account) (kind : Kind)
    (signed : Bool) : (generateInteractiveUrl store request kind signed).1 = store := by
  simp [generateInteractiveUrl, full]

/-- When the URL cannot be signed, only an id has been drawn. -/
theorem generate_unsigned {store : Store} (h : Counted store) (request : Request) (kind : Kind)
    (free : ¬ maxActiveTransactionsPerAccount ≤ store.active request.account) :
    (generateInteractiveUrl store request kind false).1 =
      { store with nextId := store.nextId + 1 } := by
  have absent := h.drawn store.nextId (Nat.le_refl _)
  simp only [generateInteractiveUrl, if_neg free, Store.put, Bool.false_eq_true, if_false,
    Store.decrementActiveTransactionCount, Function.update_idem, Function.update_self,
    Nat.add_sub_cancel, Function.update_eq_self]
  rw [← absent, Function.update_eq_self]

theorem generate_signed {store : Store} (request : Request) (kind : Kind)
    (free : ¬ maxActiveTransactionsPerAccount ≤ store.active request.account) :
    (generateInteractiveUrl store request kind true).1 =
      { store with
        transactions := Function.update store.transactions store.nextId
          (some (newTransaction store request kind))
        nextId := store.nextId + 1
        active := Function.update store.active request.account
          (store.active request.account + 1) } := by
  simp [generateInteractiveUrl, free, Store.put]

theorem counted_drawn {store : Store} (h : Counted store) :
    Counted { store with nextId := store.nextId + 1 } where
  drawn id hid := h.drawn id (by simp only at hid; omega)
  counted account := by
    simp only [activeSessions, Finset.sum_range_succ, h.drawn store.nextId (Nat.le_refl _)]
    exact h.counted account

theorem change_generate {wrote : ℕ → Sep24TransactionStatus → Prop} {store : Store}
    (h : Counted store) (request : Request) (kind : Kind) (signed : Bool) :
    Change wrote store (generateInteractiveUrl store request kind signed).1 := by
  by_cases free : maxActiveTransactionsPerAccount ≤ store.active request.account
  · rw [generate_full free]
    exact .rfl
  cases signed with
  | false =>
    rw [generate_unsigned h request kind free]
    exact { Change.rfl with counted := counted_drawn }
  | true =>
    have other : ∀ {id t}, store.transactions id = some t → id ≠ store.nextId := by
      rintro _ t ht rfl
      rw [h.drawn _ (Nat.le_refl _)] at ht
      cases ht
    rw [generate_signed request kind free]
    constructor
    case payments => rfl
    case kept =>
      intro id t ht _
      exact ⟨t, (Function.update_of_ne (other ht) _ _).trans ht, rfl⟩
    case statuses =>
      intro id t ht
      exact ⟨t, (Function.update_of_ne (other ht) _ _).trans ht, rfl, .inl rfl⟩
    case limited =>
      intro limited account
      simp only [Function.update_apply]
      split_ifs with heq
      · omega
      · exact limited account
    case counted =>
      intro _
      constructor
      case drawn =>
        intro id hid
        have hlt : store.nextId < id := hid
        exact (Function.update_of_ne hlt.ne' _ _).trans (h.drawn id hlt.le)
      case counted =>
        intro account
        rw [activeSessions, Tally.sum_range_succ_update store.nextId (activePart account)]
        change _ = activeSessions store account + _
        rw [← h.counted account, activePart_eq]
        by_cases heq : account = request.account
        · subst heq
          simp [newTransaction, Sep24TransactionStatus.isTerminal]
        · simp [newTransaction, heq, Ne.symm heq]

/-! ## What an event does -/

def Wrote (cfg : Config) (w : SessionWorld ι) (e : Event ι) (id : ℕ)
    (status : Sep24TransactionStatus) : Prop :=
  (id, status) ∈ writes cfg w e

omit [DecidableEq ι] in
theorem change_event_write {cfg : Config} {w : SessionWorld ι} {e : Event ι} {id : ℕ}
    {status : Sep24TransactionStatus} (edit : Edit) (hwrites : (id, status) ∈ writes cfg w e)
    (live : ∀ x ∈ writes cfg w e, MayWrite w.shared x.1 x.2) :
    Change (Wrote cfg w e) w.shared (w.shared.write id status edit) := by
  refine (change_write (live _ hwrites)).mono ?_
  rintro id' status' ⟨rfl, rfl⟩
  exact hwrites

omit [DecidableEq ι] in
theorem change_serve {cfg : Config} {w : SessionWorld ι} {e : Event ι} (h : Counted w.shared)
    (live : ∀ x ∈ writes cfg w e, MayWrite w.shared x.1 x.2) :
    Change (Wrote cfg w e) w.shared (serve cfg w.shared e) := by
  cases e with
  | tick elapsed => exact ⟨fun counted => ⟨counted.drawn, counted.counted⟩, fun limited => limited,
      fun _ t ht _ => ⟨t, ht, rfl⟩, fun _ t ht => ⟨t, ht, rfl, .inl rfl⟩, rfl⟩
  | create request kind signed => exact change_generate h request kind signed
  | callback data => exact change_event_write _ List.mem_cons_self live
  | update id status message => exact change_event_write _ List.mem_cons_self live
  | get id => exact change_getTransaction cfg w.shared id
  | sweep => exact change_sweep cfg _ w.shared
  | turn i outcome => exact .rfl

theorem depositPayment_id {cfg : Config} {id : ℕ} {t : Sep24Transaction} {payment : Payment}
    (h : depositPayment cfg id t = .ok payment) : payment.id = id := by
  unfold depositPayment at h
  split at h
  · cases h
  · dsimp only at h
    split_ifs at h
    cases h
    rfl

/-- A fulfilment that begins has found a deposit that is neither over nor being paid. -/
theorem checkDeposit_ok {cfg : Config} {store : Store} {id : ℕ} {payment : Payment}
    (h : checkDeposit cfg store id = .ok (some payment)) : payment.id = id ∧
      ∃ t, store.transactions id = some t ∧ t.kind = .deposit ∧ t.status.isTerminal = false ∧
        t.status ≠ .pendingStellar := by
  unfold checkDeposit at h
  split at h
  · cases h
  · next t ht =>
    split_ifs at h with hkind hcompleted hsubmitting hdead
    · cases h
    · obtain ⟨payment', hpayment, heq⟩ := Checked.map_eq_ok.1 h
      cases heq
      refine ⟨depositPayment_id hpayment, t, ht, not_not.1 hkind, ?_, hsubmitting⟩
      cases hstatus : t.status <;> simp_all [Sep24TransactionStatus.isTerminal]

/-- What a turn of a call does. -/
inductive TurnMove (cfg : Config) (w : SessionWorld ι) (i : ι) (outcome : Outcome) :
    Store → Phase → Prop where
  | plain {store' phase'} (change : Change (Wrote cfg w (.turn i outcome)) w.shared store')
      (idle : phase'.fulfils = none ∨
        phase' = (w.locals i).phase ∧ writes cfg w (.turn i outcome) = []) :
      TurnMove cfg w i outcome store' phase'
  | begins {id payment} (hcall : (w.locals i).call = .fulfillDeposit id)
      (hphase : (w.locals i).phase = .called)
      (ok : checkDeposit cfg w.shared id = .ok (some payment)) :
      TurnMove cfg w i outcome (updateTransactionStatus w.shared id .pendingStellar none)
        (.loading payment)
  | sends {payment} (loading : (w.locals i).phase = .loading payment) :
      TurnMove cfg w i outcome { w.shared with payments := w.shared.payments ++ [payment] }
        (.awaiting payment)

omit [DecidableEq ι] in
theorem fulfill_move {cfg : Config} {w : SessionWorld ι} {i : ι} {outcome : Outcome} {id : ℕ}
    (hcall : (w.locals i).call = .fulfillDeposit id)
    (live : ∀ x ∈ writes cfg w (.turn i outcome), MayWrite w.shared x.1 x.2) :
    TurnMove cfg w i outcome (fulfillStep cfg outcome w.shared id (w.locals i).phase).1
      (fulfillStep cfg outcome w.shared id (w.locals i).phase).2 := by
  cases hphase : (w.locals i).phase with
  | called =>
    simp only [fulfillStep]
    cases hcheck : checkDeposit cfg w.shared id with
    | error e => exact .plain .rfl (.inl rfl)
    | ok payment? =>
      cases payment? with
      | none => exact .plain .rfl (.inl rfl)
      | some payment => exact .begins hcall hphase hcheck
  | loading payment =>
    cases outcome with
    | ok hash => exact .sends hphase
    | error message => exact .plain (change_amend _ _ _) (.inl rfl)
  | awaiting payment =>
    cases outcome with
    | error message => exact .plain (change_amend _ _ _) (.inl rfl)
    | ok hash =>
      have hwrites : (id, .completed) ∈ writes cfg w (.turn i (.ok hash)) := by
        simp [writes, hcall, hphase]
      have change : Change _ _ ((w.shared.amend id (hashEdit hash)).write id .completed
          (messageEdit none)) := change_write (mayWrite_amend (hashEdit hash) (live _ hwrites))
      refine .plain ((change_amend _ _ _).trans (change.mono ?_)) (.inl rfl)
      rintro id' status ⟨rfl, rfl⟩
      exact hwrites
  | superseding renewed => exact .plain .rfl (.inl rfl)
  | returned id' => exact .plain .rfl (.inl rfl)
  | failed e => exact .plain .rfl (.inl rfl)

omit [DecidableEq ι] in
theorem writes_renewal {cfg : Config} {w : SessionWorld ι} {i : ι} {outcome : Outcome} {id : ℕ}
    (hcall : (w.locals i).call = .renewInteractiveSession id) :
    writes cfg w (.turn i outcome) = blindWrites w (.turn i outcome) := by
  cases outcome with
  | error message => rfl
  | ok hash => simp [writes, hcall]

omit [DecidableEq ι] in
theorem renew_move {cfg : Config} {w : SessionWorld ι} {i : ι} {outcome : Outcome} {id : ℕ}
    (h : Counted w.shared) (hcall : (w.locals i).call = .renewInteractiveSession id)
    (live : ∀ x ∈ writes cfg w (.turn i outcome), MayWrite w.shared x.1 x.2) :
    TurnMove cfg w i outcome (renewStep outcome w.shared id (w.locals i).phase).1
      (renewStep outcome w.shared id (w.locals i).phase).2 := by
  cases hphase : (w.locals i).phase with
  | called =>
    simp only [renewStep]
    cases ht : w.shared.transactions id with
    | none => exact .plain .rfl (.inl rfl)
    | some original =>
      dsimp only
      have change : Change (Wrote cfg w (.turn i outcome)) w.shared _ :=
        change_generate h (renewalRequest original) original.kind outcome.isOk
      split <;> exact .plain change (.inl rfl)
  | superseding renewed =>
    simp only [renewStep]
    split_ifs with hlive
    · have hwrites : (id, .expired) ∈ writes cfg w (.turn i outcome) := by
        rw [writes_renewal hcall]
        simp only [blindWrites, hcall, hphase, if_pos hlive, List.mem_singleton]
      exact .plain (change_event_write _ hwrites live) (.inl rfl)
    · exact .plain .rfl (.inl rfl)
  | loading payment =>
    refine .plain .rfl (.inr ⟨hphase.symm, ?_⟩)
    simp only [writes_renewal hcall, blindWrites, hcall, hphase]
  | awaiting payment =>
    refine .plain .rfl (.inr ⟨hphase.symm, ?_⟩)
    simp only [writes_renewal hcall, blindWrites, hcall, hphase]
  | returned id' => exact .plain .rfl (.inl rfl)
  | failed e => exact .plain .rfl (.inl rfl)

omit [DecidableEq ι] in
theorem turn_move {cfg : Config} {w : SessionWorld ι} {i : ι} {outcome : Outcome}
    (h : Counted w.shared)
    (live : ∀ x ∈ writes cfg w (.turn i outcome), MayWrite w.shared x.1 x.2) :
    TurnMove cfg w i outcome (step cfg outcome w.shared (w.locals i)).1
      (step cfg outcome w.shared (w.locals i)).2.phase := by
  unfold step
  cases hcall : (w.locals i).call with
  | fulfillDeposit id => exact fulfill_move hcall live
  | renewInteractiveSession id => exact renew_move h hcall live

/-! ## The invariant -/

/-- What holds of every state: a deposit that a call is paying is pending on Stellar and in nobody
else's hands, and one that has been paid is pending on Stellar or over. -/
structure Inv (w : SessionWorld ι) : Prop where
  counted : Counted w.shared
  limited : ∀ account, w.shared.active account ≤ maxActiveTransactionsPerAccount
  once : (paidIds w.shared).Nodup
  own : ∀ i id id', (w.locals i).call = .fulfillDeposit id →
    (w.locals i).phase.fulfils = some id' → id' = id
  fulfilling : ∀ i id, (w.locals i).phase.fulfils = some id →
    ∃ t, w.shared.transactions id = some t ∧ t.kind = .deposit ∧ t.status = .pendingStellar
  unpaid : ∀ i id, (w.locals i).phase.loads = some id → id ∉ paidIds w.shared
  paid : ∀ id ∈ paidIds w.shared, ∃ t, w.shared.transactions id = some t ∧
    (t.status = .pendingStellar ∨ t.status.isTerminal = true)
  sole : ∀ i j id, (w.locals i).phase.fulfils = some id → (w.locals j).phase.fulfils = some id →
    i = j

/-! ### What the checks of the other writes have found -/

section Checks

omit [DecidableEq ι]

variable {cfg : Config} {w : SessionWorld ι} {e : Event ι} {x : ℕ × Sep24TransactionStatus}

theorem writes_cases (hx : x ∈ writes cfg w e) : x ∈ blindWrites w e ∨
    (∃ id, x ∈ expiring cfg w.shared id) ∨
    ∃ i hash payment id, e = .turn i (.ok hash) ∧ (w.locals i).call = .fulfillDeposit id ∧
      (w.locals i).phase = .awaiting payment ∧ x = (id, .completed) := by
  cases e with
  | get id => exact .inr (.inl ⟨id, hx⟩)
  | sweep =>
    obtain ⟨id, -, hexpiring⟩ := List.mem_flatMap.1 hx
    exact .inr (.inl ⟨id, hexpiring⟩)
  | turn i outcome =>
    cases hcall : (w.locals i).call with
    | renewInteractiveSession id =>
      rw [writes_renewal hcall] at hx
      exact .inl hx
    | fulfillDeposit id =>
      cases outcome with
      | error message => exact .inl hx
      | ok hash =>
        cases hphase : (w.locals i).phase with
        | awaiting payment =>
          simp only [writes, hcall, hphase, List.mem_singleton] at hx
          exact .inr (.inr ⟨i, hash, payment, id, rfl, hcall, hphase, hx⟩)
        | _ =>
          simp only [writes, hcall, hphase] at hx
          exact .inl hx
  | tick | create | callback | update => exact .inl hx

/-- A session expires while it waits for its user. -/
theorem status_of_expiring {store : Store} {id : ℕ} (h : x ∈ expiring cfg store id) :
    x.2 = .expired ∧ ∃ t, store.transactions x.1 = some t ∧
      t.status = .pendingUserTransferStart ∧ MayWrite store x.1 x.2 := by
  obtain ⟨rfl, t, ht, expired⟩ := mem_expiring.1 h
  refine ⟨rfl, t, ht, ?_, mayWrite_of_expired ht expired _⟩
  unfold isInteractiveSessionExpired at expired
  cases hstatus : t.status <;> simp [hstatus, Sep24TransactionStatus.isExpirable] at expired ⊢

theorem awaiting_pending (h : Inv w) {i : ι} {payment : Payment} {id : ℕ}
    (hcall : (w.locals i).call = .fulfillDeposit id)
    (hphase : (w.locals i).phase = .awaiting payment) :
    (w.locals i).phase.fulfils = some id ∧
      ∃ t, w.shared.transactions id = some t ∧ t.status = .pendingStellar := by
  have hfulfils : (w.locals i).phase.fulfils = some payment.id := by
    rw [hphase]
    rfl
  obtain rfl := h.own i id payment.id hcall hfulfils
  obtain ⟨t, ht, -, hstatus⟩ := h.fulfilling i payment.id hfulfils
  exact ⟨hfulfils, t, ht, hstatus⟩

theorem mayWrite_of_careful (h : Inv w) (careful : Careful w e) (hx : x ∈ writes cfg w e) :
    MayWrite w.shared x.1 x.2 := by
  rcases writes_cases hx with hblind | ⟨id, hexpiring⟩ |
    ⟨i, hash, payment, id, -, hcall, hphase, rfl⟩
  · exact careful.live x hblind
  · obtain ⟨-, -, -, -, may⟩ := status_of_expiring hexpiring
    exact may
  · obtain ⟨-, t, ht, hstatus⟩ := awaiting_pending h hcall hphase
    intro u hu hterminal
    cases ht.symm.trans hu
    rw [hstatus] at hterminal
    cases hterminal

/-- Nobody but the call that is paying a deposit takes it out of its status. -/
theorem pending_of_fulfils (h : Inv w) (careful : Careful w e) (hx : x ∈ writes cfg w e) {j : ι}
    (hj : (w.locals j).phase.fulfils = some x.1) :
    x.2 = .pendingStellar ∨ ∃ outcome, e = .turn j outcome := by
  rcases writes_cases hx with hblind | ⟨id, hexpiring⟩ |
    ⟨i, hash, payment, id, rfl, hcall, hphase, rfl⟩
  · exact .inl (careful.underway x hblind j hj)
  · obtain ⟨-, t, ht, hwaiting, -⟩ := status_of_expiring hexpiring
    obtain ⟨t', ht', -, hstatus⟩ := h.fulfilling j x.1 hj
    cases ht.symm.trans ht'
    rw [hwaiting] at hstatus
    cases hstatus
  · obtain rfl := h.sole i j id (awaiting_pending h hcall hphase).1 hj
    exact .inr ⟨_, rfl⟩

theorem settled_of_paid (careful : Careful w e) (hx : x ∈ writes cfg w e)
    (hpaid : x.1 ∈ paidIds w.shared) : x.2 = .pendingStellar ∨ x.2.isTerminal = true := by
  rcases writes_cases hx with hblind | ⟨id, hexpiring⟩ | ⟨i, hash, payment, id, -, -, -, rfl⟩
  · exact careful.settled x hblind hpaid
  · rw [(status_of_expiring hexpiring).1]
    exact .inr rfl
  · exact .inr rfl

/-- A change of the store under which no call begins to pay. -/
theorem inv_change {w' : SessionWorld ι} (h : Inv w) (careful : Careful w e)
    (change : Change (Wrote cfg w e) w.shared w'.shared)
    (calls : ∀ j, (w'.locals j).call = (w.locals j).call)
    (idle : ∀ j, (w'.locals j).phase.fulfils = none ∨ (w'.locals j).phase = (w.locals j).phase ∧
      ∀ outcome, e = .turn j outcome → writes cfg w e = []) : Inv w' := by
  have fulfils : ∀ j id, (w'.locals j).phase.fulfils = some id →
      (w.locals j).phase.fulfils = some id ∧ (w'.locals j).phase = (w.locals j).phase ∧
        ∀ outcome, e = .turn j outcome → writes cfg w e = [] := by
    intro j id hj
    rcases idle j with hnone | ⟨hsame, hquiet⟩
    · rw [hnone] at hj
      cases hj
    · exact ⟨hsame ▸ hj, hsame, hquiet⟩
  constructor
  case counted => exact change.counted h.counted
  case limited => exact change.limited h.limited
  case once =>
    rw [paidIds, change.payments]
    exact h.once
  case own =>
    intro j id id' hcall hj
    exact h.own j id id' (calls j ▸ hcall) (fulfils j id' hj).1
  case fulfilling =>
    intro j id hj
    obtain ⟨hbefore, -, hquiet⟩ := fulfils j id hj
    obtain ⟨t, ht, hkind, hstatus⟩ := h.fulfilling j id hbefore
    obtain ⟨t', ht', hkind', hsame | hwrote⟩ := change.statuses id t ht
    · exact ⟨t', ht', hkind'.trans hkind, hsame.trans hstatus⟩
    · rcases pending_of_fulfils h careful hwrote hbefore with hpending | ⟨outcome, hturn⟩
      · exact ⟨t', ht', hkind'.trans hkind, hpending⟩
      · rw [Wrote, hquiet outcome hturn] at hwrote
        cases hwrote
  case unpaid =>
    intro j id hj
    obtain ⟨-, hsame, -⟩ := fulfils j id (Phase.fulfils_of_loads hj)
    rw [paidIds, change.payments]
    exact h.unpaid j id (hsame ▸ hj)
  case paid =>
    intro id hid
    rw [paidIds, change.payments] at hid
    obtain ⟨t, ht, hstatus⟩ := h.paid id hid
    obtain ⟨t', ht', -, hsame | hwrote⟩ := change.statuses id t ht
    · exact ⟨t', ht', hsame ▸ hstatus⟩
    · exact ⟨t', ht', settled_of_paid careful hwrote hid⟩
  case sole =>
    intro i j id hi hj
    exact h.sole i j id (fulfils i id hi).1 (fulfils j id hj).1

/-- The one call that was about to pay a deposit pays it. -/
theorem inv_sends {w' : SessionWorld ι} {i : ι} {payment : Payment} (h : Inv w)
    (shared : w'.shared = { w.shared with payments := w.shared.payments ++ [payment] })
    (paying : (w.locals i).phase = .loading payment)
    (calls : ∀ j, (w'.locals j).call = (w.locals j).call)
    (paid : (w'.locals i).phase = .awaiting payment)
    (others : ∀ j, j ≠ i → (w'.locals j).phase = (w.locals j).phase) : Inv w' := by
  have payments : paidIds w'.shared = paidIds w.shared ++ [payment.id] := by
    rw [shared, paidIds, List.map_append]
    rfl
  have loads : (w.locals i).phase.loads = some payment.id := by
    rw [paying]
    rfl
  have fulfils : ∀ j, (w'.locals j).phase.fulfils = (w.locals j).phase.fulfils := by
    intro j
    by_cases hj : j = i
    · rw [hj, paid, paying]
      rfl
    · rw [others j hj]
  constructor
  case counted => exact shared ▸ ⟨h.counted.drawn, h.counted.counted⟩
  case limited => exact shared ▸ h.limited
  case once =>
    rw [payments]
    refine List.nodup_append.2 ⟨h.once, List.nodup_singleton _, ?_⟩
    rintro id hid _ hpayment rfl
    obtain rfl := List.mem_singleton.1 hpayment
    exact h.unpaid i _ loads hid
  case own =>
    intro j id id' hcall hj
    exact h.own j id id' (calls j ▸ hcall) (fulfils j ▸ hj)
  case fulfilling =>
    intro j id hj
    rw [shared]
    exact h.fulfilling j id (fulfils j ▸ hj)
  case unpaid =>
    intro j id hj hid
    by_cases hne : j = i
    · rw [hne, paid] at hj
      cases hj
    · rw [others j hne] at hj
      rw [payments] at hid
      rcases List.mem_append.1 hid with hid | hid
      · exact h.unpaid j id hj hid
      · obtain rfl := List.mem_singleton.1 hid
        exact hne (h.sole j i _ (Phase.fulfils_of_loads hj) (Phase.fulfils_of_loads loads))
  case paid =>
    intro id hid
    rw [payments] at hid
    rw [shared]
    rcases List.mem_append.1 hid with hid | hid
    · exact h.paid id hid
    · obtain rfl := List.mem_singleton.1 hid
      obtain ⟨t, ht, -, hstatus⟩ := h.fulfilling i _ (Phase.fulfils_of_loads loads)
      exact ⟨t, ht, .inl hstatus⟩
  case sole =>
    intro j k id hj hk
    exact h.sole j k id (fulfils j ▸ hj) (fulfils k ▸ hk)

theorem change_begins {store : Store} {id : ℕ} {t : Sep24Transaction}
    (ht : store.transactions id = some t) (hlive : t.status.isTerminal = false) :
    Change (fun id' status => id' = id ∧ status = .pendingStellar) store
      (updateTransactionStatus store id .pendingStellar none) := by
  apply change_write
  intro u hu hterminal
  cases ht.symm.trans hu
  rw [hlive] at hterminal
  cases hterminal

/-- A fulfilment begins. Its check has ruled out that the deposit is being paid, or has been. -/
theorem inv_begins {w' : SessionWorld ι} {i : ι} {id : ℕ} {payment : Payment} (h : Inv w)
    (ok : checkDeposit cfg w.shared id = .ok (some payment))
    (hcall : (w.locals i).call = .fulfillDeposit id)
    (shared : w'.shared = updateTransactionStatus w.shared id .pendingStellar none)
    (calls : ∀ j, (w'.locals j).call = (w.locals j).call)
    (begun : (w'.locals i).phase = .loading payment)
    (others : ∀ j, j ≠ i → (w'.locals j).phase = (w.locals j).phase) : Inv w' := by
  obtain ⟨rfl, t, ht, hkind, hlive, hnot⟩ := checkDeposit_ok ok
  have change := change_begins ht hlive
  have unpaid : payment.id ∉ paidIds w.shared := by
    intro hpaid
    obtain ⟨t', ht', hpending | hterminal⟩ := h.paid _ hpaid
    all_goals cases ht.symm.trans ht'
    · exact hnot hpending
    · rw [hlive] at hterminal
      cases hterminal
  have alone : ∀ j, (w.locals j).phase.fulfils ≠ some payment.id := by
    intro j hj
    obtain ⟨t', ht', -, hpending⟩ := h.fulfilling j _ hj
    cases ht.symm.trans ht'
    exact hnot hpending
  have pending : ∀ id' u, w.shared.transactions id' = some u → ∃ u',
      w'.shared.transactions id' = some u' ∧ u'.kind = u.kind ∧
        (u'.status = u.status ∨ u'.status = .pendingStellar) := by
    intro id' u hu
    obtain ⟨u', hu', hkind', hstatus⟩ := change.statuses id' u hu
    exact ⟨u', shared ▸ hu', hkind', hstatus.imp_right And.right⟩
  have fulfils : ∀ j id', (w'.locals j).phase.fulfils = some id' →
      j = i ∧ id' = payment.id ∨ (w.locals j).phase.fulfils = some id' := by
    intro j id' hj
    by_cases hne : j = i
    · rw [hne, begun] at hj
      exact .inl ⟨hne, (Option.some.inj hj).symm⟩
    · exact .inr (others j hne ▸ hj)
  have payments : w'.shared.payments = w.shared.payments := by
    rw [shared]
    exact change.payments
  constructor
  case counted => exact shared ▸ change.counted h.counted
  case limited => exact shared ▸ change.limited h.limited
  case once =>
    rw [paidIds, payments]
    exact h.once
  case own =>
    intro j id id' hcall' hj
    rcases fulfils j id' hj with ⟨rfl, rfl⟩ | hj
    · rw [calls j, hcall] at hcall'
      exact Call.fulfillDeposit.inj hcall'
    · exact h.own j id id' (calls j ▸ hcall') hj
  case fulfilling =>
    intro j id' hj
    rcases fulfils j id' hj with ⟨rfl, rfl⟩ | hj
    · refine ⟨(messageEdit none).apply { t with status := .pendingStellar }, ?_, hkind, rfl⟩
      rw [shared, updateTransactionStatus, write_transactions ht, Function.update_self]
    · obtain ⟨u, hu, hkind', hpending⟩ := h.fulfilling j id' hj
      obtain ⟨u', hu', hkind'', hstatus⟩ := pending id' u hu
      exact ⟨u', hu', hkind''.trans hkind', hstatus.elim (·.trans hpending) fun hnew => hnew⟩
  case unpaid =>
    intro j id' hj
    rw [paidIds, payments]
    by_cases hne : j = i
    · rw [hne, begun] at hj
      rw [← Option.some.inj hj]
      exact unpaid
    · rw [others j hne] at hj
      exact h.unpaid j id' hj
  case paid =>
    intro id' hid'
    rw [paidIds, payments] at hid'
    obtain ⟨u, hu, hsettled⟩ := h.paid id' hid'
    obtain ⟨u', hu', -, hsame | hpending⟩ := pending id' u hu
    · exact ⟨u', hu', hsame ▸ hsettled⟩
    · exact ⟨u', hu', .inl hpending⟩
  case sole =>
    intro j k id' hj hk
    rcases fulfils j id' hj with ⟨rfl, hj'⟩ | hj <;> rcases fulfils k id' hk with ⟨rfl, hk'⟩ | hk
    · rfl
    · exact absurd (hj' ▸ hk) (alone k)
    · exact absurd (hk' ▸ hj) (alone j)
    · exact h.sole j k id' hj hk

end Checks

theorem locals_turn (cfg : Config) (w : SessionWorld ι) (i : ι) (outcome : Outcome) :
    ((advance cfg w (.turn i outcome)).locals i).phase =
        (step cfg outcome w.shared (w.locals i)).2.phase ∧
      (∀ j, j ≠ i → ((advance cfg w (.turn i outcome)).locals j).phase = (w.locals j).phase) ∧
      ∀ j, ((advance cfg w (.turn i outcome)).locals j).call = (w.locals j).call := by
  have own : (advance cfg w (.turn i outcome)).locals i =
      (step cfg outcome w.shared (w.locals i)).2 := Interleaving.advance_self _ _ _ _
  have other : ∀ j, j ≠ i → (advance cfg w (.turn i outcome)).locals j = w.locals j :=
    fun j hj => Interleaving.advance_other (step cfg) w outcome hj
  refine ⟨by rw [own], fun j hj => by rw [other j hj], fun j => ?_⟩
  by_cases hj : j = i
  · rw [hj, own]
    rfl
  · rw [other j hj]

theorem inv_advance {cfg : Config} {w : SessionWorld ι} {e : Event ι} (h : Inv w)
    (careful : Careful w e) : Inv (advance cfg w e) := by
  have live : ∀ x ∈ writes cfg w e, MayWrite w.shared x.1 x.2 :=
    fun x hx => mayWrite_of_careful h careful hx
  cases e with
  | turn i outcome =>
    have move := turn_move h.counted live
    have shared : (advance cfg w (.turn i outcome)).shared =
        (step cfg outcome w.shared (w.locals i)).1 := rfl
    obtain ⟨own, others, calls⟩ := locals_turn cfg w i outcome
    generalize (step cfg outcome w.shared (w.locals i)).1 = store' at move shared
    generalize (step cfg outcome w.shared (w.locals i)).2.phase = phase' at move own
    cases move with
    | plain change idle =>
      apply inv_change h careful (shared ▸ change) calls
      intro j
      by_cases hj : j = i
      · subst hj
        rw [own]
        exact idle.imp_right fun hquiet => ⟨hquiet.1, fun _ _ => hquiet.2⟩
      · refine .inr ⟨others j hj, fun outcome' hturn => ?_⟩
        cases hturn
        exact absurd rfl hj
    | begins hcall hphase ok => exact inv_begins h ok hcall shared calls own others
    | sends loading => exact inv_sends h shared loading calls own others
  | tick _ | create _ _ _ | callback _ | update _ _ _ | get _ | sweep =>
    exact inv_change h careful (change_serve h.counted live) (fun _ => rfl)
      fun _ => .inr ⟨rfl, nofun⟩

/-! ## Runs -/

/-- What a careful event keeps, and which payments it sends. -/
theorem kept_advance {cfg : Config} {w : SessionWorld ι} {e : Event ι} (h : Inv w)
    (careful : Careful w e) : Kept w.shared (advance cfg w e).shared ∧
      ∀ payment ∈ (advance cfg w e).shared.payments,
        payment ∈ w.shared.payments ∨ Alive w.shared payment.id := by
  have live : ∀ x ∈ writes cfg w e, MayWrite w.shared x.1 x.2 :=
    fun x hx => mayWrite_of_careful h careful hx
  have of_change : ∀ {wrote : ℕ → Sep24TransactionStatus → Prop} {store' : Store},
      Change wrote w.shared store' → Kept w.shared store' ∧
        ∀ payment ∈ store'.payments, payment ∈ w.shared.payments ∨ Alive w.shared payment.id := by
    intro wrote store' change
    refine ⟨change.kept, fun payment hpayment => .inl ?_⟩
    rwa [change.payments] at hpayment
  cases e with
  | turn i outcome =>
    have move := turn_move h.counted live
    have shared : (advance cfg w (.turn i outcome)).shared =
        (step cfg outcome w.shared (w.locals i)).1 := rfl
    rw [shared]
    generalize (step cfg outcome w.shared (w.locals i)).1 = store' at move
    generalize (step cfg outcome w.shared (w.locals i)).2.phase = phase' at move
    cases move with
    | plain change idle => exact of_change change
    | begins hcall hphase ok =>
      obtain ⟨-, t, ht, -, hlive, -⟩ := checkDeposit_ok ok
      exact of_change (change_begins ht hlive)
    | sends loading =>
      refine ⟨fun _ t ht _ => ⟨t, ht, rfl⟩, fun payment hpayment => ?_⟩
      rcases List.mem_append.1 hpayment with hold | hnew
      · exact .inl hold
      · obtain rfl := List.mem_singleton.1 hnew
        obtain ⟨t, ht, hkind, hstatus⟩ := h.fulfilling i payment.id (by rw [loading]; rfl)
        refine .inr ⟨t, ht, hkind, ?_⟩
        rw [hstatus]
        exact ⟨nofun, nofun⟩
  | tick _ | create _ _ _ | callback _ | update _ _ _ | get _ | sweep =>
    exact of_change (change_serve h.counted live)

theorem lawful_of_careful {cfg : Config} {w : SessionWorld ι} {e : Event ι} (h : Inv w)
    (careful : Careful w e) : Lawful cfg w e := by
  have after : Inv (advance cfg w e) := inv_advance h careful
  obtain ⟨kept, sent⟩ := kept_advance h careful
  exact {
    kept := kept
    once := after.once
    sent := sent
    counted := after.counted.counted
    limited := fun account => (after.counted.counted account) ▸ after.limited account }

omit [DecidableEq ι] in
theorem inv_start (calls : ι → Call) : Inv (start calls) where
  counted := ⟨fun _ _ => rfl, fun _ => rfl⟩
  limited _ := Nat.zero_le _
  once := List.nodup_nil
  own _ _ _ _ h := nomatch h
  fulfilling _ _ h := nomatch h
  unpaid _ _ h := nomatch h
  paid _ h := nomatch h
  sole _ _ _ h := nomatch h

/-- For every interleaving of creations, callbacks, status updates, reads, sweeps, renewals
and fulfilments, with every outcome of what they wait for: as long as the callbacks, updates and
renewals are careful, every event meets the law. -/
theorem sep24_lifecycle (cfg : Config) (calls : ι → Call) (es : List (Event ι))
    (careful : Runs.Every (advance cfg) Careful (start calls) es) :
    Runs.Every (advance cfg) (Lawful cfg) (start calls) es :=
  Runs.Every.imp_of_inv Inv (fun _ _ h careful => inv_advance h careful)
    (fun _ _ h careful => lawful_of_careful h careful) (inv_start calls) es careful

/-! ## A deposit that is fulfilled -/

/-- Sessions last 15 minutes, and the SDK takes every memo. -/
def exampleConfig : Config := ⟨15 * 60 * 1000, fun _ _ => true⟩

def exampleRequest : Request := ⟨"USDC", "100", "GACCOUNT", none, none, none⟩

def externalCallback : CallbackData := ⟨0, .pendingExternal, none, none, none, none, none⟩

/-- A deposit is created and its mobile money leg arrives. -/
def fundedRun (ι : Type) : List (Event ι) :=
  [.create exampleRequest .deposit true, .callback externalCallback]

/-- The three parts of a fulfilment, each of which succeeds. -/
def fulfilment {ι : Type} (i : ι) : List (Event ι) := List.replicate 3 (.turn i (.ok (some "hash")))

/-- The account opens as many sessions as it may, and one more in vain; a second fulfilment comes
while the first one waits for Stellar, and is refused; and the end of the deposit makes room for a
session. -/
def crowdedRun : List (Event Bool) :=
  fundedRun Bool ++ List.replicate 5 (.create exampleRequest .deposit true) ++
    (fulfilment false).take 2 ++ fulfilment true ++ (fulfilment false).take 1 ++
    [.create exampleRequest .deposit true]

theorem sep24_lifecycle_fulfilled :
    let w := run exampleConfig (start fun _ : Bool => .fulfillDeposit 0) crowdedRun
    paidIds w.shared = [0] ∧ (w.locals true).phase = .failed (.submitting 0) ∧
      w.shared.nextId = 6 ∧ activeSessions w.shared "GACCOUNT" = 5 ∧
      Runs.Every (advance exampleConfig) (Lawful exampleConfig)
        (start fun _ : Bool => .fulfillDeposit 0) crowdedRun :=
  ⟨by decide +kernel, by decide +kernel, by decide +kernel, by decide +kernel,
    sep24_lifecycle exampleConfig (fun _ => .fulfillDeposit 0) _ (by decide +kernel)⟩

/-- The provider repeats its callback while the payment is on its way, and the deposit is
fulfilled again. -/
def repeatedRun : List (Event Bool) :=
  fundedRun Bool ++ (fulfilment false).take 2 ++ [.callback externalCallback] ++
    (fulfilment true).take 1 ++ [.turn true (.ok (some "hash"))]

theorem deposit_paid_twice : ¬ ∀ (cfg : Config) (calls : Bool → Call) (es : List (Event Bool)),
    Runs.Every (advance cfg) (Lawful cfg) (start calls) es := by
  intro lawful
  have every := lawful exampleConfig (fun _ => .fulfillDeposit 0) repeatedRun
  have last : Lawful exampleConfig _ (.turn true (.ok (some "hash"))) := every.of_append
  have once := last.once
  revert once
  decide +kernel

end MobileMoney.Sep24
