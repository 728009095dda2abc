import MobileMoney.Contracts.Bridge.Settlement

/-!
# The blacklist and the bridge

`contracts/blacklist`: the admin flags wallets, with a reason, and the bridge asks the registry
before a deposit and before a settlement. Both contracts are on one ledger and are called in any
order; the bridge's token balances are the ones that count. TTL extensions are left out.
-/

namespace MobileMoney.Blacklist

open Soroban

variable {A : Type}

inductive BlacklistError where
  | alreadyInitialised
  | notInitialised
  | alreadyBlacklisted
  | notBlacklisted
  | blacklisted
  | emptyReason
  deriving DecidableEq

structure BlacklistEntry where
  reason : String
  addedAt : ℕ
  deriving DecidableEq

inductive Published (A : Type) where
  | addressBlacklisted (address : A) (reason : String)
  | addressUnblacklisted (address : A)
  deriving DecidableEq

/-- The admin in instance storage, and the entries in persistent storage. -/
structure Storage (A : Type) where
  admin : Option A
  entry : A → Option BlacklistEntry

abbrev BlacklistWorld (A : Type) := World A (Storage A) (Published A)

abbrev Result (α : Type) := Outcome BlacklistError α

variable {registry : A}

def getAdmin (w : BlacklistWorld A) : Result A := orFail w.storage.admin (.error .notInitialised)

def requireAdmin (env : Invocation A registry) (w : BlacklistWorld A) : Result A := do
  let admin ← getAdmin w
  env.requireAuth admin
  return admin

def isBlacklisted (address : A) (w : BlacklistWorld A) : Bool := (w.storage.entry address).isSome

def ensureNotBlacklisted (address : A) (w : BlacklistWorld A) : Result Unit :=
  require (isBlacklisted address w = false) (.error .blacklisted)

def initializeBlacklist (env : Invocation A registry) (admin : A) (w : BlacklistWorld A) :
    Result (BlacklistWorld A) := do
  env.requireAuth admin
  require (w.storage.admin.isSome = false) (.error .alreadyInitialised)
  return w.store { w.storage with admin := some admin }

variable [DecidableEq A]

def add (env : Invocation A registry) (address : A) (reason : String) (w : BlacklistWorld A) :
    Result (BlacklistWorld A) := do
  let _ ← requireAdmin env w
  require (reason ≠ "") (.error .emptyReason)
  require ((w.storage.entry address).isSome = false) (.error .alreadyBlacklisted)
  let w := w.store { w.storage with
    entry := Function.update w.storage.entry address (some ⟨reason, env.timestamp⟩) }
  return w.publish (.addressBlacklisted address reason)

def remove (env : Invocation A registry) (address : A) (w : BlacklistWorld A) :
    Result (BlacklistWorld A) := do
  let _ ← requireAdmin env w
  require ((w.storage.entry address).isSome = true) (.error .notBlacklisted)
  let w := w.store { w.storage with entry := Function.update w.storage.entry address none }
  return w.publish (.addressUnblacklisted address)

inductive Operation (A : Type) where
  | initializeBlacklist (admin : A)
  | add (address : A) (reason : String)
  | remove (address : A)

/-- The entry points that write. -/
def invoke (env : Invocation A registry) (op : Operation A) (w : BlacklistWorld A) :
    Result (BlacklistWorld A) :=
  match op with
  | .initializeBlacklist admin => initializeBlacklist env admin w
  | .add address reason => add env address reason w
  | .remove address => remove env address w

/-- A deployed contract that has not been initialised. -/
def deployed (balances : A → A → ℤ) : BlacklistWorld A where
  storage := ⟨none, fun _ => none⟩
  balances := balances
  transfers := []
  events := []

/-! ## What the events tell -/

/-- The reason for which an address is flagged, as the events have it. -/
def reasonOf (address : A) (events : List (Published A)) : Option String :=
  events.foldl (fun current event =>
    match event with
    | .addressBlacklisted address' reason => if address' = address then some reason else current
    | .addressUnblacklisted address' => if address' = address then none else current) none

/-- The registry agrees with its events, and every reason is one. -/
structure Told (w : BlacklistWorld A) : Prop where
  reasons : ∀ address, (w.storage.entry address).map (·.reason) = reasonOf address w.events
  given : ∀ address, ∀ entry ∈ w.storage.entry address, entry.reason ≠ ""

theorem reasonOf_concat (address : A) (events : List (Published A)) (event : Published A) :
    reasonOf address (events ++ [event]) =
      match event with
      | .addressBlacklisted address' reason =>
        if address' = address then some reason else reasonOf address events
      | .addressUnblacklisted address' =>
        if address' = address then none else reasonOf address events := by
  rw [reasonOf, List.foldl_append, ← reasonOf]
  rfl

omit [DecidableEq A] in
theorem requireAdmin_eq_ok {env : Invocation A registry} {w : BlacklistWorld A} {admin : A} :
    requireAdmin env w = .ok admin ↔
      w.storage.admin = some admin ∧ env.authorised admin = true := by
  simp only [requireAdmin, getAdmin, bind_eq_ok, orFail_eq_ok, Invocation.requireAuth_eq_ok,
    pure_eq_ok, exists_const]
  constructor
  · rintro ⟨_, hadmin, signed, rfl⟩
    exact ⟨hadmin, signed⟩
  · rintro ⟨hadmin, signed⟩
    exact ⟨admin, hadmin, signed, rfl⟩

theorem add_eq_ok {env : Invocation A registry} {address : A} {reason : String}
    {w w' : BlacklistWorld A} : add env address reason w = .ok w' ↔
      (∃ admin, w.storage.admin = some admin ∧ env.authorised admin = true) ∧ reason ≠ "" ∧
        w.storage.entry address = none ∧
        (w.store { w.storage with
          entry := Function.update w.storage.entry address (some ⟨reason, env.timestamp⟩)
        }).publish (.addressBlacklisted address reason) = w' := by
  simp only [add, bind_eq_ok, requireAdmin_eq_ok, require_eq_ok, pure_eq_ok, exists_const,
    Option.isSome_eq_false_iff, Option.isNone_iff_eq_none]
  constructor
  · rintro ⟨admin, signed, given, fresh, rfl⟩
    exact ⟨⟨admin, signed⟩, given, fresh, rfl⟩
  · rintro ⟨⟨admin, signed⟩, given, fresh, rfl⟩
    exact ⟨admin, signed, given, fresh, rfl⟩

theorem remove_eq_ok {env : Invocation A registry} {address : A} {w w' : BlacklistWorld A} :
    remove env address w = .ok w' ↔
      (∃ admin, w.storage.admin = some admin ∧ env.authorised admin = true) ∧
        isBlacklisted address w = true ∧
        (w.store { w.storage with entry := Function.update w.storage.entry address none }).publish
          (.addressUnblacklisted address) = w' := by
  simp only [remove, bind_eq_ok, requireAdmin_eq_ok, require_eq_ok, pure_eq_ok, exists_const,
    isBlacklisted]
  constructor
  · rintro ⟨admin, signed, flagged, rfl⟩
    exact ⟨⟨admin, signed⟩, flagged, rfl⟩
  · rintro ⟨⟨admin, signed⟩, flagged, rfl⟩
    exact ⟨admin, signed, flagged, rfl⟩

theorem told_invariant : Invariant (@invoke A registry _) Told where
  outside w h move := ⟨h.reasons, h.given⟩
  call env op w w' h result := by
    cases op with
    | initializeBlacklist admin =>
      simp only [invoke, initializeBlacklist, bind_eq_ok, pure_eq_ok] at result
      obtain ⟨-, -, -, -, rfl⟩ := result
      exact ⟨h.reasons, h.given⟩
    | add address reason =>
      obtain ⟨-, given, -, rfl⟩ := add_eq_ok.1 result
      refine ⟨fun address' => ?_, fun address' entry hentry => ?_⟩
      · rw [World.publish_events, reasonOf_concat]
        by_cases same : address' = address
        · subst same
          simp
        · simp [same, Ne.symm same, h.reasons address']
      · by_cases same : address' = address
        · subst same
          simp at hentry
          rw [← hentry]
          exact given
        · simp [same] at hentry
          exact h.given address' entry hentry
    | remove address =>
      obtain ⟨-, -, rfl⟩ := remove_eq_ok.1 result
      refine ⟨fun address' => ?_, fun address' entry hentry => ?_⟩
      · rw [World.publish_events, reasonOf_concat]
        by_cases same : address' = address
        · subst same
          simp
        · simp [same, Ne.symm same, h.reasons address']
      · by_cases same : address' = address
        · subst same
          simp at hentry
        · simp [same] at hentry
          exact h.given address' entry hentry

/-- After any run the registry is what its events say, so that who follows them knows exactly who is
flagged and why; nobody is flagged without a reason. -/
theorem registry_follows_events (balances : A → A → ℤ)
    (es : List (Event A registry (Operation A))) :
    let w := run invoke (deployed balances) es
    ∀ address, (w.storage.entry address).map (·.reason) = reasonOf address w.events ∧
      (isBlacklisted address w = true ↔
        ∃ reason, reason ≠ "" ∧ reasonOf address w.events = some reason) := by
  intro w address
  have told : Told w :=
    told_invariant.run ⟨fun _ => rfl, by simp [deployed]⟩ es
  refine ⟨told.reasons address, ?_⟩
  rw [← told.reasons address, isBlacklisted]
  cases hentry : w.storage.entry address with
  | none => simp
  | some entry => simpa using told.given address entry hentry

end MobileMoney.Blacklist

/-! ## The bridge and the registry -/

namespace MobileMoney.Bridge

open Soroban

variable {A : Type} [DecidableEq A] {contract registry : A}

/-- Both contracts. -/
structure Ledger (A : Type) where
  bridge : BridgeWorld A
  blacklist : Blacklist.BlacklistWorld A

/-- The registry answers for itself; what other contracts answer is up to the call. -/
def answered (registry : A) (blacklist : Blacklist.BlacklistWorld A) (others : Registries A) :
    Registries A :=
  { others with
    isBlacklisted := fun slot address =>
      if slot = registry then .ok (Blacklist.isBlacklisted address blacklist)
      else others.isBlacklisted slot address }

def connect (registry : A) (blacklist : Blacklist.BlacklistWorld A) : Operation A → Operation A
  | .deposit others depositor amount =>
    .deposit (answered registry blacklist others) depositor amount
  | .settle others target amount => .settle (answered registry blacklist others) target amount
  | op => op

inductive LedgerEvent (A : Type) (contract registry : A) where
  | bridge (env : Invocation A contract) (op : Operation A)
  | blacklist (env : Invocation A registry) (op : Blacklist.Operation A)
  | outside (move : OutsideMove A contract)

def ledgerStep (s : Ledger A) : LedgerEvent A contract registry → Ledger A
  | .bridge env op =>
    { s with bridge := step invoke s.bridge (.call env (connect registry s.blacklist op)) }
  | .blacklist env op =>
    { s with blacklist := step Blacklist.invoke s.blacklist (.call env op) }
  | .outside move => { s with bridge := step invoke s.bridge (.outside move) }

/-- The bridge asks this registry, and it has the wallet. -/
def Guarded (registry wallet : A) (s : Ledger A) : Prop :=
  s.bridge.storage.blacklist = some registry ∧ Blacklist.isBlacklisted wallet s.blacklist = true

/-- The wallet pays nothing into the bridge, and the bridge pays it no more than fees: the recipient
of the fees is the one that is not looked up. -/
def Harmless (wallet : A) (feeRecipient : Option A) (t : Transfer A) : Prop :=
  t.source ≠ wallet ∧ (t.target = wallet → feeRecipient = some wallet)

/-- What is published of the bridge's dealings with the wallet. -/
def Names (wallet : A) : Published A → Prop
  | .deposited depositor _ => depositor = wallet
  | .settled target _ _ => target = wallet
  | _ => False

/-- From one state of the bridge to a later one, nothing has been done for the wallet. -/
structure Quiet (wallet : A) (w w' : BridgeWorld A) : Prop where
  initialised : w'.storage.admin.isSome = true
  feeRecipient : w'.storage.feeRecipient = w.storage.feeRecipient
  transfers : ∃ ts, w'.transfers = w.transfers ++ ts ∧
    ∀ t ∈ ts, Harmless wallet w.storage.feeRecipient t
  events : ∃ es, w'.events = w.events ++ es ∧ ∀ e ∈ es, ¬ Names wallet e

omit [DecidableEq A] in
theorem Quiet.refl (wallet : A) {w : BridgeWorld A} (h : w.storage.admin.isSome = true) :
    Quiet wallet w w :=
  ⟨h, rfl, ⟨[], by simp, by simp⟩, ⟨[], by simp, by simp⟩⟩

omit [DecidableEq A] in
theorem Quiet.trans {wallet : A} {w w' w'' : BridgeWorld A} (h : Quiet wallet w w')
    (h' : Quiet wallet w' w'') : Quiet wallet w w'' := by
  obtain ⟨ts, hts, harmless⟩ := h.transfers
  obtain ⟨ts', hts', harmless'⟩ := h'.transfers
  obtain ⟨es, hes, silent⟩ := h.events
  obtain ⟨es', hes', silent'⟩ := h'.events
  rw [h.feeRecipient] at harmless'
  exact ⟨h'.initialised, h'.feeRecipient.trans h.feeRecipient,
    ⟨ts ++ ts', by rw [hts', hts, List.append_assoc],
      List.forall_mem_append.2 ⟨harmless, harmless'⟩⟩,
    ⟨es ++ es', by rw [hes', hes, List.append_assoc],
      List.forall_mem_append.2 ⟨silent, silent'⟩⟩⟩

omit [DecidableEq A] in
/-- A call that pays nothing, and publishes what does not name the wallet. -/
theorem Quiet.of_same {wallet : A} {w w' : BridgeWorld A} (es : List (Published A))
    (initialised : w'.storage.admin.isSome = true)
    (feeRecipient : w'.storage.feeRecipient = w.storage.feeRecipient)
    (transfers : w'.transfers = w.transfers) (events : w'.events = w.events ++ es)
    (silent : ∀ e ∈ es, ¬ Names wallet e) : Quiet wallet w w' :=
  ⟨initialised, feeRecipient, ⟨[], by simp [transfers], by simp⟩, ⟨es, events, silent⟩⟩

theorem answered_flagged {wallet : A} {s : Ledger A} (guarded : Guarded registry wallet s)
    (others : Registries A) {address : A} {u : Unit}
    (passed : ensureNotBlacklisted (answered registry s.blacklist others) address s.bridge =
      .ok u) : address ≠ wallet := by
  rintro rfl
  simp only [ensureNotBlacklisted, guarded.1, answered, if_true, bind_eq_ok,
    require_eq_ok] at passed
  obtain ⟨_, ⟨⟩, free⟩ := passed
  rw [guarded.2] at free
  cases free

theorem quiet_deposit {wallet : A} {s : Ledger A} (guarded : Guarded registry wallet s)
    (outsider : wallet ≠ contract) (initialised : s.bridge.storage.admin.isSome = true)
    {env : Invocation A contract} {others : Registries A} {depositor : A} {amount : ℤ}
    {w' : BridgeWorld A}
    (h : deposit env (answered registry s.blacklist others) depositor amount s.bridge = .ok w') :
    Quiet wallet s.bridge w' := by
  simp only [deposit, bind_eq_ok, Invocation.transfer_eq_ok, pure_eq_ok] at h
  obtain ⟨-, -, -, -, -, -, _, passed, token, -, _, ⟨-, rfl⟩, rfl⟩ := h
  have other := answered_flagged guarded others passed
  refine ⟨initialised, rfl, ⟨[⟨token, depositor, contract, amount⟩], rfl, ?_⟩,
    ⟨[.deposited depositor amount], rfl, ?_⟩⟩
  · simp [Harmless, other, Ne.symm outsider]
  · simp [Names, other]

theorem payFee_events {env : Invocation A contract} {token : A} {fee : ℤ} {w w' : BridgeWorld A}
    (h : payFee env token fee w = .ok w') : w'.events = w.events := by
  unfold payFee at h
  split_ifs at h
  · simp only [bind_eq_ok, Invocation.transfer_eq_ok] at h
    obtain ⟨_, -, -, rfl⟩ := h
    rfl
  · cases h
    rfl

theorem quiet_settle {wallet : A} {s : Ledger A} (guarded : Guarded registry wallet s)
    (outsider : wallet ≠ contract) (initialised : s.bridge.storage.admin.isSome = true)
    {env : Invocation A contract} {others : Registries A} {target : A} {amount : ℤ}
    {settlement : Settlement} {w' : BridgeWorld A}
    (h : settle env (answered registry s.blacklist others) target amount s.bridge =
      .ok (settlement, w')) : Quiet wallet s.bridge w' := by
  have storage := settle_storage h
  obtain ⟨-, token, recipient, -, feeRecipient, paid⟩ := settle_eq_ok h
  have published : target ≠ wallet ∧
      w'.events = s.bridge.events ++ [.settled target amount settlement.fee] := by
    simp only [settle, bind_eq_ok, Invocation.transfer_eq_ok, pure_eq_ok, Prod.mk.injEq] at h
    obtain ⟨_, -, _, -, _, passed, _, -, _, -, _, -, _, ⟨-, rfl⟩, _, fee, rfl, rfl⟩ := h
    refine ⟨answered_flagged guarded others passed, ?_⟩
    rw [World.publish_events, payFee_events fee]
    rfl
  refine ⟨by rw [storage]; exact initialised, by rw [storage],
    ⟨_, paid.transfers, ?_⟩, ⟨_, published.2, by simp [Names, published.1]⟩⟩
  unfold settlementTransfers
  intro t ht
  rcases List.mem_cons.1 ht with rfl | ht
  · exact ⟨Ne.symm outsider, fun h => absurd h published.1⟩
  · split_ifs at ht with fee
    · rw [List.mem_singleton.1 ht]
      exact ⟨Ne.symm outsider, fun h => by rw [← h]; exact feeRecipient fee⟩
    · cases ht

theorem quiet_call {wallet : A} {s : Ledger A} (guarded : Guarded registry wallet s)
    (outsider : wallet ≠ contract) (initialised : s.bridge.storage.admin.isSome = true)
    {env : Invocation A contract} {op : Operation A} {w' : BridgeWorld A}
    (h : invoke env (connect registry s.blacklist op) s.bridge = .ok w') :
    Quiet wallet s.bridge w' ∧ (w'.storage.blacklist = s.bridge.storage.blacklist ∨
      ∃ blacklist admin, op = .setBlacklist blacklist ∧ w'.storage.blacklist = blacklist ∧
        s.bridge.storage.admin = some admin ∧ env.authorised admin = true) := by
  cases op with
  | initializeBridge admin token feeRecipient feeBps =>
    simp only [connect, invoke, initializeBridge, bind_eq_ok, require_eq_ok, initialised] at h
    obtain ⟨-, -, -, impossible, -⟩ := h
    cases impossible
  | proposeAdmin newAdmin =>
    obtain ⟨⟨pending, _⟩, proposed, rfl⟩ := map_eq_ok.1 h
    simp only [proposeAdmin, bind_eq_ok, pure_eq_ok, Prod.mk.injEq] at proposed
    obtain ⟨admin, -, -, -, time, -, -, rfl⟩ := proposed
    exact ⟨.of_same [_] initialised rfl rfl rfl (by simp [Names]), .inl rfl⟩
  | revokeAdminProposal =>
    simp only [connect, invoke, revokeAdminProposal, bind_eq_ok, pure_eq_ok] at h
    obtain ⟨_, -, _, -, rfl⟩ := h
    exact ⟨.of_same [_] initialised rfl rfl rfl (by simp [Names]), .inl rfl⟩
  | acceptAdmin =>
    simp only [connect, invoke, acceptAdmin, bind_eq_ok, pure_eq_ok] at h
    obtain ⟨_, -, _, -, _, -, _, -, rfl⟩ := h
    exact ⟨.of_same [_] rfl rfl rfl rfl (by simp [Names]), .inl rfl⟩
  | setBlacklist blacklist =>
    simp only [connect, invoke, setBlacklist, bind_eq_ok, requireAdmin_eq_ok, pure_eq_ok] at h
    obtain ⟨admin, signed, rfl⟩ := h
    exact ⟨.of_same [] initialised rfl rfl (List.append_nil _).symm (by simp),
      .inr ⟨blacklist, admin, rfl, rfl, signed⟩⟩
  | setFeeTier feeTier =>
    simp only [connect, invoke, setFeeTier, bind_eq_ok, pure_eq_ok] at h
    obtain ⟨_, -, rfl⟩ := h
    exact ⟨.of_same [] initialised rfl rfl (List.append_nil _).symm (by simp), .inl rfl⟩
  | proposeFeeBps feeBps =>
    obtain ⟨⟨pending, _⟩, proposed, rfl⟩ := map_eq_ok.1 h
    simp only [proposeFeeBps, bind_eq_ok, pure_eq_ok, Prod.mk.injEq] at proposed
    obtain ⟨admin, -, -, -, time, -, -, rfl⟩ := proposed
    exact ⟨.of_same [_] initialised rfl rfl rfl (by simp [Names]), .inl rfl⟩
  | revokeFeeUpdate =>
    simp only [connect, invoke, revokeFeeUpdate, bind_eq_ok, pure_eq_ok] at h
    obtain ⟨_, -, _, -, rfl⟩ := h
    exact ⟨.of_same [_] initialised rfl rfl rfl (by simp [Names]), .inl rfl⟩
  | executeFeeUpdate =>
    simp only [connect, invoke, executeFeeUpdate, bind_eq_ok, pure_eq_ok] at h
    obtain ⟨_, -, _, -, _, -, rfl⟩ := h
    exact ⟨.of_same [_] initialised rfl rfl rfl (by simp [Names]), .inl rfl⟩
  | pause | unpause =>
    simp only [connect, invoke, pause, unpause, bind_eq_ok, pure_eq_ok] at h
    obtain ⟨_, -, rfl⟩ := h
    exact ⟨.of_same [_] initialised rfl rfl rfl (by simp [Names]), .inl rfl⟩
  | deposit others depositor amount =>
    have storage := deposit_storage h
    exact ⟨quiet_deposit guarded outsider initialised h, .inl (by rw [storage])⟩
  | settle others target amount =>
    obtain ⟨⟨settlement, _⟩, settled, rfl⟩ := map_eq_ok.1 h
    have storage := settle_storage settled
    exact ⟨quiet_settle guarded outsider initialised settled, .inl (by rw [storage])⟩

/-- Nobody with the right to do so takes the wallet off the list, or has the bridge ask another
registry or none. -/
def Unlifted (wallet : A) (s : Ledger A) : LedgerEvent A contract registry → Prop
  | .bridge env (.setBlacklist blacklist) => blacklist ≠ some registry →
    ∀ admin ∈ s.bridge.storage.admin, env.authorised admin = false
  | .blacklist env (.remove address) => address = wallet →
    ∀ admin ∈ s.blacklist.storage.admin, env.authorised admin = false
  | _ => True

/-- Only the admin of the registry takes a wallet off the list. -/
theorem flagged_call {wallet : A} {s : Ledger A} {env : Invocation A registry}
    {op : Blacklist.Operation A} {w' : Blacklist.BlacklistWorld A}
    (flagged : Blacklist.isBlacklisted wallet s.blacklist = true)
    (unlifted : Unlifted wallet s (.blacklist env op : LedgerEvent A contract registry))
    (h : Blacklist.invoke env op s.blacklist = .ok w') :
    Blacklist.isBlacklisted wallet w' = true := by
  cases op with
  | initializeBlacklist admin =>
    simp only [Blacklist.invoke, Blacklist.initializeBlacklist, bind_eq_ok, pure_eq_ok] at h
    obtain ⟨-, -, -, -, rfl⟩ := h
    exact flagged
  | add address reason =>
    obtain ⟨-, -, -, rfl⟩ := Blacklist.add_eq_ok.1 h
    by_cases same : wallet = address
    · subst same
      simp [Blacklist.isBlacklisted]
    · simpa [Blacklist.isBlacklisted, same] using flagged
  | remove address =>
    obtain ⟨⟨admin, current, signed⟩, -, rfl⟩ := Blacklist.remove_eq_ok.1 h
    by_cases same : address = wallet
    · have refused := unlifted same admin current
      rw [signed] at refused
      cases refused
    · simpa [Blacklist.isBlacklisted, Ne.symm same] using flagged

theorem quiet_step {wallet : A} {s : Ledger A} (outsider : wallet ≠ contract)
    (guarded : Guarded registry wallet s) (initialised : s.bridge.storage.admin.isSome = true)
    {e : LedgerEvent A contract registry} (unlifted : Unlifted wallet s e) :
    Guarded registry wallet (ledgerStep s e) ∧ Quiet wallet s.bridge (ledgerStep s e).bridge := by
  have still := Quiet.refl wallet initialised
  cases e with
  | outside move => exact ⟨guarded, initialised, rfl, still.transfers, still.events⟩
  | blacklist env op =>
    simp only [ledgerStep]
    cases result : Blacklist.invoke env op s.blacklist with
    | error failure =>
      rw [step_of_error result]
      exact ⟨guarded, still⟩
    | ok w' =>
      rw [step_of_ok result]
      exact ⟨⟨guarded.1, flagged_call guarded.2 unlifted result⟩, still⟩
  | bridge env op =>
    simp only [ledgerStep]
    cases result : invoke env (connect registry s.blacklist op) s.bridge with
    | error failure =>
      rw [step_of_error result]
      exact ⟨guarded, still⟩
    | ok w' =>
      rw [step_of_ok result]
      obtain ⟨quiet, slot⟩ := quiet_call guarded outsider initialised result
      refine ⟨⟨?_, guarded.2⟩, quiet⟩
      rcases slot with same | ⟨blacklist, admin, rfl, after, current, signed⟩
      · exact same.trans guarded.1
      · by_contra hne
        have refused := unlifted (after ▸ hne) admin current
        rw [signed] at refused
        cases refused

/-- A wallet that is on the list stays out, whoever calls what in whatever order, until the admin of
the registry takes it off or the admin of the bridge has another registry asked: no deposit and no
settlement names it, and no transfer of the bridge goes to it or comes from it, but for the fees if
it is the fee recipient. -/
theorem flagged_wallet_locked {wallet : A} (outsider : wallet ≠ contract) (s : Ledger A)
    (guarded : Guarded registry wallet s) (initialised : s.bridge.storage.admin.isSome = true)
    (es : List (LedgerEvent A contract registry))
    (unlifted : Runs.Every ledgerStep (Unlifted wallet) s es) :
    let final := es.foldl ledgerStep s
    Guarded registry wallet final ∧ Quiet wallet s.bridge final.bridge := by
  induction es generalizing s with
  | nil => exact ⟨guarded, .refl wallet initialised⟩
  | cons e es ih =>
    obtain ⟨now, later⟩ := unlifted
    obtain ⟨guarded', quiet⟩ := quiet_step outsider guarded initialised now
    obtain ⟨guarded'', quiet'⟩ := ih _ guarded' quiet.initialised later
    exact ⟨guarded'', quiet.trans quiet'⟩

/-- A bridge that asks the registry at 9, on which its admin 4 has put the wallet 5. -/
def fraudListed : Ledger ℕ where
  bridge :=
    { deployed (fun _ _ => 500) with
      storage := ⟨some 7, none, some 2, some 8, some 100, some 9, none, none, none⟩ }
  blacklist :=
    { Blacklist.deployed (fun _ _ => 0) with
      storage := ⟨some 4, fun address => if address = 5 then some ⟨"fraud", 10⟩ else none⟩ }

/-- The flagged wallet itself calls the registry. -/
def ownCall : Invocation ℕ 9 where
  timestamp := 30
  sequence := 0
  authorised a := decide (a = 5)
  contract_unauthorised := rfl
  accepts _ := true

/-- The wallet tries to deposit, to take itself off the list and to be paid; another is served. -/
def attempts : List (LedgerEvent ℕ 0 9) :=
  let others : Registries ℕ := ⟨fun _ _ => .ok false, fun _ _ fee => .ok fee⟩
  [.bridge (openInvocation 20) (.deposit others 5 100), .blacklist ownCall (.remove 5),
    .bridge (openInvocation 40) (.settle others 5 100),
    .bridge (openInvocation 50) (.deposit others 6 100)]

theorem flagged_wallet_locked_attempts :
    let final := attempts.foldl ledgerStep fraudListed
    Guarded 9 5 final ∧ Quiet 5 fraudListed.bridge final.bridge :=
  flagged_wallet_locked (by decide) fraudListed ⟨rfl, rfl⟩ rfl attempts
    ⟨trivial, fun _ admin current => by cases current; rfl, trivial, trivial, trivial⟩

end MobileMoney.Bridge
