import MobileMoney.Contracts.Escrow.Custody
import MobileMoney.Library.Runs

/-!
# The layout migration

An instance written by an older build keeps one entry under `ESCROW`. Loading it splits the
entry, and a call that fails afterwards takes the split back, so the same entry may be split
many times. Nobody can tell such an instance from one whose entry was split beforehand.
-/

namespace MobileMoney.Escrow

open Soroban MachineInt

variable {A : Type}

/-! ## The two layouts -/

/-- The storage of an older build. -/
def LegacyEscrowState.singleEntry (legacy : LegacyEscrowState A) (wasm : BitVec 256) :
    Storage A :=
  ⟨some (.legacy legacy), none, false, wasm⟩

/-- The same escrow in the current layout, as it is meant to be: every party, amount and term where
it was, the admins in an entry of their own. Nothing here refers to how the code splits an entry. -/
def LegacyEscrowState.splitEntries (legacy : LegacyEscrowState A) (wasm : BitVec 256) :
    Storage A where
  escrow := some (.hot {
    depositor := legacy.depositor
    beneficiary := legacy.beneficiary
    arbiter := legacy.arbiter
    token := legacy.token
    amount := legacy.amount
    emergencyUnlockTimestamp := legacy.emergencyUnlockTimestamp
    lockUntilLedger := legacy.lockUntilLedger
    feeBps := legacy.feeBps
    feeRecipient := legacy.feeRecipient
    status := if legacy.released then .completed else .pending })
  escrowAdmins := some {
    adminSigners := legacy.adminSigners
    requiredAdminSignatures := legacy.requiredAdminSignatures }
  reentrancy := false
  wasm := wasm

/-- Loading is what splits the entry. -/
theorem loadState_singleEntry (legacy : LegacyEscrowState A) (wasm : BitVec 256)
    (w : EscrowWorld A) : loadState (w.store (legacy.singleEntry wasm)) =
      .ok (some legacy.hot, w.store (legacy.splitEntries wasm)) := rfl

theorem loadState_splitEntries (legacy : LegacyEscrowState A) (wasm : BitVec 256)
    (w : EscrowWorld A) : loadState (w.store (legacy.splitEntries wasm)) =
      .ok (some legacy.hot, w.store (legacy.splitEntries wasm)) := rfl

theorem openState_singleEntry (legacy : LegacyEscrowState A) (wasm : BitVec 256)
    (missing : Failure EscrowError) (w : EscrowWorld A) :
    openState missing (w.store (legacy.singleEntry wasm)) =
      openState missing (w.store (legacy.splitEntries wasm)) := rfl

/-! ## What a caller sees -/

inductive Reply (A : Type) where
  | done
  | state (state : EscrowState A)
  | admins (admins : EscrowAdmins A)
  | active (active : Bool)
  deriving DecidableEq, Repr

section Calls

variable [DecidableEq A] {contract : A}

/-- A call with its return value. -/
def call (env : Invocation A contract) (op : Operation A) (w : EscrowWorld A) :
    Result (Reply A × EscrowWorld A) :=
  match op with
  | .initializeEscrow args => (initializeEscrow env args w).map fun w' => (.done, w')
  | .upgrade newWasmHash adminSigners =>
    (upgrade env newWasmHash adminSigners w).map fun w' => (.done, w')
  | .release => (release env w).map fun w' => (.done, w')
  | .refund => (refund env w).map fun w' => (.done, w')
  | .emergencyRefund => (emergencyRefund env w).map fun w' => (.done, w')
  | .selfRefund => (selfRefund env w).map fun w' => (.done, w')
  | .getState => (getState w).map fun r => (.state r.1, r.2)
  | .getAdmins => (getAdmins w).map fun r => (.admins r.1, r.2)
  | .reentrancyGuardActive => .ok (.active (reentrancyGuardActive w), w)

omit [DecidableEq A] in
theorem map_snd_reply {α : Type} (x : Result α) (reply : α → Reply A)
    (world : α → EscrowWorld A) :
    (x.map fun a => (reply a, world a)).map Prod.snd = x.map world := by
  cases x <;> rfl

omit [DecidableEq A] in
theorem map_snd_done (x : Result (EscrowWorld A)) :
    (x.map fun w => ((.done : Reply A), w)).map Prod.snd = x := by
  cases x <;> rfl

theorem invoke_eq_call (env : Invocation A contract) (op : Operation A) (w : EscrowWorld A) :
    invoke env op w = (call env op w).map Prod.snd := by
  cases op with
  | initializeEscrow args => exact (map_snd_done _).symm
  | upgrade newWasmHash adminSigners => exact (map_snd_done _).symm
  | release => exact (map_snd_done _).symm
  | refund => exact (map_snd_done _).symm
  | emergencyRefund => exact (map_snd_done _).symm
  | selfRefund => exact (map_snd_done _).symm
  | getState => exact (map_snd_reply _ _ _).symm
  | getAdmins => exact (map_snd_reply _ _ _).symm
  | reentrancyGuardActive => rfl

/-- What a call answers: its value or why it failed. -/
def answer (w : EscrowWorld A) : Event A contract (Operation A) →
    Option (Except (Failure EscrowError) (Reply A))
  | .call env op => some ((call env op w).map Prod.fst)
  | .outside _ => none

/-- The answers of all calls of a run. -/
def answers (w : EscrowWorld A) (es : List (Event A contract (Operation A))) :
    List (Except (Failure EscrowError) (Reply A)) :=
  Runs.collect (step invoke) (fun w e => (answer w e).toList) w es

end Calls

/-- All that can be read of the contract and of the tokens. -/
structure Observation (A : Type) where
  state : Result (EscrowState A)
  admins : Result (EscrowAdmins A)
  guardActive : Bool
  wasm : BitVec 256
  balances : A → A → ℤ
  transfers : List (Transfer A)
  released : List (EscrowReleased A)

def observe (w : EscrowWorld A) : Observation A where
  state := (getState w).map Prod.fst
  admins := (getAdmins w).map Prod.fst
  guardActive := reentrancyGuardActive w
  wasm := w.storage.wasm
  balances := w.balances
  transfers := w.transfers
  released := w.events

/-! ## The simulation -/

/-- Two worlds are the same up to the split of the legacy entry. -/
inductive SameEscrow (legacy : LegacyEscrowState A) : EscrowWorld A → EscrowWorld A → Prop where
  | split (w : EscrowWorld A) : SameEscrow legacy w w
  | single (w : EscrowWorld A) (wasm : BitVec 256) :
    SameEscrow legacy (w.store (legacy.singleEntry wasm)) (w.store (legacy.splitEntries wasm))

theorem SameEscrow.observe {legacy : LegacyEscrowState A} {w w' : EscrowWorld A}
    (same : SameEscrow legacy w w') : observe w = observe w' := by
  cases same with
  | split => rfl
  | single w wasm => rfl

variable [DecidableEq A] {contract : A}

/-- An initialised escrow refuses another initialisation, whatever its layout. -/
theorem initializeEscrow_of_some {env : Invocation A contract} {args : InitializeArgs A}
    {w : EscrowWorld A} {entry : EscrowEntry A} (found : w.storage.escrow = some entry) :
    initializeEscrow env args w = (do
      let _ ← enterGuard w
      env.requireAuth args.depositor
      require (0 < args.amount) (.panic "amount must be positive")
      require (args.amount ≤ i128.max / 10000)
        (.panic "amount is too large to prevent fee overflow")
      .error (.panic "already initialised")) := by
  unfold initializeEscrow
  cases hguard : enterGuard w with
  | error failure => rfl
  | ok w' =>
    obtain ⟨-, rfl⟩ := enterGuard_eq_ok.1 hguard
    change env.requireAuth args.depositor >>= _ = env.requireAuth args.depositor >>= _
    refine bind_congr fun _ => bind_congr fun _ => bind_congr fun _ => ?_
    rw [require, if_neg (by simp [found])]
    rfl

/-- On the single entry every call but one that only looks at the guard does exactly what it
does on the split entries. -/
theorem call_singleEntry (legacy : LegacyEscrowState A) (wasm : BitVec 256)
    (env : Invocation A contract) (op : Operation A) (w : EscrowWorld A)
    (h : op ≠ .reentrancyGuardActive) :
    call env op (w.store (legacy.singleEntry wasm)) =
      call env op (w.store (legacy.splitEntries wasm)) := by
  cases op with
  | initializeEscrow args =>
    have single : (w.store (legacy.singleEntry wasm)).storage.escrow = some (.legacy legacy) :=
      rfl
    have split : (w.store (legacy.splitEntries wasm)).storage.escrow = some (.hot legacy.hot) :=
      rfl
    simp only [call, initializeEscrow_of_some single, initializeEscrow_of_some split]
    rfl
  | upgrade newWasmHash adminSigners => rfl
  | release => rfl
  | refund => rfl
  | emergencyRefund => rfl
  | selfRefund => rfl
  | getState => rfl
  | getAdmins => rfl
  | reentrancyGuardActive => exact absurd rfl h

theorem invoke_singleEntry (legacy : LegacyEscrowState A) (wasm : BitVec 256)
    (env : Invocation A contract) (op : Operation A) (w : EscrowWorld A)
    (h : op ≠ .reentrancyGuardActive) :
    invoke env op (w.store (legacy.singleEntry wasm)) =
      invoke env op (w.store (legacy.splitEntries wasm)) := by
  rw [invoke_eq_call, invoke_eq_call, call_singleEntry legacy wasm env op w h]

theorem SameEscrow.answer {legacy : LegacyEscrowState A} {w w' : EscrowWorld A}
    (same : SameEscrow legacy w w') (e : Event A contract (Operation A)) :
    answer w e = answer w' e := by
  cases same with
  | split => rfl
  | single w wasm =>
    cases e with
    | outside move => rfl
    | call env op =>
      by_cases h : op = .reentrancyGuardActive
      · subst h
        rfl
      · rw [Escrow.answer, Escrow.answer, call_singleEntry legacy wasm env op w h]

/-- A call that goes through leaves the same world on both sides; one that fails takes the
split back on one of them. -/
theorem SameEscrow.step {legacy : LegacyEscrowState A} {w w' : EscrowWorld A}
    (same : SameEscrow legacy w w') (e : Event A contract (Operation A)) :
    SameEscrow legacy (step invoke w e) (step invoke w' e) := by
  cases same with
  | split => exact .split _
  | single w wasm =>
    cases e with
    | outside move =>
      exact .single { w with
        balances := fun token holder => w.balances token holder + move.change token holder } wasm
    | call env op =>
      by_cases h : op = .reentrancyGuardActive
      · subst h
        exact .single w wasm
      · have eager := invoke_singleEntry legacy wasm env op w h
        cases hinvoke : invoke env op (w.store (legacy.splitEntries wasm)) with
        | ok v =>
          rw [step_of_ok hinvoke, step_of_ok (eager.trans hinvoke)]
          exact .split v
        | error failure =>
          rw [step_of_error hinvoke, step_of_error (eager.trans hinvoke)]
          exact .single w wasm

theorem SameEscrow.run {legacy : LegacyEscrowState A} {w w' : EscrowWorld A}
    (same : SameEscrow legacy w w') (es : List (Event A contract (Operation A))) :
    SameEscrow legacy (run invoke w es) (run invoke w' es) := by
  induction es generalizing w w' with
  | nil => exact same
  | cons e es ih => exact ih (same.step e)

theorem SameEscrow.answers {legacy : LegacyEscrowState A} {w w' : EscrowWorld A}
    (same : SameEscrow legacy w w') (es : List (Event A contract (Operation A))) :
    answers w es = answers w' es := by
  induction es generalizing w w' with
  | nil => rfl
  | cons e es ih =>
    simp only [Escrow.answers, Runs.collect_cons] at ih ⊢
    rw [same.answer e, ih (same.step e)]

/-! ## The admin list -/

/-- An initialised escrow in the current layout with these admins. -/
structure HasAdmins (admins : EscrowAdmins A) (w : EscrowWorld A) : Prop where
  layout : SplitLayout w
  initialised : w.storage.escrow ≠ none
  admins : w.storage.escrowAdmins = some admins

omit [DecidableEq A] in
theorem HasAdmins.of_storage {admins : EscrowAdmins A} {w w' : EscrowWorld A}
    {state : EscrowState A} (h : HasAdmins admins w)
    (escrow : w'.storage.escrow = some (.hot state))
    (rest : w'.storage.escrowAdmins = w.storage.escrowAdmins ∧
      w'.storage.reentrancy = w.storage.reentrancy) : HasAdmins admins w' where
  layout := by
    refine ⟨rest.2.trans h.layout.unlocked, fun entry hentry => ?_⟩
    obtain rfl := Option.some.inj (escrow.symm.trans hentry)
    exact ⟨⟨state, rfl⟩, by rw [rest.1, h.admins]; rfl⟩
  initialised := by simp [escrow]
  admins := rest.1.trans h.admins

theorem hasAdmins_invariant (admins : EscrowAdmins A) :
    Invariant (@invoke A _ contract) (HasAdmins admins) where
  outside _ h _ := ⟨⟨h.layout.unlocked, h.layout.hot⟩, h.initialised, h.admins⟩
  call env op w w' h hinvoke := by
    have effect := invoke_cases h.layout hinvoke
    cases effect with
    | funded args vacant => exact absurd vacant h.initialised
    | released _ state _ released =>
      exact h.of_storage (by rw [released.storage]) (by rw [released.storage]; exact ⟨rfl, rfl⟩)
    | refunded _ state _ refunded =>
      exact h.of_storage (by rw [refunded.storage]) (by rw [refunded.storage]; exact ⟨rfl, rfl⟩)
    | idle storage =>
      obtain ⟨wasm, storage⟩ := storage
      refine ⟨⟨?_, ?_⟩, ?_, ?_⟩
      · rw [storage]
        exact h.layout.unlocked
      · rw [storage]
        exact h.layout.hot
      · rw [storage]
        exact h.initialised
      · rw [storage]
        exact h.admins

omit [DecidableEq A] in
theorem HasAdmins.getAdmins {admins : EscrowAdmins A} {w : EscrowWorld A}
    (h : HasAdmins admins w) : getAdmins w = .ok (admins, w) := by
  obtain ⟨entry, hentry⟩ := Option.ne_none_iff_exists'.1 h.initialised
  obtain ⟨⟨state, rfl⟩, -⟩ := h.layout.hot entry hentry
  have loaded : loadState w = .ok (some state, w) := by
    rw [loadState, hentry, h.admins]
  rw [Escrow.getAdmins, loaded]
  simp only [bind_eq_ok, orFail_eq_ok, pure_eq_ok, Except.ok.injEq]
  exact ⟨_, rfl, state, rfl, admins, h.admins, rfl⟩

/-- For every legacy entry, balances and history and every further run: with the entry split
when it is loaded, and with the entry split beforehand, all calls answer the same, all that
can be observed afterwards is the same, and the admin list and the threshold are those of the
legacy entry. -/
theorem migration_transparent (legacy : LegacyEscrowState A) (wasm : BitVec 256)
    (w : EscrowWorld A) (es : List (Event A contract (Operation A))) :
    let single := w.store (legacy.singleEntry wasm)
    let split := w.store (legacy.splitEntries wasm)
    answers single es = answers split es ∧
      observe (run invoke single es) = observe (run invoke split es) ∧
      (observe (run invoke single es)).admins =
        .ok ⟨legacy.adminSigners, legacy.requiredAdminSignatures⟩ := by
  intro single split
  have same : SameEscrow legacy single split := .single w wasm
  have start : HasAdmins ⟨legacy.adminSigners, legacy.requiredAdminSignatures⟩ split := by
    refine ⟨⟨rfl, ?_⟩, Option.some_ne_none _, rfl⟩
    rintro entry ⟨⟩
    exact ⟨⟨_, rfl⟩, rfl⟩
  have kept : HasAdmins ⟨legacy.adminSigners, legacy.requiredAdminSignatures⟩
      (run invoke split es) :=
    (hasAdmins_invariant _).run start es
  have observed : observe (run invoke single es) = observe (run invoke split es) :=
    (same.run es).observe
  refine ⟨same.answers es, observed, ?_⟩
  rw [observed]
  exact congrArg (Except.map Prod.fst) kept.getAdmins

end MobileMoney.Escrow
