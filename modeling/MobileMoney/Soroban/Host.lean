import MobileMoney.Library.Checked
import Mathlib.Algebra.BigOperators.Group.List.Basic
import Mathlib.Algebra.Order.BigOperators.Group.List
import Mathlib.Algebra.Order.Ring.Int
import Mathlib.Tactic.Ring

/-!
# The Soroban host as a contract sees it

A contract call reads the ledger clock and the authorisations of its invocation,
rewrites its own instance storage, asks token contracts for transfers, and either
returns or fails. The host keeps the effects of a call that returned `Ok` and drops
those of a call that returned `Err` or trapped.

Token contracts are conforming: a transfer either traps or moves exactly its amount,
`trust` never moves anything, and a contract's balance falls only through transfers
that contract asked for. Which calls a token refuses (no trustline, frozen account)
is up to the invocation. The host refuses re-entry, so a contract never authorises an
invocation of itself.
-/

namespace MobileMoney.Soroban

/-- Why an invocation did not return `Ok`: a returned contract error or a trap. -/
inductive Failure (ε : Type) where
  | error (e : ε)
  | panic (message : String)
  | auth
  | token
  | arithmetic
  | decode
  deriving DecidableEq, Repr

abbrev Outcome (ε α : Type) := Except (Failure ε) α

variable {ε : Type}

-- `assert!`, `ok_or`, `expect`, `?` and an early `return Err` are the checks of `Checked`.
export Checked (bind_eq_ok bind_eq_error map_eq_ok pure_eq_ok require require_eq_ok
  require_eq_error orFail orFail_eq_ok orFail_eq_error)

/-! ## Tokens -/

variable {A : Type}

/-- One token transfer asked for by the contract. -/
structure Transfer (A : Type) where
  token : A
  source : A
  target : A
  amount : ℤ
  deriving DecidableEq, Repr

/-- What a transfer adds to the balance of one holder in one token. -/
def Transfer.effect [DecidableEq A] (t : Transfer A) (token holder : A) : ℤ :=
  if t.token = token then
    (if t.target = holder then t.amount else 0) - (if t.source = holder then t.amount else 0)
  else 0

inductive TokenCall (A : Type) where
  | transfer (t : Transfer A)
  | trust (token account : A)
  deriving DecidableEq, Repr

/-- One invocation of the contract at `contract`: the ledger it runs in, who authorised it,
and which calls the token contracts let through. -/
structure Invocation (A : Type) (contract : A) where
  timestamp : ℕ
  sequence : ℕ
  authorised : A → Bool
  contract_unauthorised : authorised contract = false
  accepts : TokenCall A → Bool

/-- Instance storage `σ`, token balances by token and holder, and what the contract has
transferred and published so far. -/
structure World (A σ E : Type) where
  storage : σ
  balances : A → A → ℤ
  transfers : List (Transfer A)
  events : List E

variable {σ E : Type} {contract : A}

namespace World

def store (w : World A σ E) (s : σ) : World A σ E := { w with storage := s }

def publish (w : World A σ E) (e : E) : World A σ E := { w with events := w.events ++ [e] }

def pay [DecidableEq A] (w : World A σ E) (t : Transfer A) : World A σ E :=
  { w with
    balances := fun token holder => w.balances token holder + t.effect token holder
    transfers := w.transfers ++ [t] }

@[simp] theorem store_storage (w : World A σ E) (s : σ) : (w.store s).storage = s := rfl
@[simp] theorem store_transfers (w : World A σ E) (s : σ) :
    (w.store s).transfers = w.transfers := rfl
@[simp] theorem store_balances (w : World A σ E) (s : σ) :
    (w.store s).balances = w.balances := rfl
@[simp] theorem store_events (w : World A σ E) (s : σ) : (w.store s).events = w.events := rfl
@[simp] theorem publish_storage (w : World A σ E) (e : E) :
    (w.publish e).storage = w.storage := rfl
@[simp] theorem publish_transfers (w : World A σ E) (e : E) :
    (w.publish e).transfers = w.transfers := rfl
@[simp] theorem publish_balances (w : World A σ E) (e : E) :
    (w.publish e).balances = w.balances := rfl
@[simp] theorem publish_events (w : World A σ E) (e : E) :
    (w.publish e).events = w.events ++ [e] := rfl
@[simp] theorem pay_storage [DecidableEq A] (w : World A σ E) (t : Transfer A) :
    (w.pay t).storage = w.storage := rfl
@[simp] theorem pay_transfers [DecidableEq A] (w : World A σ E) (t : Transfer A) :
    (w.pay t).transfers = w.transfers ++ [t] := rfl
@[simp] theorem pay_events [DecidableEq A] (w : World A σ E) (t : Transfer A) :
    (w.pay t).events = w.events := rfl
@[simp] theorem pay_balances [DecidableEq A] (w : World A σ E) (t : Transfer A) (token holder : A) :
    (w.pay t).balances token holder = w.balances token holder + t.effect token holder := rfl

end World

namespace Invocation

def requireAuth (env : Invocation A contract) (a : A) : Outcome ε Unit :=
  require (env.authorised a = true) .auth

/-- `token::Client::transfer`. -/
def transfer [DecidableEq A] (env : Invocation A contract) (t : Transfer A) (w : World A σ E) :
    Outcome ε (World A σ E) := do
  require (env.accepts (.transfer t) = true ∧ 0 ≤ t.amount ∧
    t.amount ≤ w.balances t.token t.source) .token
  return w.pay t

/-- `token::StellarAssetClient::trust`. -/
def trust (env : Invocation A contract) (token account : A) : Outcome ε Unit :=
  require (env.accepts (.trust token account) = true) .token

@[simp] theorem requireAuth_eq_ok {env : Invocation A contract} {a : A} {u : Unit} :
    env.requireAuth a = (.ok u : Outcome ε Unit) ↔ env.authorised a = true :=
  require_eq_ok

@[simp] theorem trust_eq_ok {env : Invocation A contract} {token account : A} {u : Unit} :
    env.trust token account = (.ok u : Outcome ε Unit) ↔
      env.accepts (.trust token account) = true :=
  require_eq_ok

theorem transfer_eq_ok [DecidableEq A] {env : Invocation A contract} {t : Transfer A}
    {w w' : World A σ E} :
    env.transfer t w = (.ok w' : Outcome ε _) ↔
      (env.accepts (.transfer t) = true ∧ 0 ≤ t.amount ∧
        t.amount ≤ w.balances t.token t.source) ∧ w.pay t = w' := by
  simp only [transfer, bind_eq_ok, require_eq_ok, pure_eq_ok, exists_const]

theorem ne_contract_of_authorised {env : Invocation A contract} {a : A}
    (h : env.authorised a = true) : a ≠ contract := by
  rintro rfl
  simp [env.contract_unauthorised] at h

end Invocation

theorem decide_zero_ne_zero : decide ((0 : ℕ) ≠ 0) = false := rfl

/-- Everybody but the contract, address 0, authorises, and no token refuses. -/
def openInvocation (time : ℕ) : Invocation ℕ 0 where
  timestamp := time
  sequence := 0
  authorised a := decide (a ≠ 0)
  contract_unauthorised := decide_zero_ne_zero
  accepts _ := true

/-! ## Runs -/

/-- Token movements the contract took no part in. They can add to its balances, never
take from them. -/
structure OutsideMove (A : Type) (contract : A) where
  change : A → A → ℤ
  contract_nonneg : ∀ token, 0 ≤ change token contract

/-- Nobody moves anything. -/
def OutsideMove.still : OutsideMove A contract := ⟨fun _ _ => 0, fun _ => le_rfl⟩

inductive Event (A : Type) (contract : A) (Op : Type) where
  | call (env : Invocation A contract) (op : Op)
  | outside (move : OutsideMove A contract)

variable {Op : Type}

/-- The ledger time of a call; token movements elsewhere have none of interest. -/
def Event.timestamp : Event A contract Op → Option ℕ
  | .call env _ => some env.timestamp
  | .outside _ => none

/-- One ledger event. A failed call leaves the world as it was. -/
def step (invoke : Invocation A contract → Op → World A σ E → Outcome ε (World A σ E))
    (w : World A σ E) : Event A contract Op → World A σ E
  | .call env op =>
    match invoke env op w with
    | .ok w' => w'
    | .error _ => w
  | .outside move =>
    { w with balances := fun token holder => w.balances token holder + move.change token holder }

def run (invoke : Invocation A contract → Op → World A σ E → Outcome ε (World A σ E))
    (w : World A σ E) (es : List (Event A contract Op)) : World A σ E :=
  es.foldl (step invoke) w

section Runs

variable {invoke : Invocation A contract → Op → World A σ E → Outcome ε (World A σ E)}

@[simp] theorem run_nil (w : World A σ E) : run invoke w [] = w := rfl

@[simp] theorem run_cons (w : World A σ E) (e : Event A contract Op)
    (es : List (Event A contract Op)) :
    run invoke w (e :: es) = run invoke (step invoke w e) es := rfl

theorem run_append (w : World A σ E) (es fs : List (Event A contract Op)) :
    run invoke w (es ++ fs) = run invoke (run invoke w es) fs := List.foldl_append

theorem step_of_ok {w w' : World A σ E} {env : Invocation A contract} {op : Op}
    (h : invoke env op w = .ok w') : step invoke w (.call env op) = w' := by
  rw [step, h]

theorem step_of_error {w : World A σ E} {env : Invocation A contract} {op : Op}
    {failure : Failure ε} (h : invoke env op w = .error failure) :
    step invoke w (.call env op) = w := by
  rw [step, h]

/-- A step is the identity, an outside movement or a call that returned `Ok`. -/
theorem step_cases (P : World A σ E → Prop) (w : World A σ E)
    (e : Event A contract Op) (idle : P w)
    (outside : ∀ move : OutsideMove A contract, e = .outside move → P (step invoke w e))
    (call : ∀ env op w', e = .call env op → invoke env op w = .ok w' → P w') :
    P (step invoke w e) := by
  cases e with
  | outside move => exact outside move rfl
  | call env op =>
    unfold step
    dsimp only
    split
    · next w' h => exact call env op w' rfl h
    · exact idle

/-- What every outside movement and every successful call preserves. -/
structure Invariant (invoke : Invocation A contract → Op → World A σ E → Outcome ε (World A σ E))
    (I : World A σ E → Prop) : Prop where
  outside : ∀ w, I w → ∀ move : OutsideMove A contract, I (step invoke w (.outside move))
  call : ∀ env op w w', I w → invoke env op w = .ok w' → I w'

variable {I : World A σ E → Prop}

theorem Invariant.step (inv : Invariant invoke I) {w : World A σ E} (hw : I w)
    (e : Event A contract Op) : I (Soroban.step invoke w e) := by
  refine step_cases I w e hw ?_ ?_
  · rintro move rfl
    exact inv.outside w hw move
  · intro env op w' _ h
    exact inv.call env op w w' hw h

theorem Invariant.run (inv : Invariant invoke I) {w : World A σ E} (hw : I w)
    (es : List (Event A contract Op)) : I (Soroban.run invoke w es) := by
  induction es generalizing w with
  | nil => exact hw
  | cons e es ih => exact ih (inv.step hw e)

/-! ## Accounting -/

/-- What outsiders have added to the contract's own balance in `token`. -/
def donated (es : List (Event A contract Op)) (token : A) : ℤ :=
  (es.map fun
    | .call _ _ => 0
    | .outside move => move.change token contract).sum

theorem donated_append (es fs : List (Event A contract Op)) (token : A) :
    donated (es ++ fs) token = donated es token + donated fs token := by
  simp [donated]

theorem donated_nonneg (es : List (Event A contract Op)) (token : A) : 0 ≤ donated es token := by
  apply List.sum_nonneg
  intro change hchange
  obtain ⟨e, -, rfl⟩ := List.mem_map.1 hchange
  cases e with
  | call _ _ => exact le_rfl
  | outside move => exact move.contract_nonneg token

variable [DecidableEq A]

/-- Going from `w` to `w'` the contract made exactly the transfers `ts`, and they explain
every change of balance. -/
structure Paid (w w' : World A σ E) (ts : List (Transfer A)) : Prop where
  transfers : w'.transfers = w.transfers ++ ts
  balances : ∀ token holder, w'.balances token holder =
    w.balances token holder + (ts.map (·.effect token holder)).sum

theorem Paid.of_same {w w' : World A σ E} (ht : w'.transfers = w.transfers)
    (hb : w'.balances = w.balances) : Paid w w' [] :=
  ⟨by simp [ht], by simp [hb]⟩

theorem Paid.pay {w w' : World A σ E} {ts : List (Transfer A)} (h : Paid w w' ts)
    (t : Transfer A) : Paid w (w'.pay t) (ts ++ [t]) := by
  refine ⟨by simp [h.transfers], ?_⟩
  intro token holder
  simp [h.balances, add_assoc]

theorem Paid.congr {w v w' v' : World A σ E} {ts : List (Transfer A)} (h : Paid w w' ts)
    (ht : v.transfers = w.transfers) (hb : v.balances = w.balances)
    (ht' : v'.transfers = w'.transfers) (hb' : v'.balances = w'.balances) : Paid v v' ts :=
  ⟨by rw [ht', ht, h.transfers], by rw [hb', hb]; exact h.balances⟩

/-- Apart from donations, the contract's balance is explained by its own transfers. -/
theorem Invariant.balance (inv : Invariant invoke I)
    (accounted : ∀ env op w w', I w → invoke env op w = .ok w' → ∃ ts, Paid w w' ts)
    {w : World A σ E} (hw : I w) (es : List (Event A contract Op)) :
    ∃ ts, (Soroban.run invoke w es).transfers = w.transfers ++ ts ∧ ∀ token,
      (Soroban.run invoke w es).balances token contract =
        w.balances token contract + donated es token +
          (ts.map (·.effect token contract)).sum := by
  induction es generalizing w with
  | nil => exact ⟨[], by simp, by simp [donated]⟩
  | cons e es ih =>
    obtain ⟨ts, ht, hb⟩ := ih (inv.step hw e)
    have hstep : ∃ us, (Soroban.step invoke w e).transfers = w.transfers ++ us ∧ ∀ token,
        (Soroban.step invoke w e).balances token contract =
          w.balances token contract + donated [e] token +
            (us.map (·.effect token contract)).sum := by
      cases e with
      | outside move => exact ⟨[], by simp [Soroban.step], by simp [Soroban.step, donated]⟩
      | call env op =>
        unfold Soroban.step
        dsimp only
        split
        · next w' h =>
          obtain ⟨us, hu⟩ := accounted env op w w' hw h
          exact ⟨us, hu.transfers, fun token => by simp [hu.balances, donated]⟩
        · exact ⟨[], by simp, by simp [donated]⟩
    obtain ⟨us, hu, hv⟩ := hstep
    refine ⟨us ++ ts, by simp [ht, hu], ?_⟩
    intro token
    have hd := donated_append [e] es token
    simp only [List.singleton_append] at hd
    rw [run_cons, hb, hv, hd, List.map_append, List.sum_append]
    ring

end Runs

end MobileMoney.Soroban
