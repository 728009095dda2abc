import MobileMoney.Soroban.Signatures

/-!
# The hash time-locked contract

`contracts/htlc`: a sender's tokens wait for a preimage of the hashlock, presented by
the receiver or by a number of approved signers, or go back once the timelock is
reached. The host's SHA-256 is a parameter. TTL extensions are left out.

One lemma for each operation, both ways: what it has checked about the stored state and
the invocation, what it stores and the one transfer it makes.
-/

namespace MobileMoney.Htlc

open Soroban

variable {A : Type}

structure HtlcState (A : Type) where
  sender : A
  receiver : A
  token : A
  amount : ℤ
  hashlock : BitVec 256
  timelock : ℕ
  claimed : Bool
  refunded : Bool
  approvedSigners : List A
  requiredSignatures : ℕ
  deriving DecidableEq, Repr

/-- Instance storage holds the one `HTLC` entry, and the contract publishes nothing. -/
abbrev HtlcWorld (A : Type) := World A (Option (HtlcState A)) Empty

/-- Every failure of this contract is a panic: it declares no errors. -/
abbrev Result (α : Type) := Outcome Empty α

structure InitializeArgs (A : Type) where
  sender : A
  receiver : A
  token : A
  amount : ℤ
  hashlock : BitVec 256
  timelock : ℕ
  approvedSigners : List A
  requiredSignatures : ℕ
  deriving DecidableEq, Repr

def InitializeArgs.state (args : InitializeArgs A) : HtlcState A where
  sender := args.sender
  receiver := args.receiver
  token := args.token
  amount := args.amount
  hashlock := args.hashlock
  timelock := args.timelock
  claimed := false
  refunded := false
  approvedSigners := args.approvedSigners
  requiredSignatures := args.requiredSignatures

variable [DecidableEq A] {contract : A}

def initializeHtlc (env : Invocation A contract) (args : InitializeArgs A)
    (w : HtlcWorld A) : Result (HtlcWorld A) := do
  env.requireAuth args.sender
  require (0 < args.amount) (.panic "amount must be positive")
  require (w.storage = none) (.panic "already initialised")
  require (env.timestamp < args.timelock) (.panic "timelock must be in the future")
  require (args.approvedSigners ≠ [] →
      0 < args.requiredSignatures ∧ args.requiredSignatures ≤ args.approvedSigners.length)
    (.panic "required_signatures must be between 1 and number of approved signers")
  -- Here the deposit is pulled in before the state is stored.
  let w ← env.transfer ⟨args.token, args.sender, contract, args.amount⟩ w
  return w.store (some args.state)

/-- The signature loop of `claim`. -/
def countSignatures (env : Invocation A contract) (approved signers : List A) : Result ℕ :=
  countSigners env (.panic "signer not in approved list") approved signers

def insufficientSignatures (required got : ℕ) : String :=
  s!"insufficient signatures: required {required}, got {got}"

/-- Multi-signature verification if approved signers are configured, the receiver's
authorisation otherwise. -/
def authoriseClaim (env : Invocation A contract) (state : HtlcState A) (signers : List A) :
    Result Unit :=
  if state.approvedSigners ≠ [] then do
    let count ← countSignatures env state.approvedSigners signers
    require (state.requiredSignatures ≤ count)
      (.panic (insufficientSignatures state.requiredSignatures count))
  else env.requireAuth state.receiver

def claim (sha256 : BitVec 256 → BitVec 256) (env : Invocation A contract)
    (preimage : BitVec 256) (signers : List A) (w : HtlcWorld A) : Result (HtlcWorld A) := do
  let state ← orFail w.storage (.panic "not initialised")
  require (state.claimed = false) (.panic "already claimed")
  require (state.refunded = false) (.panic "already refunded")
  require (sha256 preimage = state.hashlock) (.panic "invalid preimage")
  authoriseClaim env state signers
  let w ← env.transfer ⟨state.token, contract, state.receiver, state.amount⟩ w
  return w.store (some { state with claimed := true })

def refund (env : Invocation A contract) (w : HtlcWorld A) : Result (HtlcWorld A) := do
  let state ← orFail w.storage (.panic "not initialised")
  require (state.claimed = false) (.panic "already claimed")
  require (state.refunded = false) (.panic "already refunded")
  require (state.timelock ≤ env.timestamp) (.panic "timelock not yet expired")
  let w ← env.transfer ⟨state.token, contract, state.sender, state.amount⟩ w
  return w.store (some { state with refunded := true })

omit [DecidableEq A] in
def getState (w : HtlcWorld A) : Result (HtlcState A) :=
  orFail w.storage (.panic "not initialised")

inductive Operation (A : Type) where
  | initializeHtlc (args : InitializeArgs A)
  | claim (preimage : BitVec 256) (signers : List A)
  | refund
  | getState
  deriving DecidableEq, Repr

def invoke (sha256 : BitVec 256 → BitVec 256) (env : Invocation A contract)
    (op : Operation A) (w : HtlcWorld A) : Result (HtlcWorld A) :=
  match op with
  | .initializeHtlc args => initializeHtlc env args w
  | .claim preimage signers => claim sha256 env preimage signers w
  | .refund => refund env w
  | .getState => (getState w).map fun _ => w

/-- A deployed contract that has not been initialised. -/
def deployed (balances : A → A → ℤ) : HtlcWorld A where
  storage := none
  balances := balances
  transfers := []
  events := []

/-! ## What each HTLC operation does when it succeeds -/

/-! ## Transfers -/

/-- The transfer that funds an HTLC. -/
def deposit (contract : A) (state : HtlcState A) : Transfer A :=
  ⟨state.token, state.sender, contract, state.amount⟩

/-- What `claim` pays. -/
def claimPayment (contract : A) (state : HtlcState A) : Transfer A :=
  ⟨state.token, contract, state.receiver, state.amount⟩

/-- What `refund` pays. -/
def refundPayment (contract : A) (state : HtlcState A) : Transfer A :=
  ⟨state.token, contract, state.sender, state.amount⟩

/-! ## Initialisation -/

/-- What `initialize` has checked about a stored HTLC. -/
structure Admitted (contract : A) (state : HtlcState A) : Prop where
  amount_pos : 0 < state.amount
  sender_ne : state.sender ≠ contract
  threshold : state.approvedSigners ≠ [] → 0 < state.requiredSignatures

theorem initializeHtlc_eq_ok {env : Invocation A contract} {args : InitializeArgs A}
    {w w' : HtlcWorld A} (h : initializeHtlc env args w = .ok w') :
    w.storage = none ∧ Admitted contract args.state ∧
      env.timestamp < args.timelock ∧ w'.storage = some args.state ∧
      Paid w w' [deposit contract args.state] := by
  simp only [initializeHtlc, bind_eq_ok, Invocation.requireAuth_eq_ok, require_eq_ok,
    Invocation.transfer_eq_ok, pure_eq_ok, exists_const] at h
  obtain ⟨hauth, hpos, hvacant, htime, hsigners, w₁, ⟨-, rfl⟩, rfl⟩ := h
  have admitted : Admitted contract args.state :=
    ⟨hpos, env.ne_contract_of_authorised hauth, fun hne => (hsigners hne).1⟩
  have paid : Paid w (w.pay (deposit contract args.state)) [deposit contract args.state] :=
    (Paid.of_same rfl rfl).pay _
  exact ⟨hvacant, admitted, htime, rfl, paid.congr rfl rfl rfl rfl⟩

/-! ## Claim -/

/-- What `claim` needs apart from signatures: an open contract, the preimage of its
hashlock and a balance that covers the payment. -/
structure Claimable (sha256 : BitVec 256 → BitVec 256) (contract : A)
    (preimage : BitVec 256) (w : HtlcWorld A) (state : HtlcState A) : Prop where
  stored : w.storage = some state
  unclaimed : state.claimed = false
  unrefunded : state.refunded = false
  hashed : sha256 preimage = state.hashlock
  payable : 0 ≤ state.amount ∧ state.amount ≤ w.balances state.token contract

theorem authoriseClaim_eq_ok {env : Invocation A contract} {state : HtlcState A}
    {signers : List A} {u : Unit} :
    authoriseClaim env state signers = .ok u ↔
      if state.approvedSigners = [] then env.authorised state.receiver = true
      else (∀ a ∈ signers, a ∈ state.approvedSigners ∧ env.authorised a = true) ∧
        state.requiredSignatures ≤ signers.length := by
  unfold authoriseClaim
  by_cases hempty : state.approvedSigners = []
  · simp [hempty]
  · simp only [ne_eq, hempty, not_false_eq_true, if_true, if_false, bind_eq_ok,
      countSignatures, countSigners_eq_ok, require_eq_ok]
    constructor
    · rintro ⟨count, ⟨valid, rfl⟩, enough⟩
      exact ⟨valid, enough⟩
    · rintro ⟨valid, enough⟩
      exact ⟨_, ⟨valid, rfl⟩, enough⟩

theorem claim_eq_ok {sha256 : BitVec 256 → BitVec 256} {env : Invocation A contract}
    {preimage : BitVec 256} {signers : List A} {w w' : HtlcWorld A} :
    claim sha256 env preimage signers w = .ok w' ↔
      ∃ state, Claimable sha256 contract preimage w state ∧
        authoriseClaim env state signers = .ok () ∧
        env.accepts (.transfer ⟨state.token, contract, state.receiver, state.amount⟩) = true ∧
        (w.pay ⟨state.token, contract, state.receiver, state.amount⟩).store
          (some { state with claimed := true }) = w' := by
  simp only [claim, bind_eq_ok, orFail_eq_ok, require_eq_ok, Invocation.transfer_eq_ok,
    pure_eq_ok, exists_const]
  constructor
  · rintro ⟨state, hs, hc, hr, hh, _, hauth, _, ⟨⟨hacc, hpay⟩, rfl⟩, hw'⟩
    exact ⟨state, ⟨hs, hc, hr, hh, hpay⟩, hauth, hacc, hw'⟩
  · rintro ⟨state, ⟨hs, hc, hr, hh, hpay⟩, hauth, hacc, hw'⟩
    exact ⟨state, hs, hc, hr, hh, (), hauth, _, ⟨⟨hacc, hpay⟩, rfl⟩, hw'⟩

/-! ## Refund -/

/-- What `refund` needs apart from the clock. -/
structure Refundable (contract : A) (w : HtlcWorld A) (state : HtlcState A) : Prop where
  stored : w.storage = some state
  unclaimed : state.claimed = false
  unrefunded : state.refunded = false
  payable : 0 ≤ state.amount ∧ state.amount ≤ w.balances state.token contract

theorem refund_eq_ok {env : Invocation A contract} {w w' : HtlcWorld A} :
    refund env w = .ok w' ↔
      ∃ state, Refundable contract w state ∧ state.timelock ≤ env.timestamp ∧
        env.accepts (.transfer (refundPayment contract state)) = true ∧
        (w.pay (refundPayment contract state)).store
          (some { state with refunded := true }) = w' := by
  simp only [refund, bind_eq_ok, orFail_eq_ok, require_eq_ok, Invocation.transfer_eq_ok,
    pure_eq_ok, exists_const]
  constructor
  · rintro ⟨state, hs, hc, hr, ht, _, ⟨⟨hacc, hpay⟩, rfl⟩, hw'⟩
    exact ⟨state, ⟨hs, hc, hr, hpay⟩, ht, hacc, hw'⟩
  · rintro ⟨state, ⟨hs, hc, hr, hpay⟩, ht, hacc, hw'⟩
    exact ⟨state, hs, hc, hr, ht, _, ⟨⟨hacc, hpay⟩, rfl⟩, hw'⟩

end MobileMoney.Htlc
