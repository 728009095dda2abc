import MobileMoney.Library.Budget
import MobileMoney.Library.MachineInt
import MobileMoney.Library.Runs
import MobileMoney.Soroban.Host

/-!
# The faucet contract

`contracts/faucet`: anybody may claim tokens up to a limit, and again when a cooldown is over. The
admin sets the limits, excludes tokens and takes tokens out. The time of a claim is kept for each
recipient and token, so what one recipient can claim of a token in a window of time is limited,
whatever happens in between. TTL extensions are left out.
-/

namespace MobileMoney.Faucet

open Soroban MachineInt

variable {A : Type}

inductive FaucetError where
  | alreadyInitialized
  | notInitialized
  | unauthorized
  | invalidAmount
  | exceedsMaxAmount
  | cooldownActive
  | unsupportedToken
  | insufficientBalance
  deriving DecidableEq

def defaultCooldownSeconds : ℕ := 86400

def defaultMaxClaimAmount : ℤ := 100000000000

/-- Instance storage, and the times of the last claims in persistent storage. -/
structure Storage (A : Type) where
  admin : Option A
  maxAmount : Option ℤ
  cooldown : Option ℕ
  allowedToken : A → Option Bool
  lastClaim : A → A → Option ℕ

abbrev FaucetWorld (A : Type) := World A (Storage A) Unit

abbrev Result (α : Type) := Outcome FaucetError α

variable {contract : A}

def getCooldownPeriod (w : FaucetWorld A) : ℕ := w.storage.cooldown.getD defaultCooldownSeconds

def getMaxClaimAmount (w : FaucetWorld A) : ℤ := w.storage.maxAmount.getD defaultMaxClaimAmount

def isTokenAllowed (token : A) (w : FaucetWorld A) : Bool :=
  (w.storage.allowedToken token).getD true

def getAdmin (w : FaucetWorld A) : Result A := orFail w.storage.admin (.error .notInitialized)

/-- The `u64` addition traps when it overflows. -/
def cooldownEnd (lastClaimTime : ℕ) (w : FaucetWorld A) : Result ℕ := do
  require ((lastClaimTime + getCooldownPeriod w : ℕ) ≤ u64.max) .arithmetic
  return lastClaimTime + getCooldownPeriod w

def initializeFaucet (env : Invocation A contract) (admin : A) (maxClaimAmount : Option ℤ)
    (cooldownPeriod : Option ℕ) (w : FaucetWorld A) : Result (FaucetWorld A) := do
  env.requireAuth admin
  require (w.storage.admin.isSome = false) (.error .alreadyInitialized)
  let maxAmount := maxClaimAmount.getD defaultMaxClaimAmount
  require (¬ maxAmount ≤ 0) (.error .invalidAmount)
  return w.store { w.storage with
    admin := some admin
    maxAmount := some maxAmount
    cooldown := some (cooldownPeriod.getD defaultCooldownSeconds) }

def setMaxClaimAmount (env : Invocation A contract) (maxAmount : ℤ) (w : FaucetWorld A) :
    Result (FaucetWorld A) := do
  let admin ← getAdmin w
  env.requireAuth admin
  require (¬ maxAmount ≤ 0) (.error .invalidAmount)
  return w.store { w.storage with maxAmount := some maxAmount }

def setCooldownPeriod (env : Invocation A contract) (cooldown : ℕ) (w : FaucetWorld A) :
    Result (FaucetWorld A) := do
  let admin ← getAdmin w
  env.requireAuth admin
  return w.store { w.storage with cooldown := some cooldown }

def canClaim (env : Invocation A contract) (recipient token : A) (w : FaucetWorld A) :
    Result Bool :=
  match w.storage.lastClaim recipient token with
  | some lastClaimTime => do
    let cooldownOver ← cooldownEnd lastClaimTime w
    return decide (cooldownOver ≤ env.timestamp)
  | none => .ok true

/-- The check of the cooldown in `claim`. -/
def requireCooledDown (env : Invocation A contract) (recipient token : A) (w : FaucetWorld A) :
    Result Unit :=
  match w.storage.lastClaim recipient token with
  | some lastClaimTime => do
    let cooldownOver ← cooldownEnd lastClaimTime w
    require (¬ env.timestamp < cooldownOver) (.error .cooldownActive)
  | none => .ok ()

variable [DecidableEq A]

def setTokenAllowed (env : Invocation A contract) (token : A) (allowed : Bool)
    (w : FaucetWorld A) : Result (FaucetWorld A) := do
  let admin ← getAdmin w
  env.requireAuth admin
  return w.store { w.storage with
    allowedToken := Function.update w.storage.allowedToken token (some allowed) }

def recordClaim (recipient token : A) (now : ℕ) (w : FaucetWorld A) : FaucetWorld A :=
  w.store { w.storage with
    lastClaim := Function.update w.storage.lastClaim recipient
      (Function.update (w.storage.lastClaim recipient) token (some now)) }

def claim (env : Invocation A contract) (recipient token : A) (amount : ℤ)
    (w : FaucetWorld A) : Result (FaucetWorld A) := do
  env.requireAuth recipient
  require (w.storage.admin.isSome = true) (.error .notInitialized)
  require (¬ amount ≤ 0) (.error .invalidAmount)
  require (¬ getMaxClaimAmount w < amount) (.error .exceedsMaxAmount)
  require (isTokenAllowed token w = true) (.error .unsupportedToken)
  requireCooledDown env recipient token w
  require (¬ w.balances token contract < amount) (.error .insufficientBalance)
  env.transfer ⟨token, contract, recipient, amount⟩ (recordClaim recipient token env.timestamp w)

def withdraw (env : Invocation A contract) (token destination : A) (amount : ℤ)
    (w : FaucetWorld A) : Result (FaucetWorld A) := do
  let admin ← getAdmin w
  env.requireAuth admin
  require (¬ amount ≤ 0) (.error .invalidAmount)
  require (¬ w.balances token contract < amount) (.error .insufficientBalance)
  env.transfer ⟨token, contract, destination, amount⟩ w

inductive Operation (A : Type) where
  | initializeFaucet (admin : A) (maxClaimAmount : Option ℤ) (cooldownPeriod : Option ℕ)
  | setTokenAllowed (token : A) (allowed : Bool)
  | setMaxClaimAmount (maxAmount : ℤ)
  | setCooldownPeriod (cooldown : ℕ)
  | claim (recipient token : A) (amount : ℤ)
  | withdraw (token destination : A) (amount : ℤ)

/-- The entry points that write. -/
def invoke (env : Invocation A contract) (op : Operation A) (w : FaucetWorld A) :
    Result (FaucetWorld A) :=
  match op with
  | .initializeFaucet admin maxClaimAmount cooldownPeriod =>
    initializeFaucet env admin maxClaimAmount cooldownPeriod w
  | .setTokenAllowed token allowed => setTokenAllowed env token allowed w
  | .setMaxClaimAmount maxAmount => setMaxClaimAmount env maxAmount w
  | .setCooldownPeriod cooldown => setCooldownPeriod env cooldown w
  | .claim recipient token amount => claim env recipient token amount w
  | .withdraw token destination amount => withdraw env token destination amount w

/-- A deployed contract that has not been initialised. -/
def deployed (balances : A → A → ℤ) : FaucetWorld A where
  storage := ⟨none, none, none, fun _ => none, fun _ _ => none⟩
  balances := balances
  transfers := []
  events := []

/-! ## Claims -/

omit [DecidableEq A] in
theorem requireCooledDown_eq_ok {env : Invocation A contract} {recipient token : A}
    {w : FaucetWorld A} {u : Unit} : requireCooledDown env recipient token w = .ok u ↔
      canClaim env recipient token w = .ok true := by
  unfold requireCooledDown canClaim
  cases w.storage.lastClaim recipient token with
  | none => simp
  | some lastClaimTime =>
    simp only [bind_eq_ok, require_eq_ok, pure_eq_ok, decide_eq_true_iff, not_lt]

omit [DecidableEq A] in
theorem canClaim_eq_true {env : Invocation A contract} {recipient token : A}
    {w : FaucetWorld A} : canClaim env recipient token w = .ok true ↔
      ∀ lastClaimTime ∈ w.storage.lastClaim recipient token,
        ((lastClaimTime + getCooldownPeriod w : ℕ) : ℤ) ≤ u64.max ∧
          lastClaimTime + getCooldownPeriod w ≤ env.timestamp := by
  unfold canClaim
  cases w.storage.lastClaim recipient token with
  | none => simp
  | some lastClaimTime =>
    simp only [cooldownEnd, bind_eq_ok, require_eq_ok, pure_eq_ok, decide_eq_true_iff]
    constructor
    · rintro ⟨_, ⟨_, bounded, rfl⟩, expired⟩ _ ⟨⟩
      exact ⟨bounded, expired⟩
    · intro h
      obtain ⟨bounded, expired⟩ := h lastClaimTime rfl
      exact ⟨_, ⟨(), bounded, rfl⟩, expired⟩

/-- What `claim` asks for before it hands anything out. -/
structure Claimable (env : Invocation A contract) (recipient token : A) (amount : ℤ)
    (w : FaucetWorld A) : Prop where
  authorised : env.authorised recipient = true
  initialized : w.storage.admin.isSome = true
  positive : 0 < amount
  limited : amount ≤ getMaxClaimAmount w
  allowed : isTokenAllowed token w = true
  cooled : canClaim env recipient token w = .ok true
  funded : amount ≤ w.balances token contract
  accepted : env.accepts (.transfer ⟨token, contract, recipient, amount⟩) = true

/-- The view tells what the call will say: `claim` succeeds just when `can_claim` answers true and
nothing but the cooldown stands in its way. -/
theorem claim_eq_ok {env : Invocation A contract} {recipient token : A} {amount : ℤ}
    {w w' : FaucetWorld A} : claim env recipient token amount w = .ok w' ↔
      Claimable env recipient token amount w ∧
        (recordClaim recipient token env.timestamp w).pay ⟨token, contract, recipient, amount⟩ =
          w' := by
  simp only [claim, bind_eq_ok, require_eq_ok, Invocation.requireAuth_eq_ok, exists_const,
    not_le, not_lt, requireCooledDown_eq_ok, Invocation.transfer_eq_ok]
  constructor
  · rintro ⟨h₁, h₂, h₃, h₄, h₅, h₆, h₇, ⟨h₈, -, -⟩, rfl⟩
    exact ⟨⟨h₁, h₂, h₃, h₄, h₅, h₆, h₇, h₈⟩, rfl⟩
  · rintro ⟨h, rfl⟩
    exact ⟨h.authorised, h.initialized, h.positive, h.limited, h.allowed, h.cooled, h.funded,
      ⟨h.accepted, h.positive.le, h.funded⟩, rfl⟩

/-! ## What one recipient receives -/

/-- The time and amount of a claim that succeeds, if the event is one of this recipient on this
token. -/
def granted (recipient token : A) (w : FaucetWorld A) :
    Event A contract (Operation A) → List (ℕ × ℤ)
  | .call env (.claim recipient' token' amount) =>
    match claim env recipient' token' amount w with
    | .ok _ => if recipient' = recipient ∧ token' = token then [(env.timestamp, amount)] else []
    | .error _ => []
  | _ => []

/-- A claim of this recipient on this token finds a cooldown of `gap` at least, and a limit of `max`
at most. -/
def Limited (gap : ℕ) (max : ℤ) (recipient token : A) (w : FaucetWorld A) :
    Event A contract (Operation A) → Prop
  | .call _ (.claim recipient' token' _) => recipient' = recipient → token' = token →
    gap ≤ getCooldownPeriod w ∧ getMaxClaimAmount w ≤ max
  | _ => True

variable {recipient token : A} {gap : ℕ} {max : ℤ} {w : FaucetWorld A}

/-- Only its own claims that succeed change when the recipient has claimed last. -/
theorem granted_cases (recipient token : A) (w : FaucetWorld A)
    (e : Event A contract (Operation A)) :
    granted recipient token w e = [] ∧ (step invoke w e).storage.lastClaim recipient token =
        w.storage.lastClaim recipient token ∨
      ∃ env amount, e = .call env (.claim recipient token amount) ∧
        granted recipient token w e = [(env.timestamp, amount)] ∧
        Claimable env recipient token amount w ∧
        (step invoke w e).storage.lastClaim recipient token = some env.timestamp := by
  cases e with
  | outside move => exact .inl ⟨rfl, rfl⟩
  | call env op =>
    cases h : invoke env op w with
    | error failure =>
      rw [step_of_error h]
      refine .inl ⟨?_, rfl⟩
      cases op with
      | claim recipient' token' amount =>
        have refused : claim env recipient' token' amount w = .error failure := h
        simp [granted, refused]
      | _ => rfl
    | ok w' =>
      rw [step_of_ok h]
      cases op with
      | claim recipient' token' amount =>
        have succeeded : claim env recipient' token' amount w = .ok w' := h
        obtain ⟨claimable, rfl⟩ := claim_eq_ok.1 succeeded
        by_cases same : recipient' = recipient ∧ token' = token
        · obtain ⟨rfl, rfl⟩ := same
          exact .inr ⟨env, amount, rfl, by simp [granted, succeeded], claimable,
            by simp [recordClaim]⟩
        · refine .inl ⟨by simp [granted, succeeded, same], ?_⟩
          simp only [recordClaim, World.pay_storage, World.store_storage]
          by_cases hr : recipient = recipient'
          · subst hr
            rw [Function.update_self, Function.update_of_ne fun ht => same ⟨rfl, ht.symm⟩]
          · rw [Function.update_of_ne hr]
      | initializeFaucet admin maxClaimAmount cooldownPeriod =>
        simp only [invoke, initializeFaucet, bind_eq_ok, pure_eq_ok] at h
        obtain ⟨-, -, -, -, -, -, rfl⟩ := h
        exact .inl ⟨rfl, rfl⟩
      | setTokenAllowed token' allowed =>
        simp only [invoke, setTokenAllowed, bind_eq_ok, pure_eq_ok] at h
        obtain ⟨-, -, -, -, rfl⟩ := h
        exact .inl ⟨rfl, rfl⟩
      | setMaxClaimAmount maxAmount =>
        simp only [invoke, setMaxClaimAmount, bind_eq_ok, pure_eq_ok] at h
        obtain ⟨-, -, -, -, -, -, rfl⟩ := h
        exact .inl ⟨rfl, rfl⟩
      | setCooldownPeriod cooldown =>
        simp only [invoke, setCooldownPeriod, bind_eq_ok, pure_eq_ok] at h
        obtain ⟨-, -, -, -, rfl⟩ := h
        exact .inl ⟨rfl, rfl⟩
      | withdraw token' destination amount =>
        simp only [invoke, withdraw, bind_eq_ok, Invocation.transfer_eq_ok] at h
        obtain ⟨-, -, -, -, -, -, -, -, -, rfl⟩ := h
        exact .inl ⟨rfl, rfl⟩

/-- The claims of a run are a cooldown apart, and the first one is a cooldown behind the claim that
is stored. -/
theorem granted_spaced {es : List (Event A contract (Operation A))}
    (limited : Runs.Every (step invoke) (Limited gap max recipient token) w es) :
    let events := Runs.collect (step invoke) (granted recipient token) w es
    (∀ last ∈ w.storage.lastClaim recipient token, ∀ e ∈ events, last + gap ≤ e.1) ∧
      (events.Pairwise fun e e' => e.1 + gap ≤ e'.1) ∧ ∀ e ∈ events, e.2 ≤ max := by
  induction es generalizing w with
  | nil => simp
  | cons e es ih =>
    obtain ⟨limit, limited⟩ := limited
    obtain ⟨behind, spaced, bounded⟩ := ih limited
    rcases granted_cases recipient token w e with
      ⟨none, same⟩ | ⟨env, amount, rfl, one, claimable, now⟩
    · rw [Runs.collect_cons, none, List.nil_append]
      rw [same] at behind
      exact ⟨behind, spaced, bounded⟩
    · obtain ⟨cooldown, limit⟩ := limit rfl rfl
      have cooled := canClaim_eq_true.1 claimable.cooled
      have next := behind env.timestamp now
      rw [Runs.collect_cons, one, List.singleton_append]
      refine ⟨fun last hlast => ?_, List.pairwise_cons.2 ⟨next, spaced⟩, ?_⟩
      · have first : last + gap ≤ env.timestamp := by
          have := (cooled last hlast).2
          omega
        refine List.forall_mem_cons.2 ⟨first, fun e he => ?_⟩
        have := next e he
        omega
      · exact List.forall_mem_cons.2 ⟨claimable.limited.trans limit, bounded⟩

/-- In any run, whoever else claims and whatever the admin does, one recipient receives of a token
in an interval at most the limit for each cooldown begun in it. -/
theorem claims_rate_limited (w : FaucetWorld A) (es : List (Event A contract (Operation A)))
    (recipient token : A) {gap : ℕ} {max : ℤ} (hgap : 0 < gap) (hmax : 0 ≤ max)
    (limited : Runs.Every (step invoke) (Limited gap max recipient token) w es)
    (first last : ℕ) :
    Spaced.amountIn first last (Runs.collect (step invoke) (granted recipient token) w es) ≤
      max * ((last - first) / gap + 1 : ℕ) := by
  obtain ⟨-, spaced, bounded⟩ := granted_spaced limited
  exact Spaced.amountIn_le hgap hmax spaced bounded first last

/-- A faucet with a limit of ten and a cooldown of 100, and two claims 150 apart. -/
def twoClaims : List (Event ℕ 0 (Operation ℕ)) :=
  [.call (openInvocation 0) (.initializeFaucet 7 (some 10) (some 100)),
    .call (openInvocation 20) (.claim 1 2 10), .call (openInvocation 170) (.claim 1 2 8)]

theorem claims_rate_limited_twoClaims :
    Spaced.amountIn 0 170 (Runs.collect (step invoke) (granted 1 2) (deployed fun _ _ => 500)
      twoClaims) ≤ 10 * ((170 - 0) / 100 + 1 : ℕ) :=
  claims_rate_limited _ twoClaims 1 2 (by decide) (by decide)
    ⟨trivial, fun _ _ => by decide, fun _ _ => by decide, trivial⟩ 0 170

end MobileMoney.Faucet
