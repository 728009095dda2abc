import MobileMoney.Contracts.Router.Program
import MobileMoney.Library.Runs

/-!
# Who controls the router

The owner registers pools and names the emergency admin, who pauses and resumes. Every
entry point checks one of the two, except for `initialize`, which does not look whether
the router has been initialised before.
-/

namespace MobileMoney.Router

open Soroban MachineInt

variable {A : Type}

/-- What only the owner and the emergency admin may change. -/
structure Control (A : Type) where
  owner : A
  emergencyAdmin : A
  pools : List (LiquidityPool A)
  paused : Bool
  deriving DecidableEq, Repr

/-- The pause state as it is read: unpaused under the owner where there is none. -/
def effectivePause (w : RouterWorld A) (state : RouterState A) : PauseState A :=
  w.storage.pauseState.getD ⟨false, state.owner⟩

def control (w : RouterWorld A) : Option (Control A) :=
  w.storage.state.map fun state => ⟨state.owner, (effectivePause w state).emergencyAdmin,
    state.pools, (effectivePause w state).paused⟩

theorem loadPauseState_eq_ok {w : RouterWorld A} {state : RouterState A}
    {pauseState : PauseState A} (found : w.storage.state = some state)
    (h : loadPauseState w = .ok pauseState) : pauseState = effectivePause w state := by
  unfold loadPauseState at h
  unfold effectivePause
  cases hp : w.storage.pauseState with
  | some p =>
    rw [hp] at h
    exact (Except.ok.inj h).symm
  | none =>
    rw [hp] at h
    simp only [loadState, found, orFail, bind_eq_ok, pure_eq_ok, Except.ok.injEq] at h
    obtain ⟨_, rfl, rfl⟩ := h
    rfl

/-- Storage decides who controls the router. -/
theorem control_congr {w w' : RouterWorld A} (h : w'.storage = w.storage) :
    control w' = control w := by
  simp only [control, effectivePause, h]

variable [DecidableEq A] {contract : A} {env : Invocation A contract}

/-! ## The law -/

/-- Once there is an owner, the control changes only with the authorisation of the owner or
the emergency admin recorded before. -/
def Guarded (w : RouterWorld A) (e : Event A contract (Operation A contract)) : Prop :=
  ∀ c, control w = some c → control (step invoke w e) = some c ∨
    ∃ env op, e = .call env op ∧
      (env.authorised c.owner = true ∨ env.authorised c.emergencyAdmin = true)

/-- An `initialize` of an initialised router that will be accepted, with the authorisation of
neither. -/
def Hijacks (w : RouterWorld A) : Event A contract (Operation A contract) → Prop
  | .call env (.initializeRouter owner maxSlippageBps minLiquidityDepth) =>
    ∃ c, control w = some c ∧ env.authorised owner = true ∧
      (0 < maxSlippageBps ∧ maxSlippageBps ≤ 10000) ∧ 0 < minLiquidityDepth ∧
      env.authorised c.owner = false ∧ env.authorised c.emergencyAdmin = false
  | _ => False

omit [DecidableEq A] in
theorem initializeRouter_eq_ok {owner : A} {maxSlippageBps : ℕ} {minLiquidityDepth : ℤ}
    {w w' : RouterWorld A} :
    initializeRouter env owner maxSlippageBps minLiquidityDepth w = .ok w' ↔
      (env.authorised owner = true ∧ (0 < maxSlippageBps ∧ maxSlippageBps ≤ 10000) ∧
        0 < minLiquidityDepth) ∧ setPauseState ⟨false, owner⟩
          (setState ⟨[], owner, maxSlippageBps, minLiquidityDepth⟩ w) = w' := by
  simp only [initializeRouter, bind_eq_ok, Invocation.requireAuth_eq_ok, require_eq_ok,
    pure_eq_ok, exists_const, and_assoc]

/-- The check of the entry points for the owner. -/
theorem owner_authorised {β : Type} {caller : A} {error : Failure RouterError}
    {w : RouterWorld A} {state : RouterState A} (found : w.storage.state = some state)
    {rest : RouterState A → Result β} {b : β} (h : (do
      env.requireAuth caller
      let state ← loadState w
      require (caller = state.owner) error
      rest state) = .ok b) : env.authorised state.owner = true := by
  simp only [loadState, bind_eq_ok, orFail_eq_ok, require_eq_ok, Invocation.requireAuth_eq_ok,
    exists_const] at h
  obtain ⟨hauth, state', hstate', rfl, -⟩ := h
  obtain rfl := Option.some.inj (found.symm.trans hstate')
  exact hauth

/-- The check of the entry points for the emergency admin. -/
theorem emergencyAdmin_authorised {β : Type} {caller : A} {error : Failure RouterError}
    {w : RouterWorld A} {state : RouterState A} (found : w.storage.state = some state)
    {rest : PauseState A → Result β} {b : β} (h : (do
      env.requireAuth caller
      let pauseState ← loadPauseState w
      require (¬ caller ≠ pauseState.emergencyAdmin) error
      rest pauseState) = .ok b) :
    env.authorised (effectivePause w state).emergencyAdmin = true := by
  simp only [bind_eq_ok, require_eq_ok, Invocation.requireAuth_eq_ok, exists_const,
    not_not] at h
  obtain ⟨hauth, pauseState, hpause, rfl, -⟩ := h
  exact loadPauseState_eq_ok found hpause ▸ hauth

/-- Every other entry point is guarded. -/
theorem invoke_guarded {op : Operation A contract} {w w' : RouterWorld A} {c : Control A}
    (hc : control w = some c) (h : invoke env op w = .ok w')
    (noInit : ∀ owner maxSlippageBps minLiquidityDepth,
      op ≠ .initializeRouter owner maxSlippageBps minLiquidityDepth) :
    control w' = some c ∨
      env.authorised c.owner = true ∨ env.authorised c.emergencyAdmin = true := by
  obtain ⟨state, hstate, rfl⟩ := Option.map_eq_some_iff.1 hc
  cases op with
  | initializeRouter owner maxSlippageBps minLiquidityDepth => exact absurd rfl (noInit _ _ _)
  | setEmergencyAdmin caller newAdmin =>
    simp only [invoke, setEmergencyAdmin] at h
    exact .inr (.inl (owner_authorised hstate h))
  | pause caller =>
    simp only [invoke, pause] at h
    exact .inr (.inr (emergencyAdmin_authorised hstate h))
  | unpause caller =>
    simp only [invoke, unpause] at h
    exact .inr (.inr (emergencyAdmin_authorised hstate h))
  | addPool caller pool =>
    simp only [invoke, addPool] at h
    exact .inr (.inl (owner_authorised hstate h))
  | removePool caller poolAddress =>
    simp only [invoke, removePool] at h
    exact .inr (.inl (owner_authorised hstate h))
  | findOptimalRoute assetIn assetOut amountIn maxHops =>
    obtain ⟨_, -, rfl⟩ := map_eq_ok.1 h
    exact .inl hc
  | executeSwap caller args answers =>
    obtain ⟨⟨out, _⟩, hswap, rfl⟩ := map_eq_ok.1 h
    obtain ⟨_, _, -, -, -, rfl⟩ := executeSwap_eq_ok hswap
    exact .inl ((control_congr (by rw [World.publish_storage, World.exchange_storage])).trans hc)
  | queryPoolDepth poolAddress reserve =>
    obtain ⟨_, -, rfl⟩ := map_eq_ok.1 h
    exact .inl hc

theorem guarded_iff (w : RouterWorld A) (e : Event A contract (Operation A contract)) :
    Guarded w e ↔ ¬ Hijacks w e := by
  constructor
  · intro guarded hijacks
    cases e with
    | outside move => exact hijacks
    | call env op =>
      cases op with
      | initializeRouter owner maxSlippageBps minLiquidityDepth =>
        obtain ⟨c, hc, hauth, hslippage, hdepth, hno, hno'⟩ := hijacks
        have hok := (initializeRouter_eq_ok (w := w)).2 ⟨⟨hauth, hslippage, hdepth⟩, rfl⟩
        rcases guarded c hc with same | ⟨env', op', heq, hauth'⟩
        · simp only [step, invoke, hok] at same
          obtain rfl : ⟨owner, owner, [], false⟩ = c := Option.some.inj same
          simp [hauth] at hno
        · cases heq
          simp [hno, hno'] at hauth'
      | _ => exact hijacks
  · intro harmless c hc
    refine step_cases (fun w' => control w' = some c ∨ _) w e (.inl hc) ?_ ?_
    · rintro move rfl
      exact .inl hc
    · rintro env op w' rfl h
      by_cases authorised : env.authorised c.owner = true ∨ env.authorised c.emergencyAdmin = true
      · exact .inr ⟨env, op, rfl, authorised⟩
      · have unauthorised := not_or.1 authorised
        refine (invoke_guarded hc h ?_).imp id fun h => absurd h authorised
        rintro owner maxSlippageBps minLiquidityDepth rfl
        obtain ⟨⟨hauth, hslippage, hdepth⟩, -⟩ := initializeRouter_eq_ok.1 h
        exact harmless ⟨c, hc, hauth, hslippage, hdepth, by simpa using unauthorised⟩

/-- Along every run, from any state: the control of an initialised router changes only with
the authorisation of the owner or emergency admin recorded at that time, exactly when
nobody else initialises the router again. -/
theorem router_guarded_iff (w : RouterWorld A)
    (es : List (Event A contract (Operation A contract))) :
    Runs.Every (step invoke) Guarded w es ↔
      Runs.Every (step invoke) (fun w e => ¬ Hijacks w e) w es := by
  constructor
  · exact Runs.Every.imp_of_inv (fun _ => True) (fun _ _ _ _ => trivial)
      (fun w e _ => (guarded_iff w e).1) trivial es
  · exact Runs.Every.imp_of_inv (fun _ => True) (fun _ _ _ _ => trivial)
      (fun w e _ => (guarded_iff w e).2) trivial es

/-! ## A second initialisation -/

/-- An invocation authorised by one account only, which is not the contract, address 0. -/
def aloneInvocation (caller : ℕ) : Invocation ℕ 0 where
  timestamp := 1
  sequence := 1
  authorised a := decide (a = caller ∧ a ≠ 0)
  contract_unauthorised := by simp
  accepts _ := true

/-- Account 1 initialises the router, and account 2 does it again. -/
def takeover : List (Event ℕ 0 (Operation ℕ 0)) :=
  [.call (aloneInvocation 1) (.initializeRouter 1 100 1000),
    .call (aloneInvocation 2) (.initializeRouter 2 100 1000)]

theorem initialize_takes_over : ¬ ∀ (balances : ℕ → ℕ → ℤ)
    (es : List (Event ℕ 0 (Operation ℕ 0))),
    Runs.Every (step invoke) Guarded (deployed balances) es := by
  intro law
  obtain ⟨-, guarded, -⟩ := law (fun _ _ => 0) takeover
  rcases guarded ⟨1, 1, [], false⟩ rfl with same | ⟨env, op, heq, hauth⟩
  · cases same
  · cases heq
    simp [aloneInvocation] at hauth

end MobileMoney.Router
