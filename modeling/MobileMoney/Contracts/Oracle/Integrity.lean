import MobileMoney.Contracts.Oracle.Program

/-!
# Who decides the rate

The pools of the oracle are those of all accepted registrations, whoever made them. A rate
is the one that the first admin's own registrations give exactly when what others have
registered does not outbid, refuse or replace them.
-/

namespace MobileMoney.Oracle

open Soroban MachineInt

variable {A : Type} [DecidableEq A] {contract : A}

/-! ## Registrations -/

/-- An accepted registration and who made it. -/
def registration : Event A contract (Operation A) → Option (A × OraclePool A)
  | .call env (.registerPool admin pool) =>
    if env.authorised admin = true ∧ 0 < pool.maxSpreadBps then some (admin, pool) else none
  | _ => none

def registrations (es : List (Event A contract (Operation A))) : List (A × OraclePool A) :=
  es.filterMap registration

/-- The admin that registered the first pool. -/
def firstAdmin (es : List (Event A contract (Operation A))) : Option A :=
  (registrations es).head?.map Prod.fst

/-- A registration by somebody else; reading changes nothing. -/
def isForeign (owner : A) : Event A contract (Operation A) → Bool
  | .call _ (.registerPool admin _) => decide (admin ≠ owner)
  | _ => false

/-- The run without the registrations of everybody but `owner`. -/
def ownEvents (owner : A) (es : List (Event A contract (Operation A))) :
    List (Event A contract (Operation A)) :=
  es.filter fun e => !isForeign owner e

def registeredBy (owner : A) (es : List (Event A contract (Operation A))) :
    List (OraclePool A) :=
  ((registrations es).filter fun r => r.1 = owner).map Prod.snd

def registeredByOthers (owner : A) (es : List (Event A contract (Operation A))) :
    List (OraclePool A) :=
  ((registrations es).filter fun r => r.1 ≠ owner).map Prod.snd

omit [DecidableEq A] in
theorem registerPool_eq_ok {env : Invocation A contract} {admin : A} {pool : OraclePool A}
    {w w' : OracleWorld A} : registerPool env admin pool w = .ok w' ↔
      (env.authorised admin = true ∧ 0 < pool.maxSpreadBps) ∧
        w.store (some (loadPools w ++ [pool])) = w' := by
  simp only [registerPool, bind_eq_ok, Invocation.requireAuth_eq_ok, require_eq_ok, pure_eq_ok,
    exists_const, and_assoc]

theorem loadPools_invoke {env : Invocation A contract} {op : Operation A} {w w' : OracleWorld A}
    (h : invoke env op w = .ok w') :
    loadPools w' = loadPools w ++ (registration (.call env op)).toList.map Prod.snd := by
  cases op with
  | registerPool admin pool =>
    obtain ⟨accepted, rfl⟩ := registerPool_eq_ok.1 h
    rw [registration, if_pos accepted]
    rfl
  | getRate quotes assetIn assetOut amountIn =>
    obtain ⟨_, -, rfl⟩ := map_eq_ok.1 h
    simp [registration]
  | getRateWithSpread quotes assetIn assetOut amountIn maxSpreadBps =>
    obtain ⟨_, -, rfl⟩ := map_eq_ok.1 h
    simp [registration]
  | validateSpread quotes assetIn assetOut amountIn maxSpreadBps =>
    obtain ⟨_, -, rfl⟩ := map_eq_ok.1 h
    simp [registration]
  | listPools assetIn assetOut =>
    obtain rfl := Except.ok.inj h
    simp [registration]

theorem registration_eq_none {env : Invocation A contract} {op : Operation A}
    {w : OracleWorld A} {failure : Failure OracleError} (h : invoke env op w = .error failure) :
    registration (.call env op) = none := by
  cases op with
  | registerPool admin pool =>
    refine if_neg fun accepted => ?_
    have hok := (registerPool_eq_ok (w := w)).2 ⟨accepted, rfl⟩
    exact absurd (hok.symm.trans h) (by simp)
  | _ => rfl

theorem loadPools_step (w : OracleWorld A) (e : Event A contract (Operation A)) :
    loadPools (step invoke w e) = loadPools w ++ (registration e).toList.map Prod.snd := by
  cases e with
  | outside move => simp [registration, step, loadPools]
  | call env op =>
    cases h : invoke env op w with
    | ok w' => rw [step_of_ok h, loadPools_invoke h]
    | error failure => simp [step_of_error h, registration_eq_none h]

/-- The pools of the oracle are the accepted registrations of the run. -/
theorem loadPools_run (w : OracleWorld A) (es : List (Event A contract (Operation A))) :
    loadPools (run invoke w es) = loadPools w ++ (registrations es).map Prod.snd := by
  induction es generalizing w with
  | nil => simp [registrations]
  | cons e es ih =>
    rw [run_cons, ih, loadPools_step, registrations, registrations, List.filterMap_cons]
    cases registration e <;> simp

theorem registration_of_foreign {owner : A}
    {e : Event A contract (Operation A)} {r : A × OraclePool A} (h : registration e = some r) :
    isForeign owner e = decide (r.1 ≠ owner) := by
  cases e with
  | outside move => cases h
  | call env op =>
    cases op with
    | registerPool admin pool =>
      simp only [registration, Option.ite_none_right_eq_some, Option.some.injEq] at h
      obtain ⟨-, rfl⟩ := h
      rfl
    | _ => cases h

theorem registrations_ownEvents (owner : A) (es : List (Event A contract (Operation A))) :
    registrations (ownEvents owner es) =
      (registrations es).filter fun r => r.1 = owner := by
  simp only [registrations, ownEvents, List.filter_filterMap, List.filterMap_filter]
  congr 1
  funext e
  cases h : registration e with
  | none => simp
  | some r => simp [registration_of_foreign h, Option.filter_some]

/-! ## The law -/

/-- Nothing that others have registered for a pair changes its rate: the admin's pools give no
rate anyway, or they do and nobody outbids or refuses, or the admin has none for the pair and
neither do the others, or one of theirs gives no rate. -/
def Harmless (quotes : Quotes A) (amountIn : ℤ) (own foreign : List (OraclePool A)) : Prop :=
  amountIn ≤ 0 ∨ (∃ pool ∈ own, ∀ quote, ¬ Quoted quotes amountIn pool quote) ∨
    (own ≠ [] ∧ ∀ pool ∈ foreign, ∃ quote, Quoted quotes amountIn pool quote ∧
      ∃ pool' ∈ own, ∃ quote', Quoted quotes amountIn pool' quote' ∧ quote ≤ quote') ∨
    (own = [] ∧ (foreign = [] ∨ ∃ pool ∈ foreign, ∀ quote, ¬ Quoted quotes amountIn pool quote))

omit [DecidableEq A] in
theorem isBest_iff_of_harmless {quotes : Quotes A} {amountIn : ℤ}
    {all own foreign : List (OraclePool A)}
    (parts : ∀ pool, pool ∈ all ↔ pool ∈ own ∨ pool ∈ foreign)
    (harmless : Harmless quotes amountIn own foreign) (hamount : 0 < amountIn) (rate : ℤ) :
    IsBest quotes amountIn all rate ↔ IsBest quotes amountIn own rate := by
  rcases harmless with hle | ⟨pool, hpool, refused⟩ | ⟨-, outbid⟩ |
    ⟨rfl, none | ⟨pool, hpool, refused⟩⟩
  · omega
  · -- no rate with or without the others
    constructor
    · intro best
      obtain ⟨quote, hquote, -⟩ := best.bound pool ((parts pool).2 (.inl hpool))
      exact absurd hquote (refused quote)
    · intro best
      obtain ⟨quote, hquote, -⟩ := best.bound pool hpool
      exact absurd hquote (refused quote)
  · constructor
    · rintro ⟨⟨pool, hpool, hrate⟩, bound⟩
      have ofOwn : ∀ pool ∈ own, ∃ quote, Quoted quotes amountIn pool quote ∧ quote ≤ rate :=
        fun pool hpool => bound pool ((parts pool).2 (.inl hpool))
      rcases (parts pool).1 hpool with hown | hforeign
      · exact ⟨⟨pool, hown, hrate⟩, ofOwn⟩
      · -- an own pool offers at least as much, and at most the rate
        obtain ⟨quote, hquote, pool', hpool', quote', hquote', hle⟩ := outbid pool hforeign
        obtain rfl := Option.some.inj (hquote.1.symm.trans hrate.1)
        obtain ⟨_, hsame, hbound⟩ := ofOwn pool' hpool'
        obtain rfl := Option.some.inj (hquote'.1.symm.trans hsame.1)
        obtain rfl := le_antisymm hle hbound
        exact ⟨⟨pool', hpool', hquote'⟩, ofOwn⟩
    · rintro ⟨⟨pool, hpool, hrate⟩, bound⟩
      refine ⟨⟨pool, (parts pool).2 (.inl hpool), hrate⟩, ?_⟩
      intro pool hpool
      rcases (parts pool).1 hpool with hown | hforeign
      · exact bound pool hown
      · obtain ⟨quote, hquote, pool', hpool', quote', hquote', hle⟩ := outbid pool hforeign
        obtain ⟨_, hsame, hbound⟩ := bound pool' hpool'
        obtain rfl := Option.some.inj (hquote'.1.symm.trans hsame.1)
        exact ⟨quote, hquote, hle.trans hbound⟩
  · have same : ∀ pool, pool ∈ all ↔ pool ∈ ([] : List (OraclePool A)) := by
      simpa [none] using parts
    rw [List.eq_nil_iff_forall_not_mem.2 fun pool h => List.not_mem_nil ((same pool).1 h)]
  · constructor
    · intro best
      obtain ⟨quote, hquote, -⟩ := best.bound pool ((parts pool).2 (.inr hpool))
      exact absurd hquote (refused quote)
    · rintro ⟨⟨_, ⟨⟩, _⟩, _⟩

omit [DecidableEq A] in
theorem harmless_of_isBest_iff {quotes : Quotes A} {amountIn : ℤ}
    {all own foreign : List (OraclePool A)}
    (parts : ∀ pool, pool ∈ all ↔ pool ∈ own ∨ pool ∈ foreign)
    (same : ∀ rate, IsBest quotes amountIn all rate ↔ IsBest quotes amountIn own rate) :
    Harmless quotes amountIn own foreign := by
  by_cases hown : ∀ pool ∈ own, ∃ quote, Quoted quotes amountIn pool quote
  · by_cases hnil : own = []
    · subst hnil
      refine .inr (.inr (.inr ⟨rfl, ?_⟩))
      by_contra hall
      simp only [not_or, not_exists, not_and, not_forall, not_not] at hall
      have parts : ∀ pool, pool ∈ all ↔ pool ∈ foreign := by simpa using parts
      have hne : all ≠ [] := by
        obtain ⟨pool, hpool⟩ := List.exists_mem_of_ne_nil foreign hall.1
        exact List.ne_nil_of_mem ((parts pool).2 hpool)
      have quoted : ∀ pool ∈ all, ∃ quote, Quoted quotes amountIn pool quote :=
        fun pool hpool => hall.2 pool ((parts pool).1 hpool)
      obtain ⟨rate, best⟩ := exists_isBest hne quoted
      obtain ⟨⟨_, ⟨⟩, _⟩, _⟩ := (same rate).1 best
    · refine .inr (.inr (.inl ⟨hnil, ?_⟩))
      obtain ⟨rate, best⟩ := exists_isBest hnil hown
      obtain ⟨pool', hpool', hrate⟩ := best.attained
      intro pool hpool
      obtain ⟨quote, hquote, hle⟩ := ((same rate).2 best).bound pool ((parts pool).2 (.inr hpool))
      exact ⟨quote, hquote, pool', hpool', rate, hrate, hle⟩
  · simp only [not_forall, not_exists] at hown
    obtain ⟨pool, hpool, refused⟩ := hown
    exact .inr (.inl ⟨pool, hpool, refused⟩)

theorem mem_listPools_run (balances : A → A → ℤ) (es : List (Event A contract (Operation A)))
    (owner assetIn assetOut : A) (pool : OraclePool A) :
    pool ∈ listPools assetIn assetOut (run invoke (deployed balances) es) ↔
      pool ∈ ofPair assetIn assetOut (registeredBy owner es) ∨
        pool ∈ ofPair assetIn assetOut (registeredByOthers owner es) := by
  have split : pool ∈ (registrations es).map Prod.snd ↔
      pool ∈ registeredBy owner es ∨ pool ∈ registeredByOthers owner es := by
    simp only [registeredBy, registeredByOthers, List.mem_map, List.mem_filter,
      decide_eq_true_eq, ← exists_or, ← or_and_right, ← and_or_left, em, and_true]
  have start : loadPools (deployed balances) = [] := rfl
  rw [listPools, loadPools_run, start, List.nil_append]
  simp only [ofPair, List.mem_filter, split, or_and_right]

theorem listPools_ownEvents (balances : A → A → ℤ) (es : List (Event A contract (Operation A)))
    (owner assetIn assetOut : A) :
    listPools assetIn assetOut (run invoke (deployed balances) (ownEvents owner es)) =
      ofPair assetIn assetOut (registeredBy owner es) := by
  have start : loadPools (deployed balances) = [] := rfl
  rw [listPools, loadPools_run, start, List.nil_append, registrations_ownEvents, registeredBy]

omit [DecidableEq A] in
theorem toOption_eq_iff {α : Type} {x y : Result α} :
    x.toOption = y.toOption ↔ ∀ a, x = .ok a ↔ y = .ok a := by
  have mem (x : Result α) (a : α) : x.toOption = some a ↔ x = .ok a := by
    cases x <;> simp [Except.toOption]
  rw [Option.ext_iff]
  simp only [mem]

/-- In every run, with any fixed answers of the pools: the rate of a pair, or that there is
none, is what the calls of one admin alone give (in particular those of the first one)
exactly when the registrations of the others are harmless. -/
theorem getRate_own_iff (quotes : Quotes A) (balances : A → A → ℤ)
    (es : List (Event A contract (Operation A))) (owner assetIn assetOut : A) (amountIn : ℤ) :
    (getRate quotes assetIn assetOut amountIn (run invoke (deployed balances) es)).toOption =
        (getRate quotes assetIn assetOut amountIn
          (run invoke (deployed balances) (ownEvents owner es))).toOption ↔
      Harmless quotes amountIn (ofPair assetIn assetOut (registeredBy owner es))
        (ofPair assetIn assetOut (registeredByOthers owner es)) := by
  have parts := mem_listPools_run balances es owner assetIn assetOut
  simp only [toOption_eq_iff, getRate_eq_ok, listPools_ownEvents]
  constructor
  · intro same
    by_cases hamount : 0 < amountIn
    · refine harmless_of_isBest_iff parts fun rate => ?_
      simpa only [hamount, true_and] using same rate
    · exact .inl (not_lt.1 hamount)
  · intro harmless rate
    refine and_congr_right fun hamount => ?_
    exact isBest_iff_of_harmless parts harmless hamount rate

/-! ## A pool of somebody else -/

/-- Account 1 registers a pool at 10 for the pair of tokens 5 and 6, then account 2 registers
its own at 20. -/
def outbidding : List (Event ℕ 0 (Operation ℕ)) :=
  [.call (openInvocation 1) (.registerPool 1 ⟨10, 5, 6, 500⟩),
    .call (openInvocation 2) (.registerPool 2 ⟨20, 5, 6, 500⟩)]

/-- The pool at 10 gives 100 for one unit, the one at 20 gives 1000. -/
def rates : Quotes ℕ := fun pool _ _ amountIn =>
  some (if pool = 10 then 100 * amountIn else 1000 * amountIn)

theorem other_admin_outbids : ¬ ∀ (quotes : Quotes ℕ) (balances : ℕ → ℕ → ℤ)
    (es : List (Event ℕ 0 (Operation ℕ))) (owner assetIn assetOut : ℕ) (amountIn : ℤ),
    firstAdmin es = some owner →
      (getRate quotes assetIn assetOut amountIn (run invoke (deployed balances) es)).toOption =
        (getRate quotes assetIn assetOut amountIn
          (run invoke (deployed balances) (ownEvents owner es))).toOption := by
  intro law
  have same := law rates (fun _ _ => 0) outbidding 1 5 6 1 rfl
  cases same

end MobileMoney.Oracle
