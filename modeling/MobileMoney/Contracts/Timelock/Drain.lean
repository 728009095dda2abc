import MobileMoney.Contracts.Timelock.Governance

/-!
# How fast the reserve can be drained

The 48-hour delay is meant to keep a compromised admin from draining the reserve. It
binds single withdrawals: `withdraw_immediate` compares each amount with the threshold
and remembers nothing, so the law over a window of time holds of the runs whose
immediate withdrawals stay below the threshold together (`Careful`).
-/

namespace MobileMoney.Timelock

open Soroban MachineInt

variable {A : Type} [DecidableEq A] {contract : A} {hash : ℕ × A × ℤ × ℕ × ℕ → BitVec 256}

/-! ## Amounts that leave the contract -/

/-- How much of these transfers leaves the contract. -/
def leaving (contract : A) (ts : List (Transfer A)) : ℤ :=
  (ts.map fun t => if t.source = contract ∧ t.target ≠ contract then t.amount else 0).sum

/-- The transfers one event makes. -/
def made (hash : ℕ × A × ℤ × ℕ × ℕ → BitVec 256) (w : TimelockWorld A)
    (e : Event A contract (Operation A)) : List (Transfer A) :=
  (step (invoke hash) w e).transfers.drop w.transfers.length

/-- Everything but the execution of a request, which needs no admin. -/
def adminOnly : Event A contract (Operation A) → Bool
  | .call _ (.executeWithdrawal _) => false
  | _ => true

/-- The transfers that the events selected by `p` make along a run. -/
def madeBy (hash : ℕ × A × ℤ × ℕ × ℕ → BitVec 256)
    (p : Event A contract (Operation A) → Bool) (w : TimelockWorld A)
    (es : List (Event A contract (Operation A))) : List (Transfer A) :=
  Runs.collect (step (invoke hash)) (fun w e => if p e then made hash w e else []) w es

/-- The time and amount of an immediate withdrawal, if the event is one that succeeds. -/
def immediate (w : TimelockWorld A) :
    Event A contract (Operation A) → List (ℕ × ℤ)
  | .call env (.withdrawImmediate recipient amount) =>
    match withdrawImmediate env recipient amount w with
    | .ok _ => [(env.timestamp, amount)]
    | .error _ => []
  | _ => []

/-- What was withdrawn immediately in the delay period before `now`. -/
def recent (past : List (ℕ × ℤ)) (now : ℕ) : ℤ :=
  ((past.filter fun p => now < p.1 + timelockDurationSeconds).map (·.2)).sum

/-- An event that keeps the drain law: an immediate withdrawal that the contract lets
through stays below the threshold together with those of the last 48 hours, and no
request is initiated so late that its delay overflows the clock. -/
def Throttled (w : TimelockWorld A) (past : List (ℕ × ℤ)) :
    Event A contract (Operation A) → Prop
  | .call env (.withdrawImmediate recipient amount) => ∀ config,
    w.storage.config = some config → env.authorised config.admin = true → 0 < amount →
    amount < config.minTimelockAmount → Payable env w (payment contract config recipient amount) →
    recent past env.timestamp + amount < config.minTimelockAmount
  | .call env (.initiateWithdrawal _ amount) => ∀ config,
    w.storage.config = some config → env.authorised config.admin = true → 0 < amount →
    env.timestamp + timelockDurationSeconds ≤ u64.max
  | _ => True

/-- A run all of whose steps are throttled, after the immediate withdrawals `past`. -/
def Careful (hash : ℕ × A × ℤ × ℕ × ℕ → BitVec 256) (w : TimelockWorld A)
    (past : List (ℕ × ℤ)) : List (Event A contract (Operation A)) → Prop
  | [] => True
  | e :: es => Throttled w past e ∧
      Careful hash (step (invoke hash) w e) (past ++ immediate w e) es

/-! ## The two laws -/

/-- In no window shorter than the delay do the admin's operations move the threshold out
of the contract, nor does everything together when no request that was open before the
window can be executed in it. -/
def WindowLaw (hash : ℕ × A × ℤ × ℕ × ℕ → BitVec 256) (w₀ : TimelockWorld A)
    (es : List (Event A contract (Operation A))) : Prop :=
  ∀ before window after, es = before ++ window ++ after → ∀ start finish : ℕ,
    finish < start + timelockDurationSeconds →
    (∀ e ∈ window, ∀ t ∈ e.timestamp, start ≤ t ∧ t ≤ finish) →
    let w := run (invoke hash) w₀ before
    ∀ config, (run (invoke hash) w window).storage.config = some config →
      leaving contract (madeBy hash adminOnly w window) < config.minTimelockAmount ∧
      ((∀ id r, request w id = some r → r.status = .pending → finish < r.executableAt) →
        leaving contract (madeBy hash (fun _ => true) w window) < config.minTimelockAmount)

/-- Every transfer of the threshold or more pays a request that was initiated at least 48
hours earlier. -/
def DelayLaw (hash : ℕ × A × ℤ × ℕ × ℕ → BitVec 256) (w₀ : TimelockWorld A)
    (es : List (Event A contract (Operation A))) : Prop :=
  ∀ before e after, es = before ++ e :: after → ∀ config,
    (run (invoke hash) w₀ before).storage.config = some config →
    ∀ t ∈ made hash (run (invoke hash) w₀ before) e, config.minTimelockAmount ≤ t.amount →
      ∃ env id r, e = .call env (.executeWithdrawal id) ∧
        request (run (invoke hash) w₀ before) id = some r ∧
        t = payment contract config r.recipient r.amount ∧
        ∃ earlier env₀ later,
          before = earlier ++ Event.call env₀ (.initiateWithdrawal r.recipient r.amount) :: later ∧
          request (run (invoke hash) w₀ earlier) id = none ∧
          request (run (invoke hash) w₀ (earlier ++
            [.call env₀ (.initiateWithdrawal r.recipient r.amount)])) id = some r ∧
          env₀.timestamp + timelockDurationSeconds ≤ env.timestamp

/-! ## Open requests and the configuration along a run -/

theorem Effect.config {env : Invocation A contract} {op : Operation A}
    {w w' : TimelockWorld A} (h : Effect hash env op w w') {config : TimelockConfig A}
    (configured : w.storage.config = some config) : w'.storage.config = some config := by
  cases h with
  | initialized admin token amount fresh positive result =>
    rw [fresh] at configured
    cases configured
  | initiated | configured | voted | cancelled | executed | withdrawn | idle =>
    subst_vars
    exact configured

theorem config_step {w : TimelockWorld A} {config : TimelockConfig A}
    (configured : w.storage.config = some config) (e : Event A contract (Operation A)) :
    (step (invoke hash) w e).storage.config = some config := by
  refine step_cases (fun v => v.storage.config = some config) w e configured ?_ ?_
  · rintro move rfl
    exact configured
  · intro env op w' _ h
    exact (invoke_cases h).config configured

theorem threshold_pos : Invariant (@invoke A contract _ hash)
    fun w => ∀ config, w.storage.config = some config → 0 < config.minTimelockAmount where
  outside _ hw _ := hw
  call env op w w' hw h := by
    intro config configured
    cases invoke_cases h with
    | initialized admin token amount fresh positive result =>
      subst result
      cases configured
      exact positive
    | initiated | configured | voted | cancelled | executed | withdrawn | idle =>
      subst_vars
      exact hw config configured

/-- A request open after a call was open before it, or has just been initiated. -/
theorem Effect.opens {env : Invocation A contract} {op : Operation A}
    {w w' : TimelockWorld A} (hw : Consistent w) (h : Effect hash env op w w') {id : ℕ}
    {r : WithdrawalRequest A} (after : request w' id = some r) (pending : r.status = .pending) :
    request w id = some r ∨ (request w id = none ∧ ∃ recipient amount config,
      op = .initiateWithdrawal recipient amount ∧ w.storage.config = some config ∧
        env.authorised config.admin = true ∧ 0 < amount ∧
        r = initiatedRequest env w recipient amount) := by
  cases h with
  | initiated recipient amount called config configured authorised positive result =>
    by_cases hid : id = w.storage.nextIdOr
    · right
      have new : r = initiatedRequest env w recipient amount := by
        simpa [result, request, Storage.getRequests, hid] using after.symm
      refine ⟨?_, recipient, amount, config, called, configured, authorised, positive, new⟩
      by_contra hsome
      obtain ⟨r', hr'⟩ := Option.ne_none_iff_exists'.1 hsome
      have := (hw.named _ r' hr').2
      omega
    · left
      simpa [result, request, Storage.getRequests, Function.update_of_ne hid] using after
  | cancelled id' admin called governance open_ checked enough result =>
    left
    by_cases hid : id = id'
    · have gone : r = { open_ with status := .cancelled } := by
        simpa [result, request, Storage.getRequests, hid] using after.symm
      simp [gone] at pending
    · simpa [result, request, Storage.getRequests, Function.update_of_ne hid] using after
  | executed id' called config configured open_ found open_pending matured payable result =>
    left
    by_cases hid : id = id'
    · have gone : r = { open_ with status := .executed } := by
        simpa [result, request, hid] using after.symm
      simp [gone] at pending
    · simpa [result, request, Function.update_of_ne hid] using after
  | initialized =>
    subst_vars
    cases after
  | configured | voted | withdrawn | idle =>
    subst_vars
    exact .inl after

omit [DecidableEq A] in
theorem initiatedRequest_executableAt {env : Invocation A contract} {w : TimelockWorld A}
    {recipient : A} {amount : ℤ}
    (h : (env.timestamp + timelockDurationSeconds : ℤ) ≤ u64.max) :
    (initiatedRequest env w recipient amount).executableAt =
      env.timestamp + timelockDurationSeconds := by
  simp only [initiatedRequest, IntType.saturatingAdd_of_le h]
  omega

/-! ## Immediate withdrawals along a run -/

/-- The immediate withdrawals of a run, with their times. -/
def withdrawals (hash : ℕ × A × ℤ × ℕ × ℕ → BitVec 256) (w : TimelockWorld A)
    (es : List (Event A contract (Operation A))) : List (ℕ × ℤ) :=
  Runs.collect (step (invoke hash)) immediate w es

/-- The sum of the amounts. -/
def total (ps : List (ℕ × ℤ)) : ℤ := (ps.map (·.2)).sum

theorem careful_append {w : TimelockWorld A} {past : List (ℕ × ℤ)}
    {es fs : List (Event A contract (Operation A))} :
    Careful hash w past (es ++ fs) ↔ Careful hash w past es ∧
      Careful hash (run (invoke hash) w es) (past ++ withdrawals hash w es) fs := by
  induction es generalizing w past with
  | nil => simp [Careful, withdrawals]
  | cons e es ih =>
    simp only [List.cons_append, Careful, ih, withdrawals, Runs.collect_cons, run_cons,
      List.append_assoc, and_assoc]

/-- An immediate withdrawal that succeeds has passed all its checks. -/
theorem immediate_cases (w : TimelockWorld A) (e : Event A contract (Operation A)) :
    immediate w e = [] ∨ ∃ env recipient amount config,
      e = .call env (.withdrawImmediate recipient amount) ∧
      immediate w e = [(env.timestamp, amount)] ∧ w.storage.config = some config ∧
      env.authorised config.admin = true ∧ 0 < amount ∧ amount < config.minTimelockAmount ∧
      Payable env w (payment contract config recipient amount) := by
  cases e with
  | outside move => exact .inl rfl
  | call env op =>
    cases op with
    | withdrawImmediate recipient amount =>
      cases h : withdrawImmediate env recipient amount w with
      | error f => exact .inl (by simp [immediate, h])
      | ok w' =>
        obtain ⟨config, configured, authorised, positive, small, payable, -⟩ :=
          withdrawImmediate_eq_ok.1 h
        exact .inr ⟨env, recipient, amount, config, rfl, by simp [immediate, h], configured,
          authorised, positive, small, payable⟩
    | _ => exact .inl rfl

theorem immediate_pos (w : TimelockWorld A) (e : Event A contract (Operation A)) :
    ∀ p ∈ immediate w e, 0 < p.2 := by
  rcases immediate_cases w e with none | ⟨env, recipient, amount, config, -, some, -, -, hpos, -⟩
  · simp [none]
  · simp [some, hpos]

theorem withdrawals_pos (w : TimelockWorld A) (es : List (Event A contract (Operation A))) :
    ∀ p ∈ withdrawals hash w es, 0 < p.2 := by
  induction es generalizing w with
  | nil => simp [withdrawals]
  | cons e es ih =>
    intro p hp
    rcases List.mem_append.1 hp with hp | hp
    · exact immediate_pos w e p hp
    · exact ih _ p hp

theorem withdrawals_time (w : TimelockWorld A) (es : List (Event A contract (Operation A))) :
    ∀ p ∈ withdrawals hash w es, ∃ e ∈ es, p.1 ∈ e.timestamp := by
  induction es generalizing w with
  | nil => simp [withdrawals]
  | cons e es ih =>
    intro p hp
    rcases List.mem_append.1 hp with hp | hp
    · refine ⟨e, List.mem_cons_self, ?_⟩
      rcases immediate_cases w e with none | ⟨env, recipient, amount, config, rfl, some, -⟩
      · simp [none] at hp
      · rw [some, List.mem_singleton] at hp
        rw [hp]
        rfl
    · obtain ⟨e', he', ht⟩ := ih _ p hp
      exact ⟨e', List.mem_cons_of_mem e he', ht⟩

theorem total_nonneg {ps : List (ℕ × ℤ)} (h : ∀ p ∈ ps, 0 < p.2) : 0 ≤ total ps := by
  refine List.sum_nonneg ?_
  intro x hx
  obtain ⟨p, hp, rfl⟩ := List.mem_map.1 hx
  exact (h p hp).le

/-- Withdrawals within the delay period count in full. -/
theorem total_le_recent {past ps : List (ℕ × ℤ)} {now : ℕ} (hpast : ∀ p ∈ past, 0 < p.2)
    (fresh : ∀ p ∈ ps, now < p.1 + timelockDurationSeconds) :
    total ps ≤ recent (past ++ ps) now := by
  have older : 0 ≤ total (past.filter fun p => now < p.1 + timelockDurationSeconds) :=
    total_nonneg fun p hp => hpast p (List.mem_of_mem_filter hp)
  have whole : (ps.filter fun p => now < p.1 + timelockDurationSeconds) = ps := by
    rw [List.filter_eq_self]
    intro p hp
    exact decide_eq_true (fresh p hp)
  simp only [recent, List.filter_append, List.map_append, List.sum_append, whole]
  simp only [total] at older ⊢
  omega

/-! ## One window -/

/-- In a careful window the last immediate withdrawal accounts for all of them. -/
theorem window_total_lt {w : TimelockWorld A} {past : List (ℕ × ℤ)}
    (hpast : ∀ p ∈ past, 0 < p.2) {start finish : ℕ}
    (short : finish < start + timelockDurationSeconds)
    (es : List (Event A contract (Operation A))) (careful : Careful hash w past es)
    (within : ∀ e ∈ es, ∀ t ∈ e.timestamp, start ≤ t ∧ t ≤ finish) :
    withdrawals hash w es = [] ∨ ∃ config,
      (run (invoke hash) w es).storage.config = some config ∧
        total (withdrawals hash w es) < config.minTimelockAmount := by
  -- The induction removes the last event: the first one has nothing to say about the sum.
  induction es using List.reverseRecOn with
  | nil => exact .inl rfl
  | append_singleton es e ih =>
    obtain ⟨before, throttled, -⟩ := careful_append.1 careful
    have split : withdrawals hash w (es ++ [e]) =
        withdrawals hash w es ++ immediate (run (invoke hash) w es) e := Runs.collect_concat ..
    have next : run (invoke hash) w (es ++ [e]) =
        step (invoke hash) (run (invoke hash) w es) e := run_append ..
    rw [split, next]
    rcases immediate_cases (run (invoke hash) w es) e with none |
      ⟨env, recipient, amount, config, rfl, some, configured, authorised, positive, small,
        payable⟩
    · rw [none, List.append_nil]
      rcases ih before (fun e he => within e (List.mem_append_left _ he)) with
        nothing | ⟨config, configured, bound⟩
      · exact .inl nothing
      · exact .inr ⟨config, config_step configured e, bound⟩
    · right
      refine ⟨config, config_step configured _, ?_⟩
      have bound := throttled config configured authorised positive small payable
      have all : total (withdrawals hash w es) ≤
          recent (past ++ withdrawals hash w es) env.timestamp := by
        refine total_le_recent hpast ?_
        intro p hp
        obtain ⟨e', he', ht⟩ := withdrawals_time w es p hp
        have early := within e' (List.mem_append_left _ he') p.1 ht
        have now := within (.call env (.withdrawImmediate recipient amount)) (by simp)
          env.timestamp rfl
        omega
      simp only [some, total, List.map_append, List.sum_append, List.map_cons, List.map_nil,
        List.sum_singleton] at all ⊢
      omega

/-- What one event moves out of the contract is at most what it withdraws immediately,
unless it executes a matured request. -/
theorem leaving_made_le (w : TimelockWorld A) (e : Event A contract (Operation A))
    (waiting : ∀ env id r, e = .call env (.executeWithdrawal id) → request w id = some r →
      r.status = .pending → env.timestamp < r.executableAt) :
    leaving contract (made hash w e) ≤ total (immediate w e) := by
  obtain ⟨ts, outflow, transfers⟩ := @outflow_of_step A _ contract hash w e
  have exactly_ts : made hash w e = ts := by simp [made, transfers]
  rw [exactly_ts]
  cases outflow with
  | none => exact total_nonneg (immediate_pos w e)
  | executed env id config r configured found pending matured nonneg =>
    have := waiting env id r rfl found pending
    omega
  | withdrawn env recipient amount config configured authorised positive small payable =>
    have passed : withdrawImmediate env recipient amount w =
        .ok (w.pay (payment contract config recipient amount)) :=
      withdrawImmediate_eq_ok.2 ⟨config, configured, authorised, positive, small, payable, rfl⟩
    simp only [immediate, passed, total, leaving, payment, List.map_cons, List.map_nil,
      List.sum_singleton]
    split_ifs <;> omega

theorem leaving_append (ts us : List (Transfer A)) :
    leaving contract (ts ++ us) = leaving contract ts + leaving contract us := by
  simp [leaving]

theorem leaving_madeBy_le (p : Event A contract (Operation A) → Bool) (w : TimelockWorld A)
    (es : List (Event A contract (Operation A)))
    (waiting : ∀ before e after, es = before ++ e :: after → p e = true → ∀ env id r,
      e = .call env (.executeWithdrawal id) →
      request (run (invoke hash) w before) id = some r → r.status = .pending →
      env.timestamp < r.executableAt) :
    leaving contract (madeBy hash p w es) ≤ total (withdrawals hash w es) := by
  induction es generalizing w with
  | nil => exact le_refl 0
  | cons e es ih =>
    have tail := ih (step (invoke hash) w e) fun before e' after split =>
      waiting (e :: before) e' after (by rw [split]; rfl)
    have head : leaving contract (if p e then made hash w e else []) ≤
        total (immediate w e) := by
      split_ifs with hp
      · exact leaving_made_le w e (waiting [] e es rfl hp)
      · exact total_nonneg (immediate_pos w e)
    simp only [madeBy, withdrawals, Runs.collect_cons, leaving_append, total, List.map_append,
      List.sum_append] at head tail ⊢
    omega

/-- Where an open request came from: it was open at the start, or a call of the run
initiated it and nothing has touched it since. -/
theorem open_of_run {w : TimelockWorld A} (hw : Consistent w)
    (es : List (Event A contract (Operation A))) {id : ℕ} {r : WithdrawalRequest A}
    (found : request (run (invoke hash) w es) id = some r) (pending : r.status = .pending) :
    request w id = some r ∨ ∃ earlier env recipient amount later config,
      es = earlier ++ Event.call env (.initiateWithdrawal recipient amount) :: later ∧
      request (run (invoke hash) w earlier) id = none ∧
      request (run (invoke hash) w (earlier ++
        [.call env (.initiateWithdrawal recipient amount)])) id = some r ∧
      (run (invoke hash) w earlier).storage.config = some config ∧
      env.authorised config.admin = true ∧ 0 < amount ∧
      r = initiatedRequest env (run (invoke hash) w earlier) recipient amount := by
  by_cases start : request w id = some r
  · exact .inl start
  · right
    obtain ⟨earlier, e, later, split, before, after⟩ :=
      Runs.exists_first (fun v => request v id = some r) es start found
    change request (step (invoke hash) (run (invoke hash) w earlier) e) id = some r at after
    have consistent : Consistent (run (invoke hash) w earlier) :=
      consistent_invariant.run hw earlier
    have opened := step_cases (fun v => request v id = some r →
      ∃ env recipient amount config, e = .call env (.initiateWithdrawal recipient amount) ∧
        request (run (invoke hash) w earlier) id = none ∧
        (run (invoke hash) w earlier).storage.config = some config ∧
        env.authorised config.admin = true ∧ 0 < amount ∧
        r = initiatedRequest env (run (invoke hash) w earlier) recipient amount)
      (run (invoke hash) w earlier) e (fun h => absurd h before)
      (fun move he h => absurd (by rw [he] at h; exact h) before) ?_ after
    · obtain ⟨env, recipient, amount, config, rfl, unused, configured, authorised, positive,
        new⟩ := opened
      refine ⟨earlier, env, recipient, amount, later, config, split, unused, ?_, configured,
        authorised, positive, new⟩
      rw [run_append]
      exact after
    · rintro env op w' rfl hcall h
      rcases (invoke_cases hcall).opens consistent h pending with same |
        ⟨unused, recipient, amount, config, rfl, configured, authorised, positive, new⟩
      · exact absurd same before
      · exact ⟨env, recipient, amount, config, rfl, unused, configured, authorised, positive,
          new⟩

/-- In a careful run the delay of a request initiated in it is never cut short. -/
theorem Careful.delay {w : TimelockWorld A} {past : List (ℕ × ℤ)}
    {earlier later : List (Event A contract (Operation A))} {env : Invocation A contract}
    {recipient : A} {amount : ℤ} {config : TimelockConfig A}
    (careful : Careful hash w past
      (earlier ++ Event.call env (.initiateWithdrawal recipient amount) :: later))
    (configured : (run (invoke hash) w earlier).storage.config = some config)
    (authorised : env.authorised config.admin = true) (positive : 0 < amount) :
    (initiatedRequest env (run (invoke hash) w earlier) recipient amount).executableAt =
      env.timestamp + timelockDurationSeconds :=
  initiatedRequest_executableAt
    ((careful_append.1 careful).2.1 config configured authorised positive)

theorem window_law {w₀ : TimelockWorld A} (start₀ : Consistent w₀)
    (positive : ∀ config, w₀.storage.config = some config → 0 < config.minTimelockAmount)
    {es : List (Event A contract (Operation A))} (careful : Careful hash w₀ [] es) :
    WindowLaw hash w₀ es := by
  rintro before window after rfl start finish short within w config configured
  have consistent : Consistent w := consistent_invariant.run start₀ before
  have careful_window : Careful hash w ([] ++ withdrawals hash w₀ before) window :=
    (careful_append.1 (careful_append.1 careful).1).2
  have bound : total (withdrawals hash w window) < config.minTimelockAmount := by
    rcases window_total_lt (withdrawals_pos w₀ before) short window careful_window within with
      nothing | ⟨config', configured', bound⟩
    · rw [nothing]
      exact threshold_pos.run (threshold_pos.run positive before) window config configured
    · obtain rfl : config' = config := Option.some.inj (configured'.symm.trans configured)
      exact bound
  constructor
  · refine lt_of_le_of_lt (leaving_madeBy_le adminOnly w window ?_) bound
    rintro mid e rest - admin env id r rfl
    cases admin
  · intro none_matures
    refine lt_of_le_of_lt (leaving_madeBy_le _ w window ?_) bound
    rintro mid e rest rfl - env id r rfl found pending
    have now := within (.call env (.executeWithdrawal id)) (by simp) env.timestamp rfl
    rcases open_of_run consistent mid found pending with old |
      ⟨earlier, env₀, recipient, amount, later, config₀, rfl, -, -, configured₀, authorised,
        hpos, rfl⟩
    · have := none_matures id r old pending
      omega
    · have since := within (.call env₀ (.initiateWithdrawal recipient amount)) (by simp)
        env₀.timestamp rfl
      have delay := (careful_append.1 careful_window).1.delay configured₀ authorised hpos
      omega

theorem delay_law {w₀ : TimelockWorld A} (start₀ : Consistent w₀)
    (empty : ∀ id, request w₀ id = none) {es : List (Event A contract (Operation A))}
    (careful : Careful hash w₀ [] es) : DelayLaw hash w₀ es := by
  rintro before e after rfl config configured t ht large
  obtain ⟨ts, outflow, transfers⟩ :=
    @outflow_of_step A _ contract hash (run (invoke hash) w₀ before) e
  have exactly_ts : made hash (run (invoke hash) w₀ before) e = ts := by
    simp [made, transfers]
  rw [exactly_ts] at ht
  cases outflow with
  | none => cases ht
  | withdrawn env recipient amount config' configured' authorised positive small payable =>
    obtain rfl : config' = config := Option.some.inj (configured'.symm.trans configured)
    rw [List.mem_singleton] at ht
    subst ht
    exact absurd large (not_le.2 small)
  | executed env id config' r configured' found pending matured nonneg =>
    obtain rfl : config' = config := Option.some.inj (configured'.symm.trans configured)
    rcases open_of_run start₀ before found pending with old |
      ⟨earlier, env₀, recipient, amount, later, config₀, rfl, unused, stored, configured₀,
        authorised, hpos, rfl⟩
    · rw [empty id] at old
      cases old
    · have delay := (careful_append.1 careful).1.delay configured₀ authorised hpos
      refine ⟨env, id, _, rfl, found, List.mem_singleton.1 ht, earlier, env₀, later, rfl,
        unused, stored, ?_⟩
      rw [delay] at matured
      exact matured

/-- In every run whose steps are all throttled, no short window drains the threshold and
every large transfer has waited 48 hours. -/
theorem drain_protected (hash : ℕ × A × ℤ × ℕ × ℕ → BitVec 256) (balances : A → A → ℤ)
    (es : List (Event A contract (Operation A)))
    (careful : Careful hash (deployed balances) [] es) :
    WindowLaw hash (deployed balances) es ∧ DelayLaw hash (deployed balances) es :=
  ⟨window_law (deployed_consistent balances) (by rintro config ⟨⟩) careful,
    delay_law (deployed_consistent balances) (fun _ => rfl) careful⟩

section Examples

/-- The admin, address 1, at second 1000; every other call parameter is permissive. -/
def byAdmin : Invocation ℕ 0 := ⟨1000, 0, (· == 1), rfl, fun _ => true⟩

/-- A threshold of 10 units and two immediate withdrawals in the same second. -/
def twoWithdrawals (first second : ℤ) : List (Event ℕ 0 (Operation ℕ)) :=
  [.call byAdmin (.initializeTimelock 1 9 10), .call byAdmin (.withdrawImmediate 2 first),
    .call byAdmin (.withdrawImmediate 2 second)]

/-- After 4 units, 5 more are below the threshold together with them. -/
theorem drain_protected_twice :
    WindowLaw (fun _ => 0) (deployed fun _ _ => 100) (twoWithdrawals 4 5) ∧
      DelayLaw (fun _ => 0) (deployed fun _ _ => 100) (twoWithdrawals 4 5) := by
  refine drain_protected (fun _ => 0) (fun _ _ => 100) (twoWithdrawals 4 5)
    ⟨trivial, ?_, ?_, trivial⟩
  · rintro config ⟨⟩ - - - -
    decide
  · rintro config ⟨⟩ - - - -
    decide

/-- After 9 units, a withdrawal of 9 passes the same check, and 18 units have left a contract
with a threshold of 10. -/
theorem drained_in_two_withdrawals :
    ¬ ∀ es : List (Event ℕ 0 (Operation ℕ)),
      WindowLaw (fun _ => 0) (deployed fun _ _ => 100) es ∧
        DelayLaw (fun _ => 0) (deployed fun _ _ => 100) es := by
  intro law
  have window := (law (twoWithdrawals 9 9)).1 [] (twoWithdrawals 9 9) [] rfl 1000 1000
    (by decide) ?_
  · have := (window _ rfl).1
    revert this
    decide
  · simp [twoWithdrawals, Event.timestamp, byAdmin]

end Examples

end MobileMoney.Timelock
