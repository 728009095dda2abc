import Mathlib.Algebra.BigOperators.Group.Finset.Piecewise
import Mathlib.Algebra.Group.Prod
import Mathlib.Algebra.BigOperators.Pi
import MobileMoney.Wallet.Program

/-!
# Wallet updates are not lost

A write goes through only on the version that was read, and a version is never used
twice, so the balance is still the one that was found sufficient. Every write is by one
call, which returns at once; whatever the schedule, the balance is accounted for by the
calls that have returned.
-/

namespace MobileMoney.Wallet

open Binary64 Checked MachineInt Interleaving

variable {ι : Type*}

/-- The amount of a call with its sign, in units. -/
def Call.delta (call : Call) : ℤ :=
  match toWalletAmount call.amount with
  | .ok value => numeric value * call.sign.value
  | .error _ => 0

theorem Call.delta_eq {call : Call} {value : String} (h : toWalletAmount call.amount = .ok value) :
    call.delta = numeric value * call.sign.value := by
  unfold Call.delta
  rw [h]

def Process.succeeded (p : Process) : Bool :=
  match p.phase with
  | .returned _ => true
  | _ => false

/-! ## One query -/

theorem read_eq_ok {key : Key} {row : Option CustomerWallet} {value : String} {sign : Sign}
    {wallet : CustomerWallet} : read key row value sign = .ok wallet ↔
      row = some wallet ∧ 0 ≤ wallet.balance + numeric value * sign.value := by
  simp only [read, bind_eq_ok, orFail_eq_ok, require_eq_ok, pure_eq_ok, exists_const]
  constructor
  · rintro ⟨_, hrow, hsufficient, rfl⟩
    exact ⟨hrow, hsufficient⟩
  · rintro ⟨hrow, hsufficient⟩
    exact ⟨wallet, hrow, hsufficient, rfl⟩

/-- What a successful write has done to the row. -/
structure Written (current written : CustomerWallet) (delta : ℤ) : Prop where
  balance : written.balance = current.balance + delta
  version : written.version = current.version + 1

theorem update_eq_ok {row : Option CustomerWallet} {value : String} {sign : Sign}
    {wallet written : CustomerWallet} (h : update row value sign wallet = .ok (some written)) :
    ∃ current, row = some current ∧ current.version = wallet.version ∧
      Written current written (numeric value * sign.value) := by
  unfold update at h
  split at h
  · cases h
  · next current =>
    split_ifs at h with hmatch
    · simp only [bind_eq_ok, orFail_eq_ok, Decimal.Format.store_eq_some] at h
      obtain ⟨_, ⟨rfl, -⟩, _, hversion, h⟩ := h
      split_ifs at h with hnonneg
      · simp only [pure_eq_ok, Option.some.injEq] at h
        subst h
        exact ⟨current, rfl, hmatch.2, rfl, (IntType.checked_eq_some.1 hversion).1.symm⟩
    · cases h

/-- The check constraint is only violated by a write that goes through. -/
theorem update_eq_checkViolation {row : Option CustomerWallet} {value : String} {sign : Sign}
    {wallet : CustomerWallet} (h : update row value sign wallet = .error .checkViolation) :
    ∃ current, row = some current ∧ current.version = wallet.version ∧
      current.balance + numeric value * sign.value < 0 := by
  unfold update at h
  split at h
  · cases h
  · next current =>
    split_ifs at h with hmatch
    · refine ⟨current, rfl, hmatch.2, ?_⟩
      by_contra hnonneg
      cases hstore : Ledger.amountType.store (current.balance + numeric value * sign.value) with
      | none =>
        rw [hstore] at h
        cases h
      | some balance =>
        obtain ⟨rfl, -⟩ := Decimal.Format.store_eq_some _ |>.1 hstore
        cases hversion : i32.checkedAdd current.version 1 with
        | none =>
          rw [hstore, hversion] at h
          cases h
        | some version =>
          rw [hstore, hversion] at h
          simp only [orFail, bind, Except.bind, dif_pos (not_lt.1 hnonneg)] at h
          cases h

/-- The one write of a call, which returns with it. -/
structure Write (row : Option CustomerWallet) (p : Process) (row' : Option CustomerWallet)
    (p' : Process) (current written : CustomerWallet) : Prop where
  before : row = some current
  after : row' = some written
  updating : ∃ value attempt wallet, p.phase = .updating value attempt wallet ∧
    current.version = wallet.version ∧
    Written current written (numeric value * p.call.sign.value)
  returned : p' = { p with phase := .returned written }

/-- A step is the write of a call, or it leaves the row and what has succeeded alone. -/
theorem step_cases (key : Key) (query : Query) (row : Option CustomerWallet) (p : Process) :
    ((step key query row p).1 = row ∧ (step key query row p).2.succeeded = p.succeeded) ∨
    ∃ current written,
      Write row p (step key query row p).1 (step key query row p).2 current written := by
  obtain ⟨call, phase⟩ := p
  cases phase with
  | called =>
    left
    refine ⟨rfl, ?_⟩
    simp only [step, validate, Process.succeeded]
    cases toWalletAmount call.amount <;> rfl
  | reading value attempt =>
    left
    cases query with
    | failed => exact ⟨rfl, rfl⟩
    | answered =>
      refine ⟨rfl, ?_⟩
      simp only [step, afterRead, Process.succeeded]
      cases read key row value call.sign <;> rfl
  | updating value attempt wallet =>
    cases query with
    | failed => exact .inl ⟨rfl, rfl⟩
    | answered =>
      simp only [step, afterUpdate]
      cases hupdate : update row value call.sign wallet with
      | error e => exact .inl ⟨rfl, rfl⟩
      | ok written =>
        cases written with
        | none =>
          left
          by_cases hretry : attempt < maxAttempts
          · simp [hretry, Process.succeeded]
          · simp [hretry, Process.succeeded]
        | some written =>
          right
          obtain ⟨current, hrow, hversion, hwritten⟩ := update_eq_ok hupdate
          exact ⟨current, written, hrow, rfl, ⟨value, attempt, wallet, rfl, hversion, hwritten⟩,
            rfl⟩
  | returned => exact .inl ⟨rfl, rfl⟩
  | failed => exact .inl ⟨rfl, rfl⟩

/-! ## What holds between the row and a call -/

/-- The row has not changed since a call has read it, unless its version has. -/
def Seen (row : Option CustomerWallet) (wallet : CustomerWallet) : Prop :=
  ∃ current, row = some current ∧ wallet.version ≤ current.version ∧
    (current.version = wallet.version → current.balance = wallet.balance)

/-- A validated amount, a snapshot that is current or outdated, and no broken check. -/
def Consistent (row : Option CustomerWallet) (p : Process) : Prop :=
  match p.phase with
  | .called => True
  | .reading value _ => toWalletAmount p.call.amount = .ok value
  | .updating value _ wallet => toWalletAmount p.call.amount = .ok value ∧
      0 ≤ wallet.balance + numeric value * p.call.sign.value ∧ Seen row wallet
  | .returned _ => ∃ value, toWalletAmount p.call.amount = .ok value
  | .failed e => e ≠ .checkViolation

theorem Seen.written {current written wallet : CustomerWallet} {delta : ℤ}
    (h : Seen (some current) wallet) (hwritten : Written current written delta) :
    Seen (some written) wallet := by
  obtain ⟨_, ⟨⟩, hle, -⟩ := h
  have hversion := hwritten.version
  exact ⟨written, rfl, by omega, by omega⟩

/-- A write by another call only makes a snapshot outdated. -/
theorem consistent_others (key : Key) (query : Query) (row : Option CustomerWallet)
    (p q : Process) (hq : Consistent row q) : Consistent (step key query row p).1 q := by
  rcases step_cases key query row p with ⟨same, -⟩ | ⟨current, written, write⟩
  · rwa [same]
  · obtain ⟨_, _, _, _, _, hwritten⟩ := write.updating
    rw [write.after]
    rw [write.before] at hq
    unfold Consistent at hq ⊢
    cases hphase : q.phase with
    | updating value attempt wallet =>
      simp only [hphase] at hq ⊢
      exact ⟨hq.1, hq.2.1, hq.2.2.written hwritten⟩
    | called => trivial
    | reading | returned | failed =>
      simp only [hphase] at hq ⊢
      exact hq

theorem toWalletAmount_error {amount : Amount} {e : WalletError}
    (h : toWalletAmount amount = .error e) : e = .invalidAmount amount.toText := by
  unfold toWalletAmount at h
  dsimp only at h
  unfold require at h
  split_ifs at h
  · cases h
  · exact (Except.error.inj h).symm

theorem read_error {key : Key} {row : Option CustomerWallet} {value : String} {sign : Sign}
    {e : WalletError} (h : read key row value sign = .error e) : e ≠ .checkViolation := by
  unfold read at h
  cases row with
  | none =>
    cases h
    intro hcheck
    cases hcheck
  | some wallet =>
    by_cases hsufficient : 0 ≤ wallet.balance + numeric value * sign.value
    · simp [orFail, require, hsufficient, bind, Except.bind, pure, Except.pure] at h
    · simp [orFail, require, hsufficient, bind, Except.bind] at h
      rw [← h]
      simp

/-- A call keeps its own part of the invariant: a read leaves a current snapshot, and a
write on a current snapshot cannot make the balance negative. -/
theorem consistent_own (key : Key) (query : Query) (row : Option CustomerWallet) (p : Process)
    (hp : Consistent row p) : Consistent (step key query row p).1 (step key query row p).2 := by
  obtain ⟨call, phase⟩ := p
  cases phase with
  | called =>
    simp only [step, validate, Consistent]
    cases h : toWalletAmount call.amount with
    | ok value => rfl
    | error e =>
      rw [toWalletAmount_error h]
      simp
  | reading value attempt =>
    cases query with
    | failed => simp [step, Consistent]
    | answered =>
      simp only [step, afterRead, Consistent] at hp ⊢
      cases h : read key row value call.sign with
      | error e => exact read_error h
      | ok wallet =>
        obtain ⟨hrow, hsufficient⟩ := read_eq_ok.1 h
        exact ⟨hp, hsufficient, wallet, hrow, le_rfl, fun _ => rfl⟩
  | updating value attempt wallet =>
    cases query with
    | failed => simp [step, Consistent]
    | answered =>
      simp only [Consistent] at hp
      obtain ⟨hvalue, hsufficient, current, hrow, -, hsame⟩ := hp
      simp only [step, afterUpdate]
      cases h : update row value call.sign wallet with
      | error e =>
        simp only [Consistent]
        rintro rfl
        obtain ⟨current', hrow', hversion, hnegative⟩ := update_eq_checkViolation h
        rw [hrow, Option.some.injEq] at hrow'
        subst hrow'
        have hbalance := hsame hversion
        omega
      | ok written =>
        cases written with
        | some written => exact ⟨value, hvalue⟩
        | none =>
          by_cases hretry : attempt < maxAttempts
          · simpa [hretry, Consistent] using hvalue
          · simp [hretry, Consistent]
  | returned => exact hp
  | failed => exact hp

/-! ## Every schedule -/

def start (wallet : CustomerWallet) (calls : ι → Call) : World (Option CustomerWallet) ι Process :=
  ⟨some wallet, fun i => { call := calls i, phase := .called }⟩

theorem consistent_start (wallet : CustomerWallet) (calls : ι → Call) :
    Holds (fun _ => True) Consistent (start wallet calls) := ⟨trivial, fun _ => trivial⟩

theorem step_call (key : Key) (query : Query) (row : Option CustomerWallet) (p : Process) :
    (step key query row p).2.call = p.call := by
  unfold step
  split <;> rfl

theorem step_succeeded (key : Key) (query : Query) (row : Option CustomerWallet) (p : Process)
    (h : p.succeeded = true) : step key query row p = (row, p) := by
  unfold Process.succeeded at h
  split at h
  · next wallet hphase =>
    unfold step
    rw [hphase]
  · cases h

/-- Balance and version of the row. -/
def measure (row : Option CustomerWallet) : ℤ × ℤ :=
  row.elim 0 fun wallet => (wallet.balance, wallet.version)

/-- What a call has added to them. -/
def contribution (p : Process) : ℤ × ℤ := if p.succeeded then (p.call.delta, 1) else 0

theorem step_accounts (key : Key) (query : Query) (row : Option CustomerWallet) (p : Process)
    (hp : Consistent row p) :
    measure (step key query row p).1 + contribution p =
      measure row + contribution (step key query row p).2 := by
  rcases step_cases key query row p with ⟨same, hsucceeded⟩ | ⟨current, written, write⟩
  · unfold contribution
    rw [same, hsucceeded, step_call]
  · obtain ⟨value, attempt, wallet, hphase, -, hwritten⟩ := write.updating
    have hdelta : p.call.delta = numeric value * p.call.sign.value := by
      simp only [Consistent, hphase] at hp
      exact Call.delta_eq hp.1
    have hbefore : p.succeeded = false := by simp [Process.succeeded, hphase]
    have hafter : (step key query row p).2.succeeded = true := by
      rw [write.returned]
      rfl
    unfold contribution
    rw [hbefore, hafter, step_call, write.after, write.before, hdelta]
    simp [measure, hwritten.balance, hwritten.version]

variable [DecidableEq ι]

theorem consistent_advance (key : Key) {w : World (Option CustomerWallet) ι Process}
    {turn : ι × Query} (h : Holds (fun _ => True) Consistent w) :
    Holds (fun _ => True) Consistent (advance (step key) w turn) :=
  holds_advance h ⟨trivial, consistent_own key _ _ _ (h.2 _)⟩
    fun q hq => consistent_others key _ _ _ q hq

theorem consistent_run (key : Key) (wallet : CustomerWallet) (calls : ι → Call)
    (schedule : List (ι × Query)) :
    Holds (fun _ => True) Consistent (run (step key) (start wallet calls) schedule) :=
  Runs.inv_foldl (Holds (fun _ => True) Consistent) (fun _ _ h => consistent_advance key h)
    (consistent_start wallet calls) schedule

theorem call_run (key : Key) (wallet : CustomerWallet) (calls : ι → Call)
    (schedule : List (ι × Query)) (i : ι) :
    ((run (step key) (start wallet calls) schedule).locals i).call = calls i :=
  locals_run _ (fun p => p.call = calls i)
    (fun query row p h => (step_call key query row p).trans h) rfl schedule

/-- The row is never removed. -/
theorem exists_row (key : Key) (wallet : CustomerWallet) (calls : ι → Call)
    (schedule : List (ι × Query)) :
    ∃ final, (run (step key) (start wallet calls) schedule).shared = some final := by
  have h := holds_run (step key) (fun row => ∃ final, row = some final) (fun _ _ => True)
    (fun query row p hrow _ => ?_) (fun _ _ _ _ _ _ _ => trivial)
    (w := start wallet calls) ⟨⟨wallet, rfl⟩, fun _ => trivial⟩ schedule
  · exact h.1
  · refine ⟨?_, trivial⟩
    rcases step_cases key query row p with ⟨same, -⟩ | ⟨current, written, write⟩
    · rwa [same]
    · exact ⟨written, write.after⟩

/-- A step of a call that does not succeed in the end has not changed the row. -/
theorem unchanged_of_not_succeeded (key : Key) (wallet : CustomerWallet) (calls : ι → Call)
    (pre post : List (ι × Query)) (i : ι) (query : Query)
    (h : ((run (step key) (start wallet calls) (pre ++ (i, query) :: post)).locals i).succeeded =
      false) :
    (run (step key) (start wallet calls) (pre ++ [(i, query)])).shared =
      (run (step key) (start wallet calls) pre).shared := by
  rw [run_append, run_cons] at h
  rw [run_append, run_cons, run_nil, advance_shared]
  rcases step_cases key query (run (step key) (start wallet calls) pre).shared
    ((run (step key) (start wallet calls) pre).locals i) with ⟨same, -⟩ | ⟨current, written, write⟩
  · exact same
  · have hkept := locals_run (step key) (fun p => p.succeeded = true) (i := i)
      (fun query row p hp => by rw [step_succeeded key query row p hp]; exact hp)
      (w := advance (step key) (run (step key) (start wallet calls) pre) (i, query))
      (by rw [advance_self, write.returned]; rfl) post
    rw [h] at hkept
    cases hkept

/-! ## Bounded retries -/

/-- Queries a call has left at most. -/
def Phase.remaining : Phase → ℕ
  | .called => 2 * maxAttempts + 1
  | .reading _ attempt => 2 * (maxAttempts + 1 - attempt)
  | .updating _ attempt _ => 2 * (maxAttempts + 1 - attempt) - 1
  | .returned _ | .failed _ => 0

def Phase.attemptBounded : Phase → Prop
  | .reading _ attempt | .updating _ attempt _ => attempt ≤ maxAttempts
  | _ => True

theorem step_remaining (key : Key) (query : Query) (row : Option CustomerWallet) (p : Process)
    (hp : p.phase.attemptBounded) : (step key query row p).2.phase.attemptBounded ∧
      (step key query row p).2.phase.remaining ≤ p.phase.remaining - 1 := by
  obtain ⟨call, phase⟩ := p
  cases phase with
  | called =>
    simp only [step, validate]
    cases toWalletAmount call.amount <;>
      simp [Phase.attemptBounded, Phase.remaining, maxAttempts]
  | reading value attempt =>
    cases query with
    | failed => simp [step, Phase.attemptBounded, Phase.remaining]
    | answered =>
      simp only [step, afterRead]
      cases read key row value call.sign with
      | error e => simp [Phase.attemptBounded, Phase.remaining]
      | ok wallet => exact ⟨hp, le_rfl⟩
  | updating value attempt wallet =>
    cases query with
    | failed => simp [step, Phase.attemptBounded, Phase.remaining]
    | answered =>
      simp only [step, afterUpdate]
      rcases update row value call.sign wallet with e | (_ | written)
      · simp [Phase.attemptBounded, Phase.remaining]
      · by_cases hretry : attempt < maxAttempts
        · simp only [if_pos hretry, Phase.attemptBounded, Phase.remaining]
          omega
        · simp [hretry, Phase.attemptBounded, Phase.remaining]
      · simp [Phase.attemptBounded, Phase.remaining]
  | returned => exact ⟨hp, Nat.zero_le _⟩
  | failed => exact ⟨hp, Nat.zero_le _⟩

/-- After nine turns a call has returned or failed, whatever the others do. -/
theorem finished_of_turns (key : Key) (wallet : CustomerWallet) (calls : ι → Call)
    (schedule : List (ι × Query)) (i : ι)
    (h : 2 * maxAttempts + 1 ≤ schedule.countP (·.1 = i)) :
    ((run (step key) (start wallet calls) schedule).locals i).phase.remaining = 0 := by
  have general : ∀ (schedule : List (ι × Query)) (w : World (Option CustomerWallet) ι Process),
      (w.locals i).phase.attemptBounded →
      ((run (step key) w schedule).locals i).phase.remaining ≤
        (w.locals i).phase.remaining - schedule.countP (·.1 = i) := by
    intro schedule
    induction schedule with
    | nil =>
      intro w _
      exact Nat.le_refl _
    | cons turn schedule ih =>
      intro w hw
      obtain ⟨j, query⟩ := turn
      rw [run_cons]
      by_cases hj : j = i
      · subst hj
        obtain ⟨hbounded, hless⟩ := step_remaining key query w.shared (w.locals j) hw
        have hrest := ih (advance (step key) w (j, query)) (by rwa [advance_self])
        rw [advance_self] at hrest
        rw [List.countP_cons_of_pos (by simp)]
        omega
      · have hsame := advance_other (step key) w query (Ne.symm hj)
        have hrest := ih (advance (step key) w (j, query)) (by rwa [hsame])
        rw [hsame] at hrest
        rwa [List.countP_cons_of_neg (by simpa using hj)]
  have hbound := general schedule (start wallet calls) trivial
  have hstart : ((start wallet calls).locals i).phase.remaining = 2 * maxAttempts + 1 := rfl
  omega

/-- Whatever the schedule of any number of calls on a wallet, its balance is the initial
one with the deltas of the calls that have succeeded, its version has grown by their
number, the check constraint is never violated, and a call that has failed has changed
nothing in any of its steps. -/
theorem wallet_updates_not_lost [Fintype ι] (key : Key) (wallet : CustomerWallet)
    (calls : ι → Call) (schedule : List (ι × Query)) :
    let w := run (step key) (start wallet calls) schedule
    ∃ final, w.shared = some final ∧
      final.balance = wallet.balance + ∑ i with (w.locals i).succeeded, (calls i).delta ∧
      final.version = wallet.version + (Finset.univ.filter fun i => (w.locals i).succeeded).card ∧
      0 ≤ final.balance ∧
      ∀ i e, (w.locals i).phase = .failed e → e ≠ .checkViolation ∧
        ∀ pre query post, schedule = pre ++ (i, query) :: post →
          (run (step key) (start wallet calls) (pre ++ [(i, query)])).shared =
            (run (step key) (start wallet calls) pre).shared := by
  intro w
  obtain ⟨final, hfinal⟩ := exists_row key wallet calls schedule
  have hsum := sum_run (step key) (Holds (fun _ => True) Consistent)
    (fun _ _ h => consistent_advance key h) measure contribution
    (fun w i query h => step_accounts key query w.shared (w.locals i) (h.2 i))
    (consistent_start wallet calls) schedule
  have hzero : ∑ i, contribution ((start wallet calls).locals i) = 0 :=
    Finset.sum_eq_zero fun _ _ => rfl
  have hparts : ∀ i, contribution (w.locals i) =
      if (w.locals i).succeeded then ((calls i).delta, 1) else 0 := by
    intro i
    unfold contribution
    rw [call_run]
  rw [hzero, add_zero, hfinal, Finset.sum_congr rfl fun i _ => hparts i] at hsum
  have hbalance := congrArg Prod.fst hsum
  have hversion := congrArg Prod.snd hsum
  refine ⟨final, hfinal, ?_, ?_, final.nonneg, ?_⟩
  · rw [Finset.sum_filter]
    simpa [measure, start, Prod.fst_sum, apply_ite Prod.fst] using hbalance
  · rw [Finset.card_filter]
    simpa [measure, start, Prod.snd_sum, apply_ite Prod.snd] using hversion
  · intro i e hfailed
    have hconsistent := (consistent_run key wallet calls schedule).2 i
    refine ⟨?_, ?_⟩
    · unfold Consistent at hconsistent
      rw [hfailed] at hconsistent
      exact hconsistent
    · rintro pre query post rfl
      exact unchanged_of_not_succeeded key wallet calls pre post i query
        (by simp [Process.succeeded, w, hfailed])

end MobileMoney.Wallet
