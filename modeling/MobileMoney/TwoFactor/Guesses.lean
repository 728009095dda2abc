import MobileMoney.Library.Budget
import MobileMoney.TwoFactor.Program

/-!
# How many codes can be guessed

The check of the lock, the evaluation of a code and the counting of a failure are accesses of their
own, and a code is evaluated on the count that was read before. As long as that count covers the
wrong codes of the last window and no lock has begun since, five wrong codes are evaluated in a
window at most; the lock lasts as long as nothing shortens the life of its counter.
-/

namespace MobileMoney.TwoFactor

open Interleaving

variable {I K C H ι : Type}

/-! ## The law -/

def State.wrongTimes (s : State I K C H) : List ℕ :=
  (s.evaluations.filter fun e => e.correct = false).map (·.time)

/-- At most five wrong codes in a window of a quarter of an hour, and none in a lock. -/
structure GuessLaw (s : State I K C H) : Prop where
  bounded : Sliding.Bounded failureWindow maxAttempts s.wrongTimes
  unlocked : ∀ e ∈ s.evaluations, e.locked = false

/-! ## The condition -/

/-- The count that was read covers the wrong codes of the last window, and no lock has begun. -/
def Fresh (s : State I K C H) (read : ℕ) : Prop :=
  Sliding.recent failureWindow s.now s.wrongTimes ≤ read ∧ attempts s.counter s.now < maxAttempts

/-- The life of a counter that locks is not over before the lock is. -/
def Outlives (s : State I K C H) (time : ℕ) : Prop :=
  ∀ counter ∈ s.counter, maxAttempts ≤ counter.attempts →
    ∀ e ∈ counter.expiresAt, time < e ∨ s.lockedUntil ≤ e

/-- A code is evaluated on a fresh count, a success does not remove a lock, and the counter of a
lock outlives it. -/
def Careful (input : Input I K C H) (s : State I K C H) (phase : Phase I K C H) : Prop :=
  match input, phase with
  | .elapse ms, _ => Outlives s (s.now + ms)
  | .compute, .verifying _ _ read => Fresh s read
  | .compute, .comparing _ _ _ read => Fresh s read
  | .redis true answer, .resetting _ _ => answer.executed → attempts s.counter s.now < maxAttempts
  | _, _ => True

instance (s : State I K C H) (read : ℕ) : Decidable (Fresh s read) :=
  inferInstanceAs (Decidable (_ ∧ _))

instance (s : State I K C H) (time : ℕ) : Decidable (Outlives s time) :=
  inferInstanceAs (Decidable (∀ counter ∈ s.counter, maxAttempts ≤ counter.attempts →
    ∀ e ∈ counter.expiresAt, time < e ∨ s.lockedUntil ≤ e))

instance (input : Input I K C H) (s : State I K C H) (phase : Phase I K C H) :
    Decidable (Careful input s phase) := by
  unfold Careful
  split <;> infer_instance

/-! ## The counter and the lock -/

/-- While a lock lasts its counter is there. -/
def Locking (s : State I K C H) : Prop :=
  s.now < s.lockedUntil → ∃ counter, found s.counter s.now = some counter ∧
    maxAttempts ≤ counter.attempts

theorem found_eq_some {cell : Option Counter} {now : ℕ} {counter : Counter} :
    found cell now = some counter ↔ cell = some counter ∧ counter.Live now := by
  simp [found, Option.filter_eq_some_iff]

theorem attempts_of_found {cell : Option Counter} {now : ℕ} {counter : Counter}
    (h : found cell now = some counter) : attempts cell now = counter.attempts := by
  simp [attempts, h]

theorem attempts_incr (cell : Option Counter) (now : ℕ) :
    (incr cell now).attempts = attempts cell now + 1 := by
  unfold incr attempts
  cases found cell now <;> rfl

theorem live_incr (cell : Option Counter) (now : ℕ) : (incr cell now).Live now := by
  unfold incr
  cases h : found cell now with
  | none => exact nofun
  | some counter => exact (found_eq_some.1 h).2

/-- Few failures, no lock. -/
theorem Locking.of_few {s : State I K C H} (h : Locking s)
    (few : attempts s.counter s.now < maxAttempts) : s.lockedUntil ≤ s.now := by
  by_contra hlocked
  obtain ⟨counter, hfound, hmany⟩ := h (not_le.1 hlocked)
  rw [attempts_of_found hfound] at few
  omega

/-- The law, the counter of the lock, and evaluations in the past. -/
structure Guarded (s : State I K C H) : Prop where
  law : GuessLaw s
  locking : Locking s
  past : ∀ e ∈ s.evaluations, e.time ≤ s.now

variable {s s' : State I K C H}

/-- The counter and the evaluations are all that matters. -/
theorem Guarded.congr (h : Guarded s) (now : s'.now = s.now) (counter : s'.counter = s.counter)
    (evaluations : s'.evaluations = s.evaluations) (lockedUntil : s'.lockedUntil = s.lockedUntil) :
    Guarded s' := by
  refine ⟨⟨?_, ?_⟩, ?_, ?_⟩
  · rw [State.wrongTimes, evaluations]
    exact h.law.bounded
  · rw [evaluations]
    exact h.law.unlocked
  · rw [Locking, now, counter, lockedUntil]
    exact h.locking
  · rw [evaluations, now]
    exact h.past

theorem Guarded.elapse (h : Guarded s) {ms : ℕ} (outlives : Outlives s (s.now + ms)) :
    Guarded ({ s with now := s.now + ms } : State I K C H) := by
  refine ⟨⟨h.law.bounded, h.law.unlocked⟩, ?_,
    fun e he => (h.past e he).trans (Nat.le_add_right _ _)⟩
  intro hlocked
  have before : s.now + ms < s.lockedUntil := hlocked
  obtain ⟨counter, hfound, hmany⟩ := h.locking (by omega)
  obtain ⟨hcell, -⟩ := found_eq_some.1 hfound
  refine ⟨counter, found_eq_some.2 ⟨hcell, ?_⟩, hmany⟩
  intro e he
  show s.now + ms < e
  have := outlives counter hcell hmany e he
  omega

/-- A fresh count below five leaves room for one more wrong code. -/
theorem Guarded.evaluate (h : Guarded s) {read : ℕ} (fresh : Fresh s read)
    (few : read < maxAttempts) (correct : Bool) : Guarded (s.evaluate correct) := by
  have unlocked := h.locking.of_few fresh.2
  refine ⟨⟨?_, ?_⟩, h.locking, ?_⟩
  · cases correct with
    | true =>
      have same : (s.evaluate true).wrongTimes = s.wrongTimes := by
        simp [State.wrongTimes, State.evaluate]
      rw [same]
      exact h.law.bounded
    | false =>
      have more : (s.evaluate false).wrongTimes = s.wrongTimes ++ [s.now] := by
        simp [State.wrongTimes, State.evaluate]
      rw [more]
      exact Sliding.bounded_concat (fresh.1.trans_lt few) h.law.bounded
  · intro e he
    rcases List.mem_append.1 he with he | he
    · exact h.law.unlocked e he
    · rw [List.mem_singleton.1 he]
      exact decide_eq_false (not_lt.2 unlocked)
  · intro e he
    rcases List.mem_append.1 he with he | he
    · exact h.past e he
    · rw [List.mem_singleton.1 he]
      exact le_rfl

/-- The fifth failure begins a lock, and the counter is there to keep it. -/
theorem Guarded.incr (h : Guarded s) : Guarded s.incr := by
  refine ⟨⟨h.law.bounded, h.law.unlocked⟩, ?_, h.past⟩
  intro hlocked
  refine ⟨TwoFactor.incr s.counter s.now, found_eq_some.2 ⟨rfl, live_incr _ _⟩, ?_⟩
  rw [attempts_incr]
  by_cases hfifth : attempts s.counter s.now + 1 = maxAttempts
  · exact hfifth.ge
  · have before : s.now < s.lockedUntil := by
      simpa only [State.incr, attempts_incr, if_neg hfifth] using hlocked
    obtain ⟨counter, hfound, hmany⟩ := h.locking before
    rw [attempts_of_found hfound]
    omega

theorem Guarded.expire (h : Guarded s) {ms : ℕ} (hms : 0 < ms) : Guarded (s.expire ms) := by
  refine ⟨⟨h.law.bounded, h.law.unlocked⟩, ?_, h.past⟩
  intro hlocked
  obtain ⟨counter, hfound, hmany⟩ := h.locking hlocked
  refine ⟨{ counter with expiresAt := some (s.now + ms) }, found_eq_some.2 ⟨?_, ?_⟩, hmany⟩
  · rw [State.expire, TwoFactor.expire, hfound, Option.map_some]
  · intro e he
    obtain rfl := Option.some.inj he
    show s.now < s.now + ms
    omega

theorem Guarded.delete (h : Guarded s) (few : attempts s.counter s.now < maxAttempts) :
    Guarded ({ s with counter := none } : State I K C H) := by
  refine ⟨⟨h.law.bounded, h.law.unlocked⟩, ?_, h.past⟩
  intro hlocked
  have unlocked := h.locking.of_few few
  exact absurd hlocked (not_lt.2 unlocked)

/-! ## One turn -/

/-- Only a count below the limit lets a request pass the check of the lock. -/
def Phase.Passed : Phase I K C H → Prop
  | .verifying _ _ read | .selecting _ _ read | .comparing _ _ _ read => read < maxAttempts
  | _ => True

theorem afterToken_passed (request : Request C) {read : ℕ} (h : read < maxAttempts) :
    (afterToken request read : Phase I K C H).Passed := by
  unfold afterToken
  split
  · exact trivial
  · exact h

variable {v : Verifiers K C H}

theorem onRedis_guarded (h : Guarded s) {isOpen : Bool} {answer : DbAnswer} {phase : Phase I K C H}
    (hphase : phase.Passed) (careful : Careful (.redis isOpen answer) s phase) :
    Guarded (onRedis isOpen answer s phase).1 ∧ (onRedis isOpen answer s phase).2.Passed := by
  cases phase with
  | checkingLock secret request =>
    refine ⟨h, ?_⟩
    simp only [onRedis, isLocked]
    split_ifs with hopen hanswer hlocked
    · exact Nat.zero_lt_succ 4
    · exact trivial
    · exact not_le.1 hlocked
    · exact Nat.zero_lt_succ 4
  | measuring =>
    refine ⟨h, ?_⟩
    simp only [onRedis]
    split_ifs <;> exact trivial
  | resetting request method =>
    simp only [onRedis, resetFailures]
    split_ifs with hdeleted
    · obtain ⟨rfl, hexecuted⟩ := hdeleted
      exact ⟨(h.delete (careful hexecuted)).congr rfl rfl rfl rfl, trivial⟩
    · exact ⟨h.congr rfl rfl rfl rfl, trivial⟩
  | counting =>
    simp only [onRedis, incrementFailures]
    split_ifs <;> first | exact ⟨h, trivial⟩ | exact ⟨h.incr, trivial⟩
  | expiring =>
    simp only [onRedis, setExpiry]
    split_ifs <;> first | exact ⟨h, trivial⟩ | exact ⟨h.expire (by decide), trivial⟩
  | locking =>
    simp only [onRedis, setExpiry]
    split_ifs <;> first | exact ⟨h, trivial⟩ | exact ⟨h.expire (by decide), trivial⟩
  | _ => exact ⟨h, hphase⟩

theorem onQuery_guarded [DecidableEq I] (h : Guarded s) {answer : DbAnswer}
    {phase : Phase I K C H} (hphase : phase.Passed) :
    Guarded (onQuery answer s phase).1 ∧ (onQuery answer s phase).2.Passed := by
  cases phase with
  | selecting request code read =>
    refine ⟨h, ?_⟩
    simp only [onQuery]
    split_ifs
    · exact hphase
    · exact trivial
  | comparing request code rows read =>
    refine ⟨h, ?_⟩
    simp only [onQuery]
    split_ifs
    · exact hphase
    · exact trivial
  | spending request id =>
    simp only [onQuery]
    split
    · exact ⟨h, trivial⟩
    · split_ifs <;> first | exact ⟨h, trivial⟩ | exact ⟨h.congr rfl rfl rfl rfl, trivial⟩
  | _ => exact ⟨h, hphase⟩

theorem step_guarded [DecidableEq I] (h : Guarded s) {input : Input I K C H}
    {phase : Phase I K C H} (hphase : phase.Passed) (careful : Careful input s phase) :
    Guarded (step v input s phase).1 ∧ (step v input s phase).2.Passed := by
  cases input with
  | elapse ms => exact ⟨h.elapse careful, hphase⟩
  | setUser user => exact ⟨h.congr rfl rfl rfl rfl, hphase⟩
  | storeBackupCodes codes =>
    refine ⟨?_, hphase⟩
    simp only [step, State.storeBackupCodes]
    split_ifs
    · exact h.congr rfl rfl rfl rfl
    · exact h
  | withdraw request =>
    refine ⟨h, ?_⟩
    simp only [step]
    split_ifs
    · exact trivial
    · exact hphase
  | verify request =>
    refine ⟨h, ?_⟩
    simp only [step]
    split_ifs
    · exact trivial
    · exact hphase
  | lookup source answer =>
    refine ⟨h, ?_⟩
    cases phase with
    | requiring request =>
      simp only [step, requires2FA]
      split_ifs
      · split
        · exact trivial
        · split_ifs <;> exact trivial
      · exact trivial
    | finding request =>
      simp only [step, checkUser]
      split_ifs
      · split
        · exact trivial
        · split
          · exact trivial
          · split_ifs <;> exact trivial
      · exact trivial
    | _ => exact hphase
  | query answer => exact onQuery_guarded h hphase
  | redis isOpen answer => exact onRedis_guarded h hphase careful
  | compute =>
    cases phase with
    | verifying secret request read =>
      simp only [step, tryToken]
      split
      · exact ⟨h, afterToken_passed request hphase⟩
      · refine ⟨h.evaluate careful hphase _, ?_⟩
        dsimp only
        split_ifs
        · exact trivial
        · exact afterToken_passed request hphase
    | comparing request code rows read =>
      simp only [step, tryBackupCode]
      split <;> exact ⟨h.evaluate careful hphase _, trivial⟩
    | _ => exact ⟨h, hphase⟩
  | crash => exact ⟨h, trivial⟩

/-! ## Runs -/

variable [DecidableEq I] [DecidableEq ι]

section Instances

/-- A user with the second factor, whose secret is the only code that counts. -/
def protectedUser : User ℕ := ⟨some 7, true, true, true⟩

def byEquality : Verifiers ℕ ℕ ℕ where
  verifyTOTP secret token _ := token == secret
  compare code hash := code == hash

/-- The turns of a request up to its check of the lock. -/
def arrive (process token : ℕ) : List (ℕ × Input ℕ ℕ ℕ ℕ) :=
  [(process, .verify ⟨some token, none⟩), (process, .lookup .primary .answered),
    (process, .redis true .answered)]

/-- The evaluation of a wrong token and the counting of the failure. -/
def fail (process : ℕ) : List (ℕ × Input ℕ ℕ ℕ ℕ) :=
  [(process, .compute), (process, .redis true .answered)]

def lockedInTurn : List (ℕ × Input ℕ ℕ ℕ ℕ) :=
  (List.range 5).flatMap (fun process =>
    arrive process 1 ++ fail process ++ [(process, Input.redis true .answered)]) ++
  [(0, Input.elapse 1799999)] ++ arrive 5 7 ++ [(5, Input.redis true .answered), (0, .elapse 1)] ++
  arrive 6 7 ++ [(6, Input.compute), (6, .redis true .answered)]

end Instances

end MobileMoney.TwoFactor
