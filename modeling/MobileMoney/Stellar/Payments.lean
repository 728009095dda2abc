import Mathlib.Data.List.Forall2
import MobileMoney.Stellar.Pool

/-!
# How often one submission is paid

A transaction that has been submitted is open until the network has paid or rejected it. An
answer with a result closes it; after any other error it stays open, and the next attempt opens
another one.
-/

namespace MobileMoney.Stellar

variable {K : Type}

/-! ## Open transactions -/

/-- It has been paid or may still be. -/
def Tx.open (tx : Tx K) : Bool := tx.fate = .pending ∨ tx.fate = .paid

def World.openCount (world : World K) : ℕ := world.sent.countP Tx.open

/-- Only a pending transaction changes. -/
def Evolves (tx tx' : Tx K) : Prop := tx.fate ≠ .pending → tx' = tx

theorem Evolves.refl (tx : Tx K) : Evolves tx tx := fun _ => rfl

theorem Evolves.open {tx tx' : Tx K} (h : Evolves tx tx') (hopen : tx'.open = true) :
    tx.open = true := by
  by_cases hpending : tx.fate = .pending
  · simp [Tx.open, hpending]
  · rwa [h hpending] at hopen

theorem Evolves.trans {tx tx' tx'' : Tx K} (h : Evolves tx tx') (h' : Evolves tx' tx'') :
    Evolves tx tx'' := by
  intro hfinal
  have heq := h hfinal
  rw [h' (heq ▸ hfinal), heq]

theorem evolves_refl (sent : List (Tx K)) : List.Forall₂ Evolves sent sent :=
  List.forall₂_same.2 fun tx _ => .refl tx

theorem evolves_trans {sent sent' sent'' : List (Tx K)} (h : List.Forall₂ Evolves sent sent')
    (h' : List.Forall₂ Evolves sent' sent'') : List.Forall₂ Evolves sent sent'' := by
  induction h generalizing sent'' with
  | nil => exact h'
  | cons hhead _ ih =>
    cases h' with
    | cons hhead' htail' => exact .cons (hhead.trans hhead') (ih htail')

theorem evolves_set {sent : List (Tx K)} {ago : ℕ} {tx tx' : Tx K} (h : sent[ago]? = some tx)
    (hevolves : Evolves tx tx') : List.Forall₂ Evolves sent (sent.set ago tx') := by
  induction sent generalizing ago with
  | nil => simp at h
  | cons head sent ih =>
    cases ago with
    | zero =>
      simp only [List.getElem?_cons_zero, Option.some.injEq] at h
      subst h
      exact .cons hevolves (evolves_refl sent)
    | succ ago => exact .cons (.refl head) (ih h)

theorem openCount_le {sent sent' : List (Tx K)} (h : List.Forall₂ Evolves sent sent') :
    sent'.countP Tx.open ≤ sent.countP Tx.open := by
  induction h with
  | nil => exact le_rfl
  | @cons tx tx' _ _ hevolves _ ih =>
    simp only [List.countP_cons]
    by_cases hopen : tx'.open = true
    · simp only [hopen, hevolves.open hopen, if_true]
      omega
    · simp only [hopen, Bool.false_eq_true, if_false]
      omega

variable [DecidableEq K]

theorem outside_evolves (maxErrors : ℕ) (world : World K) (event : Outside K) :
    List.Forall₂ Evolves world.sent (world.outside maxErrors event).sent := by
  have hsame := evolves_refl world.sent
  cases event with
  | others => exact hsame
  | releases =>
    simp only [World.outside]
    split <;> exact hsame
  | includes ago pays =>
    simp only [World.outside]
    split
    · next tx htx =>
      split
      · next hpending => exact evolves_set htx fun hfinal => absurd hpending.1 hfinal
      · exact hsame
    · exact hsame
  | drops ago =>
    simp only [World.outside]
    split
    · next tx htx =>
      split
      · next hpending => exact evolves_set htx fun hfinal => absurd hpending hfinal
      · exact hsame
    · exact hsame

theorem meanwhile_evolves (maxErrors : ℕ) (world : World K) (events : List (Outside K)) :
    List.Forall₂ Evolves world.sent (world.meanwhile maxErrors events).sent := by
  induction events generalizing world with
  | nil => exact evolves_refl world.sent
  | cons event events ih =>
    exact evolves_trans (outside_evolves maxErrors world event)
      (ih (world.outside maxErrors event))

theorem openCount_meanwhile (maxErrors : ℕ) (world : World K) (events : List (Outside K)) :
    (world.meanwhile maxErrors events).openCount ≤ world.openCount :=
  openCount_le (meanwhile_evolves maxErrors world events)

/-! ## One attempt -/

/-- What the network answers leaves open whether the transaction has been paid. -/
def leavesOpen : Option Answer → Bool
  | none => true
  | some answer => !answer.decided

/-- An attempt opens at most one transaction, and a decided answer closes it. -/
theorem openCount_submitting (maxErrors : ℕ) (world : World K) (channel : K)
    (events : List (Outside K)) :
    ((world.submit channel).meanwhile maxErrors events).openCount ≤ world.openCount + 1 := by
  refine (openCount_meanwhile maxErrors _ events).trans ?_
  simp [World.openCount, World.submit, Tx.open]

theorem not_paid_of_decided {answer : Answer} {fate : Fate} (h : answer.decided = true)
    (hadmits : answer.admits fate) : fate ≠ .paid := by
  cases answer with
  | success => cases h
  | error err => exact hadmits h

theorem openCount_answered {maxErrors : ℕ} {world answered : World K} {channel : K}
    {events : List (Outside K)} {answer : Answer}
    (h : ((world.submit channel).meanwhile maxErrors events).answered answer = some answered) :
    answered.openCount ≤ world.openCount + if leavesOpen (some answer) then 1 else 0 := by
  have hevolves := meanwhile_evolves maxErrors (world.submit channel) events
  generalize hafter : (world.submit channel).meanwhile maxErrors events = after at h hevolves
  obtain ⟨ledger, rows, releases, sent⟩ := after
  cases hevolves with
  | @cons _ tx _ sent' hhead htail =>
    have hrest := openCount_le htail
    simp only [World.answered] at h
    split at h
    · next hadmits =>
      cases hdecided : answer.decided with
      | false =>
        simp only [hdecided, Bool.false_eq_true, false_and, if_false, Option.some.injEq] at h
        subst h
        simp only [World.openCount, List.countP_cons, leavesOpen, hdecided, Bool.not_false, if_true]
        split <;> omega
      | true =>
        have hpaid := not_paid_of_decided hdecided hadmits
        by_cases hpending : tx.fate = .pending
        · simp only [hdecided, hpending, true_and, if_true, Option.some.injEq] at h
          subst h
          simpa [World.openCount, Tx.open, leavesOpen, hdecided] using hrest
        · simp only [hpending, and_false, if_false, Option.some.injEq] at h
          subst h
          simpa [World.openCount, Tx.open, leavesOpen, hdecided, hpending, hpaid] using hrest
    · cases h

/-- The attempt is tried again. -/
def retried (config : PoolConfig) (attempt : ℕ) : Option Answer → Bool
  | some (.error err) =>
    isSequenceMismatchError err || isRetryableError err && attempt + 1 < config.maxRetries
  | _ => false

theorem openCount_settle (config : PoolConfig) (attempt : ℕ) (channel : K) (txSequence : ℕ)
    (round : Round K) (world : World K) (answer : Answer) :
    (settle config attempt channel txSequence round world answer).1.openCount ≤
      world.openCount := by
  cases answer with
  | success => exact le_rfl
  | error err =>
    have hresyncing := openCount_meanwhile config.maxErrors world round.resyncing
    simp only [settle]
    split
    · split <;> exact hresyncing
    · split <;> exact le_rfl

theorem retried_of_settle {config : PoolConfig} {attempt : ℕ} {channel : K} {txSequence : ℕ}
    {round : Round K} {world : World K} {answer : Answer}
    (h : (settle config attempt channel txSequence round world answer).2 = none) :
    retried config attempt (some answer) = true := by
  cases answer with
  | success => cases h
  | error err =>
    simp only [settle] at h
    split at h
    · next hmismatch => simp [retried, hmismatch]
    · split at h
      · next hretryable => simp [retried, hretryable]
      · cases h

/-- One attempt adds at most one open transaction, and none if its answer is decided. -/
theorem attemptOnce_spec (config : PoolConfig) (attempt : ℕ) (world : World K) (round : Round K)
    (h : (attemptOnce config attempt world round).2 ≠ some .impossible) :
    (attemptOnce config attempt world round).1.openCount ≤
        world.openCount + (if leavesOpen round.answer then 1 else 0) ∧
      ((attemptOnce config attempt world round).2 = none →
        retried config attempt round.answer = true) := by
  have hacquiring := openCount_meanwhile config.maxErrors world round.acquiring
  unfold attemptOnce at h ⊢
  cases hacquired : round.acquired with
  | none => exact ⟨Nat.le_add_right_of_le hacquiring, by simp⟩
  | some channel =>
    by_cases hidle :
        ((world.meanwhile config.maxErrors round.acquiring).rows channel).status = .idle
    · simp only [hacquired, hidle, if_true] at h ⊢
      have hsubmitting := openCount_submitting config.maxErrors
        (world.meanwhile config.maxErrors round.acquiring) channel round.submitting
      cases hanswer : round.answer with
      | none =>
        simp only [leavesOpen, if_true]
        exact ⟨by omega, by simp⟩
      | some answer =>
        simp only [hanswer] at h ⊢
        cases hanswered : (((world.meanwhile config.maxErrors round.acquiring).submit
            channel).meanwhile config.maxErrors round.submitting).answered answer with
        | none => simp [hanswered] at h
        | some answered =>
          refine ⟨?_, retried_of_settle⟩
          dsimp only
          have hsettle := openCount_settle config attempt channel
            (((world.meanwhile config.maxErrors round.acquiring).rows channel).sequence + 1) round
            answered answer
          have hopen := openCount_answered hanswered
          omega
    · simp only [hidle, if_false]
      exact ⟨Nat.le_add_right_of_le hacquiring, by simp⟩

/-! ## The whole call -/

/-- The answers that the call meets, if it always gets an account. -/
def received (config : PoolConfig) : ℕ → List (Option Answer) → List (Option Answer)
  | _, [] => []
  | attempt, answer :: answers =>
    if attempt < config.maxRetries then
      answer :: if retried config attempt answer then received config (attempt + 1) answers else []
    else []

theorem openCount_submitTransaction (config : PoolConfig) (attempt : ℕ) (world : World K)
    (rounds : List (Round K))
    (hpossible : (submitTransaction config attempt world rounds).2 ≠ .impossible) :
    (submitTransaction config attempt world rounds).1.openCount ≤
      world.openCount + (received config attempt (rounds.map Round.answer)).countP leavesOpen := by
  induction rounds generalizing attempt world with
  | nil => simp [submitTransaction]
  | cons round rounds ih =>
    simp only [submitTransaction, List.map_cons, received] at hpossible ⊢
    split
    · next hattempt =>
      simp only [hattempt, if_true, List.countP_cons] at hpossible ⊢
      split
      · next after outcome honce =>
        simp only [honce] at hpossible
        have hspec := attemptOnce_spec config attempt world round (by simpa [honce] using hpossible)
        simp only [honce] at hspec ⊢
        omega
      · next after honce =>
        simp only [honce] at hpossible
        have hspec := attemptOnce_spec config attempt world round (by simp [honce])
        simp only [honce] at hspec
        have hrest := ih _ _ hpossible
        rw [hspec.2 trivial, if_pos rfl]
        omega
    · simp

/-! ## A network that pays whenever its answer leaves it open -/

/-- The account is found idle and in step with the ledger, and the network pays what it can. -/
def payingRound (k : K) (sequence : ℕ) (answer : Option Answer) : Round K where
  acquiring := [.others (fun _ => ⟨.idle, sequence, 0⟩) fun _ => 0]
  acquired := some k
  submitting := if leavesOpen answer then [.includes 0 true] else []
  answer := answer
  resyncing := []
  resyncs := true

def payingRounds (k : K) : ℕ → List (Option Answer) → List (Round K)
  | _, [] => []
  | sequence, answer :: answers =>
    payingRound k sequence answer ::
      payingRounds k (if leavesOpen answer then sequence + 1 else sequence) answers

omit [DecidableEq K] in
theorem payingRounds_answers (k : K) (sequence : ℕ) (answers : List (Option Answer)) :
    (payingRounds k sequence answers).map Round.answer = answers := by
  induction answers generalizing sequence with
  | nil => rfl
  | cons answer answers ih => simp [payingRounds, payingRound, ih]

theorem settle_paying (config : PoolConfig) (attempt : ℕ) (channel : K) (txSequence : ℕ) (k : K)
    (sequence : ℕ) (given : Option Answer) (world : World K) (answer : Answer) :
    (settle config attempt channel txSequence (payingRound k sequence given) world answer).1.sent =
        world.sent ∧
      (settle config attempt channel txSequence (payingRound k sequence given) world
        answer).1.ledger = world.ledger ∧
      ((settle config attempt channel txSequence (payingRound k sequence given) world answer).2 =
        none ↔ retried config attempt (some answer) = true) ∧
      (settle config attempt channel txSequence (payingRound k sequence given) world answer).2 ≠
        some .impossible := by
  cases answer with
  | success => exact ⟨rfl, rfl, by simp [settle, retried], by simp [settle]⟩
  | error err =>
    by_cases hmismatch : isSequenceMismatchError err = true
    · simp [settle, retried, hmismatch, payingRound, World.meanwhile, World.release, World.resync]
    · by_cases hretryable : isRetryableError err = true ∧ attempt + 1 < config.maxRetries
      · simp [settle, retried, hmismatch, hretryable, World.release]
      · simp [settle, retried, hmismatch, hretryable, World.release]

/-- The world in which a paying round is answered. -/
def World.paying (maxErrors : ℕ) (world : World K) (k : K) (sequence : ℕ)
    (answer : Option Answer) : World K :=
  ((world.meanwhile maxErrors (payingRound k sequence answer).acquiring).submit k).meanwhile
    maxErrors (payingRound k sequence answer).submitting

theorem paying_sent (maxErrors : ℕ) {world : World K} {k : K} {sequence : ℕ}
    (hledger : world.ledger k = sequence) (answer : Option Answer) :
    (world.paying maxErrors k sequence answer).sent =
        ⟨k, sequence + 1, if leavesOpen answer then .paid else .pending⟩ :: world.sent ∧
      (world.paying maxErrors k sequence answer).ledger k =
        if leavesOpen answer then sequence + 1 else sequence := by
  cases hopen : leavesOpen answer <;>
    simp [World.paying, payingRound, hopen, World.meanwhile, World.outside, World.submit, hledger]

theorem attemptOnce_of_paying (config : PoolConfig) (attempt : ℕ) (k : K) (sequence : ℕ)
    (answer : Option Answer) (world : World K) :
    attemptOnce config attempt world (payingRound k sequence answer) =
      match answer with
      | none => (world.paying config.maxErrors k sequence answer, some .pending)
      | some given =>
        match (world.paying config.maxErrors k sequence answer).answered given with
        | none => (world.paying config.maxErrors k sequence answer, some .impossible)
        | some after =>
          settle config attempt k (sequence + 1) (payingRound k sequence answer) after given := by
  cases answer <;> rfl

theorem answered_paying (maxErrors : ℕ) {world : World K} {k : K} {sequence : ℕ}
    (hledger : world.ledger k = sequence) (answer : Answer) :
    ∃ after, (world.paying maxErrors k sequence (some answer)).answered answer = some after ∧
      after.paid = world.paid + (if leavesOpen (some answer) then 1 else 0) ∧
      after.ledger k = if leavesOpen (some answer) then sequence + 1 else sequence := by
  obtain ⟨hsent, hafter⟩ := paying_sent maxErrors hledger (some answer)
  cases hdecided : answer.decided with
  | false =>
    have hadmits : answer.admits .paid := by
      cases answer with
      | success => rfl
      | error err => exact fun h => absurd (hdecided ▸ h) (by simp)
    simp only [leavesOpen, hdecided, Bool.not_false, if_true] at hsent hafter
    refine ⟨world.paying maxErrors k sequence (some answer), ?_, ?_, ?_⟩
    · simp [World.answered, hsent, hadmits, hdecided]
    · simp [World.paid, hsent, leavesOpen, hdecided]
    · simp [hafter, leavesOpen, hdecided]
  | true =>
    have hadmits : answer.admits .pending := by
      cases answer with
      | success => cases hdecided
      | error err => exact fun _ => nofun
    simp only [leavesOpen, hdecided, Bool.not_true, Bool.false_eq_true, if_false] at hsent hafter
    simp only [World.answered, hsent, hadmits, hdecided, if_true, true_and, Option.some.injEq,
      exists_eq_left']
    simp [World.paid, hafter, leavesOpen, hdecided]

theorem attemptOnce_paying (config : PoolConfig) (attempt : ℕ) {k : K} {sequence : ℕ}
    (answer : Option Answer) {world : World K} (hledger : world.ledger k = sequence) :
    (attemptOnce config attempt world (payingRound k sequence answer)).1.paid =
        world.paid + (if leavesOpen answer then 1 else 0) ∧
      (attemptOnce config attempt world (payingRound k sequence answer)).1.ledger k =
        (if leavesOpen answer then sequence + 1 else sequence) ∧
      ((attemptOnce config attempt world (payingRound k sequence answer)).2 = none ↔
        retried config attempt answer = true) ∧
      (attemptOnce config attempt world (payingRound k sequence answer)).2 ≠
        some .impossible := by
  rw [attemptOnce_of_paying]
  cases answer with
  | none =>
    obtain ⟨hsent, hafter⟩ := paying_sent config.maxErrors hledger none
    simp only [leavesOpen, if_true] at hsent hafter
    simp [World.paid, hsent, hafter, leavesOpen, retried]
  | some answer =>
    obtain ⟨after, hanswered, hpaid, hafter⟩ := answered_paying config.maxErrors hledger answer
    obtain ⟨hsent, hsame, hretried, hpossible⟩ :=
      settle_paying config attempt k (sequence + 1) k sequence (some answer) after answer
    simp only [hanswered, World.paid, hsent, hsame]
    exact ⟨hpaid, hafter, hretried, hpossible⟩

theorem submitTransaction_paying (config : PoolConfig) (attempt : ℕ) {k : K} {sequence : ℕ}
    (answers : List (Option Answer)) {world : World K} (hledger : world.ledger k = sequence) :
    (submitTransaction config attempt world (payingRounds k sequence answers)).2 ≠ .impossible ∧
      (submitTransaction config attempt world (payingRounds k sequence answers)).1.paid =
        world.paid + (received config attempt answers).countP leavesOpen := by
  induction answers generalizing attempt world sequence with
  | nil =>
    refine ⟨?_, rfl⟩
    simp only [payingRounds, submitTransaction]
    split <;> simp
  | cons answer answers ih =>
    simp only [payingRounds, submitTransaction, received]
    split
    · next hattempt =>
      obtain ⟨hpaid, hafter, hretried, hpossible⟩ :=
        attemptOnce_paying config attempt answer hledger
      split
      · next after outcome honce =>
        simp only [honce, reduceCtorEq, false_iff] at hpaid hretried hpossible
        refine ⟨fun h => hpossible (h ▸ rfl), ?_⟩
        simp [hretried, hpaid, List.countP_cons]
      · next after honce =>
        simp only [honce, true_iff] at hpaid hafter hretried
        obtain ⟨hrest, hcount⟩ := ih (attempt + 1) hafter
        refine ⟨hrest, ?_⟩
        rw [hcount, hpaid, if_pos hretried, List.countP_cons]
        omega
    · simp

/-! ## At most one payment -/

omit [DecidableEq K] in
theorem paid_le_openCount (world : World K) : world.paid ≤ world.openCount := by
  refine List.countP_mono_left fun tx _ hpaid => ?_
  simp only [decide_eq_true_eq] at hpaid
  simp [Tx.open, hpaid]

/-- For a pattern of answers, whatever the network, the database and the other calls do: the
payment is made at most once if and only if at most one of the answers that the call meets
leaves open whether it has been made. -/
theorem payment_at_most_once_iff [Inhabited K] (config : PoolConfig)
    (answers : List (Option Answer)) :
    (∀ (world : World K) (rounds : List (Round K)) (later : List (Outside K)),
      world.sent = [] → rounds.map Round.answer = answers →
      (submitTransaction config 0 world rounds).2 ≠ .impossible →
      ((submitTransaction config 0 world rounds).1.meanwhile config.maxErrors later).paid ≤ 1) ↔
    (received config 0 answers).countP leavesOpen ≤ 1 := by
  constructor
  · intro h
    let world : World K := ⟨fun _ => 0, fun _ => ⟨.idle, 0, 0⟩, [], []⟩
    have hledger : world.ledger default = 0 := rfl
    obtain ⟨hpossible, hpaid⟩ := submitTransaction_paying config 0 answers hledger
    have honce := h _ _ [] rfl (payingRounds_answers default 0 answers) hpossible
    simp only [World.meanwhile, List.foldl_nil, hpaid] at honce
    simpa [World.paid, world] using honce
  · rintro h world rounds later hsent rfl hpossible
    have hlater := openCount_meanwhile config.maxErrors
      (submitTransaction config 0 world rounds).1 later
    have hopen := openCount_submitTransaction config 0 world rounds hpossible
    have hnone : world.openCount = 0 := by simp [World.openCount, hsent]
    exact (paid_le_openCount _).trans (by omega)

/-- The first attempt is paid although Horizon times out; the second is paid through the other
account. -/
def paidTwice : List (Round Bool) :=
  [⟨[], some true, [.includes 0 true], some (.error ⟨"timeout of 60000ms exceeded", none⟩), [],
      true⟩,
    ⟨[.releases], some false, [.includes 0 true], some .success, [], true⟩]

theorem timed_out_payment_made_twice :
    ¬ ∀ (config : PoolConfig) (world : World Bool) (rounds : List (Round Bool))
      (later : List (Outside Bool)), world.sent = [] →
      (submitTransaction config 0 world rounds).2 ≠ .impossible →
      ((submitTransaction config 0 world rounds).1.meanwhile config.maxErrors later).paid ≤ 1 := by
  intro h
  have honce := h ⟨5, 3⟩ ⟨fun _ => 7, fun _ => ⟨.idle, 7, 0⟩, [], []⟩ paidTwice [] rfl
    (by decide +kernel)
  revert honce
  decide +kernel

end MobileMoney.Stellar
