import Mathlib.Data.List.Nodup
import MobileMoney.Library.Answers
import MobileMoney.Library.Interleaving

/-!
# Daily provider settlement

`services/providerSettlementService.ts`, and `services/providerReconciliationService.ts`, which has
the same `runDailySettlement`; `jobs/dailySettlementJob.ts` calls one after the other. Runs of any
number of processes take turns; a turn is one query, one posting or a crash, and what fails may
have been executed. Amounts are whole numbers of the last decimal place of their columns. Texts
and metadata are left out.

A settled record has its postings, since a run that records it has made them. That there is no
second one depends on what a run finds in the ledger when it posts, and it does not look.
-/

namespace MobileMoney.Settlement

variable {D : Type}

inductive SettlementProvider where
  | mtn | airtel | orange
  deriving DecidableEq, Repr

inductive PostingKind where
  | fee | pfee
  deriving DecidableEq, Repr

/-- `SETTLE-<provider>-<date>-FEE` or `-PFEE`. -/
structure Reference (D : Type) where
  provider : SettlementProvider
  settlementDate : D
  kind : PostingKind
  deriving DecidableEq

structure LedgerEntry where
  accountCode : ℕ
  debitAmount : ℤ
  creditAmount : ℤ
  deriving DecidableEq, Repr

structure Posting (D : Type) where
  reference : Reference D
  entries : List LedgerEntry
  deriving DecidableEq

structure ProviderFeeAggregate where
  provider : SettlementProvider
  merchantFeeTotal : ℤ
  providerFeeTotal : ℤ
  transactionCount : ℕ
  deriving DecidableEq, Repr

def ProviderFeeAggregate.netSettlement (agg : ProviderFeeAggregate) : ℤ :=
  agg.merchantFeeTotal - agg.providerFeeTotal

inductive SettlementStatus where
  | settled | skipped | failed
  deriving DecidableEq, Repr

structure SettlementRecord (D : Type) where
  settlementDate : D
  provider : SettlementProvider
  merchantFeeTotal : ℤ
  providerFeeTotal : ℤ
  netSettlement : ℤ
  transactionCount : ℕ
  status : SettlementStatus
  deriving DecidableEq

def ProviderFeeAggregate.record (agg : ProviderFeeAggregate) (settlementDate : D)
    (status : SettlementStatus) : SettlementRecord D where
  settlementDate := settlementDate
  provider := agg.provider
  merchantFeeTotal := agg.merchantFeeTotal
  providerFeeTotal := agg.providerFeeTotal
  netSettlement := agg.netSettlement
  transactionCount := agg.transactionCount
  status := status

/-- Merchant fees go from the float, 1100, to the fee revenue, 4000. -/
def ProviderFeeAggregate.feePosting (agg : ProviderFeeAggregate) (settlementDate : D) :
    Posting D where
  reference := ⟨agg.provider, settlementDate, .fee⟩
  entries := [⟨1100, agg.merchantFeeTotal, 0⟩, ⟨4000, 0, agg.merchantFeeTotal⟩]

/-- Provider fees go from the expenses, 5000, to the float. -/
def ProviderFeeAggregate.pfeePosting (agg : ProviderFeeAggregate) (settlementDate : D) :
    Posting D where
  reference := ⟨agg.provider, settlementDate, .pfee⟩
  entries := [⟨5000, agg.providerFeeTotal, 0⟩, ⟨1100, 0, agg.providerFeeTotal⟩]

/-- The ledger, whose reference numbers need not be unique, and the settlement records, of which
there is one for a provider and a date. -/
structure State (D : Type) where
  ledger : List (Posting D)
  records : D → SettlementProvider → Option (SettlementRecord D)

structure SettlementSummary (D : Type) where
  settlementDate : D
  providers : List (SettlementRecord D)
  deriving DecidableEq

/-- What a run waits for. A run that throws has no summary. -/
inductive Phase (D : Type) where
  | idle
  | auditing (date : D)
  | aggregating (date : D)
  | postingFee (agg : ProviderFeeAggregate) (rest : List ProviderFeeAggregate)
    (summary : SettlementSummary D)
  | postingPfee (agg : ProviderFeeAggregate) (rest : List ProviderFeeAggregate)
    (summary : SettlementSummary D)
  | persisting (record : SettlementRecord D) (rest : List ProviderFeeAggregate)
    (summary : SettlementSummary D)
  | finished (summary : SettlementSummary D)
  | threw
  deriving DecidableEq

/-- `aggregates` is what the query for the fees returns. -/
inductive Input (D : Type) where
  | runDailySettlement (date : D)
  | aggregate (aggregates : List ProviderFeeAggregate)
  | turn (answer : DbAnswer)
  | crash

/-- The second posting is skipped when there is nothing to post. -/
def postPfee (agg : ProviderFeeAggregate) (rest : List ProviderFeeAggregate)
    (summary : SettlementSummary D) : Phase D :=
  if 0 < agg.providerFeeTotal then .postingPfee agg rest summary
  else .persisting (agg.record summary.settlementDate .settled) rest summary

def postSettlementEntries (agg : ProviderFeeAggregate) (rest : List ProviderFeeAggregate)
    (summary : SettlementSummary D) : Phase D :=
  if 0 < agg.merchantFeeTotal then .postingFee agg rest summary else postPfee agg rest summary

/-- The provider whose turn it is. -/
def settleProvider (aggregates : List ProviderFeeAggregate) (summary : SettlementSummary D) :
    Phase D :=
  match aggregates with
  | [] => .finished summary
  | agg :: rest =>
    if agg.transactionCount = 0 ∨ agg.merchantFeeTotal = 0 ∧ agg.providerFeeTotal = 0 then
      .persisting (agg.record summary.settlementDate .skipped) rest summary
    else postSettlementEntries agg rest summary

def State.post (s : State D) (posting : Posting D) (answer : DbAnswer) : State D :=
  if answer.executed then { s with ledger := s.ledger ++ [posting] } else s

/-- `ON CONFLICT (settlement_date, provider) DO UPDATE`. -/
def State.persist [DecidableEq D] (s : State D) (record : SettlementRecord D)
    (answer : DbAnswer) : State D :=
  if answer.executed then
    { s with
      records := Function.update s.records record.settlementDate
        (Function.update (s.records record.settlementDate) record.provider (some record)) }
  else s

section Turns

variable [DecidableEq D]

/-- A failing posting is recorded. A record that is not persisted throws past the `try` that it is
returned from, and ends the run. -/
def turn (answer : DbAnswer) (s : State D) (phase : Phase D) : State D × Phase D :=
  match phase with
  | .auditing date => (s, .aggregating date)
  | .aggregating date =>
    (s, if answer = .answered then .aggregating date else .finished ⟨date, []⟩)
  | .postingFee agg rest summary =>
    (s.post (agg.feePosting summary.settlementDate) answer,
      if answer = .answered then postPfee agg rest summary
      else .persisting (agg.record summary.settlementDate .failed) rest summary)
  | .postingPfee agg rest summary =>
    (s.post (agg.pfeePosting summary.settlementDate) answer,
      if answer = .answered then
        .persisting (agg.record summary.settlementDate .settled) rest summary
      else .persisting (agg.record summary.settlementDate .failed) rest summary)
  | .persisting record rest summary =>
    (s.persist record answer,
      if answer = .answered then
        settleProvider rest { summary with providers := summary.providers ++ [record] }
      else .threw)
  | phase => (s, phase)

def Phase.AtRest : Phase D → Bool
  | .idle | .finished _ | .threw => true
  | _ => false

/-- The query groups by provider. -/
def step (input : Input D) (s : State D) (phase : Phase D) : State D × Phase D :=
  match input with
  | .runDailySettlement date => (s, if phase.AtRest then .auditing date else phase)
  | .aggregate aggregates =>
    (s, match phase with
      | .aggregating date =>
        if (aggregates.map (·.provider)).Nodup then settleProvider aggregates ⟨date, []⟩
        else .aggregating date
      | phase => phase)
  | .turn answer => turn answer s phase
  | .crash => (s, .threw)

abbrev World (D ι : Type) := Interleaving.World (State D) ι (Phase D)

def World.init {ι : Type} : World D ι := ⟨⟨[], fun _ _ => none⟩, fun _ => .idle⟩

end Turns

/-! ## Postings that are made once -/

open Interleaving

variable {ι : Type} [DecidableEq D]

def State.postings (s : State D) (reference : Reference D) : ℕ :=
  s.ledger.countP fun posting => posting.reference = reference

/-- Nothing is posted twice, and a settled record has the postings of its totals. A total of
nothing is not posted. -/
structure PostedOnce (s : State D) : Prop where
  once : ∀ reference, s.postings reference ≤ 1
  settled : ∀ date provider, ∀ record ∈ s.records date provider, record.status = .settled →
    (0 < record.merchantFeeTotal → s.postings ⟨provider, date, .fee⟩ = 1) ∧
      (0 < record.providerFeeTotal → s.postings ⟨provider, date, .pfee⟩ = 1)

/-- The posting that a run is about to make. -/
def Phase.posting : Phase D → Option (Posting D)
  | .postingFee agg _ summary => some (agg.feePosting summary.settlementDate)
  | .postingPfee agg _ summary => some (agg.pfeePosting summary.settlementDate)
  | _ => none

/-- A posting that is made finds none with its reference number in the ledger. -/
def PostsFirst (input : Input D) (s : State D) (phase : Phase D) : Prop :=
  match input with
  | .turn answer =>
    answer.executed → ∀ posting ∈ phase.posting, s.postings posting.reference = 0
  | _ => True

instance (input : Input D) (s : State D) (phase : Phase D) :
    Decidable (PostsFirst input s phase) := by
  cases input <;> unfold PostsFirst <;> infer_instance

/-! ## Settled records -/

/-- The postings that a settled record stands for. -/
def SettlementRecord.Backed (s : State D) (record : SettlementRecord D) : Prop :=
  record.status = .settled →
    (0 < record.merchantFeeTotal →
      1 ≤ s.postings ⟨record.provider, record.settlementDate, .fee⟩) ∧
    (0 < record.providerFeeTotal →
      1 ≤ s.postings ⟨record.provider, record.settlementDate, .pfee⟩)

/-- Every record is filed under its own date and provider. -/
def State.Backed (s : State D) : Prop :=
  ∀ date provider, ∀ record ∈ s.records date provider,
    record.settlementDate = date ∧ record.provider = provider ∧ record.Backed s

def Phase.Backed (s : State D) : Phase D → Prop
  | .postingPfee agg _ summary =>
    0 < agg.merchantFeeTotal → 1 ≤ s.postings ⟨agg.provider, summary.settlementDate, .fee⟩
  | .persisting record _ _ => record.Backed s
  | _ => True

section Steps

variable {s : State D}

theorem postings_post (posting : Posting D) (answer : DbAnswer) (reference : Reference D) :
    (s.post posting answer).postings reference = s.postings reference +
      if answer.executed ∧ posting.reference = reference then 1 else 0 := by
  unfold State.post State.postings
  grind

theorem le_postings_step (input : Input D) (phase : Phase D) (reference : Reference D) :
    s.postings reference ≤ (step input s phase).1.postings reference := by
  cases input with
  | turn answer =>
    cases phase with
    | postingFee | postingPfee =>
      simp only [step, turn, postings_post]
      exact Nat.le_add_right _ _
    | persisting record rest summary =>
      simp only [step, turn, State.persist]
      split_ifs <;> exact le_rfl
    | _ => exact le_rfl
  | _ => exact le_rfl

theorem SettlementRecord.Backed.mono {s' : State D} {record : SettlementRecord D}
    (h : record.Backed s) (more : ∀ reference, s.postings reference ≤ s'.postings reference) :
    record.Backed s' := by
  intro hsettled
  obtain ⟨fee, pfee⟩ := h hsettled
  exact ⟨fun hpos => (fee hpos).trans (more _), fun hpos => (pfee hpos).trans (more _)⟩

theorem Phase.Backed.mono {s' : State D} {phase : Phase D} (h : phase.Backed s)
    (more : ∀ reference, s.postings reference ≤ s'.postings reference) : phase.Backed s' := by
  cases phase with
  | postingPfee agg rest summary => exact fun hpos => (h hpos).trans (more _)
  | persisting record rest summary => exact SettlementRecord.Backed.mono h more
  | _ => exact trivial

/-- A record that is not settled stands for nothing. -/
theorem backed_of_ne {agg : ProviderFeeAggregate} {date : D} {status : SettlementStatus}
    (h : status ≠ .settled) : (agg.record date status).Backed s :=
  fun hsettled => absurd hsettled h

theorem postPfee_backed {agg : ProviderFeeAggregate} {rest : List ProviderFeeAggregate}
    {summary : SettlementSummary D}
    (fee : 0 < agg.merchantFeeTotal →
      1 ≤ s.postings ⟨agg.provider, summary.settlementDate, .fee⟩) :
    (postPfee agg rest summary).Backed s := by
  unfold postPfee
  split_ifs with hpos
  · exact fee
  · exact fun _ => ⟨fee, fun hpfee => absurd hpfee hpos⟩

theorem settleProvider_backed (aggregates : List ProviderFeeAggregate)
    (summary : SettlementSummary D) : (settleProvider aggregates summary).Backed s := by
  cases aggregates with
  | nil => exact trivial
  | cons agg rest =>
    simp only [settleProvider, postSettlementEntries]
    split_ifs with hskip hfee
    · exact backed_of_ne nofun
    · exact trivial
    · exact postPfee_backed fun hpos => absurd hpos hfee

theorem persist_backed (h : s.Backed) {record : SettlementRecord D} (backed : record.Backed s)
    (answer : DbAnswer) : (s.persist record answer).Backed := by
  unfold State.persist
  split_ifs
  · intro date provider record' hrecord
    by_cases hdate : date = record.settlementDate
    · subst hdate
      simp only [Function.update_self] at hrecord
      by_cases hprovider : provider = record.provider
      · subst hprovider
        simp only [Function.update_self] at hrecord
        obtain rfl := Option.some.inj hrecord
        exact ⟨rfl, rfl, backed⟩
      · simp only [Function.update_of_ne hprovider] at hrecord
        exact h _ provider record' hrecord
    · simp only [Function.update_of_ne hdate] at hrecord
      exact h date provider record' hrecord
  · exact h

theorem State.Backed.mono {s' : State D} (h : s.Backed) (records : s'.records = s.records)
    (more : ∀ reference, s.postings reference ≤ s'.postings reference) : s'.Backed := by
  intro date provider record hrecord
  rw [records] at hrecord
  obtain ⟨hdate, hprovider, backed⟩ := h date provider record hrecord
  exact ⟨hdate, hprovider, backed.mono more⟩

theorem step_backed (h : s.Backed) {input : Input D} {phase : Phase D}
    (hphase : phase.Backed s) :
    (step input s phase).1.Backed ∧ (step input s phase).2.Backed (step input s phase).1 := by
  have more := le_postings_step (s := s) input phase
  cases input with
  | runDailySettlement date =>
    refine ⟨h, ?_⟩
    simp only [step]
    split_ifs
    · exact trivial
    · exact hphase
  | aggregate aggregates =>
    refine ⟨h, ?_⟩
    cases phase with
    | aggregating date =>
      simp only [step]
      split_ifs
      · exact settleProvider_backed aggregates _
      · exact trivial
    | _ => exact hphase
  | crash => exact ⟨h, trivial⟩
  | turn answer =>
    cases phase with
    | postingFee agg rest summary =>
      simp only [step, turn] at more ⊢
      refine ⟨h.mono (by unfold State.post; split_ifs <;> rfl) more, ?_⟩
      split_ifs with hanswer
      · refine postPfee_backed fun _ => ?_
        rw [postings_post, if_pos ⟨DbAnswer.executed_of_answered hanswer, rfl⟩]
        exact Nat.le_add_left _ _
      · exact backed_of_ne nofun
    | postingPfee agg rest summary =>
      simp only [step, turn] at more ⊢
      refine ⟨h.mono (by unfold State.post; split_ifs <;> rfl) more, ?_⟩
      split_ifs with hanswer
      · refine fun _ => ⟨fun hpos => (hphase hpos).trans (more _), fun _ => ?_⟩
        rw [postings_post, if_pos ⟨DbAnswer.executed_of_answered hanswer, rfl⟩]
        exact Nat.le_add_left _ _
      · exact backed_of_ne nofun
    | persisting record rest summary =>
      refine ⟨persist_backed h hphase answer, ?_⟩
      simp only [step, turn]
      split_ifs
      · exact settleProvider_backed rest _
      · exact trivial
    | aggregating date =>
      refine ⟨h, ?_⟩
      simp only [step, turn]
      split_ifs <;> exact trivial
    | _ => exact ⟨h, hphase⟩

/-- What a turn adds to the ledger. -/
theorem postings_step (input : Input D) (phase : Phase D) (reference : Reference D) :
    (step input s phase).1.postings reference = s.postings reference ∨
      ∃ answer posting, input = .turn answer ∧ answer.executed = true ∧
        phase.posting = some posting ∧ posting.reference = reference ∧
        (step input s phase).1.postings reference = s.postings reference + 1 := by
  cases input with
  | turn answer =>
    cases phase with
    | postingFee agg rest summary =>
      simp only [step, turn, postings_post]
      by_cases hposts : answer.executed ∧
          (agg.feePosting summary.settlementDate).reference = reference
      · rw [if_pos hposts]
        exact Or.inr ⟨answer, _, rfl, hposts.1, rfl, hposts.2, rfl⟩
      · rw [if_neg hposts]
        exact Or.inl rfl
    | postingPfee agg rest summary =>
      simp only [step, turn, postings_post]
      by_cases hposts : answer.executed ∧
          (agg.pfeePosting summary.settlementDate).reference = reference
      · rw [if_pos hposts]
        exact Or.inr ⟨answer, _, rfl, hposts.1, rfl, hposts.2, rfl⟩
      · rw [if_neg hposts]
        exact Or.inl rfl
    | persisting record rest summary =>
      left
      simp only [step, turn, State.persist]
      split_ifs <;> rfl
    | _ => exact Or.inl rfl
  | _ => exact Or.inl rfl

theorem once_step (h : ∀ reference, s.postings reference ≤ 1) {input : Input D} {phase : Phase D}
    (first : PostsFirst input s phase) (reference : Reference D) :
    (step input s phase).1.postings reference ≤ 1 := by
  rcases postings_step input phase reference with
    same | ⟨answer, posting, rfl, executed, sent, rfl, more⟩
  · rw [same]
    exact h reference
  · rw [more, first executed posting sent]

/-- A posting that is not the first one is there twice. -/
theorem first_of_once {input : Input D} {phase : Phase D}
    (once : ∀ reference, (step input s phase).1.postings reference ≤ 1) :
    PostsFirst input s phase := by
  cases input with
  | turn answer =>
    intro executed posting sent
    have after := once posting.reference
    cases phase with
    | postingFee agg rest summary =>
      obtain rfl := Option.some.inj sent
      simp only [step, turn, postings_post, executed, true_and, if_true] at after
      omega
    | postingPfee agg rest summary =>
      obtain rfl := Option.some.inj sent
      simp only [step, turn, postings_post, executed, true_and, if_true] at after
      omega
    | _ => cases sent
  | _ => exact trivial

theorem State.Backed.postedOnce (h : s.Backed) (once : ∀ reference, s.postings reference ≤ 1) :
    PostedOnce s := by
  refine ⟨once, ?_⟩
  intro date provider record hrecord hsettled
  obtain ⟨rfl, rfl, backed⟩ := h date provider record hrecord
  obtain ⟨fee, pfee⟩ := backed hsettled
  exact ⟨fun hpos => (once _).antisymm (fee hpos), fun hpos => (once _).antisymm (pfee hpos)⟩

end Steps

/-! ## Runs -/

variable [DecidableEq ι]

/-- Settled records have their postings exactly once, and nothing is posted twice, exactly when no
run posts what is in the ledger already. -/
theorem posted_once_iff (schedule : List (ι × Input D)) :
    (∀ pre, pre <+: schedule → PostedOnce (run step (World.init : World D ι) pre).shared) ↔
      Runs.Every (advance step) (fun w turn => PostsFirst turn.2 w.shared (w.locals turn.1))
        World.init schedule := by
  refine Runs.forall_prefix_iff_every_of_inv (fun w : World D ι => PostedOnce w.shared)
    (fun w => Holds State.Backed (fun s phase => phase.Backed s) w ∧
      ∀ reference, w.shared.postings reference ≤ 1) ?_ ?_ ?_ ?_ schedule
  · rintro w ⟨backed, once⟩
    exact backed.1.postedOnce once
  · rintro w turn ⟨backed, once⟩ first
    refine ⟨holds_advance backed (step_backed backed.1 (backed.2 turn.1)) ?_, once_step once first⟩
    intro phase hphase
    exact hphase.mono (le_postings_step turn.2 _)
  · rintro w turn - posted
    exact first_of_once posted.once
  · exact ⟨⟨nofun, fun _ => trivial⟩, fun _ => Nat.zero_le 1⟩

def mtnFees : ProviderFeeAggregate := ⟨.mtn, 500, 200, 3⟩

/-- One of the two runs of a job, with fees of MTN and nothing of Orange. -/
def settlementRun : List (ℕ × Input ℕ) :=
  [(0, .runDailySettlement 20), (0, .turn .answered), (0, .aggregate [mtnFees, ⟨.orange, 0, 0, 0⟩]),
    (0, .turn .answered), (0, .turn .answered), (0, .turn .answered), (0, .turn .answered)]

/-- After a run of another date that fails before it posts. -/
theorem single_run_posts_once :
    let schedule := [(1, Input.runDailySettlement 19), (1, Input.turn (.failed false)),
      (1, Input.turn (.failed false))] ++ settlementRun
    ((run step (World.init : World ℕ ℕ) schedule).shared.records 20 .mtn).map (·.status) =
        some .settled ∧
      ∀ pre, pre <+: schedule → PostedOnce (run step (World.init : World ℕ ℕ) pre).shared :=
  ⟨by decide +kernel, (posted_once_iff _).2 (by decide +kernel)⟩

/-- The second run of the job posts again, and so does a retry after a posting has failed. -/
theorem second_run_posts_twice :
    (run step (World.init : World ℕ ℕ) (settlementRun ++ settlementRun)).shared.postings
        ⟨.mtn, 20, .fee⟩ = 2 ∧
      ¬ PostedOnce (run step (World.init : World ℕ ℕ) (settlementRun ++ settlementRun)).shared ∧
      ¬ PostedOnce (run step (World.init : World ℕ ℕ) ([(0, Input.runDailySettlement 20),
        (0, Input.turn .answered), (0, Input.aggregate [mtnFees]), (0, Input.turn .answered),
        (0, Input.turn (.failed false)), (0, Input.turn .answered)] ++ settlementRun)).shared := by
  refine ⟨by decide +kernel, ?_, ?_⟩
  · intro posted
    exact absurd (posted.once ⟨.mtn, 20, .fee⟩) (by decide +kernel)
  · intro posted
    exact absurd (posted.once ⟨.mtn, 20, .fee⟩) (by decide +kernel)

end MobileMoney.Settlement
