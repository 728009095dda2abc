import MobileMoney.Library.Interleaving
import MobileMoney.Queue.Status

/-!
# Resolving a hold

`resolveHold` of `services/amlVelocityService.ts` for one transaction. Calls take turns with each
other and with other calls of `updateStatus`; a turn is one query, and what fails may have been
executed. A job is enqueued on the queue or in its outbox. Metadata and the data of the job are
left out.

`updateStatus` also finds a row that is in the target status, so a call may report success for a
transaction that is not held. Where no call finds it so, every success ends a hold of its own.
-/

namespace MobileMoney.Aml.Holds

open Queue

variable {U : Type}

inductive Decision where
  | release | reject
  deriving DecidableEq, Repr

def Decision.target : Decision → TransactionStatus
  | .release => .pending
  | .reject => .cancelled

/-- The arguments of `updateStatus`. -/
def Decision.update (decision : Decision) : StatusUpdate U :=
  ⟨decision.target, none, some [.pendingReview]⟩

/-- The holds that are over. -/
def endedHolds (row : StatusHistory U) : ℕ :=
  row.changes.countP fun change => change.1 = .pendingReview

/-- What a statement has found: the status, and how many holds were over by then. The code keeps
the decision only. -/
structure Resolution where
  decision : Decision
  found : TransactionStatus
  hold : ℕ
  deriving DecidableEq, Repr

/-- The row, the calls that have returned `true` and the jobs that calls have enqueued. -/
structure State (U : Type) where
  row : StatusHistory U
  reported : List Resolution
  dispatched : List Resolution
  deriving DecidableEq

/-- What a call waits for. -/
inductive Phase where
  | idle
  | updating (decision : Decision)
  | patching (resolution : Resolution)
  | finding (resolution : Resolution)
  | adding (resolution : Resolution)
  | returned (success : Bool)
  | threw
  deriving DecidableEq, Repr

/-- `missing` is the answer `null` of `findById`, which may ask a replica. -/
inductive Input (U : Type) where
  | resolveHold (decision : Decision)
  | updateStatus (update : StatusUpdate U) (answer : DbAnswer)
  | turn (answer : DbAnswer)
  | missing
  | crash

def State.report (s : State U) (resolution : Resolution) : State U :=
  { s with reported := s.reported ++ [resolution] }

def State.addTransactionJob (s : State U) (resolution : Resolution) (answer : DbAnswer) :
    State U :=
  if answer.executed then { s with dispatched := s.dispatched ++ [resolution] } else s

section Turns

variable [DecidableEq U]

def State.updateStatus (s : State U) (update : StatusUpdate U) (answer : DbAnswer) : State U :=
  { s with row := s.row.step (update, answer) }

def turn (answer : DbAnswer) (s : State U) (phase : Phase) : State U × Phase :=
  match phase with
  | .updating decision =>
    (s.updateStatus decision.update answer,
      if answer = .answered then
        if decision.update.Accepts s.row then
          .patching ⟨decision, s.row.status, endedHolds s.row⟩
        else .returned false
      else .threw)
  | .patching resolution =>
    if answer = .answered then
      match resolution.decision with
      | .release => (s, .finding resolution)
      | .reject => (s.report resolution, .returned true)
    else (s, .threw)
  | .finding resolution => (s, if answer = .answered then .adding resolution else .threw)
  | .adding resolution =>
    if answer = .answered then
      ((s.addTransactionJob resolution answer).report resolution, .returned true)
    else (s.addTransactionJob resolution answer, .threw)
  | phase => (s, phase)

def Phase.AtRest : Phase → Bool
  | .idle | .returned _ | .threw => true
  | _ => false

def step (input : Input U) (s : State U) (phase : Phase) : State U × Phase :=
  match input with
  | .resolveHold decision => (s, if phase.AtRest then .updating decision else phase)
  | .updateStatus update answer => (s.updateStatus update answer, phase)
  | .turn answer => turn answer s phase
  | .missing =>
    match phase with
    | .finding resolution => (s.report resolution, .returned true)
    | phase => (s, phase)
  | .crash => (s, .threw)

end Turns

abbrev World (U ι : Type) := Interleaving.World (State U) ι Phase

/-- A transaction is created as pending. -/
def World.init {ι : Type} (userId : U) : World U ι :=
  ⟨⟨⟨userId, .pending, [], []⟩, [], []⟩, fun _ => .idle⟩

/-! ## Holds that are resolved once -/

open Interleaving

variable {ι : Type}

/-- How often the transaction has been put on hold. -/
def holds (row : StatusHistory U) : ℕ :=
  row.changes.countP fun change => change.2 = .pendingReview

/-- Calls succeed for a held transaction only, no two of them for one hold, and no hold has two
jobs. -/
structure Lawful (s : State U) : Prop where
  held : ∀ resolution ∈ s.reported, resolution.found = .pendingReview
  once : (s.reported.map (·.hold)).Nodup
  resolved : s.reported.length ≤ holds s.row
  released : ∀ resolution ∈ s.dispatched,
    resolution.found = .pendingReview ∧ resolution.decision = .release
  dispatchedOnce : (s.dispatched.map (·.hold)).Nodup
  dispatched : s.dispatched.length ≤ holds s.row

/-- A decision whose statement is answered does not find the transaction in the status that it
asks for. -/
def FindsOther (input : Input U) (s : State U) (phase : Phase) : Prop :=
  match input, phase with
  | .turn .answered, .updating decision => s.row.status ≠ decision.target
  | _, _ => True

instance (input : Input U) (s : State U) (phase : Phase) :
    Decidable (FindsOther input s phase) := by
  unfold FindsOther
  split <;> infer_instance

/-! ## The row -/

section Row

variable {row : StatusHistory U}

theorem endedHolds_set (row : StatusHistory U) (status : TransactionStatus) :
    endedHolds (row.set status) =
      endedHolds row + if row.status = .pendingReview ∧ row.status ≠ status then 1 else 0 := by
  unfold StatusHistory.set endedHolds
  grind

theorem holds_set (row : StatusHistory U) (status : TransactionStatus) :
    holds (row.set status) =
      holds row + if status = .pendingReview ∧ row.status ≠ status then 1 else 0 := by
  unfold StatusHistory.set holds
  grind

theorem Decision.target_ne (decision : Decision) : decision.target ≠ .pendingReview := by
  cases decision <;> nofun

/-- A decision that finds the transaction in another status than it asks for finds it held. -/
theorem held_of_accepts {decision : Decision} (h : decision.update.Accepts row)
    (other : row.status ≠ decision.target) : row.status = .pendingReview := by
  rcases h.1 with hsame | hheld
  · exact absurd hsame other
  · exact List.mem_singleton.1 hheld

variable [DecidableEq U]

/-- A statement either leaves the row or sets its status. -/
theorem row_step_cases (row : StatusHistory U) (call : StatusUpdate U × DbAnswer) :
    (row.step call).changes = row.changes ∧ (row.step call).status = row.status ∨
      (row.step call).changes = (row.set call.1.status).changes ∧
        (row.step call).status = call.1.status := by
  unfold StatusHistory.step
  by_cases hfound : call.1.Accepts row ∧ call.2.executed
  · rw [if_pos hfound]
    exact Or.inr ⟨rfl, rfl⟩
  · rw [if_neg hfound]
    exact Or.inl ⟨rfl, rfl⟩

/-- A transaction that is held has been put on hold once more than it has come off it. -/
theorem holds_step (h : holds row = endedHolds row + if row.status = .pendingReview then 1 else 0)
    (call : StatusUpdate U × DbAnswer) :
    holds (row.step call) =
      endedHolds (row.step call) + if (row.step call).status = .pendingReview then 1 else 0 := by
  rcases row_step_cases row call with ⟨hchanges, hstatus⟩ | ⟨hchanges, hstatus⟩
  · rw [hstatus]
    unfold holds endedHolds at h ⊢
    rw [hchanges, h]
  · have more := holds_set row call.1.status
    have ended := endedHolds_set row call.1.status
    unfold holds at h more ⊢
    unfold endedHolds at h ended ⊢
    rw [hchanges, hstatus, more, ended, h]
    grind

theorem endedHolds_le_step (call : StatusUpdate U × DbAnswer) :
    endedHolds row ≤ endedHolds (row.step call) := by
  rcases row_step_cases row call with ⟨hchanges, -⟩ | ⟨hchanges, -⟩
  · unfold endedHolds
    rw [hchanges]
  · have ended := endedHolds_set row call.1.status
    unfold endedHolds at ended ⊢
    rw [hchanges, ended]
    exact Nat.le_add_right _ _

/-- The decision ends the hold that it finds. -/
theorem endedHolds_update {decision : Decision} (h : decision.update.Accepts row)
    (held : row.status = .pendingReview) :
    endedHolds (row.step (decision.update, .answered)) = endedHolds row + 1 := by
  have ended := endedHolds_set row decision.target
  rw [if_pos ⟨held, held.trans_ne decision.target_ne.symm⟩] at ended
  rw [← ended, StatusHistory.step, if_pos ⟨h, rfl⟩]
  rfl

end Row

/-! ## Turns -/

/-- The call has taken a decision on the hold and not reported it. -/
def Phase.claims (hold : ℕ) : Phase → ℕ
  | .patching resolution | .finding resolution | .adding resolution =>
    if resolution.hold = hold then 1 else 0
  | _ => 0

def State.over (hold : ℕ) (s : State U) : ℕ := if hold < endedHolds s.row then 1 else 0

def State.reports (hold : ℕ) (s : State U) : ℕ := (s.reported.map (·.hold)).count hold

def State.jobs (hold : ℕ) (s : State U) : ℕ := (s.dispatched.map (·.hold)).count hold

structure State.Sound (s : State U) : Prop where
  alternates :
    holds s.row = endedHolds s.row + if s.row.status = .pendingReview then 1 else 0
  held : ∀ resolution ∈ s.reported, resolution.found = .pendingReview
  released : ∀ resolution ∈ s.dispatched,
    resolution.found = .pendingReview ∧ resolution.decision = .release

def Phase.Sound : Phase → Prop
  | .patching resolution => resolution.found = .pendingReview
  | .finding resolution | .adding resolution =>
    resolution.found = .pendingReview ∧ resolution.decision = .release
  | _ => True

section Steps

variable {s : State U}

theorem State.Sound.report (h : s.Sound) {resolution : Resolution}
    (held : resolution.found = .pendingReview) : (s.report resolution).Sound := by
  refine ⟨h.alternates, ?_, h.released⟩
  intro resolution' hmem
  rcases List.mem_append.1 hmem with hmem | hmem
  · exact h.held resolution' hmem
  · rw [List.mem_singleton.1 hmem]
    exact held

theorem State.Sound.addTransactionJob (h : s.Sound) {resolution : Resolution}
    (held : resolution.found = .pendingReview) (release : resolution.decision = .release)
    (answer : DbAnswer) : (s.addTransactionJob resolution answer).Sound := by
  unfold State.addTransactionJob
  split_ifs
  · refine ⟨h.alternates, h.held, ?_⟩
    intro resolution' hmem
    rcases List.mem_append.1 hmem with hmem | hmem
    · exact h.released resolution' hmem
    · rw [List.mem_singleton.1 hmem]
      exact ⟨held, release⟩
  · exact h

theorem reports_report (resolution : Resolution) (hold : ℕ) :
    (s.report resolution).reports hold =
      s.reports hold + if resolution.hold = hold then 1 else 0 := by
  unfold State.report State.reports
  grind

@[simp] theorem over_report (resolution : Resolution) (hold : ℕ) :
    (s.report resolution).over hold = s.over hold := rfl

@[simp] theorem jobs_report (resolution : Resolution) (hold : ℕ) :
    (s.report resolution).jobs hold = s.jobs hold := rfl

theorem jobs_addTransactionJob (resolution : Resolution) (answer : DbAnswer) (hold : ℕ) :
    (s.addTransactionJob resolution answer).jobs hold =
      s.jobs hold + if answer.executed ∧ resolution.hold = hold then 1 else 0 := by
  unfold State.addTransactionJob State.jobs
  grind

theorem reports_addTransactionJob (resolution : Resolution) (answer : DbAnswer) (hold : ℕ) :
    (s.addTransactionJob resolution answer).reports hold = s.reports hold := by
  unfold State.addTransactionJob
  split_ifs <;> rfl

theorem over_addTransactionJob (resolution : Resolution) (answer : DbAnswer) (hold : ℕ) :
    (s.addTransactionJob resolution answer).over hold = s.over hold := by
  unfold State.addTransactionJob
  split_ifs <;> rfl

variable [DecidableEq U]

@[simp] theorem reports_updateStatus (update : StatusUpdate U) (answer : DbAnswer) (hold : ℕ) :
    (s.updateStatus update answer).reports hold = s.reports hold := rfl

@[simp] theorem jobs_updateStatus (update : StatusUpdate U) (answer : DbAnswer) (hold : ℕ) :
    (s.updateStatus update answer).jobs hold = s.jobs hold := rfl

theorem over_le_updateStatus (update : StatusUpdate U) (answer : DbAnswer) (hold : ℕ) :
    s.over hold ≤ (s.updateStatus update answer).over hold := by
  have more : endedHolds s.row ≤ endedHolds (s.updateStatus update answer).row :=
    endedHolds_le_step (update, answer)
  unfold State.over
  split_ifs <;> omega

/-- The decision takes the hold that it ends. -/
theorem over_update {decision : Decision} (h : decision.update.Accepts s.row)
    (held : s.row.status = .pendingReview) (hold : ℕ) :
    s.over hold + (if endedHolds s.row = hold then 1 else 0) =
      (s.updateStatus decision.update .answered).over hold := by
  have more : endedHolds (s.updateStatus decision.update .answered).row = endedHolds s.row + 1 :=
    endedHolds_update h held
  unfold State.over
  split_ifs <;> omega

theorem State.Sound.updateStatus (h : s.Sound) (update : StatusUpdate U) (answer : DbAnswer) :
    (s.updateStatus update answer).Sound :=
  ⟨holds_step h.alternates (update, answer), h.held, h.released⟩

theorem step_sound (h : s.Sound) {input : Input U} {phase : Phase} (hphase : phase.Sound)
    (other : FindsOther input s phase) :
    (step input s phase).1.Sound ∧ (step input s phase).2.Sound := by
  cases input with
  | resolveHold decision =>
    refine ⟨h, ?_⟩
    simp only [step]
    split_ifs
    · exact trivial
    · exact hphase
  | updateStatus update answer => exact ⟨h.updateStatus update answer, hphase⟩
  | crash => exact ⟨h, trivial⟩
  | missing =>
    cases phase with
    | finding resolution => exact ⟨h.report hphase.1, trivial⟩
    | _ => exact ⟨h, hphase⟩
  | turn answer =>
    cases phase with
    | updating decision =>
      refine ⟨h.updateStatus decision.update answer, ?_⟩
      simp only [step, turn]
      split_ifs with hanswer haccepts
      · subst hanswer
        exact held_of_accepts haccepts other
      · exact trivial
      · exact trivial
    | patching resolution =>
      simp only [step, turn]
      split_ifs
      · cases hdecision : resolution.decision with
        | release => exact ⟨h, hphase, hdecision⟩
        | reject => exact ⟨h.report hphase, trivial⟩
      · exact ⟨h, trivial⟩
    | finding resolution =>
      refine ⟨h, ?_⟩
      simp only [step, turn]
      split_ifs
      · exact hphase
      · exact trivial
    | adding resolution =>
      have added := h.addTransactionJob hphase.1 hphase.2 answer
      simp only [step, turn]
      split_ifs
      · exact ⟨added.report hphase.1, trivial⟩
      · exact ⟨added, trivial⟩
    | _ => exact ⟨h, hphase⟩

/-- A turn reports or dispatches what its call has taken, and takes what is over from then on. -/
theorem step_accounts {input : Input U} {phase : Phase} (other : FindsOther input s phase)
    (hold : ℕ) :
    (step input s phase).1.reports hold + (step input s phase).2.claims hold + s.over hold ≤
        (step input s phase).1.over hold + (s.reports hold + phase.claims hold) ∧
      (step input s phase).1.jobs hold + (step input s phase).2.claims hold + s.over hold ≤
        (step input s phase).1.over hold + (s.jobs hold + phase.claims hold) := by
  cases input with
  | resolveHold decision =>
    simp only [step]
    split_ifs
    · simp only [Phase.claims]
      omega
    · omega
  | updateStatus update answer =>
    have more := over_le_updateStatus (s := s) update answer hold
    exact ⟨by simp only [step, reports_updateStatus]; omega,
      by simp only [step, jobs_updateStatus]; omega⟩
  | crash =>
    simp only [step, Phase.claims]
    omega
  | missing =>
    cases phase with
    | finding resolution =>
      simp only [step, Phase.claims, reports_report, over_report, jobs_report]
      omega
    | _ =>
      simp only [step]
      omega
  | turn answer =>
    cases phase with
    | updating decision =>
      have more := over_le_updateStatus (s := s) decision.update answer hold
      simp only [step, turn, reports_updateStatus, jobs_updateStatus]
      split_ifs with hanswer haccepts
      · subst hanswer
        have taken := over_update haccepts (held_of_accepts haccepts other) hold
        simp only [Phase.claims]
        omega
      · simp only [Phase.claims]
        omega
      · simp only [Phase.claims]
        omega
    | patching resolution =>
      simp only [step, turn]
      split_ifs
      · cases resolution.decision with
        | release =>
          simp only [Phase.claims]
          omega
        | reject =>
          simp only [Phase.claims, reports_report, over_report, jobs_report]
          omega
      · simp only [Phase.claims]
        omega
    | finding resolution =>
      simp only [step, turn]
      split_ifs
      · simp only [Phase.claims]
        omega
      · simp only [Phase.claims]
        omega
    | adding resolution =>
      simp only [step, turn]
      split_ifs
      · simp only [Phase.claims, reports_report, over_report, jobs_report,
          reports_addTransactionJob, over_addTransactionJob, jobs_addTransactionJob]
        grind
      · simp only [Phase.claims,
          reports_addTransactionJob, over_addTransactionJob, jobs_addTransactionJob]
        grind
    | _ =>
      simp only [step, turn]
      omega

end Steps

/-! ## Runs -/

/-- What a call may still report or dispatch is over, and nobody else has it. -/
def Claimed (w : World U ι) : Prop :=
  ∀ hold, Covered (Phase.claims hold) (State.reports hold) (State.over hold) w ∧
    Covered (Phase.claims hold) (State.jobs hold) (State.over hold) w

/-- Numbers below a bound, none of them twice. -/
theorem nodup_of_counts {numbers : List ℕ} {bound : ℕ}
    (h : ∀ n, numbers.count n ≤ if n < bound then 1 else 0) :
    numbers.Nodup ∧ numbers.length ≤ bound := by
  have hnodup : numbers.Nodup := by
    refine List.nodup_iff_count_le_one.2 fun n => (h n).trans ?_
    split_ifs <;> decide
  have below : ∀ n ∈ numbers, n ∈ List.range bound := by
    intro n hmem
    by_contra hnot
    have none_ := h n
    rw [if_neg fun hlt => hnot (List.mem_range.2 hlt)] at none_
    exact absurd (List.count_pos_iff.2 hmem) (by omega)
  have enough := (hnodup.subperm below).length_le
  rw [List.length_range] at enough
  exact ⟨hnodup, enough⟩

theorem Lawful.of_sound {w : World U ι} (sound : w.shared.Sound) (claimed : Claimed w) :
    Lawful w.shared := by
  have bounded : endedHolds w.shared.row ≤ holds w.shared.row := by
    rw [sound.alternates]
    exact Nat.le_add_right _ _
  obtain ⟨once, resolved⟩ := nodup_of_counts fun hold => (claimed hold).1 ∅
  obtain ⟨dispatchedOnce, dispatched⟩ := nodup_of_counts fun hold => (claimed hold).2 ∅
  rw [List.length_map] at resolved dispatched
  exact ⟨sound.held, once, resolved.trans bounded, sound.released, dispatchedOnce,
    dispatched.trans bounded⟩

variable [DecidableEq U] [DecidableEq ι]

theorem claimed_advance {w : World U ι} (h : Claimed w) {turn : ι × Input U}
    (other : FindsOther turn.2 w.shared (w.locals turn.1)) : Claimed (advance step w turn) := by
  intro hold
  obtain ⟨reports, jobs⟩ := step_accounts other hold
  exact ⟨covered_advance (h hold).1 reports, covered_advance (h hold).2 jobs⟩

/-- In a run in which no decision finds the transaction in the status that it asks for, a call
succeeds for a held transaction only, and every hold is resolved and dispatched at most once. -/
theorem holds_resolved_once (userId : U) {schedule : List (ι × Input U)}
    (other : Runs.Every (advance step)
      (fun w turn => FindsOther turn.2 w.shared (w.locals turn.1))
      (World.init userId : World U ι) schedule) {pre : List (ι × Input U)}
    (h : pre <+: schedule) : Lawful (run step (World.init userId : World U ι) pre).shared := by
  have start : Holds State.Sound (fun _ phase => phase.Sound) (World.init userId : World U ι) :=
    ⟨⟨rfl, nofun, nofun⟩, fun _ => trivial⟩
  have sound := inv_run_of_every _ (fun w turn hw hturn => holds_advance hw
    (step_sound hw.1 (hw.2 turn.1) hturn) fun _ hphase => hphase) start (other.of_prefix h)
  have unclaimed : Claimed (World.init userId : World U ι) := by
    intro hold
    have nothing : Covered (Phase.claims hold) (fun _ => 0) (State.over hold)
        (World.init userId : World U ι) := by
      intro processes
      simp [World.init, Phase.claims]
    exact ⟨nothing, nothing⟩
  have claimed := inv_run_of_every Claimed (fun w turn hw hturn => claimed_advance hw hturn)
    unclaimed (other.of_prefix h)
  exact .of_sound sound.1 claimed

/-- The hold of the velocity check. -/
def putOnHold : Input ℕ := .updateStatus ⟨.pendingReview, none, some [.pending]⟩ .answered

/-- A call whose statements are all answered. -/
def resolveAlone (i : ℕ) (decision : Decision) : List (ℕ × Input ℕ) :=
  [(i, .resolveHold decision), (i, .turn .answered), (i, .turn .answered), (i, .turn .answered),
    (i, .turn .answered)]

/-- One of two reviewers releases the transaction; a third one comes when it is processed. -/
theorem one_reviewer_releases :
    let schedule := (0, putOnHold) :: (2, Input.resolveHold .reject) :: resolveAlone 1 .release ++
      [(2, Input.turn .answered), (0, Input.updateStatus ⟨.processing, none, none⟩ .answered)] ++
      resolveAlone 3 .release
    let final := run step (World.init 7 : World ℕ ℕ) schedule
    final.locals 1 = .returned true ∧ final.locals 2 = .returned false ∧
      final.locals 3 = .returned false ∧ final.shared.dispatched.length = 1 ∧
      Lawful final.shared := by
  intro schedule final
  refine ⟨by decide +kernel, by decide +kernel, by decide +kernel, by decide +kernel, ?_⟩
  exact holds_resolved_once 7 (by decide +kernel) (List.prefix_refl schedule)

/-- Two reviewers release one hold, and both succeed; and so does the release of a transaction that
has never been held. -/
theorem second_release_succeeds :
    let final := run step (World.init 7 : World ℕ ℕ)
      ((0, putOnHold) :: resolveAlone 1 .release ++ resolveAlone 2 .release)
    let unheld := run step (World.init 7 : World ℕ ℕ) (resolveAlone 1 .release)
    final.locals 1 = .returned true ∧ final.locals 2 = .returned true ∧
      final.shared.dispatched.length = 2 ∧ holds final.shared.row = 1 ∧ ¬ Lawful final.shared ∧
      unheld.locals 1 = .returned true ∧ holds unheld.shared.row = 0 ∧ ¬ Lawful unheld.shared := by
  intro final unheld
  refine ⟨by decide +kernel, by decide +kernel, by decide +kernel, by decide +kernel, ?_,
    by decide +kernel, by decide +kernel, ?_⟩
  · intro lawful
    exact absurd lawful.dispatched (by decide +kernel)
  · intro lawful
    exact absurd lawful.resolved (by decide +kernel)

end MobileMoney.Aml.Holds
