import MobileMoney.KycUpgrade.Program

/-!
# The life of an upgrade request

A decision is made on a request that is pending or notified, and under the lock of its row. The
mark of a notification has no such condition: it reopens a request that has been decided while the
mail was on its way. And an approval writes the level that was asked for, whatever the user has
reached by then.
-/

namespace MobileMoney.KycUpgrade

open Limits (KYCLevel)

variable {P : Type} {s : State P}

/-! ## The law -/

def Decision.status : Decision → RequestStatus
  | .approved _ _ _ => .approved
  | .rejected _ => .rejected

/-- An approval does not lower the level of the user. -/
def Decision.Raises : Decision → Prop
  | .approved _ before after => tier before ≤ tier after
  | .rejected _ => True

instance : DecidablePred Decision.Raises
  | .approved _ before after => inferInstanceAs (Decidable (tier before ≤ tier after))
  | .rejected _ => inferInstanceAs (Decidable True)

/-- The request is approved or rejected. -/
def State.Decided (s : State P) : Prop := ∃ request ∈ s.request, ¬ request.Reviewable

instance (s : State P) : Decidable s.Decided :=
  inferInstanceAs (Decidable (∃ request ∈ s.request, ¬ request.Reviewable))

/-- No more than one decision takes effect, and it has on a decided request; no approval has
lowered the level. -/
structure Lawful (s : State P) : Prop where
  once : s.decisions.length ≤ 1
  decided : s.Decided ↔ s.decisions.length = 1
  raises : ∀ decision ∈ s.decisions, decision.Raises

variable [DecidableEq P]

/-- In every run: what is approved or rejected stays so, and every state is lawful. -/
structure LifecycleLaw (level : KYCLevel) (events : List (Event P)) : Prop where
  absorbing : ∀ pre post, pre ++ post <+: events → ∀ request ∈ (run level pre).request,
    ¬ request.Reviewable → ((run level (pre ++ post)).request.map (·.status)) =
      some request.status
  lawful : ∀ pre, pre <+: events → Lawful (run level pre)

/-- No notification is marked on a decided request, and no approval is committed for a level
below that of the user. -/
def Careful (s : State P) : Event P → Prop
  | .notifyUserForUpgrade kycLevel answer =>
    (nextKycLevel kycLevel).isSome ∧ answer.executed → s.approval = none → ¬ s.Decided
  | .commit call answer => answer.executed = true →
    ∀ approval ∈ s.approvalAt call .marked, tier s.level ≤ tier approval.newKycLevel
  | _ => True

instance (s : State P) : ∀ e, Decidable (Careful s e)
  | .notifyUserForUpgrade kycLevel answer => inferInstanceAs (Decidable
      ((nextKycLevel kycLevel).isSome ∧ answer.executed → s.approval = none → ¬ s.Decided))
  | .commit call answer => inferInstanceAs (Decidable (answer.executed = true →
      ∀ approval ∈ s.approvalAt call .marked, tier s.level ≤ tier approval.newKycLevel))
  | .createUpgradeRequestIfNeeded _ _ _ | .selectForUpdate _ _ | .updateUser _ | .markApproved _
  | .rollback _ | .rejectKycUpgrade _ _ | .setLevel _ => inferInstanceAs (Decidable True)

/-! ## The invariant -/

omit [DecidableEq P] in
theorem decided_some {request : KycUpgradeRequest} (h : s.request = some request) :
    s.Decided ↔ ¬ request.Reviewable := by
  simp [State.Decided, h]

/-- Before a decision the request is open, and a transaction that holds its row has found it. -/
structure Undecided (s : State P) : Prop where
  none : s.decisions = []
  opened : ¬ s.Decided
  held : s.approval ≠ .none → s.request ≠ .none

/-- After it, the request has the status of the one decision. -/
inductive Settled (s : State P) : Prop where
  | undecided (before : Undecided s)
  | decided (decision : Decision) (one : s.decisions = [decision]) (raises : decision.Raises)
      (request : KycUpgradeRequest) (found : s.request = some request)
      (status : request.status = decision.status) (free : s.approval = .none)

theorem not_reviewable_of_status {request : KycUpgradeRequest} {decision : Decision}
    (h : request.status = decision.status) : ¬ request.Reviewable := by
  cases decision <;> simp [KycUpgradeRequest.Reviewable, h, Decision.status]

omit [DecidableEq P] in
theorem Settled.lawful (h : Settled s) : Lawful s := by
  cases h with
  | undecided before =>
    have none := before.none
    exact ⟨by simp [none], by simp [none, before.opened], by simp [none]⟩
  | decided decision one raises request found status free =>
    refine ⟨by simp [one], iff_of_true ?_ (by simp [one]), by simpa [one] using raises⟩
    exact (decided_some found).2 (not_reviewable_of_status status)

theorem approvalAt_eq_some {call : P} {progress : Progress} {approval : Approval P}
    (h : s.approvalAt call progress = some approval) :
    s.approval = some approval ∧ approval.call = call ∧ approval.progress = progress := by
  simpa [State.approvalAt, Option.filter_eq_some_iff] using h

theorem approvalAt_of_none (h : s.approval = none) (call : P) (progress : Progress) :
    s.approvalAt call progress = none := by
  simp [State.approvalAt, h]

/-- A careful step leaves a decided request alone. -/
theorem step_of_decided {request : KycUpgradeRequest} (found : s.request = some request)
    (closed : ¬ request.Reviewable) (free : s.approval = none) (e : Event P)
    (careful : Careful s e) : (step s e).request = some request ∧ (step s e).approval = none ∧
      (step s e).decisions = s.decisions := by
  have same : s.request = some request ∧ s.approval = none ∧ s.decisions = s.decisions :=
    ⟨found, free, rfl⟩
  have unlocked : ¬ s.approval.isSome := by simp [free]
  cases e with
  | createUpgradeRequestIfNeeded kycLevel existing answer =>
    have kept : createUpgradeRequestIfNeeded s kycLevel existing answer = s := by
      unfold createUpgradeRequestIfNeeded
      rw [found]
      cases nextKycLevel kycLevel <;> rfl
    rwa [step, kept]
  | notifyUserForUpgrade kycLevel answer =>
    have skipped : ¬ ((nextKycLevel kycLevel).isSome ∧ answer.executed) := fun hexecuted =>
      careful hexecuted free ((decided_some found).2 closed)
    rwa [step, if_neg unlocked, notifyUserForUpgrade, if_neg skipped]
  | selectForUpdate call options =>
    have kept : (selectForUpdate s call options).1 = s := by simp [selectForUpdate, found, closed]
    rwa [step, if_neg unlocked, kept]
  | updateUser call => rwa [step, State.proceed, approvalAt_of_none free]
  | markApproved call => rwa [step, State.proceed, approvalAt_of_none free]
  | commit call answer => rwa [step, approvalAt_of_none free]
  | rollback call => exact ⟨found, by simp [step, free], rfl⟩
  | rejectKycUpgrade options answer =>
    have kept : (rejectKycUpgrade s options answer).1 = s := by
      simp only [rejectKycUpgrade, found, if_neg closed]
      split_ifs <;> rfl
    rwa [step, if_neg unlocked, kept]
  | setLevel level =>
    rw [step]
    split_ifs <;> exact same

/-! ## Steps before the decision -/

omit [DecidableEq P] in
theorem Undecided.createUpgradeRequestIfNeeded (h : Undecided s) (kycLevel : KYCLevel)
    (existing : Bool) (answer : DbAnswer) :
    Undecided (createUpgradeRequestIfNeeded s kycLevel existing answer) := by
  unfold KycUpgrade.createUpgradeRequestIfNeeded
  split
  · split_ifs
    · refine ⟨h.none, ?_, fun _ => by simp⟩
      simp [State.Decided, KycUpgradeRequest.Reviewable]
    · exact h
  · exact h

omit [DecidableEq P] in
theorem Undecided.notifyUserForUpgrade (h : Undecided s) (kycLevel : KYCLevel)
    (answer : DbAnswer) : Undecided (notifyUserForUpgrade s kycLevel answer) := by
  unfold KycUpgrade.notifyUserForUpgrade
  split_ifs
  · refine ⟨h.none, ?_, ?_⟩
    · simp [State.Decided, KycUpgradeRequest.Reviewable]
    · simpa using h.held
  · exact h

omit [DecidableEq P] in
theorem Undecided.selectForUpdate (h : Undecided s) (call : P) (options : ApproveUpgradeOptions) :
    Undecided (selectForUpdate s call options).1 := by
  unfold KycUpgrade.selectForUpdate
  split
  · exact h
  · rename_i request hrequest
    split_ifs
    · exact ⟨h.none, h.opened, fun _ => by simp [hrequest]⟩
    · exact h

theorem Undecided.proceed (h : Undecided s) (call : P) (progress next : Progress) :
    Undecided (s.proceed call progress next) := by
  unfold State.proceed
  cases happroval : s.approvalAt call progress with
  | none => exact h
  | some approval =>
    obtain ⟨hopen, -, -⟩ := approvalAt_eq_some happroval
    exact ⟨h.none, h.opened, fun _ => h.held (by simp [hopen])⟩

omit [DecidableEq P] in
/-- The commit of the approval decides, unless it fails. -/
theorem Undecided.commit (h : Undecided s) {approval : Approval P}
    (hopen : s.approval = some approval) (answer : DbAnswer)
    (raises : answer.executed = true → tier s.level ≤ tier approval.newKycLevel) :
    Settled (commit s approval answer) := by
  obtain ⟨request, found⟩ := Option.ne_none_iff_exists'.1 (h.held (by simp [hopen]))
  unfold KycUpgrade.commit
  split_ifs with hexecuted
  · exact .decided (.approved approval.options.reviewedBy s.level approval.newKycLevel)
      (by rw [h.none]; rfl) (raises hexecuted) (request.approve approval.options)
      (by simp [found]) rfl rfl
  · exact .undecided ⟨h.none, h.opened, fun hsome => absurd rfl hsome⟩

omit [DecidableEq P] in
/-- So does a rejection, unless it fails. -/
theorem Undecided.rejectKycUpgrade (h : Undecided s) (free : s.approval = .none)
    (options : RejectUpgradeOptions) (answer : DbAnswer) :
    Settled (rejectKycUpgrade s options answer).1 := by
  unfold KycUpgrade.rejectKycUpgrade
  by_cases hreason : options.rejectionReason = ""
  · rw [if_pos hreason]
    exact .undecided h
  · rw [if_neg hreason]
    split
    · exact .undecided h
    · rename_i request hrequest
      by_cases hopen : request.Reviewable
      · rw [if_pos hopen]
        by_cases hexecuted : answer.executed
        · rw [if_pos hexecuted]
          exact .decided (.rejected options.reviewedBy) (by rw [h.none]; rfl) trivial
            (request.reject options) rfl rfl free
        · rw [if_neg hexecuted]
          exact .undecided h
      · rw [if_neg hopen]
        exact .undecided h

theorem settled_step (h : Settled s) (e : Event P) (careful : Careful s e) :
    Settled (step s e) := by
  cases h with
  | decided decision one raises request found status free =>
    obtain ⟨found', free', same⟩ :=
      step_of_decided found (not_reviewable_of_status status) free e careful
    exact .decided decision (same.trans one) raises request found' status free'
  | undecided before =>
    cases e with
    | createUpgradeRequestIfNeeded kycLevel existing answer =>
      exact .undecided (before.createUpgradeRequestIfNeeded kycLevel existing answer)
    | notifyUserForUpgrade kycLevel answer =>
      rw [step]
      split_ifs
      · exact .undecided before
      · exact .undecided (before.notifyUserForUpgrade kycLevel answer)
    | selectForUpdate call options =>
      rw [step]
      split_ifs
      · exact .undecided before
      · exact .undecided (before.selectForUpdate call options)
    | updateUser call => exact .undecided (before.proceed call .locked .levelSet)
    | markApproved call => exact .undecided (before.proceed call .levelSet .marked)
    | commit call answer =>
      simp only [step]
      cases happroval : s.approvalAt call .marked with
      | none => exact .undecided before
      | some approval =>
        exact before.commit (approvalAt_eq_some happroval).1 answer fun hexecuted =>
          careful hexecuted approval happroval
    | rollback call =>
      refine .undecided ⟨before.none, before.opened, fun hopen => before.held fun hnone => hopen ?_⟩
      rw [step, hnone, Option.filter_none]
    | rejectKycUpgrade options answer =>
      rw [step]
      split_ifs with hlocked
      · exact .undecided before
      · exact before.rejectKycUpgrade (by simpa using hlocked) options answer
    | setLevel level =>
      rw [step]
      split_ifs
      · exact .undecided before
      · exact .undecided ⟨before.none, before.opened, before.held⟩

/-- A step that is not careful ends in a state that is not lawful. -/
theorem careful_of_lawful (h : Settled s) (e : Event P) (lawful : Lawful (step s e)) :
    Careful s e := by
  cases e with
  | notifyUserForUpgrade kycLevel answer =>
    intro hexecuted free hdecided
    cases h with
    | undecided before => exact before.opened hdecided
    | decided decision one raises request found status _ =>
      simp only [step, free, Option.isSome_none, Bool.false_eq_true, if_false,
        notifyUserForUpgrade, if_pos hexecuted] at lawful
      have reopened := lawful.decided.2 (by simp [one])
      simp [State.Decided, KycUpgradeRequest.Reviewable] at reopened
  | commit call answer =>
    intro hexecuted approval happroval
    rw [Option.mem_def] at happroval
    simp only [step, happroval, commit, if_pos hexecuted] at lawful
    exact lawful.raises _ (List.mem_append_right _ (List.mem_singleton_self _))
  | createUpgradeRequestIfNeeded kycLevel existing answer => trivial
  | selectForUpdate call options => trivial
  | updateUser call => trivial
  | markApproved call => trivial
  | rollback call => trivial
  | rejectKycUpgrade options answer => trivial
  | setLevel level => trivial

/-! ## Runs -/

omit [DecidableEq P] in
theorem settled_start (level : KYCLevel) : Settled (start level : State P) :=
  .undecided ⟨rfl, by simp [start, State.Decided], fun hopen => absurd rfl hopen⟩

theorem settled_run {level : KYCLevel} {events : List (Event P)}
    (careful : Runs.Every step Careful (start level) events) : Settled (run level events) :=
  Runs.inv_foldl_of_every Settled (fun _ e h => settled_step h e) (settled_start level) events
    careful

/-- What is approved or rejected is never anything else in a careful run. -/
theorem decided_run {request : KycUpgradeRequest} (h : Settled s)
    (found : s.request = some request) (closed : ¬ request.Reviewable) (events : List (Event P))
    (careful : Runs.Every step Careful s events) :
    (events.foldl step s).request = some request := by
  have free : s.approval = none := by
    cases h with
    | undecided before => exact absurd ((decided_some found).2 closed) before.opened
    | decided decision one raises request found status free => exact free
  exact (Runs.inv_foldl_of_every (fun t : State P => t.request = some request ∧ t.approval = none)
    (fun _ e ht hcareful =>
      have kept := step_of_decided ht.1 closed ht.2 e hcareful
      ⟨kept.1, kept.2.1⟩) ⟨found, free⟩ events careful).1

/-- For every run on a request: approved and rejected are absorbing, one decision takes effect at
most and no approval lowers the level, if and only if no notification is marked on a decided
request and no approval is committed for a level below that of the user. -/
theorem lifecycle_iff (level : KYCLevel) (events : List (Event P)) :
    LifecycleLaw level events ↔ Runs.Every step Careful (start level) events := by
  have lawful_iff : (∀ pre, pre <+: events → Lawful (run level pre)) ↔
      Runs.Every step Careful (start level) events :=
    Runs.forall_prefix_iff_every_of_inv Lawful Settled (fun _ h => h.lawful)
      (fun _ e h => settled_step h e) (fun _ e h => careful_of_lawful h e) (settled_start level)
      events
  constructor
  · exact fun law => lawful_iff.1 law.lawful
  · intro careful
    refine ⟨?_, lawful_iff.2 careful⟩
    intro pre post hprefix request found closed
    have kept := careful.of_prefix hprefix
    have settled := settled_run (kept.of_prefix (List.prefix_append pre post))
    rw [run, List.foldl_append]
    exact congrArg _ (decided_run settled found closed post (kept.drop pre))

/-! ## A late notification, and a level that has been reached otherwise -/

def approvalBy (call : ℕ) : List (Event ℕ) :=
  [.selectForUpdate call ⟨"reviewer", none⟩, .updateUser call, .markApproved call,
    .commit call .answered]

/-- The request is approved while the mail is sent, and then rejected. -/
def lateNotification : List (Event ℕ) :=
  Event.createUpgradeRequestIfNeeded .unverified false .answered :: approvalBy 1 ++
    [.notifyUserForUpgrade .unverified .answered,
      .rejectKycUpgrade ⟨"other", none, "expired"⟩ .answered]

/-- The user is verified for the highest level before the request for the middle one is
approved. -/
def verifiedMeanwhile : List (Event ℕ) :=
  [.createUpgradeRequestIfNeeded .unverified false .answered,
    .notifyUserForUpgrade .unverified .answered, .setLevel .full] ++ approvalBy 1

theorem lifecycle_broken :
    ¬ LifecycleLaw .unverified lateNotification ∧ ¬ LifecycleLaw .unverified verifiedMeanwhile := by
  constructor
  · intro law
    have once := (law.lawful _ (List.prefix_refl _)).once
    exact absurd once (by decide)
  · intro law
    have raises := (law.lawful _ (List.prefix_refl _)).raises
    exact absurd raises (by decide)

end MobileMoney.KycUpgrade
