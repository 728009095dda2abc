import MobileMoney.Custody.Lifecycle

/-!
# The daily cap of a custody account

The cap is checked against the requests that are approved, when a request is made; the pending
ones may be approved later. The day stays within the cap as long as what a check has found to fit
fits next to the pending ones too when it is inserted, and nothing is given up under a call that
is about to approve it.
-/

namespace MobileMoney.Custody

open Interleaving

variable {K R A ι : Type} [DecidableEq A]

@[grind =] def counted : List MultisigRequestStatus := [.approved, .executed]

/-- Those that are counted and those that still may be. -/
def committed : List MultisigRequestStatus := [.pending, .approved, .executed]

/-! ## The total of a day -/

theorem apply_amountXaf (change : Change A) (request : MultisigRequest K R A) :
    (change.apply request).amountXaf = request.amountXaf := by
  cases change with
  | sign signerId =>
    simp only [Change.apply]
    split_ifs <;> rfl
  | count => rfl
  | setStatus status => rfl

theorem on_apply (change : Change A) (request : MultisigRequest K R A) (account : K) (day : ℕ) :
    (change.apply request).On account day ↔ request.On account day := by
  cases change with
  | sign signerId =>
    simp only [Change.apply]
    split_ifs <;> exact Iff.rfl
  | count => exact Iff.rfl
  | setStatus status => exact Iff.rfl

theorem committed_of_apply {change : Change A} {request : MultisigRequest K R A}
    (h : ∀ status, change = .setStatus status → status ∈ committed → request.status ∈ committed)
    (hnew : (change.apply request).status ∈ committed) : request.status ∈ committed := by
  cases change with
  | sign signerId =>
    simp only [Change.apply] at hnew
    split_ifs at hnew <;> exact hnew
  | count => exact hnew
  | setStatus status => exact h status rfl hnew

variable [DecidableEq K] [DecidableEq R]

theorem total_modify_le {s s' : State K R A} {id : R} {change : Change A}
    (h : s'.requests = s.requests.modify id change.apply change.apply_id)
    (hfound : ∀ request ∈ s.requests.find? id, ∀ status, change = .setStatus status →
      status ∈ committed → request.status ∈ committed) (account : K) (day : ℕ) :
    s'.total account day committed ≤ s.total account day committed := by
  simp only [State.total, h, Keyed.modify]
  apply Budget.total_map_le
  · intro request
    split_ifs
    · exact apply_amountXaf change request
    · rfl
  · intro request hrequest
    split_ifs with hid
    · rintro ⟨hon, hstatus⟩
      refine ⟨(on_apply change request account day).1 hon, committed_of_apply ?_ hstatus⟩
      apply hfound
      rw [← hid]
      exact Keyed.find?_of_mem hrequest
    · exact fun hcounts => hcounts

omit [DecidableEq A] in
theorem total_insert {s s' : State K R A} {request : MultisigRequest K R A}
    (hnew : s.requests.find? request.id = none) (h : s'.requests = s.requests.insert request)
    (account : K) (day : ℕ) : s'.total account day committed =
      s.total account day committed +
        if request.On account day ∧ request.status ∈ committed then request.amountXaf else 0 := by
  rw [State.total, h, Keyed.rows_insert hnew, Budget.total_concat]
  rfl

/-! ## The law -/

/-- The withdrawal whose request a call is about to store, and the total it has been checked
with. -/
def Phase.inserting : Phase K R A → Option (Withdrawal K × ℕ)
  | .insertRequest withdrawal dailyTotal _ _ => some (withdrawal, dailyTotal)
  | _ => none

/-- The request that a call is about to approve or to execute, and the status in which it has found
it. -/
def Phase.advances : Phase K R A → Option (R × MultisigRequestStatus)
  | .approve id found | .execute id found => some (id, found)
  | _ => none

variable [DecidableEq ι] (configs : K → Option MultisigConfig)

/-- A request that has fitted under the cap by its check, next to what was counted then, fits when
it is inserted next to those of its day that are counted or pending. One that was counted or
pending when a call has found it is so still when the call approves or executes it. -/
def Undisturbed (w : World K R A ι) (turn : ι × Input K R A) : Prop :=
  (∀ checked ∈ (w.locals turn.1).inserting, turn.2.Inserts →
    ∀ config ∈ configs checked.1.account,
      checked.2 + checked.1.amountXaf ≤ config.dailyCapXaf →
      w.shared.total checked.1.account (dayOf w.shared.now) committed + checked.1.amountXaf ≤
        config.dailyCapXaf) ∧
  ∀ found ∈ (w.locals turn.1).advances, turn.2.Executes → found.2 ∈ committed →
    ∀ request ∈ w.shared.requests.find? found.1, request.status ∈ committed

instance (w : World K R A ι) (turn : ι × Input K R A) : Decidable (Undisturbed configs w turn) :=
  inferInstanceAs (Decidable ((∀ _ ∈ _, _ → ∀ _ ∈ _, _ → _) ∧ ∀ _ ∈ _, _ → _ → ∀ _ ∈ _, _))

def WithinCaps (statuses : List MultisigRequestStatus) (w : World K R A ι) : Prop :=
  ∀ account, ∀ config ∈ configs account, ∀ day,
    w.shared.total account day statuses ≤ config.dailyCapXaf

variable {configs}

/-- What the checks of a call have let pass. -/
def Phase.Checked (configs : K → Option MultisigConfig) : Phase K R A → Prop
  | .getDailyTotal withdrawal config => config ∈ configs withdrawal.account
  | .getConfigById withdrawal dailyTotal | .insertRequest withdrawal dailyTotal _ _ =>
    ∀ config ∈ configs withdrawal.account,
      dailyTotal + withdrawal.amountXaf ≤ config.dailyCapXaf
  | .getSigners _ _ _ found | .getSignature _ _ found | .insertSignature _ _ found
  | .incrementSignatureCount _ found | .logSignature _ _ found | .approve _ found
  | .execute _ found => found ∈ committed
  | _ => True

omit [DecidableEq K] [DecidableEq R] [DecidableEq A] in
theorem checkTransactionCap_checked (withdrawal : Withdrawal K) :
    (checkTransactionCap withdrawal ((configs withdrawal.account).filter (·.isActive)) :
      Phase K R A).Checked configs := by
  cases hfound : (configs withdrawal.account).filter (·.isActive) with
  | none => exact trivial
  | some config =>
    simp only [checkTransactionCap]
    split_ifs
    · exact trivial
    · exact (Option.filter_eq_some_iff.1 hfound).1

omit [DecidableEq K] [DecidableEq R] [DecidableEq A] in
theorem checkDailyCap_checked {withdrawal : Withdrawal K} {config : MultisigConfig}
    (h : config ∈ configs withdrawal.account) (dailyTotal : ℕ) :
    (checkDailyCap withdrawal config dailyTotal : Phase K R A).Checked configs := by
  simp only [checkDailyCap]
  split_ifs with hexceeds
  · exact trivial
  · intro config' hconfig'
    rw [Option.mem_unique hconfig' h]
    exact Nat.le_of_not_lt hexceeds

omit [DecidableEq ι] in
theorem next_checked (s : State K R A) {phase : Phase K R A} (h : phase.Checked configs) :
    (phase.next configs s).Checked configs := by
  cases phase with
  | getMultisigConfig withdrawal => exact checkTransactionCap_checked withdrawal
  | getDailyTotal withdrawal config => exact checkDailyCap_checked h _
  | getConfigById withdrawal dailyTotal =>
    simp only [Phase.next]
    cases configs withdrawal.account with
    | none => exact trivial
    | some config => exact h
  | findToSign id signerId =>
    simp only [Phase.next]
    cases s.requests.find? id with
    | none => exact trivial
    | some request =>
      simp only [checkToSign]
      split_ifs with hstatus
      · exact trivial
      · exact trivial
      · simp only [Phase.Checked, not_not.1 hstatus]
        decide
  | getSigners | getSignature | insertSignature =>
    simp only [Phase.next]
    split_ifs
    · first | exact h | exact trivial
    · first | exact h | exact trivial
  | incrementSignatureCount id found =>
    simp only [Phase.next]
    cases s.requests.find? id with
    | none => exact trivial
    | some request => exact h
  | logSignature id fullyApproved found =>
    cases fullyApproved with
    | true => exact h
    | false => exact trivial
  | findToExecute id =>
    simp only [Phase.next]
    cases s.requests.find? id with
    | none => exact trivial
    | some request =>
      simp only [checkToExecute]
      split_ifs with hstatus
      · exact trivial
      · simp only [Phase.Checked, not_not.1 hstatus]
        decide
  | findToCancel id =>
    simp only [Phase.next]
    cases s.requests.find? id with
    | none => exact trivial
    | some request =>
      simp only [checkToCancel]
      split_ifs <;> exact trivial
  | getConfigToCancel id account createdAt =>
    simp only [Phase.next]
    cases configs account with
    | none => exact trivial
    | some config =>
      simp only [checkTimeLock]
      split_ifs <;> exact trivial
  | approve | execute => exact trivial
  | _ => exact h

omit [DecidableEq ι] in
theorem step_checked (input : Input K R A) (s : State K R A) {phase : Phase K R A}
    (h : phase.Checked configs) : (step configs input s phase).2.Checked configs := by
  cases input with
  | passes | setSigners => exact h
  | crash => exact trivial
  | begin call =>
    simp only [step]
    split_ifs
    · cases call <;> exact trivial
    · exact h
  | query answer =>
    simp only [step, query]
    split_ifs
    · exact next_checked s h
    · exact trivial
    · exact h
  | insert id answer =>
    cases phase with
    | insertRequest withdrawal dailyTotal requiredSignatures expiresAt =>
      simp only [step, insert]
      split_ifs <;> exact trivial
    | _ => exact h

omit [DecidableEq K] [DecidableEq R] [DecidableEq A] in
/-- Nothing is made pending again, and what is approved or executed has been found as it should. -/
theorem advances_of_statement {phase : Phase K R A} {id : R} {status : MultisigRequestStatus}
    (h : phase.statement = some (id, .setStatus status)) (hstatus : status ∈ committed)
    (hchecked : phase.Checked configs) :
    ∃ found, phase.advances = some (id, found) ∧ found ∈ committed := by
  cases phase with
  | approve id' found | execute id' found =>
    cases h
    exact ⟨found, rfl, hchecked⟩
  | expire | cancel =>
    cases h
    exact absurd hstatus (by decide)
  | _ => cases h

theorem withinCaps_advance {w : World K R A ι} {turn : ι × Input K R A}
    (h : WithinCaps configs committed w) (hchecked : (w.locals turn.1).Checked configs)
    (calm : Undisturbed configs w turn) :
    WithinCaps configs committed (advance (step configs) w turn) := by
  intro account config hconfig day
  have hbefore := h account config hconfig day
  rw [advance_shared]
  rcases step_requests configs turn.2 w.shared (w.locals turn.1) with
    hsame | ⟨id, change, hstatement, hexecutes, hrows⟩ |
    ⟨withdrawal, dailyTotal, id, required, expiresAt, hphase, hinserts, hadmits, hrows⟩
  · simpa only [State.total, hsame] using hbefore
  · refine (total_modify_le hrows ?_ account day).trans hbefore
    rintro request hfound status rfl hstatus
    obtain ⟨found, hadvances, hbefore'⟩ := advances_of_statement hstatement hstatus hchecked
    exact calm.2 (id, found) hadvances hexecutes hbefore' request hfound
  · rw [total_insert hadmits.2 hrows]
    split_ifs with hon
    · obtain ⟨⟨rfl, rfl⟩, -⟩ := hon
      have hinserting : (withdrawal, dailyTotal) ∈ (w.locals turn.1).inserting := by
        rw [hphase]
        rfl
      rw [hphase] at hchecked
      exact calm.1 _ hinserting hinserts config hconfig (hchecked config hconfig)
    · exact hbefore

end MobileMoney.Custody
