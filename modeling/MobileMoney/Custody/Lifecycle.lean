import MobileMoney.Custody.Program
import MobileMoney.Library.Quorum

/-!
# The life of a custody request

A request is executed on the signatures of enough signers whom the calls have found active,
whatever the order of the turns. That it stays in its final status, and is executed once, is as
good as the turns that write a status: none of them says in its statement what it wants to find.
-/

namespace MobileMoney.Custody

open Interleaving

variable {K R A : Type}

/-- The input makes the database execute the statement of a process. -/
def Input.Executes : Input K R A → Prop
  | .query answer => answer.executed = true
  | _ => False

/-- The input makes the database store a request. -/
def Input.Inserts : Input K R A → Prop
  | .insert _ answer => answer.executed = true
  | _ => False


instance (input : Input K R A) : Decidable input.Executes := by
  cases input <;> unfold Input.Executes <;> infer_instance

instance (input : Input K R A) : Decidable input.Inserts := by
  cases input <;> unfold Input.Inserts <;> infer_instance

/-- The status that the statement of a phase writes. -/
def Phase.writes (phase : Phase K R A) : Option (R × MultisigRequestStatus) :=
  match phase.statement with
  | some (id, .setStatus status) => some (id, status)
  | _ => none

theorem mem_writes {phase : Phase K R A} {id : R} {status : MultisigRequestStatus} :
    (id, status) ∈ phase.writes ↔ phase.statement = some (id, .setStatus status) := by
  cases phase <;> simp [Phase.writes, Phase.statement]

/-! ## What a turn does to the requests -/

section Effects

variable [DecidableEq K] [DecidableEq R] [DecidableEq A]
  (configs : K → Option MultisigConfig)

omit [DecidableEq K] in
theorem send_requests (s : State K R A) (phase : Phase K R A) (answer : DbAnswer) :
    (s.send phase answer).requests = s.requests ∨
      ∃ id change, phase.statement = some (id, change) ∧ answer.executed = true ∧
        (s.send phase answer).requests = s.requests.modify id change.apply change.apply_id := by
  unfold State.send
  cases hstatement : phase.statement with
  | none =>
    left
    simp only
    split_ifs
    · cases phase with
      | getSigners id account signerId =>
        simp only [State.vet]
        split_ifs <;> rfl
      | _ => rfl
    · rfl
  | some sent =>
    obtain ⟨id, change⟩ := sent
    simp only [State.execute]
    split_ifs with hexecuted
    · exact Or.inr ⟨id, change, rfl, hexecuted, rfl⟩
    · exact Or.inl rfl

omit [DecidableEq K] in
theorem send_vetted (s : State K R A) (phase : Phase K R A) (answer : DbAnswer) :
    s.vetted ⊆ (s.send phase answer).vetted := by
  unfold State.send
  cases phase.statement with
  | some sent =>
    simp only [State.execute]
    split_ifs <;> exact List.Subset.refl _
  | none =>
    simp only
    split_ifs
    · cases phase with
      | getSigners id account signerId =>
        simp only [State.vet]
        split_ifs
        · exact List.subset_cons_self _ _
        · exact List.Subset.refl _
      | _ => exact List.Subset.refl _
    · exact List.Subset.refl _

theorem step_query_fst (answer : DbAnswer) (s : State K R A) (phase : Phase K R A) :
    (step configs (.query answer) s phase).1 = if phase.Waits then s.send phase answer else s := by
  simp only [step, query]
  split_ifs <;> rfl

theorem step_requests (input : Input K R A) (s : State K R A) (phase : Phase K R A) :
    (step configs input s phase).1.requests = s.requests ∨
      (∃ id change, phase.statement = some (id, change) ∧ input.Executes ∧
        (step configs input s phase).1.requests =
          s.requests.modify id change.apply change.apply_id) ∨
      ∃ withdrawal dailyTotal id requiredSignatures expiresAt,
        phase = .insertRequest withdrawal dailyTotal requiredSignatures expiresAt ∧ input.Inserts ∧
        s.Admits (withdrawal.row id s.now requiredSignatures expiresAt) ∧
        (step configs input s phase).1.requests =
          s.requests.insert (withdrawal.row id s.now requiredSignatures expiresAt) := by
  cases input with
  | query answer =>
    rw [step_query_fst]
    split_ifs
    · rcases send_requests s phase answer with hsame | ⟨id, change, hstatement, hexecuted, hrows⟩
      · exact Or.inl hsame
      · exact Or.inr (Or.inl ⟨id, change, hstatement, hexecuted, hrows⟩)
    · exact Or.inl rfl
  | insert id answer =>
    cases phase with
    | insertRequest withdrawal dailyTotal requiredSignatures expiresAt =>
      simp only [step, insert]
      split_ifs with hadmits
      · exact Or.inr (Or.inr
          ⟨withdrawal, dailyTotal, id, requiredSignatures, expiresAt, rfl, hadmits.2, hadmits.1,
            rfl⟩)
      · exact Or.inl rfl
    | _ => exact Or.inl rfl
  | _ => exact Or.inl rfl

theorem step_vetted (input : Input K R A) (s : State K R A) (phase : Phase K R A) :
    s.vetted ⊆ (step configs input s phase).1.vetted := by
  cases input with
  | query answer =>
    rw [step_query_fst]
    split_ifs
    · exact send_vetted s phase answer
    · exact List.Subset.refl _
  | insert id answer =>
    cases phase with
    | insertRequest withdrawal dailyTotal requiredSignatures expiresAt =>
      simp only [step, insert]
      split_ifs <;> exact List.Subset.refl _
    | _ => exact List.Subset.refl _
  | _ => exact List.Subset.refl _

end Effects

/-! ## The signatures behind an approval -/

/-- The signer whom a call has found active and is signing for. -/
def Phase.vetting : Phase K R A → Option (R × A)
  | .getSignature id signerId _ | .insertSignature id signerId _ => some (id, signerId)
  | _ => none

/-- The request that a call takes for one with enough signatures. -/
def Phase.relies : Phase K R A → Option R
  | .logSignature id true _ | .approve id _ | .execute id _ => some id
  | _ => none

/-- The request for which a call has stored a signature that is not counted yet. -/
def Phase.counting : Phase K R A → Option R
  | .incrementSignatureCount id _ => some id
  | _ => none

/-- The call knows and owes nothing. -/
def Phase.Plain (phase : Phase K R A) : Prop :=
  phase.vetting = none ∧ phase.relies = none ∧ phase.counting = none

theorem begin_plain (call : Call K R A) : call.begin.Plain := by
  cases call <;> exact ⟨rfl, rfl, rfl⟩

theorem vetting_of_statement {phase : Phase K R A} {id : R} {signerId : A}
    (h : phase.statement = some (id, .sign signerId)) : phase.vetting = some (id, signerId) := by
  cases phase <;> simp_all [Phase.statement, Phase.vetting]

theorem relies_of_statement {phase : Phase K R A} {id : R} {status : MultisigRequestStatus}
    (h : phase.statement = some (id, .setStatus status))
    (hstatus : status = .approved ∨ status = .executed) : phase.relies = some id := by
  cases phase <;> simp_all [Phase.statement, Phase.relies] <;> aesop

section Next

variable [DecidableEq K] [DecidableEq R] [DecidableEq A]

/-- What a call learns from an answer: a signer is active and has not signed yet, a signature is
stored, the signatures are enough, or the request is approved. -/
inductive Learned (s : State K R A) : Phase K R A → Phase K R A → Prop where
  | nothing {phase next} (h : next.Plain) : Learned s phase next
  | active {id account signerId found} (h : signerId ∈ s.signers account) :
    Learned s (.getSigners id account signerId found) (.getSignature id signerId found)
  | unsigned {id signerId found} :
    Learned s (.getSignature id signerId found) (.insertSignature id signerId found)
  | signed {id signerId found}
      (h : ∃ request ∈ s.requests.find? id, signerId ∉ request.signatures) :
    Learned s (.insertSignature id signerId found) (.incrementSignatureCount id found)
  | met {id request found} (hfound : s.requests.find? id = some request)
    (hmet : request.requiredSignatures ≤ request.collectedSignatures + 1) :
    Learned s (.incrementSignatureCount id found) (.logSignature id true found)
  | logged {id found} : Learned s (.logSignature id true found) (.approve id found)
  | approved {id request} (hfound : s.requests.find? id = some request)
    (hstatus : request.status = .approved) :
    Learned s (.findToExecute id) (.execute id request.status)

theorem learned_next (configs : K → Option MultisigConfig) (s : State K R A)
    (phase : Phase K R A) : Learned s phase (phase.next configs s) := by
  have plain : ∀ {phase' : Phase K R A}, phase'.vetting = none → phase'.relies = none →
      phase'.counting = none → Learned s phase phase' := fun hv hr hc => .nothing ⟨hv, hr, hc⟩
  cases phase with
  | getMultisigConfig withdrawal =>
    simp only [Phase.next]
    cases (configs withdrawal.account).filter (·.isActive) with
    | none => exact plain rfl rfl rfl
    | some config =>
      simp only [checkTransactionCap]
      split_ifs <;> exact plain rfl rfl rfl
  | getDailyTotal withdrawal config =>
    simp only [Phase.next, checkDailyCap]
    split_ifs <;> exact plain rfl rfl rfl
  | getConfigById withdrawal dailyTotal =>
    simp only [Phase.next]
    cases configs withdrawal.account <;> exact plain rfl rfl rfl
  | findToSign id signerId =>
    simp only [Phase.next]
    cases s.requests.find? id with
    | none => exact plain rfl rfl rfl
    | some request =>
      simp only [checkToSign]
      split_ifs <;> exact plain rfl rfl rfl
  | getSigners id account signerId found =>
    by_cases hactive : signerId ∈ s.signers account
    · simp only [Phase.next, if_pos hactive]
      exact .active hactive
    · simp only [Phase.next, if_neg hactive]
      exact plain rfl rfl rfl
  | getSignature id signerId found =>
    by_cases hsigned : ∃ request ∈ s.requests.find? id, signerId ∈ request.signatures
    · simp only [Phase.next, if_pos hsigned]
      exact plain rfl rfl rfl
    · simp only [Phase.next, if_neg hsigned]
      exact .unsigned
  | insertSignature id signerId found =>
    by_cases hnew : ∃ request ∈ s.requests.find? id, signerId ∉ request.signatures
    · simp only [Phase.next, if_pos hnew]
      exact .signed hnew
    · simp only [Phase.next, if_neg hnew]
      exact plain rfl rfl rfl
  | incrementSignatureCount id found =>
    cases hfound : s.requests.find? id with
    | none =>
      simp only [Phase.next, hfound]
      exact plain rfl rfl rfl
    | some request =>
      have hid := (Keyed.of_find? hfound).2
      have hnext : (Phase.incrementSignatureCount id found).next configs s =
          .logSignature id (decide
            (request.requiredSignatures ≤ request.collectedSignatures + 1)) found := by
        simp only [Phase.next, hfound, Option.map_some, afterIncrement, Change.apply, hid]
      by_cases hmet : request.requiredSignatures ≤ request.collectedSignatures + 1
      · rw [hnext, decide_eq_true hmet]
        exact .met hfound hmet
      · rw [hnext, decide_eq_false hmet]
        exact plain rfl rfl rfl
  | logSignature id fullyApproved found =>
    cases fullyApproved with
    | true => exact .logged
    | false => exact plain rfl rfl rfl
  | findToExecute id =>
    cases hfound : s.requests.find? id with
    | none =>
      simp only [Phase.next, hfound]
      exact plain rfl rfl rfl
    | some request =>
      have hid := (Keyed.of_find? hfound).2
      by_cases hstatus : request.status = .approved
      · have hnext : (Phase.findToExecute id).next configs s =
            .execute id request.status := by
          simp [Phase.next, hfound, checkToExecute, hstatus, hid]
        rw [hnext]
        exact .approved hfound hstatus
      · simp only [Phase.next, hfound, checkToExecute, ne_eq, hstatus, not_false_eq_true, if_true]
        exact plain rfl rfl rfl
  | findToCancel id =>
    simp only [Phase.next]
    cases s.requests.find? id with
    | none => exact plain rfl rfl rfl
    | some request =>
      simp only [checkToCancel]
      split_ifs <;> exact plain rfl rfl rfl
  | getConfigToCancel id account createdAt =>
    simp only [Phase.next]
    cases configs account with
    | none => exact plain rfl rfl rfl
    | some config =>
      simp only [checkTimeLock]
      split_ifs <;> exact plain rfl rfl rfl
  | _ => exact plain rfl rfl rfl

end Next

theorem counting_of_statement {phase : Phase K R A} {id : R}
    (h : phase.statement = some (id, .count)) : phase.counting = some id := by
  cases phase <;> simp_all [Phase.statement, Phase.counting]

/-- Signers who have been found active have signed, and an approval has counted enough of
them. -/
structure MultisigRequest.Supported (vetted : List (R × A)) (request : MultisigRequest K R A) :
    Prop where
  nodup : request.signatures.Nodup
  vetted : ∀ signerId ∈ request.signatures, (request.id, signerId) ∈ vetted
  counted : request.status = .approved ∨ request.status = .executed →
    request.requiredSignatures ≤ request.collectedSignatures

theorem MultisigRequest.Supported.mono {vetted vetted' : List (R × A)}
    {request : MultisigRequest K R A} (h : request.Supported vetted) (hsub : vetted ⊆ vetted') :
    request.Supported vetted' :=
  ⟨h.nodup, fun signerId hmem => hsub (h.vetted signerId hmem), h.counted⟩

section Supported

variable [DecidableEq K] [DecidableEq R] [DecidableEq A] {configs : K → Option MultisigConfig}

omit [DecidableEq K] [DecidableEq R] in
theorem supported_apply {vetted : List (R × A)} {request : MultisigRequest K R A}
    {change : Change A} (h : request.Supported vetted)
    (sign : ∀ signerId, change = .sign signerId → (request.id, signerId) ∈ vetted)
    (status : ∀ status, change = .setStatus status → status = .approved ∨ status = .executed →
      request.requiredSignatures ≤ request.collectedSignatures) :
    (change.apply request).Supported vetted := by
  cases change with
  | sign signerId =>
    simp only [Change.apply]
    split_ifs with hmem
    · exact h
    · refine ⟨?_, ?_, h.counted⟩
      · exact List.nodup_append.2 ⟨h.nodup, List.nodup_singleton _, by aesop⟩
      · intro signerId' hsigned
        rcases List.mem_append.1 hsigned with hold | hnew
        · exact h.vetted signerId' hold
        · rw [List.mem_singleton.1 hnew]
          exact sign signerId rfl
  | count =>
    refine ⟨h.nodup, h.vetted, ?_⟩
    intro hstatus
    exact Nat.le_succ_of_le (h.counted hstatus)
  | setStatus new => exact ⟨h.nodup, h.vetted, status new rfl⟩

/-- Enough signatures have been counted for a request. -/
def State.Met (s : State K R A) (id : R) : Prop :=
  ∃ request ∈ s.requests.find? id, request.requiredSignatures ≤ request.collectedSignatures

def AllSupported (s : State K R A) : Prop :=
  ∀ request ∈ s.requests.rows, request.Supported s.vetted

def Informed (s : State K R A) (phase : Phase K R A) : Prop :=
  (∀ pair ∈ phase.vetting, pair ∈ s.vetted) ∧ ∀ id ∈ phase.relies, s.Met id

theorem met_step {s : State K R A} {id : R} (h : s.Met id) (input : Input K R A)
    (phase : Phase K R A) : (step configs input s phase).1.Met id := by
  obtain ⟨request, hfound, hmet⟩ := h
  rcases step_requests configs input s phase with
    hsame | ⟨id', change, -, -, hrows⟩ | ⟨_, _, _, _, _, -, -, -, hrows⟩
  · exact ⟨request, by rw [hsame]; exact hfound, hmet⟩
  · refine ⟨if request.id = id' then change.apply request else request, ?_, ?_⟩
    · rw [hrows, Keyed.find?_modify, hfound]
      rfl
    · split_ifs
      · rw [Change.apply_requiredSignatures]
        exact hmet.trans (Change.le_apply_collectedSignatures change request)
      · exact hmet
  · obtain ⟨hmem, rfl⟩ := Keyed.of_find? hfound
    exact ⟨request, by rw [hrows]; exact Keyed.find?_insert_of_mem hmem, hmet⟩

theorem informed_mono {s : State K R A} {other : Phase K R A} (h : Informed s other)
    (input : Input K R A) (phase : Phase K R A) :
    Informed (step configs input s phase).1 other :=
  ⟨fun pair hpair => step_vetted configs input s phase (h.1 pair hpair),
    fun id hid => met_step (h.2 id hid) input phase⟩

theorem allSupported_step {s : State K R A} {phase : Phase K R A} (hs : AllSupported s)
    (h : Informed s phase) (input : Input K R A) :
    AllSupported (step configs input s phase).1 := by
  intro request hrequest
  have hsub := step_vetted configs input s phase
  rcases step_requests configs input s phase with
    hsame | ⟨id, change, hstatement, -, hrows⟩ | ⟨_, _, _, _, _, -, -, -, hrows⟩
  · rw [hsame] at hrequest
    exact (hs request hrequest).mono hsub
  · rw [hrows, Keyed.mem_modify] at hrequest
    obtain ⟨old, hold, rfl⟩ := hrequest
    split_ifs with hid
    · apply MultisigRequest.Supported.mono _ hsub
      apply supported_apply (hs old hold)
      · rintro signerId rfl
        rw [hid]
        exact h.1 _ (vetting_of_statement hstatement)
      · rintro status rfl hstatus
        obtain ⟨counted, hfound, hmet⟩ := h.2 id (relies_of_statement hstatement hstatus)
        have hsame : some old = some counted := by
          rw [← Keyed.find?_of_mem hold, hid]
          exact hfound
        rw [Option.some.inj hsame]
        exact hmet
    · exact (hs old hold).mono hsub
  · rw [hrows] at hrequest
    rcases Keyed.mem_insert_cases hrequest with hold | rfl
    · exact (hs request hold).mono hsub
    · exact ⟨List.nodup_nil, by simp [Withdrawal.row], by simp [Withdrawal.row]⟩

omit [DecidableEq K] in
/-- The update that has been answered shows in the row. -/
theorem find?_send (s : State K R A) {phase : Phase K R A} {id : R} {change : Change A}
    (h : phase.statement = some (id, change)) :
    (s.send phase .answered).requests.find? id =
      (s.requests.find? id).map fun request => change.apply request := by
  simp only [State.send, h, State.execute, DbAnswer.executed_answered, if_true]
  exact Keyed.find?_modify_self change.apply_id

omit [DecidableEq K] [DecidableEq A] in
theorem informed_of_plain {s : State K R A} {phase : Phase K R A} (h : phase.Plain) :
    Informed s phase := by
  simp [Informed, h.1, h.2.1]

theorem informed_next {s : State K R A} {phase : Phase K R A} (hs : AllSupported s)
    (h : Informed s phase) : Informed (s.send phase .answered) (phase.next configs s) := by
  have hlearned := learned_next configs s phase
  generalize phase.next configs s = next at hlearned ⊢
  cases hlearned with
  | nothing hplain => exact informed_of_plain hplain
  | active hactive =>
    refine ⟨?_, by simp [Phase.relies]⟩
    rintro pair ⟨⟩
    simp [State.send, Phase.statement, State.vet, hactive]
  | unsigned => exact ⟨h.1, by simp [Phase.relies]⟩
  | signed => exact ⟨by simp [Phase.vetting], by simp [Phase.relies]⟩
  | @met id request found hfound hmet =>
    refine ⟨by simp [Phase.vetting], ?_⟩
    rintro _ ⟨⟩
    refine ⟨Change.count.apply request, ?_, hmet⟩
    rw [find?_send s rfl, hfound]
    rfl
  | logged => exact ⟨by simp [Phase.vetting], h.2⟩
  | @approved id request hfound hstatus =>
    refine ⟨by simp [Phase.vetting], ?_⟩
    rintro _ ⟨⟩
    have hmem := (Keyed.of_find? hfound).1
    exact ⟨request, hfound, (hs request hmem).counted (Or.inl hstatus)⟩

theorem informed_step {s : State K R A} {phase : Phase K R A} (hs : AllSupported s)
    (h : Informed s phase) (input : Input K R A) :
    Informed (step configs input s phase).1 (step configs input s phase).2 := by
  cases input with
  | passes elapsed => exact informed_mono h (.passes elapsed) phase
  | setSigners account signers => exact informed_mono h (.setSigners account signers) phase
  | begin call =>
    simp only [step]
    split_ifs
    · exact informed_of_plain (begin_plain call)
    · exact h
  | query answer =>
    by_cases hwaits : phase.Waits = true
    · simp only [step, query, hwaits, if_true]
      split_ifs with hanswer
      · rw [hanswer]
        exact informed_next hs h
      · exact informed_of_plain ⟨rfl, rfl, rfl⟩
    · simp only [step, query, hwaits]
      exact h
  | insert id answer =>
    cases phase with
    | insertRequest withdrawal dailyTotal requiredSignatures expiresAt =>
      simp only [step, insert]
      split_ifs <;> exact informed_of_plain ⟨rfl, rfl, rfl⟩
    | _ => exact h
  | crash => exact informed_of_plain ⟨rfl, rfl, rfl⟩

end Supported

/-! ## The count of the signatures -/

section Counts

variable [DecidableEq K] [DecidableEq R] [DecidableEq A] {configs : K → Option MultisigConfig}

def State.counted (s : State K R A) (id : R) : ℕ :=
  ((s.requests.find? id).map fun request => request.collectedSignatures).getD 0

def State.signed (s : State K R A) (id : R) : ℕ :=
  ((s.requests.find? id).map fun request => request.signatures.length).getD 0

def Phase.uncounted (id : R) (phase : Phase K R A) : ℕ := if phase.counting = some id then 1 else 0

omit [DecidableEq K] [DecidableEq A] in
theorem uncounted_of_plain {phase : Phase K R A} (h : phase.Plain) (id : R) :
    phase.uncounted id = 0 := by
  simp [Phase.uncounted, h.2.2]

omit [DecidableEq K] [DecidableEq A] in
theorem counts_congr {s s' : State K R A} (h : s'.requests = s.requests) (id : R) :
    s'.counted id = s.counted id ∧ s'.signed id = s.signed id := by
  simp [State.counted, State.signed, h]

omit [DecidableEq K] in
theorem counts_modify {s s' : State K R A} {id' : R} {change : Change A}
    (h : s'.requests = s.requests.modify id' change.apply change.apply_id) (id : R) :
    s'.counted id + s.signed id ≤
      s'.signed id + (s.counted id + if change = .count ∧ id' = id then 1 else 0) := by
  have hfind : s'.requests.find? id =
      (s.requests.find? id).map fun request =>
        if request.id = id' then change.apply request else request := by
    rw [h]
    exact Keyed.find?_modify change.apply_id id
  cases hfound : s.requests.find? id with
  | none => simp [State.counted, State.signed, hfind, hfound]
  | some request =>
    have hid := (Keyed.of_find? hfound).2
    rw [hfound, Option.map_some, hid] at hfind
    simp only [State.counted, State.signed, hfind, hfound, Option.map_some, Option.getD_some]
    by_cases hsame : id = id'
    · simp only [hsame, if_true, and_true]
      cases change with
      | sign signerId =>
        simp only [Change.apply]
        split_ifs <;> grind
      | count => grind [Change.apply]
      | setStatus status => grind [Change.apply]
    · rw [if_neg hsame]
      omega

omit [DecidableEq K] in
theorem counts_send (s : State K R A) (phase : Phase K R A) (answer : DbAnswer) (id : R) :
    (s.send phase answer).counted id + s.signed id ≤
      (s.send phase answer).signed id + (s.counted id + phase.uncounted id) := by
  rcases send_requests s phase answer with hsame | ⟨id', change, hstatement, -, hrows⟩
  · have := counts_congr hsame id
    omega
  · have hcounts := counts_modify hrows id
    have huncounted : (if change = .count ∧ id' = id then 1 else 0) ≤ phase.uncounted id := by
      split_ifs with hcount
      · obtain ⟨rfl, rfl⟩ := hcount
        rw [Phase.uncounted, if_pos (counting_of_statement hstatement)]
      · exact Nat.zero_le _
    omega

omit [DecidableEq K] in
/-- A signature that is stored is one that can be counted. -/
theorem counts_sign {s : State K R A} {id : R} {signerId : A} (found : MultisigRequestStatus)
    (h : ∃ request ∈ s.requests.find? id, signerId ∉ request.signatures) :
    (s.send (.insertSignature id signerId found) .answered).counted id = s.counted id ∧
      (s.send (.insertSignature id signerId found) .answered).signed id = s.signed id + 1 := by
  obtain ⟨request, hfound, hnew⟩ := h
  have hstatement : (Phase.insertSignature id signerId found : Phase K R A).statement =
      some (id, .sign signerId) := rfl
  have hsent := find?_send s hstatement
  rw [Option.mem_def.1 hfound] at hsent
  simp [State.counted, State.signed, hsent, Option.mem_def.1 hfound, Change.apply, hnew]

omit [DecidableEq K] [DecidableEq A] in
/-- A new request has no signatures. -/
theorem counts_insert {s s' : State K R A} {withdrawal : Withdrawal K}
    {id' : R} {now required expiresAt : ℕ}
    (hnew : s.requests.find? id' = none)
    (h : s'.requests = s.requests.insert (withdrawal.row id' now required expiresAt)) (id : R) :
    s'.counted id = s.counted id ∧ s'.signed id = s.signed id := by
  have hfind : s'.requests.find? id =
      if id = id' then some (withdrawal.row id' now required expiresAt)
      else s.requests.find? id := by
    rw [h]
    exact Keyed.find?_insert hnew id
  by_cases hid : id = id'
  · subst hid
    rw [if_pos rfl] at hfind
    simp [State.counted, State.signed, hfind, hnew, Withdrawal.row]
  · rw [if_neg hid] at hfind
    simp [State.counted, State.signed, hfind]

/-- A call that has been answered owes a count for the signature that it has just stored. -/
theorem uncounted_next (configs : K → Option MultisigConfig) (s : State K R A)
    (phase : Phase K R A) (id : R) :
    (phase.next configs s).uncounted id = 0 ∨
      ∃ signerId found, phase = .insertSignature id signerId found ∧
        ∃ request ∈ s.requests.find? id, signerId ∉ request.signatures := by
  have hlearned := learned_next configs s phase
  generalize phase.next configs s = next at hlearned ⊢
  cases hlearned with
  | nothing hplain => exact Or.inl (uncounted_of_plain hplain id)
  | @signed id' signerId found hnew =>
    by_cases hid : id' = id
    · subst hid
      exact Or.inr ⟨signerId, found, rfl, hnew⟩
    · simp [Phase.uncounted, Phase.counting, hid]
  | active => exact Or.inl rfl
  | unsigned => exact Or.inl rfl
  | met => exact Or.inl rfl
  | logged => exact Or.inl rfl
  | approved => exact Or.inl rfl

omit [DecidableEq K] [DecidableEq A] in
theorem uncounted_le_one (phase : Phase K R A) (id : R) : phase.uncounted id ≤ 1 := by
  unfold Phase.uncounted
  split_ifs <;> omega

theorem counts_step (s : State K R A) (phase : Phase K R A) (input : Input K R A) (id : R) :
    (step configs input s phase).1.counted id +
        (step configs input s phase).2.uncounted id + s.signed id ≤
      (step configs input s phase).1.signed id + (s.counted id + phase.uncounted id) := by
  cases input with
  | passes elapsed => simp [step, State.counted, State.signed]; omega
  | setSigners account signers => simp [step, State.counted, State.signed]; omega
  | begin call =>
    simp only [step]
    split_ifs
    · rw [uncounted_of_plain (begin_plain call)]
      omega
    · omega
  | query answer =>
    by_cases hwaits : phase.Waits = true
    · simp only [step, query, hwaits, if_true]
      have hsent := counts_send s phase answer id
      split_ifs with hanswer
      · subst hanswer
        rcases uncounted_next configs s phase id with
          hnone | ⟨signerId, found, rfl, hnew⟩
        · omega
        · have hsigned := counts_sign found hnew
          have hone :=
            uncounted_le_one ((Phase.insertSignature id signerId found).next configs s) id
          omega
      · rw [uncounted_of_plain ⟨rfl, rfl, rfl⟩]
        exact hsent
    · simp [step, query, hwaits]
      omega
  | insert id' answer =>
    have howes : (step configs (.insert id' answer) s phase).2.uncounted id ≤
        phase.uncounted id := by
      cases phase with
      | insertRequest withdrawal dailyTotal requiredSignatures expiresAt =>
        simp only [step, insert]
        split_ifs <;> exact Nat.le_of_eq (uncounted_of_plain ⟨rfl, rfl, rfl⟩ id)
      | _ => exact Nat.le_refl _
    rcases step_requests configs (.insert id' answer) s phase with
      hsame | ⟨_, _, _, hexecutes, _⟩ | ⟨withdrawal, _, id₁, _, _, _, _, hadmits, hrows⟩
    · have := counts_congr hsame id
      omega
    · exact absurd hexecutes (by simp [Input.Executes])
    · have := counts_insert hadmits.2 hrows id
      omega
  | crash =>
    simp only [step]
    rw [uncounted_of_plain ⟨rfl, rfl, rfl⟩]
    omega

end Counts

/-! ## The law -/

/-- What the writes of a request's status have respected. -/
structure MultisigRequest.Lawful (vetted : List (R × A)) (request : MultisigRequest K R A) :
    Prop where
  absorbing : ∀ write ∈ request.statusWrites, write.1.Final → write.2 = write.1
  once : request.statusWrites.countP (·.2 = .executed) ≤ 1
  quorum : request.status = .executed →
    Quorum.Reached (fun signerId => (request.id, signerId) ∈ vetted) request.signatures
      request.requiredSignatures

/-- The writes of a request's status so far, with the one that has executed it if any. -/
structure MultisigRequest.Ordered (request : MultisigRequest K R A) : Prop where
  absorbing : ∀ write ∈ request.statusWrites, write.1.Final → write.2 = write.1
  executions : request.statusWrites.countP (·.2 = .executed) =
    if request.status = .executed then 1 else 0

/-- A write that finds a final status repeats it, and it is no execution. -/
def MultisigRequest.Allows (request : MultisigRequest K R A) (status : MultisigRequestStatus) :
    Prop :=
  request.status.Final → request.status = status ∧ status ≠ .executed

instance (request : MultisigRequest K R A) (status : MultisigRequestStatus) :
    Decidable (request.Allows status) :=
  inferInstanceAs (Decidable (_ → _))

section Law

variable [DecidableEq A] {request : MultisigRequest K R A} {status : MultisigRequestStatus}

theorem ordered_setStatus (h : request.Ordered) (hallows : request.Allows status) :
    ((Change.setStatus status : Change A).apply request).Ordered := by
  refine ⟨?_, ?_⟩
  · intro write hwrite hfinal
    rcases List.mem_append.1 hwrite with hold | hnew
    · exact h.absorbing write hold hfinal
    · rw [List.mem_singleton.1 hnew] at hfinal ⊢
      exact (hallows hfinal).1.symm
  · have hexecutions := h.executions
    simp only [Change.apply, List.countP_append, hexecutions, List.countP_singleton]
    by_cases hexecuted : request.status = .executed
    · have hrepeats := hallows (by rw [hexecuted]; rfl)
      exact absurd (hrepeats.1.symm.trans hexecuted) hrepeats.2
    · by_cases hnew : status = .executed <;> simp [hexecuted, hnew]

theorem allows_of_lawful {vetted : List (R × A)} (h : request.Ordered)
    (hlawful : ((Change.setStatus status : Change A).apply request).Lawful vetted) :
    request.Allows status := by
  intro hfinal
  have hsame : status = request.status :=
    hlawful.absorbing (request.status, status) (by simp [Change.apply]) hfinal
  refine ⟨hsame.symm, ?_⟩
  rintro rfl
  have honce := hlawful.once
  have hexecutions := h.executions
  simp only [Change.apply, List.countP_append, hexecutions, ← hsame] at honce
  simp at honce

theorem ordered_apply (h : request.Ordered) (change : Change A)
    (hallows : ∀ status, change = .setStatus status → request.Allows status) :
    (change.apply request).Ordered := by
  cases change with
  | sign signerId =>
    simp only [Change.apply]
    split_ifs
    · exact h
    · exact ⟨h.absorbing, h.executions⟩
  | count => exact ⟨h.absorbing, h.executions⟩
  | setStatus status => exact ordered_setStatus h (hallows status rfl)

end Law

section Runs

variable {ι : Type} [DecidableEq K] [DecidableEq R] [DecidableEq A] [DecidableEq ι]
  (configs : K → Option MultisigConfig)

/-- A turn whose write of a status is executed finds a request that allows it. -/
def Orderly (w : World K R A ι) (turn : ι × Input K R A) : Prop :=
  ∀ written ∈ (w.locals turn.1).writes, turn.2.Executes →
    ∀ request ∈ w.shared.requests.find? written.1, request.Allows written.2

def AllLawful (w : World K R A ι) : Prop :=
  ∀ request ∈ w.shared.requests.rows, request.Lawful w.shared.vetted

/-- What all runs keep. -/
structure Sound (w : World K R A ι) : Prop where
  informed : Holds AllSupported Informed w
  covered : ∀ id, Covered (Phase.uncounted id) (State.counted · id) (State.signed · id) w

variable {configs}

theorem sound_advance {w : World K R A ι} (h : Sound w) (turn : ι × Input K R A) :
    Sound (advance (step configs) w turn) := by
  obtain ⟨i, input⟩ := turn
  have hmover := h.informed.2 i
  refine ⟨holds_advance h.informed ⟨?_, ?_⟩ ?_, ?_⟩
  · exact allSupported_step h.informed.1 hmover input
  · exact informed_step h.informed.1 hmover input
  · exact fun other hother => informed_mono hother input (w.locals i)
  · exact fun id => covered_advance (h.covered id) (counts_step w.shared (w.locals i) input id)

omit [DecidableEq K] [DecidableEq ι] in
/-- The signatures that have been counted are of different signers. -/
theorem quorum_of_sound {w : World K R A ι} (h : Sound w) {request : MultisigRequest K R A}
    (hmem : request ∈ w.shared.requests.rows) (hstatus : request.status = .executed) :
    Quorum.Reached (fun signerId => (request.id, signerId) ∈ w.shared.vetted)
      request.signatures request.requiredSignatures := by
  have hsupported := h.informed.1 request hmem
  have hcovered := h.covered request.id ∅
  have hfound := Keyed.find?_of_mem hmem
  simp only [State.counted, State.signed, hfound, Option.map_some, Option.getD_some,
    Finset.sum_empty] at hcovered
  have hcounted := hsupported.counted (Or.inr hstatus)
  apply Quorum.reached_of_ballot
  · exact fun signerId hsigned => ⟨hsigned, hsupported.vetted signerId hsigned⟩
  · rw [List.toFinset_card_of_nodup hsupported.nodup]
    omega

theorem ordered_advance {w : World K R A ι} {turn : ι × Input K R A}
    (h : ∀ request ∈ w.shared.requests.rows, request.Ordered) (horderly : Orderly w turn) :
    ∀ request ∈ (advance (step configs) w turn).shared.requests.rows, request.Ordered := by
  intro request hrequest
  rw [advance_shared] at hrequest
  rcases step_requests configs turn.2 w.shared (w.locals turn.1) with
    hsame | ⟨id, change, hstatement, hexecutes, hrows⟩ | ⟨_, _, _, _, _, -, -, -, hrows⟩
  · rw [hsame] at hrequest
    exact h request hrequest
  · rw [hrows, Keyed.mem_modify] at hrequest
    obtain ⟨old, hold, rfl⟩ := hrequest
    split_ifs with hid
    · apply ordered_apply (h old hold)
      rintro status rfl
      apply horderly (id, status) (mem_writes.2 hstatement) hexecutes
      rw [← hid]
      exact Keyed.find?_of_mem hold
    · exact h old hold
  · rw [hrows] at hrequest
    rcases Keyed.mem_insert_cases hrequest with hold | rfl
    · exact h request hold
    · exact ⟨by simp [Withdrawal.row], by simp [Withdrawal.row]⟩

theorem requests_executed {s : State K R A} {phase : Phase K R A} {input : Input K R A} {id : R}
    {change : Change A} (hstatement : phase.statement = some (id, change))
    (hexecutes : input.Executes) : (step configs input s phase).1.requests =
      s.requests.modify id change.apply change.apply_id := by
  cases input with
  | query answer =>
    have hwaits : phase.Waits = true := by
      cases phase <;> first | rfl | cases hstatement
    rw [step_query_fst, if_pos hwaits]
    simp only [State.send, hstatement, State.execute]
    have hexecuted : answer.executed = true := hexecutes
    rw [if_pos hexecuted]
  | _ => exact absurd hexecutes not_false

theorem orderly_of_lawful {w : World K R A ι} {turn : ι × Input K R A}
    (h : ∀ request ∈ w.shared.requests.rows, request.Ordered)
    (hlawful : AllLawful (advance (step configs) w turn)) : Orderly w turn := by
  rintro ⟨id, status⟩ hwrites hexecutes request hfound
  have hstatement := mem_writes.1 hwrites
  obtain ⟨hmem, hid⟩ := Keyed.of_find? hfound
  apply allows_of_lawful (h request hmem)
  apply hlawful
  rw [advance_shared, requests_executed hstatement hexecutes, Keyed.mem_modify]
  exact ⟨request, hmem, by rw [if_pos hid]⟩

/-- In every run every execution has the signatures it needs; the final statuses absorb, and
nothing is executed twice, just when every write of a status finds a request that allows it. -/
theorem custody_lawful_iff (signers : K → List A) (schedule : List (ι × Input K R A)) :
    (∀ pre, pre <+: schedule → AllLawful (run (step configs) (World.of signers) pre)) ↔
      Runs.Every (advance (step configs)) Orderly (World.of signers) schedule := by
  apply Runs.forall_prefix_iff_every_of_inv AllLawful fun w =>
    (∀ request ∈ w.shared.requests.rows, request.Ordered) ∧ Sound w
  · rintro w ⟨hordered, hsound⟩ request hmem
    refine ⟨(hordered request hmem).absorbing, ?_, quorum_of_sound hsound hmem⟩
    rw [(hordered request hmem).executions]
    split_ifs <;> omega
  · rintro w turn ⟨hordered, hsound⟩ horderly
    exact ⟨ordered_advance hordered horderly, sound_advance hsound turn⟩
  · rintro w turn ⟨hordered, -⟩ hlawful
    exact orderly_of_lawful hordered hlawful
  · refine ⟨?_, ⟨?_, ?_⟩, ?_⟩
    · simp [World.of]
    · simp [World.of, AllSupported]
    · exact fun _ => informed_of_plain ⟨rfl, rfl, rfl⟩
    · intro id processes
      simp [World.of, State.counted, State.signed, Phase.uncounted, Phase.counting, Keyed.find?]

end Runs

section Race

def oneOfOne : Unit → Option MultisigConfig := fun _ => some ⟨1, 100, 100, 0, true⟩

def answers (caller count : ℕ) : List (ℕ × Input Unit ℕ ℕ) :=
  List.replicate count (caller, .query .answered)

/-- Caller 2 is about to cancel the request that caller 1 signs; then callers 1 and 3 execute it,
and at last caller 2 goes on. -/
def lateCancellation : List (ℕ × Input Unit ℕ ℕ) :=
  (0, .begin (.requestWithdrawal ⟨(), 60⟩)) :: answers 0 3 ++
  (0, .insert 0 .answered) :: (2, .begin (.cancelRequest 0)) :: answers 2 2 ++
  (1, .begin (.addSignature 0 7)) :: answers 1 8 ++
  (1, .begin (.executeApprovedRequest 0)) :: answers 1 1 ++
  (3, .begin (.executeApprovedRequest 0)) :: answers 3 1 ++
  answers 1 1 ++ answers 3 1 ++ answers 2 1

/-- The request is executed twice, and then it is cancelled. -/
theorem executed_twice_then_cancelled :
    let w := run (step oneOfOne) (World.of fun _ => [7]) lateCancellation
    w.shared.requests.rows = [⟨0, (), 60, .cancelled, 1, 1, 0, 0, [7],
        [(.pending, .approved), (.approved, .executed), (.executed, .executed),
          (.executed, .cancelled)]⟩] ∧ ¬ AllLawful w := by
  intro w
  have hrows : w.shared.requests.rows = [⟨0, (), 60, .cancelled, 1, 1, 0, 0, [7],
      [(.pending, .approved), (.approved, .executed), (.executed, .executed),
        (.executed, .cancelled)]⟩] := by
    decide +kernel
  refine ⟨hrows, ?_⟩
  intro hlawful
  have honce := (hlawful _ (by rw [hrows]; exact List.mem_singleton_self _)).once
  exact absurd honce (by decide)

end Race

end MobileMoney.Custody
