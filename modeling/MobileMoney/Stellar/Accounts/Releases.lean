import MobileMoney.Library.Ownership
import MobileMoney.Stellar.Accounts.Program

/-!
# Every acquisition is released once

From the moment `acquireIdle` is executed an acquisition is with one call, handed to a waiting one,
on its way back, or released. It gets lost where a turn fails between acquisition and release
without releasing. A release asks only for the account, so it frees an account for nobody else as
long as an account is not acquired again before its last release.
-/

namespace MobileMoney.Stellar.Accounts

open Interleaving

variable {K R ι : Type}

/-! ## The law -/

/-- The acquisition that a phase works with. -/
def Phase.lease : Phase K R → Option (Lease K)
  | .acquired _ found | .shifting _ found => found
  | .submitting _ lease | .finding _ lease _ | .loading _ lease _ | .updating _ lease _ _ =>
    some lease
  | _ => none

def Phase.Holds (n : ℕ) (phase : Phase K R) : Prop := ∃ lease ∈ phase.lease, lease.id = n

instance (n : ℕ) : DecidablePred (Phase.Holds n : Phase K R → Prop) := fun phase =>
  inferInstanceAs (Decidable (∃ lease ∈ phase.lease, lease.id = n))

/-- How often an acquisition is handed to a waiting call, on its way back, or released. -/
def State.placed (s : State K R) (n : ℕ) : ℕ :=
  s.handed.countP (fun entry => entry.2.id = n) + s.releases.countP (fun r => r.lease = n) +
    s.released.count n

/-- Every acquisition is with one call, or it has been passed on or given back once; and no release
has come while the account was locked by another acquisition. -/
structure ReleaseLaw (w : World K R ι) : Prop where
  once : ∀ n < w.shared.issued.length,
    (w.shared.placed n = 1 ∧ ∀ i, ¬(w.locals i).Holds n) ∨
      w.shared.placed n = 0 ∧ ∃ i, (w.locals i).Holds n ∧ ∀ j, j ≠ i → ¬(w.locals j).Holds n
  unrobbed : w.shared.robbed = []

/-! ## The condition -/

/-- Every acquisition of the account has been released. -/
def State.Spare (s : State K R) (account : K) : Prop :=
  ∀ n ∈ List.range s.issued.length, s.issued[n]? = some account → n ∈ s.released

def Phase.asks : Phase K R → Bool
  | .acquiring _ | .pumping _ => true
  | _ => false

/-- A key is decrypted for whoever gets the account. -/
def Phase.decrypts (s : State K R) : Phase K R → Bool
  | .acquired _ (some _) => true
  | .shifting replica (some _) => (s.queues replica).length ≠ 0
  | _ => false

def Phase.resyncs : Phase K R → Bool
  | .finding _ _ _ | .loading _ _ _ | .updating _ _ _ _ => true
  | _ => false

section Condition

variable [DecidableEq K]

instance (s : State K R) (account : K) : Decidable (s.Spare account) :=
  inferInstanceAs (Decidable (∀ n ∈ List.range s.issued.length, s.issued[n]? = some account →
    n ∈ s.released))

/-- An account is acquired when it has been released before and the acquisition is answered, its key
can be decrypted, no resync fails, and a release that is sent is executed. -/
def Careful (input : Input K R) (s : State K R) (phase : Phase K R) : Prop :=
  match input with
  | .acquireIdle skipped answer => phase.asks = true → answer.executed = true →
      ∀ row ∈ s.table.oldestIdle skipped, answer = .answered ∧ s.Spare row.publicKey
  | .buildAcquireResult failure => phase.decrypts s = true → failure = none
  | .findByPublicKey failure => phase.resyncs = true → failure = none
  | .loadAccount answer => phase.resyncs = true → answer.isOk = true
  | .updateSequence answer => phase.resyncs = true → answer = .answered
  | .execute index answer => index < s.releases.length → answer.executed = true
  | _ => True

instance (input : Input K R) (s : State K R) (phase : Phase K R) :
    Decidable (Careful input s phase) :=
  match input with
  | .acquireIdle skipped answer => inferInstanceAs (Decidable (phase.asks = true →
      answer.executed = true → ∀ row ∈ s.table.oldestIdle skipped,
        answer = .answered ∧ s.Spare row.publicKey))
  | .buildAcquireResult failure =>
    inferInstanceAs (Decidable (phase.decrypts s = true → failure = none))
  | .findByPublicKey failure =>
    inferInstanceAs (Decidable (phase.resyncs = true → failure = none))
  | .loadAccount answer => inferInstanceAs (Decidable (phase.resyncs = true → answer.isOk = true))
  | .updateSequence answer =>
    inferInstanceAs (Decidable (phase.resyncs = true → answer = .answered))
  | .execute index answer =>
    inferInstanceAs (Decidable (index < s.releases.length → answer.executed = true))
  | .elapse _ | .recoverStale _ | .recoverDisabled _ | .forceRelease _ | .enableAccount _
  | .submitTransaction _ _ | .processQueue _ | .resolve | .reject _ | .buildAndSubmit _ =>
    instDecidableTrue

end Condition

/-! ## Acquisitions are accounted for -/

def State.born (s : State K R) (n : ℕ) : ℕ := if n < s.issued.length then 1 else 0

def Phase.held (n : ℕ) (phase : Phase K R) : ℕ := if phase.Holds n then 1 else 0

variable {s : State K R} {n : ℕ}

theorem held_of_lease {phase : Phase K R} {lease : Lease K} (h : phase.lease = some lease) :
    phase.held n = if lease.id = n then 1 else 0 := by
  simp [Phase.held, Phase.Holds, h]

theorem held_of_none {phase : Phase K R} (h : phase.lease = none) : phase.held n = 0 := by
  simp [Phase.held, Phase.Holds, h]

theorem placed_release (lease : Lease K) (settling : Settling) :
    (s.release lease settling).placed n = s.placed n + if lease.id = n then 1 else 0 := by
  simp only [State.placed, State.release, List.countP_append, List.countP_singleton,
    decide_eq_true_eq]
  omega

theorem born_le_one (s : State K R) (n : ℕ) : s.born n ≤ 1 := by
  unfold State.born
  split_ifs <;> omega

/-- What a turn makes of an acquisition: it is held, or passed on or given back, as often as
before, but for the one that begins. -/
def Balanced (n : ℕ) (s : State K R) (phase : Phase K R) (result : State K R × Phase K R) : Prop :=
  result.2.held n + result.1.placed n + s.born n = phase.held n + s.placed n + result.1.born n

theorem balanced_of_placed {phase : Phase K R} {result : State K R × Phase K R}
    (issued : result.1.issued = s.issued)
    (placed : result.2.held n + result.1.placed n = phase.held n + s.placed n) :
    Balanced n s phase result := by
  unfold Balanced State.born
  rw [issued, placed]

theorem next_held (call : Call R) (error : SubmitError) :
    (call.next error : Phase K R).held n = 0 := by
  unfold Call.next
  split_ifs <;> exact held_of_none rfl

theorem settled_balanced (call : Call R) (lease : Lease K) (failure : Option SubmitError) :
    Balanced n s (.submitting call lease) (settled s call lease failure) := by
  have before : (Phase.submitting call lease : Phase K R).held n = if lease.id = n then 1 else 0 :=
    held_of_lease rfl
  unfold settled
  split
  · refine balanced_of_placed rfl ?_
    rw [before, placed_release, held_of_none rfl]
    omega
  · split_ifs
    · exact balanced_of_placed rfl (by rw [before, held_of_lease rfl])
    · refine balanced_of_placed rfl ?_
      rw [before, placed_release, next_held]
      omega
    · refine balanced_of_placed rfl ?_
      rw [before, placed_release, held_of_none rfl]
      omega

theorem acquired_balanced [DecidableEq R] (config : PoolConfig) {failure : Option String}
    {call : Call R} {found : Option (Lease K)}
    (careful : (Phase.acquired call found).decrypts s = true → failure = none) :
    Balanced n s (.acquired call found) (acquired config failure s call found) := by
  cases found with
  | none =>
    simp only [acquired]
    split_ifs <;> exact balanced_of_placed rfl rfl
  | some lease =>
    rw [careful rfl]
    refine balanced_of_placed rfl ?_
    rw [held_of_lease rfl, held_of_lease rfl]
    rfl

theorem shifted_balanced [DecidableEq R] {failure : Option String} {replica : R}
    {found : Option (Lease K)}
    (careful : (Phase.shifting replica found).decrypts s = true → failure = none) :
    Balanced n s (.shifting replica found) (shifted failure s replica found) := by
  cases found with
  | none => exact balanced_of_placed rfl rfl
  | some lease =>
    have before : (Phase.shifting replica (some lease) : Phase K R).held n =
        if lease.id = n then 1 else 0 := held_of_lease rfl
    cases hqueue : s.queues replica with
    | nil =>
      simp only [shifted, hqueue]
      refine balanced_of_placed rfl ?_
      rw [before, placed_release, held_of_none rfl]
      omega
    | cons ticket queue =>
      rw [careful (by simp [Phase.decrypts, hqueue])]
      simp only [shifted, hqueue]
      refine balanced_of_placed rfl ?_
      rw [before, held_of_none rfl]
      simp only [State.placed, List.countP_append, List.countP_singleton, decide_eq_true_eq]
      omega

theorem resolved_balanced (call : Call R) (ticket : ℕ) [DecidableEq K] :
    Balanced n s (.waiting call ticket) (resolved s call ticket) := by
  unfold resolved
  split
  · rename_i entry hfound
    have hperm := List.perm_cons_erase (List.mem_of_find?_eq_some hfound)
    have hcount := hperm.countP_eq fun e => decide (e.2.id = n)
    rw [List.countP_cons] at hcount
    have before : (Phase.waiting call ticket : Phase K R).held n = 0 := held_of_none rfl
    refine balanced_of_placed rfl ?_
    rw [before, held_of_lease rfl]
    simp only [State.placed, hcount, decide_eq_true_eq]
    omega
  · exact balanced_of_placed rfl rfl

variable [DecidableEq K]

/-- An acquisition begins with the phase that gets it. -/
theorem acquireIdle_balance {skipped : List K} {phase : Phase K R}
    (h : phase.lease = (s.acquireIdle skipped).2) :
    phase.held n + (s.acquireIdle skipped).1.placed n + s.born n =
      s.placed n + (s.acquireIdle skipped).1.born n := by
  cases hidle : s.table.oldestIdle skipped with
  | none =>
    simp only [State.acquireIdle, hidle] at h ⊢
    rw [held_of_none h]
    omega
  | some row =>
    simp only [State.acquireIdle, hidle] at h ⊢
    rw [held_of_lease h]
    simp only [State.placed, State.born, List.length_append, List.length_singleton]
    split_ifs <;> omega

omit [DecidableEq K] in
theorem asks_iff {phase : Phase K R} : phase.asks = true ↔
    (∃ call, phase = .acquiring call) ∨ ∃ replica, phase = .pumping replica := by
  cases phase <;> simp [Phase.asks]

theorem onAcquireIdle_balanced {skipped : List K} {answer : DbAnswer} {phase : Phase K R}
    (careful : Careful (.acquireIdle skipped answer) s phase) :
    Balanced n s phase (onAcquireIdle skipped answer s phase) := by
  by_cases hasks : phase.asks = true
  · by_cases hanswer : answer = .answered
    · subst hanswer
      rcases asks_iff.1 hasks with ⟨call, rfl⟩ | ⟨replica, rfl⟩
      · have before : (Phase.acquiring call : Phase K R).held n = 0 := held_of_none rfl
        unfold Balanced
        rw [before, Nat.zero_add]
        exact acquireIdle_balance rfl
      · have before : (Phase.pumping replica : Phase K R).held n = 0 := held_of_none rfl
        unfold Balanced
        rw [before, Nat.zero_add]
        exact acquireIdle_balance rfl
    · have nothing : (if answer.executed = true then s.acquireIdle skipped else (s, none)) =
          (s, none) := by
        split_ifs with hexecuted
        · cases hidle : s.table.oldestIdle skipped with
          | none => simp [State.acquireIdle, hidle]
          | some row => exact absurd (careful hasks hexecuted row hidle).1 hanswer
        · rfl
      rcases asks_iff.1 hasks with ⟨call, rfl⟩ | ⟨replica, rfl⟩
      · simp only [onAcquireIdle, nothing, if_neg hanswer]
        exact balanced_of_placed rfl rfl
      · simp only [onAcquireIdle, nothing, if_neg hanswer]
        exact balanced_of_placed rfl rfl
  · cases phase <;> first | exact balanced_of_placed rfl rfl | exact absurd rfl hasks

theorem execute_balanced (config : PoolConfig) {index : ℕ} {answer : DbAnswer} {phase : Phase K R}
    (careful : Careful (.execute index answer) s phase) :
    Balanced n s phase (s.execute config index answer, phase) := by
  unfold State.execute
  split
  · exact balanced_of_placed rfl rfl
  · rename_i release hget
    obtain ⟨hlt, hrelease⟩ := List.getElem?_eq_some_iff.1 hget
    have hperm := List.getElem_cons_eraseIdx_perm hlt
    have hcount := hperm.countP_eq fun r => decide (r.lease = n)
    rw [List.countP_cons, hrelease] at hcount
    rw [if_pos (careful hlt)]
    refine balanced_of_placed rfl ?_
    simp only [State.placed, State.executed, List.count_append, List.count_singleton, beq_iff_eq]
    simp only [decide_eq_true_eq] at hcount
    omega

theorem onUpdateSequence_balanced {answer : DbAnswer} {phase : Phase K R}
    (careful : Careful (.updateSequence answer) s phase) :
    Balanced n s phase (onUpdateSequence answer s phase) := by
  cases phase with
  | updating call lease error sequence =>
    obtain rfl := careful rfl
    have before : (Phase.updating call lease error sequence : Phase K R).held n =
        if lease.id = n then 1 else 0 := held_of_lease rfl
    simp only [onUpdateSequence, DbAnswer.executed_answered, if_true]
    refine balanced_of_placed rfl ?_
    rw [before, placed_release, next_held]
    simp only [State.placed]
    omega
  | _ => exact balanced_of_placed rfl rfl

omit [DecidableEq K] in
theorem lease_of_atRest {phase : Phase K R} (h : phase.AtRest = true) : phase.lease = none := by
  cases phase <;> simp_all [Phase.AtRest, Phase.lease]

theorem step_balanced [DecidableEq R] (config : PoolConfig) {input : Input K R}
    {phase : Phase K R} (careful : Careful input s phase) :
    Balanced n s phase (step config input s phase) := by
  cases input with
  | execute index answer => exact execute_balanced config careful
  | submitTransaction replica maxRetries =>
    simp only [step]
    split_ifs with hrest
    · refine balanced_of_placed rfl ?_
      rw [held_of_none (lease_of_atRest hrest), held_of_none rfl]
    · refine balanced_of_placed rfl ?_
      rw [held_of_none (lease_of_atRest hrest), held_of_none rfl]
    · exact balanced_of_placed rfl rfl
  | processQueue replica =>
    simp only [step]
    split_ifs with hrest
    · refine balanced_of_placed rfl ?_
      rw [held_of_none (lease_of_atRest hrest.1), held_of_none rfl]
    · exact balanced_of_placed rfl rfl
  | acquireIdle skipped answer => exact onAcquireIdle_balanced careful
  | buildAcquireResult failure =>
    cases phase with
    | acquired call found => exact acquired_balanced config careful
    | shifting replica found => exact shifted_balanced careful
    | _ => exact balanced_of_placed rfl rfl
  | resolve =>
    cases phase with
    | waiting call ticket => exact resolved_balanced call ticket
    | _ => exact balanced_of_placed rfl rfl
  | reject message =>
    cases phase with
    | waiting call ticket =>
      simp only [step]
      split_ifs <;> exact balanced_of_placed rfl rfl
    | _ => exact balanced_of_placed rfl rfl
  | buildAndSubmit failure =>
    cases phase with
    | submitting call lease => exact settled_balanced call lease failure
    | _ => exact balanced_of_placed rfl rfl
  | findByPublicKey failure =>
    cases phase with
    | finding call lease error =>
      rw [careful rfl]
      exact balanced_of_placed rfl rfl
    | _ => exact balanced_of_placed rfl rfl
  | loadAccount answer =>
    cases phase with
    | loading call lease error =>
      cases answer with
      | ok sequence => exact balanced_of_placed rfl rfl
      | error message => exact absurd (careful rfl) nofun
    | _ => exact balanced_of_placed rfl rfl
  | updateSequence answer => exact onUpdateSequence_balanced careful
  | _ => exact balanced_of_placed rfl rfl

/-! ## Nobody is robbed -/

omit [DecidableEq K] in
/-- A lock is that of an acquisition that has not been released, and an account has one such
acquisition at most. -/
structure Sound (s : State K R) : Prop where
  holder : ∀ k m, s.holder k = some m → s.issued[m]? = some k ∧ m ∉ s.released
  apart : ∀ m n k, s.issued[m]? = some k → s.issued[n]? = some k → m ∉ s.released →
    n ∉ s.released → m = n
  released : ∀ n ∈ s.released, n < s.issued.length
  releases : ∀ r ∈ s.releases, s.issued[r.lease]? = some r.account
  handed : ∀ entry ∈ s.handed, s.issued[entry.2.id]? = some entry.2.account
  unrobbed : s.robbed = []

omit [DecidableEq K] in
def Phase.Known (s : State K R) (phase : Phase K R) : Prop :=
  ∀ lease ∈ phase.lease, s.issued[lease.id]? = some lease.account

variable {s' : State K R}

omit [DecidableEq K] in
theorem known_of_lease {phase phase' : Phase K R} (h : phase.Known s)
    (issued : s'.issued = s.issued) (lease : phase'.lease = phase.lease) : phase'.Known s' := by
  unfold Phase.Known
  rw [issued, lease]
  exact h

omit [DecidableEq K] in
theorem known_of_none {phase : Phase K R} (h : phase.lease = none) : phase.Known s := by
  unfold Phase.Known
  rw [h]
  exact nofun

omit [DecidableEq K] in
theorem Phase.Known.grow {phase : Phase K R} (h : phase.Known s) (grows : s.issued <+: s'.issued) :
    phase.Known s' := by
  intro lease hlease
  obtain ⟨more, hmore⟩ := grows
  have hget := h lease hlease
  rw [← hmore, List.getElem?_append_left (List.getElem?_eq_some_iff.1 hget).1]
  exact hget

omit [DecidableEq K] in
/-- Locks may go, and what is on its way must be known. -/
theorem Sound.frame (h : Sound s) (issued : s'.issued = s.issued)
    (released : s'.released = s.released) (robbed : s'.robbed = s.robbed)
    (holder : ∀ k m, s'.holder k = some m → s.holder k = some m)
    (releases : ∀ r ∈ s'.releases, r ∈ s.releases ∨ s.issued[r.lease]? = some r.account)
    (handed : ∀ entry ∈ s'.handed, entry ∈ s.handed ∨
      s.issued[entry.2.id]? = some entry.2.account) : Sound s' := by
  constructor
  · intro k m hm
    rw [issued, released]
    exact h.holder k m (holder k m hm)
  · rw [issued, released]
    exact h.apart
  · rw [issued, released]
    exact h.released
  · intro r hr
    rw [issued]
    exact (releases r hr).elim (h.releases r) id
  · intro entry hentry
    rw [issued]
    exact (handed entry hentry).elim (h.handed entry) id
  · rw [robbed]
    exact h.unrobbed

omit [DecidableEq K] in
/-- Locks may go, and what is on its way stays. -/
theorem Sound.unlock (h : Sound s) (issued : s'.issued = s.issued)
    (released : s'.released = s.released) (robbed : s'.robbed = s.robbed)
    (releases : s'.releases = s.releases) (handed : s'.handed = s.handed)
    (holder : ∀ k m, s'.holder k = some m → s.holder k = some m) : Sound s' :=
  h.frame issued released robbed holder (fun _ hr => Or.inl (releases ▸ hr))
    (fun _ hentry => Or.inl (handed ▸ hentry))

omit [DecidableEq K] in
theorem Sound.release (h : Sound s) {lease : Lease K}
    (known : s.issued[lease.id]? = some lease.account) (settling : Settling) :
    Sound (s.release lease settling) := by
  refine h.frame rfl rfl rfl (fun _ _ hm => hm) ?_ (fun _ hentry => Or.inl hentry)
  intro r hr
  rcases List.mem_append.1 hr with hr | hr
  · exact Or.inl hr
  · rw [List.mem_singleton.1 hr]
    exact Or.inr known

theorem Sound.acquireIdle (h : Sound s) {skipped : List K}
    (spare : ∀ row ∈ s.table.oldestIdle skipped, s.Spare row.publicKey) :
    Sound (s.acquireIdle skipped).1 ∧ s.issued <+: (s.acquireIdle skipped).1.issued ∧
      ∀ lease ∈ (s.acquireIdle skipped).2,
        (s.acquireIdle skipped).1.issued[lease.id]? = some lease.account := by
  cases hidle : s.table.oldestIdle skipped with
  | none =>
    simp only [State.acquireIdle, hidle]
    exact ⟨h, List.prefix_refl _, nofun⟩
  | some row =>
    simp only [State.acquireIdle, hidle]
    have fresh : s.issued.length ∉ s.released := fun hmem =>
      absurd (h.released _ hmem) (Nat.lt_irrefl _)
    have last : (s.issued ++ [row.publicKey])[s.issued.length]? = some row.publicKey :=
      List.getElem?_concat_length
    have earlier : ∀ {n : ℕ} {k : K}, s.issued[n]? = some k →
        (s.issued ++ [row.publicKey])[n]? = some k := by
      intro n k hn
      rw [List.getElem?_append_left (List.getElem?_eq_some_iff.1 hn).1, hn]
    have origin : ∀ {n : ℕ} {k : K}, (s.issued ++ [row.publicKey])[n]? = some k →
        n ∉ s.released → s.issued[n]? = some k ∧ k ≠ row.publicKey ∨
          n = s.issued.length ∧ k = row.publicKey := by
      intro n k hn hunreleased
      rw [List.getElem?_append] at hn
      split_ifs at hn with hlt
      · refine Or.inl ⟨hn, ?_⟩
        rintro rfl
        exact hunreleased (spare row hidle n (List.mem_range.2 hlt) hn)
      · obtain ⟨hpos, hk⟩ := List.getElem?_eq_some_iff.1 hn
        rw [List.length_singleton] at hpos
        rw [List.getElem_singleton] at hk
        exact Or.inr ⟨by omega, hk.symm⟩
    refine ⟨⟨?_, ?_, ?_, ?_, ?_, h.unrobbed⟩, List.prefix_append _ _, ?_⟩
    · intro k m hm
      by_cases hk : k = row.publicKey
      · subst hk
        simp only [Function.update_self] at hm
        obtain rfl := Option.some.inj hm
        exact ⟨last, fresh⟩
      · simp only [Function.update_of_ne hk] at hm
        exact ⟨earlier (h.holder k m hm).1, (h.holder k m hm).2⟩
    · intro m n k hm hn hm' hn'
      rcases origin hm hm' with ⟨hm, hk⟩ | ⟨rfl, rfl⟩
      · rcases origin hn hn' with ⟨hn, -⟩ | ⟨-, rfl⟩
        · exact h.apart m n k hm hn hm' hn'
        · exact absurd rfl hk
      · rcases origin hn hn' with ⟨-, hk⟩ | ⟨rfl, -⟩
        · exact absurd rfl hk
        · rfl
    · intro n hn
      rw [List.length_append]
      exact Nat.lt_add_right _ (h.released n hn)
    · exact fun r hr => earlier (h.releases r hr)
    · exact fun entry hentry => earlier (h.handed entry hentry)
    · intro lease hlease
      obtain rfl := Option.some.inj hlease
      exact last

theorem Sound.execute (h : Sound s) (config : PoolConfig) (index : ℕ) (answer : DbAnswer)
    (once : ∀ n, s.placed n ≤ 1) : Sound (s.execute config index answer) := by
  unfold State.execute
  split
  · exact h
  · rename_i release hget
    have hmem := List.mem_of_getElem? hget
    have known := h.releases release hmem
    have fewer : Sound ({ s with releases := s.releases.eraseIdx index } : State K R) :=
      h.frame rfl rfl rfl (fun _ _ hm => hm)
        (fun _ hr => Or.inl (List.mem_of_mem_eraseIdx hr)) (fun _ hentry => Or.inl hentry)
    dsimp only
    split_ifs
    · have unreleased : release.lease ∉ s.released := by
        intro hreleased
        have hcount := List.count_pos_iff.2 hreleased
        have hway := List.countP_pos_iff (p := fun r : Release K => r.lease = release.lease)
          |>.2 ⟨release, hmem, by simp⟩
        have := once release.lease
        unfold State.placed at this
        omega
      refine ⟨?_, ?_, ?_, fewer.releases, fewer.handed, ?_⟩
      · intro k m hm
        by_cases hk : k = release.account
        · subst hk
          simp [State.executed] at hm
        · simp only [State.executed, Function.update_of_ne hk] at hm
          obtain ⟨hissued, hunreleased⟩ := h.holder k m hm
          refine ⟨hissued, ?_⟩
          intro hreleased
          rcases List.mem_append.1 hreleased with hreleased | hreleased
          · exact hunreleased hreleased
          · rw [List.mem_singleton.1 hreleased, known] at hissued
            exact hk (Option.some.inj hissued).symm
      · intro m n k hm hn hm' hn'
        refine h.apart m n k hm hn ?_ ?_
        · exact fun hmem => hm' (List.mem_append_left _ hmem)
        · exact fun hmem => hn' (List.mem_append_left _ hmem)
      · intro n hn
        rcases List.mem_append.1 hn with hn | hn
        · exact h.released n hn
        · rw [List.mem_singleton.1 hn]
          exact (List.getElem?_eq_some_iff.1 known).1
      · have own : ((s.holder release.account).toList.filter
            fun other => other ≠ release.lease) = [] := by
          rw [List.filter_eq_nil_iff]
          intro m hm
          obtain ⟨hissued, hunreleased⟩ := h.holder release.account m (Option.mem_toList.1 hm)
          simpa using h.apart m release.lease release.account hissued known hunreleased unreleased
        simp only [State.executed, own, List.map_nil, List.append_nil]
        exact h.unrobbed
    · exact fewer

/-! ## One turn -/

omit [DecidableEq K] in
/-- A turn that acquires nothing. -/
theorem Sound.turn (h : Sound s') (issued : s'.issued = s.issued) {phase : Phase K R}
    (known : phase.Known s') : Sound s' ∧ phase.Known s' ∧ s.issued <+: s'.issued :=
  ⟨h, known, by rw [issued]⟩

theorem Sound.onAcquireIdle (h : Sound s) {skipped : List K} {answer : DbAnswer}
    {phase : Phase K R} (known : phase.Known s)
    (careful : Careful (.acquireIdle skipped answer) s phase) :
    Sound (onAcquireIdle skipped answer s phase).1 ∧
      (onAcquireIdle skipped answer s phase).2.Known (onAcquireIdle skipped answer s phase).1 ∧
      s.issued <+: (onAcquireIdle skipped answer s phase).1.issued := by
  by_cases hasks : phase.asks = true
  · by_cases hexecuted : answer.executed = true
    · obtain ⟨sound, grows, found⟩ := h.acquireIdle fun row hrow =>
        (careful hasks hexecuted row hrow).2
      rcases asks_iff.1 hasks with ⟨call, rfl⟩ | ⟨replica, rfl⟩
      · simp only [Accounts.onAcquireIdle, if_pos hexecuted]
        refine ⟨sound, ?_, grows⟩
        split_ifs
        · exact found
        · exact known_of_none rfl
      · simp only [Accounts.onAcquireIdle, if_pos hexecuted]
        refine ⟨sound, ?_, grows⟩
        split_ifs
        · exact found
        · exact known_of_none rfl
    · rcases asks_iff.1 hasks with ⟨call, rfl⟩ | ⟨replica, rfl⟩
      · simp only [Accounts.onAcquireIdle, if_neg hexecuted]
        refine h.turn rfl ?_
        split_ifs <;> exact known_of_none rfl
      · simp only [Accounts.onAcquireIdle, if_neg hexecuted]
        refine h.turn rfl ?_
        split_ifs <;> exact known_of_none rfl
  · cases phase <;> first | exact h.turn rfl known | exact absurd rfl hasks

theorem Sound.buildAcquireResult [DecidableEq R] (h : Sound s) (config : PoolConfig)
    (failure : Option String) {phase : Phase K R} (known : phase.Known s) :
    let result := step config (.buildAcquireResult failure) s phase
    Sound result.1 ∧ result.2.Known result.1 ∧ s.issued <+: result.1.issued := by
  cases phase with
  | acquired call found =>
    simp only [step]
    cases found with
    | none =>
      simp only [Accounts.acquired]
      split_ifs
      · exact h.turn rfl (known_of_none rfl)
      · refine Sound.turn ?_ rfl (known_of_none rfl)
        exact h.unlock rfl rfl rfl rfl rfl fun _ _ hm => hm
    | some lease =>
      cases failure with
      | none => exact h.turn rfl known
      | some message => exact h.turn rfl (known_of_none rfl)
  | shifting replica found =>
    simp only [step]
    cases found with
    | none => exact h.turn rfl (known_of_none rfl)
    | some lease =>
      have hlease := known lease rfl
      cases hqueue : s.queues replica with
      | nil =>
        simp only [Accounts.shifted, hqueue]
        exact (h.release hlease .unused).turn rfl (known_of_none rfl)
      | cons ticket queue =>
        simp only [Accounts.shifted, hqueue]
        cases failure with
        | some message =>
          refine Sound.turn ?_ rfl (known_of_none rfl)
          exact h.unlock rfl rfl rfl rfl rfl fun _ _ hm => hm
        | none =>
          refine Sound.turn ?_ rfl (known_of_none rfl)
          refine h.frame rfl rfl rfl (fun _ _ hm => hm) (fun _ hr => Or.inl hr) ?_
          intro entry hentry
          rcases List.mem_append.1 hentry with hentry | hentry
          · exact Or.inl hentry
          · rw [List.mem_singleton.1 hentry]
            exact Or.inr hlease
  | _ => exact h.turn rfl known

theorem Sound.resolved (h : Sound s) (call : Call R) (ticket : ℕ) :
    Sound (resolved s call ticket).1 ∧
      (Accounts.resolved s call ticket).2.Known (Accounts.resolved s call ticket).1 ∧
      s.issued <+: (Accounts.resolved s call ticket).1.issued := by
  unfold Accounts.resolved
  split
  · rename_i entry hfound
    have hentry := h.handed entry (List.mem_of_find?_eq_some hfound)
    refine Sound.turn ?_ rfl ?_
    · exact h.frame rfl rfl rfl (fun _ _ hm => hm) (fun _ hr => Or.inl hr)
        (fun _ hmem => Or.inl (List.mem_of_mem_erase hmem))
    · intro lease hlease
      obtain rfl := Option.some.inj hlease
      exact hentry
  · exact h.turn rfl (known_of_none rfl)

omit [DecidableEq K] in
theorem next_known (call : Call R) (error : SubmitError) : (call.next error).Known s := by
  unfold Call.next
  split_ifs <;> exact known_of_none rfl

omit [DecidableEq K] in
theorem Sound.settled (h : Sound s) (call : Call R) {lease : Lease K}
    (known : s.issued[lease.id]? = some lease.account) (failure : Option SubmitError) :
    Sound (settled s call lease failure).1 ∧
      (Accounts.settled s call lease failure).2.Known (Accounts.settled s call lease failure).1 ∧
      s.issued <+: (Accounts.settled s call lease failure).1.issued := by
  cases failure with
  | none => exact (h.release known _).turn rfl (known_of_none rfl)
  | some error =>
    simp only [Accounts.settled]
    split_ifs
    · refine h.turn rfl ?_
      intro lease' hlease
      obtain rfl := Option.some.inj hlease
      exact known
    · exact (h.release known _).turn rfl (next_known call error)
    · exact (h.release known _).turn rfl (known_of_none rfl)

theorem Sound.onUpdateSequence (h : Sound s) (answer : DbAnswer) {phase : Phase K R}
    (known : phase.Known s) :
    Sound (onUpdateSequence answer s phase).1 ∧
      (Accounts.onUpdateSequence answer s phase).2.Known
        (Accounts.onUpdateSequence answer s phase).1 ∧
      s.issued <+: (Accounts.onUpdateSequence answer s phase).1.issued := by
  cases phase with
  | updating call lease error sequence =>
    have hlease := known lease rfl
    have updated : ∀ table : Table K, Sound ({ s with table := table } : State K R) := fun _ =>
      h.unlock rfl rfl rfl rfl rfl fun _ _ hm => hm
    simp only [Accounts.onUpdateSequence]
    by_cases hanswer : answer = .answered
    · simp only [if_pos hanswer]
      split_ifs
      · refine Sound.turn (Sound.release ?_ ?_ .failure) rfl (next_known call error)
        · exact updated _
        · exact hlease
      · exact (h.release hlease _).turn rfl (next_known call error)
    · simp only [if_neg hanswer]
      split_ifs
      · exact (updated _).turn rfl (known_of_none rfl)
      · exact h.turn rfl (known_of_none rfl)
  | _ => exact h.turn rfl known

variable [DecidableEq R]

theorem step_sound (h : Sound s) (config : PoolConfig) {input : Input K R} {phase : Phase K R}
    (known : phase.Known s) (once : ∀ n, s.placed n ≤ 1) (careful : Careful input s phase) :
    Sound (step config input s phase).1 ∧
      (step config input s phase).2.Known (step config input s phase).1 ∧
      s.issued <+: (step config input s phase).1.issued := by
  have unlocks : ∀ (table : Table K) (account : K), Sound ({ s with
      table := table, holder := Function.update s.holder account none } : State K R) := by
    intro table account
    refine h.unlock rfl rfl rfl rfl rfl ?_
    intro k m hm
    by_cases hk : k = account
    · simp [hk] at hm
    · simpa only [Function.update_of_ne hk] using hm
  cases input with
  | elapse ms =>
    refine Sound.turn ?_ rfl known
    exact h.unlock rfl rfl rfl rfl rfl fun _ _ hm => hm
  | recoverStale timeoutMs =>
    refine Sound.turn ?_ rfl known
    refine h.unlock rfl rfl rfl rfl rfl ?_
    intro k m hm
    simp only [step, State.recoverStale] at hm
    split at hm
    · split_ifs at hm
      exact hm
    · exact hm
  | recoverDisabled recoveryMs =>
    refine Sound.turn ?_ rfl known
    exact h.unlock rfl rfl rfl rfl rfl fun _ _ hm => hm
  | forceRelease account => exact (unlocks _ account).turn rfl known
  | enableAccount account => exact (unlocks _ account).turn rfl known
  | execute index answer =>
    have same : (s.execute config index answer).issued = s.issued := by
      unfold State.execute
      split
      · rfl
      · dsimp only
        split_ifs <;> rfl
    exact (h.execute config index answer once).turn same (known_of_lease known same rfl)
  | submitTransaction replica maxRetries =>
    refine h.turn rfl ?_
    simp only [step]
    split_ifs
    · exact known_of_none rfl
    · exact known_of_none rfl
    · exact known
  | processQueue replica =>
    refine h.turn rfl ?_
    simp only [step]
    split_ifs
    · exact known_of_none rfl
    · exact known
  | acquireIdle skipped answer => exact h.onAcquireIdle known careful
  | buildAcquireResult failure => exact h.buildAcquireResult config failure known
  | resolve =>
    cases phase with
    | waiting call ticket => exact h.resolved call ticket
    | _ => exact h.turn rfl known
  | reject message =>
    cases phase with
    | waiting call ticket =>
      simp only [step]
      split_ifs
      · refine Sound.turn ?_ rfl (known_of_none rfl)
        exact h.unlock rfl rfl rfl rfl rfl fun _ _ hm => hm
      · exact h.turn rfl known
    | _ => exact h.turn rfl known
  | buildAndSubmit failure =>
    cases phase with
    | submitting call lease => exact h.settled call (known lease rfl) failure
    | _ => exact h.turn rfl known
  | findByPublicKey failure =>
    cases phase with
    | finding call lease error =>
      cases failure with
      | none => exact h.turn rfl known
      | some message => exact h.turn rfl (known_of_none rfl)
    | _ => exact h.turn rfl known
  | loadAccount answer =>
    cases phase with
    | loading call lease error =>
      cases answer with
      | ok sequence => exact h.turn rfl known
      | error message => exact h.turn rfl (known_of_none rfl)
    | _ => exact h.turn rfl known
  | updateSequence answer => exact h.onUpdateSequence answer known

/-! ## Runs -/

variable [DecidableEq ι]

/-- An acquisition that is with one call or in one other place. -/
abbrev InOnePlace (n : ℕ) (w : World K R ι) : Prop :=
  Exclusive (Phase.Holds n) (fun s => s.placed n = s.born n)
    (fun s phase => phase.Holds n ∧ s.placed n = 0 ∧ s.born n = 1) w

omit [DecidableEq K] [DecidableEq R] [DecidableEq ι] in
theorem InOnePlace.placed_le {w : World K R ι} (h : InOnePlace n w) : w.shared.placed n ≤ 1 := by
  rcases h with ⟨hplaced, -⟩ | ⟨i, ⟨-, hplaced, -⟩, -⟩
  · rw [hplaced]
    exact born_le_one _ _
  · omega

/-- In every run in which accounts are acquired only after their last release, with an answer and a
key, no resync fails and every release is executed, each acquisition is released once, whatever else
fails, and no release frees an account for another holder. -/
theorem accounts_released_once (config : PoolConfig) (table : Table K)
    (schedule : List (ι × Input K R))
    (every : Runs.Every (advance (step config))
      (fun w turn => Careful turn.2 w.shared (w.locals turn.1)) (World.init table) schedule) :
    ReleaseLaw (run (step config) (World.init table : World K R ι) schedule) := by
  have start : Holds Sound (fun s phase => phase.Known s) (World.init table : World K R ι) ∧
      ∀ n, InOnePlace n (World.init table : World K R ι) := by
    refine ⟨⟨⟨nofun, by simp [World.init], nofun, nofun, nofun, rfl⟩, fun _ => ?_⟩, fun n => ?_⟩
    · exact known_of_none rfl
    · exact Or.inl ⟨by simp [World.init, State.placed, State.born],
        fun i => by simp [World.init, Phase.Holds, Phase.lease]⟩
  obtain ⟨⟨sound, -⟩, places⟩ : Holds Sound (fun s phase => phase.Known s)
      (run (step config) (World.init table : World K R ι) schedule) ∧
      ∀ n, InOnePlace n (run (step config) (World.init table : World K R ι) schedule) := by
    refine inv_run_of_every (fun w => Holds Sound (fun s phase => phase.Known s) w ∧
      ∀ n, InOnePlace n w) ?_ start every
    rintro w ⟨i, input⟩ ⟨holds, places⟩ careful
    obtain ⟨sound, known, grows⟩ := step_sound holds.1 config (holds.2 i)
      (fun n => (places n).placed_le) careful
    refine ⟨holds_advance holds ⟨sound, known⟩ fun _ hother => hother.grow grows, fun n => ?_⟩
    refine exclusive_advance_of_balance (places n) (born_le_one _ _) ?_
      (step_balanced config careful)
    have longer : w.shared.issued.length ≤
        (step config input w.shared (w.locals i)).1.issued.length := grows.length_le
    simp only [State.born]
    split_ifs <;> omega
  refine ⟨fun n hn => ?_, sound.unrobbed⟩
  rcases places n with ⟨hplaced, hnone⟩ | ⟨i, ⟨hi, hplaced, -⟩, hrest⟩
  · exact Or.inl ⟨by rw [hplaced, State.born, if_pos hn], hnone⟩
  · exact Or.inr ⟨hplaced, i, hi, hrest⟩

section Instances

def oneAccount : Table ℕ :=
  ⟨[⟨⟨.idle, 7, 0⟩, 1, none, none, none⟩], List.nodup_singleton _⟩

def badSequence : SubmitError := ⟨"Transaction submission failed", some "tx_bad_seq"⟩

/-- A call up to the submission of its payment on the free account. -/
def acquires {I : Type} (i : I) : List (I × Input ℕ Unit) :=
  [(i, .submitTransaction () 3), (i, .acquireIdle [] .answered), (i, .buildAcquireResult none)]

/-- The first call tries again after a resync while a second one waits for the account. -/
def retriedAndQueued : List (ℕ × Input ℕ Unit) :=
  acquires 0 ++ [(1, Input.submitTransaction () 3), (1, .acquireIdle [] .answered),
    (1, .buildAcquireResult none), (0, .buildAndSubmit (some badSequence)),
    (0, .findByPublicKey none), (0, .loadAccount (.ok 9)), (0, .updateSequence .answered),
    (0, .execute 0 .answered), (2, .processQueue ()), (2, .acquireIdle [] .answered),
    (2, .buildAcquireResult none), (1, .resolve), (1, .buildAndSubmit none),
    (1, .execute 0 (.failed true)), (0, .acquireIdle [] .answered), (0, .buildAcquireResult none),
    (0, .buildAndSubmit (some ⟨"no trustline", none⟩)), (0, .execute 0 .answered)]

theorem accounts_released_once_retried :
    let w := run (step ⟨5, 100⟩) (World.init oneAccount : World ℕ Unit ℕ) retriedAndQueued
    w.shared.released = [0, 1, 2] ∧ w.locals 1 = .returned ∧ w.locals 0 = .threw "no trustline" ∧
      ReleaseLaw w := by
  refine ⟨by decide +kernel, by decide +kernel, by decide +kernel, ?_⟩
  exact accounts_released_once _ _ _ (by decide +kernel)

/-- Horizon cannot be asked for the sequence after a sequence error. -/
def afterFailedResync : World ℕ Unit Unit :=
  run (step ⟨5, 100⟩) (World.init oneAccount) (acquires () ++
    [((), Input.buildAndSubmit (some badSequence)), ((), .findByPublicKey none),
      ((), .loadAccount (.error "Not Found"))])

/-- The first holder is slow; its lock is recovered as stale, and a second call has the account when
its release comes. -/
def afterLateRelease : World ℕ Unit ℕ :=
  run (step ⟨5, 100⟩) (World.init oneAccount) (acquires 0 ++
    [(2, Input.elapse 30001), (2, .recoverStale 30000)] ++ acquires 1 ++
    [(0, Input.buildAndSubmit none), (0, .execute 0 .answered)])

/-- The account of the first call is lost, and that of the second one is freed under it. -/
theorem account_lost_and_robbed :
    afterFailedResync.locals () = .threw "Not Found" ∧
      afterFailedResync.shared.releases = [] ∧ ¬ReleaseLaw afterFailedResync ∧
    afterLateRelease.locals 1 = .submitting ⟨(), 0, 3⟩ ⟨1, 1, 7⟩ ∧
      afterLateRelease.shared.table.rows.map (·.status) = [.idle] ∧
        ¬ReleaseLaw afterLateRelease := by
  refine ⟨by decide +kernel, by decide +kernel, fun law => ?_, by decide +kernel,
    by decide +kernel, fun law => ?_⟩
  · exact absurd (law.once 0 (by decide +kernel)) (by decide +kernel)
  · exact absurd law.unrobbed (by decide +kernel)

end Instances

end MobileMoney.Stellar.Accounts
