import MobileMoney.Channels.Exclusivity

/-!
# The leases in Redis

A process that goes on with a channel has been granted a lease of it. A lease that Redis has granted
is in Redis until it expires or its process gives it back, so no other process gets one. The OK of a
client whose `SET` has failed is no such lease.
-/

namespace MobileMoney.Channels

variable {K P C : Type}

/-! ## What a turn does to the leases -/

section Turns

variable [DecidableEq K] [DecidableEq P] {options : ChannelPoolOptions K} {now : ℕ}
  {input : Input} {pool : Pool K P C} {call : Call K P C}

/-- A turn leaves the leases of the process alone, takes the one that a claim was granted, or gives
the one of its channel back. -/
inductive Leasing (options : ChannelPoolOptions K) (now : ℕ) (input : Input) (pool : Pool K P C)
    (call : Call K P C) (result : Pool K P C × Call K P C) : Prop where
  | same (uses : result.2.phase.uses = call.phase.uses) (holders : result.1.holders = pool.holders)
  | takes (channel : K) (lease : Lease P) (holds : call.phase.channel = some channel)
      (answer : call.phase.answer input (now + options.leaseTtlMs) = some (some lease))
      (uses : result.2.phase.uses = some channel)
      (holders : result.1.holders = Function.update pool.holders channel (some lease))
  | gives (channel : K) (holds : call.phase.uses = some channel)
      (uses : result.2.phase.uses = none)
      (holders : result.1.holders = Function.update pool.holders channel none)

variable (options now input pool call) in
omit [DecidableEq P] in
theorem claimShared_uses (channel : K) (rest : Option ℕ) :
    (claimShared options now input pool call channel rest).2.phase.uses = none ∧
      (claimShared options now input pool call channel rest).1.holders = pool.holders := by
  unfold claimShared
  dsimp only
  split
  · exact ⟨rfl, rfl⟩
  split <;> exact ⟨rfl, rfl⟩

variable (options now input pool call) in
omit [DecidableEq P] in
theorem tryNext_uses (rest : ℕ) : (tryNext options now input pool call rest).2.phase.uses = none ∧
    (tryNext options now input pool call rest).1.holders = pool.holders := by
  cases rest with
  | zero => exact ⟨rfl, rfl⟩
  | succ rest =>
    cases hidle : pool.idle with
    | nil =>
      rw [tryNext]
      simp only [hidle]
      exact ⟨rfl, trivial⟩
    | cons channel idle =>
      simp only [tryNext, hidle]
      exact claimShared_uses options now input { pool with idle := idle } call channel (some rest)

variable (pool call) in
omit [DecidableEq K] [DecidableEq P] in
theorem released_uses (channel : K) (outcome : Outcome) :
    (released pool call channel outcome).2.phase.uses = none ∧
      (released pool call channel outcome).1.holders = pool.holders := by
  have holders : (pool.giveBack channel).holders = pool.holders := by
    unfold Pool.giveBack
    split <;> rfl
  cases outcome <;> exact ⟨rfl, holders⟩

variable (input pool call) in
theorem release_uses (channel : K) (outcome : Outcome) :
    (release input pool call channel outcome).2.phase.uses = none ∧
      (release input pool call channel outcome).1.holders =
        Function.update pool.holders channel none := by
  unfold release
  split
  · split <;> exact ⟨rfl, rfl⟩
  · next hnone =>
    have same : Function.update pool.holders channel none = pool.holders := by
      rw [← hnone, Function.update_eq_self]
    rw [same]
    exact released_uses pool call channel outcome

theorem Turn.leasing [DecidableEq C] {result : Pool K P C × Call K P C}
    (hturn : Turn options now input pool call result) :
    Leasing options now input pool call result := by
  cases hturn with
  | stays => exact .same rfl rfl
  | tries attempt rest hchannel =>
    obtain ⟨huses, hholders⟩ := tryNext_uses options now input pool
      { call with attempt := attempt } rest
    exact .same (huses.trans (uses_of_channel_none hchannel).symm) hholders
  | claimed channel rest granted hchannel hanswer =>
    cases granted with
    | some lease => exact .takes channel lease hchannel hanswer rfl rfl
    | none =>
      refine .same ((refused_uses rest).trans ?_) rfl
      cases hphase : call.phase with
      | claiming | answered => rfl
      | _ => rw [hphase] at hanswer; cases hanswer
  | goes phase _ huses => exact .same huses rfl
  | queues hlooked =>
    refine .same ?_ rfl
    rw [hlooked]
    rfl
  | wakes hwaiting handed =>
    obtain ⟨huses, hholders⟩ := claimShared_uses options now input
      { pool with handed := pool.handed.erase handed } call handed.2 none
    refine .same (huses.trans ?_) hholders
    rw [hwaiting]
    rfl
  | leaves hwaiting =>
    refine .same ?_ rfl
    rw [hwaiting]
    rfl
  | releases channel outcome huses =>
    obtain ⟨hafter, hholders⟩ := release_uses input pool call channel outcome
    exact .gives channel huses hafter hholders
  | released channel outcome _ huses =>
    obtain ⟨hafter, hholders⟩ := released_uses pool call channel outcome
    exact .same (hafter.trans huses.symm) hholders

end Turns

/-! ## Who has a lease -/

variable [DecidableEq K] [DecidableEq P] [DecidableEq C] {options : P → ChannelPoolOptions K}

/-- A process has a lease of every channel that a call of its works with, and of no other. -/
def Leased (w : World K P C) : Prop :=
  ∀ p k, (w.shared.pools p).holders k ≠ none ↔ ∃ c, (w.locals (p, c)).phase.uses = some k

omit [DecidableEq P] in
/-- A channel that a call has taken is with no other call of the process. -/
theorem Placed.same_call {w : World K P C} (hsigned : Signed w) (h : Placed options w) {p : P}
    {k : K} {c c' : C} (hc : (w.locals (p, c)).phase.channel = some k)
    (huses : (w.locals (p, c')).phase.uses = some k) : c' = c :=
  h.holder hsigned (channel_of_uses huses) hc

omit [DecidableEq P] in
/-- The process has no lease of a channel that a call claims or gives back. -/
theorem Leased.none_of_channel {w : World K P C} (hsigned : Signed w) (hplaced : Placed options w)
    (h : Leased w) {p : P} {k : K} {c : C} (hc : (w.locals (p, c)).phase.channel = some k)
    (huses : (w.locals (p, c)).phase.uses = none) : (w.shared.pools p).holders k = none := by
  by_contra hsome
  obtain ⟨c', huses'⟩ := (h p k).1 hsome
  obtain rfl := hplaced.same_call hsigned hc huses'
  cases huses.symm.trans huses'

theorem leased_advance {w : World K P C} (hsigned : Signed w) (hplaced : Placed options w)
    (h : Leased w) (turn : (P × C) × Input) :
    Leased (Interleaving.advance (step options) w turn) := by
  obtain ⟨⟨p, c⟩, input⟩ := turn
  have hprocess := (hsigned.2 (p, c)).process
  have hother : ∀ {j}, j ≠ (p, c) →
      (Interleaving.advance (step options) w ((p, c), input)).locals j = w.locals j :=
    fun hj => Interleaving.advance_other _ w input hj
  -- Calls of other processes and of this one keep their channels.
  have hframe : ∀ {p' k c'}, (p', c') ≠ (p, c) →
      (((Interleaving.advance (step options) w ((p, c), input)).locals (p', c')).phase.uses = some k
        ↔ (w.locals (p', c')).phase.uses = some k) := fun hne => by rw [hother hne]
  rcases advance_cases options w (p, c) input with
    ⟨-, hexecuted⟩ | ⟨-, result, hresume, hshared, hlocal⟩
  · intro p' k
    rw [hexecuted.pools]
    refine (h p' k).trans (exists_congr fun c' => ?_)
    by_cases hj : (p', c') = (p, c)
    · rw [hj, hexecuted.uses]
    · exact (hframe hj).symm
  · intro p' k
    rw [hshared]
    by_cases hp : p' = p
    · subst hp
      have hleasing : Leasing _ _ input _ _ result := hresume ▸ resume_turn.leasing
      simp only [hprocess, Function.update_self] at hleasing ⊢
      cases hleasing with
      | same huses hholders =>
        rw [hholders]
        refine (h p' k).trans (exists_congr fun c' => ?_)
        by_cases hj : (p', c') = (p', c)
        · rw [hj, hlocal, huses]
        · exact (hframe hj).symm
      | takes channel lease hchannel hanswer huses hholders =>
        rw [hholders]
        by_cases hk : k = channel
        · subst hk
          exact iff_of_true (by simp) ⟨c, by rw [hlocal, huses]⟩
        · rw [Function.update_of_ne hk]
          refine (h p' k).trans (exists_congr fun c' => ?_)
          by_cases hj : (p', c') = (p', c)
          · have hnone := (token_of_answer hanswer).2
            rw [hj, hlocal, huses, hnone]
            simpa using Ne.symm hk
          · exact (hframe hj).symm
      | gives channel hchannel huses hholders =>
        rw [hholders]
        by_cases hk : k = channel
        · subst hk
          refine iff_of_false (by simp) ?_
          rintro ⟨c', huses'⟩
          by_cases hj : (p', c') = (p', c)
          · rw [hj, hlocal, huses] at huses'
            cases huses'
          · have := hplaced.same_call hsigned (channel_of_uses hchannel) ((hframe hj).1 huses')
            exact hj (by rw [this])
        · rw [Function.update_of_ne hk]
          refine (h p' k).trans (exists_congr fun c' => ?_)
          by_cases hj : (p', c') = (p', c)
          · rw [hj, hlocal, huses, hchannel]
            simpa using Ne.symm hk
          · exact (hframe hj).symm
    · simp only [hprocess, Function.update_of_ne hp]
      refine (h p' k).trans (exists_congr fun c' => ?_)
      exact (hframe fun hj => hp (congrArg Prod.fst hj)).symm

/-! ## What is in Redis -/

/-- The channel, the token and the end of the lease that Redis has granted to a claim. -/
def Phase.granted : Phase K P → Option (K × Token P × ℕ)
  | .claiming channel token _ (some (some expiry)) => some (channel, token, expiry)
  | _ => none

omit [DecidableEq K] [DecidableEq P] in
theorem of_granted {phase : Phase K P} {channel : K} {token : Token P} {expiry : ℕ}
    (h : phase.granted = some (channel, token, expiry)) :
    phase.channel = some channel ∧ phase.token = some token ∧ phase.uses = none := by
  unfold Phase.granted at h
  split at h
  · obtain ⟨rfl, rfl, rfl⟩ := h
    exact ⟨rfl, rfl, rfl⟩
  · cases h

omit [DecidableEq K] [DecidableEq P] in
theorem granted_of_token {phase : Phase K P} (h : phase.token = none) : phase.granted = none := by
  cases hgranted : phase.granted with
  | none => rfl
  | some lease => cases h.symm.trans (of_granted hgranted).2.1

/-- Redis has what it has granted until it expires or is given back. -/
structure Stored (w : World K P C) : Prop where
  held : ∀ p k lease expiry, (w.shared.pools p).holders k = some lease →
    lease.sharedUntil = some expiry → w.shared.now < expiry →
    w.shared.redis k = some ⟨lease.token, expiry⟩
  granted : ∀ i k token expiry, (w.locals i).phase.granted = some (k, token, expiry) →
    w.shared.now < expiry → w.shared.redis k = some ⟨token, expiry⟩

section Calls

variable {options : ChannelPoolOptions K} {now : ℕ} {input : Input} {pool : Pool K P C}
  {call : Call K P C}

omit [DecidableEq P] [DecidableEq C] in
theorem claimShared_granted (channel : K) (rest : Option ℕ) :
    (claimShared options now input pool call channel rest).2.phase.granted = none := by
  unfold claimShared
  dsimp only
  split
  · rfl
  split <;> rfl

/-- Only Redis grants anything. -/
theorem Turn.granted {result : Pool K P C × Call K P C}
    (hturn : Turn options now input pool call result) :
    result.2.phase.granted = call.phase.granted ∨ result.2.phase.granted = none := by
  cases hturn with
  | stays => exact .inl rfl
  | tries attempt rest =>
    right
    cases rest with
    | zero => rfl
    | succ rest =>
      rw [tryNext]
      split
      · rfl
      · exact claimShared_granted _ _
  | claimed channel rest granted =>
    right
    cases granted with
    | some lease => rfl
    | none => cases rest <;> rfl
  | goes phase _ _ _ _ htoken => exact .inr (granted_of_token htoken)
  | queues => exact .inr rfl
  | wakes => exact .inr (claimShared_granted _ _)
  | leaves => exact .inr rfl
  | releases channel outcome =>
    right
    unfold release
    split
    · split <;> rfl
    · cases outcome <;> rfl
  | released channel outcome => cases outcome <;> exact .inr rfl

omit [DecidableEq C] in
/-- A command at Redis does away with a lease only by giving back its token. -/
theorem execute_keeps {cluster : Cluster K P C} {channel : K} {entry : Expiring.Entry (Token P)}
    (hheld : cluster.redis channel = some entry) (hlive : cluster.now < entry.expiry)
    (hkept : ∀ outcome, call.phase ≠ .releasing channel entry.value false outcome) :
    (execute options cluster call).1.redis channel = some entry := by
  obtain ⟨process, id, attempt, phase⟩ := call
  cases phase with
  | claiming other token rest answer =>
    cases answer with
    | some ok => exact hheld
    | none =>
      simp only [execute]
      split
      · next cell hacquired =>
        obtain ⟨hfree, -⟩ := Expiring.acquire_eq_some.1 hacquired
        have hne : channel ≠ other := by
          rintro rfl
          rw [Expiring.get_of_live hheld hlive] at hfree
          cases hfree
        simpa only [Function.update_of_ne hne] using hheld
      · exact hheld
  | releasing other token executed outcome =>
    cases executed with
    | true => exact hheld
    | false =>
      simp only [execute]
      by_cases hother : channel = other
      · subst hother
        have hne : entry.value ≠ token := fun h => hkept outcome (h ▸ rfl)
        rw [Function.update_self]
        exact Expiring.release_of_ne hheld hne
      · simpa only [Function.update_of_ne hother] using hheld
  | _ => exact hheld

omit [DecidableEq C] in
/-- What a command grants is in Redis. -/
theorem execute_granted {cluster : Cluster K P C} {lease : K × Token P × ℕ}
    (h : (execute options cluster call).2.phase.granted = some lease) :
    call.phase.granted = some lease ∧ (execute options cluster call).1 = cluster ∨
      (execute options cluster call).1.redis lease.1 = some ⟨lease.2.1, lease.2.2⟩ := by
  obtain ⟨process, id, attempt, phase⟩ := call
  cases phase with
  | claiming channel token rest answer =>
    cases answer with
    | some granted => exact .inl ⟨h, rfl⟩
    | none =>
      right
      simp only [execute] at h ⊢
      split at h
      · next cell hacquired =>
        obtain ⟨-, rfl⟩ := Expiring.acquire_eq_some.1 hacquired
        cases h
        exact Function.update_self _ _ _
      · cases h
  | releasing channel token executed outcome => cases executed <;> cases h
  | _ => cases h

end Calls

/-- The call waits for the answer of Redis to its claim. -/
def Phase.claims : Phase K P → Bool
  | .claiming _ _ _ _ => true
  | _ => false

/-- The client answers a claim itself, and Redis has not granted the lease. -/
def MadeUp (w : World K P C) (turn : (P × C) × Input) : Prop :=
  turn.2.executes = false ∧ turn.2.fails = true ∧ (w.locals turn.1).phase.claims = true ∧
    (w.locals turn.1).phase.granted = none

instance (w : World K P C) (turn : (P × C) × Input) : Decidable (MadeUp w turn) :=
  inferInstanceAs (Decidable (_ ∧ _ ∧ _ ∧ _))

omit [DecidableEq K] [DecidableEq P] [DecidableEq C] in
/-- A lease of Redis that a call is granted is one that Redis has granted. -/
theorem granted_of_answer {w : World K P C} {turn : (P × C) × Input}
    (genuine : ¬MadeUp w turn) (hexecutes : turn.2.executes = false) {k : K} {lease : Lease P}
    {expiry last : ℕ} (hchannel : (w.locals turn.1).phase.channel = some k)
    (hanswer : (w.locals turn.1).phase.answer turn.2 last = some (some lease))
    (hexpiry : lease.sharedUntil = some expiry) :
    (w.locals turn.1).phase.granted = some (k, lease.token, expiry) := by
  cases hphase : (w.locals turn.1).phase with
  | claiming channel token rest answer =>
    have hk : channel = k := by simpa [hphase, Phase.channel] using hchannel
    subst hk
    simp only [hphase, Phase.answer] at hanswer
    split at hanswer
    · next hfails =>
      rcases answer with _ | _ | granted
      · refine absurd ⟨hexecutes, hfails, ?_, ?_⟩ genuine <;> rw [hphase] <;> rfl
      · refine absurd ⟨hexecutes, hfails, ?_, ?_⟩ genuine <;> rw [hphase] <;> rfl
      · cases hanswer
        cases hexpiry
        rfl
    · rcases answer with _ | _ | granted
      · cases hanswer
      · cases hanswer
      · cases hanswer
        cases hexpiry
        rfl
  | answered channel token rest ok =>
    rw [hphase] at hanswer
    cases ok <;> cases hanswer
    cases hexpiry
  | _ => rw [hphase] at hanswer; cases hanswer

/-- The token of a lease that a process has, or of a claim of its that Redis has granted, is not the
one that a call gives back. -/
theorem Stored.executes {w : World K P C} (hsigned : Signed w) (hplaced : Placed options w)
    (hleased : Leased w) (h : Stored w) {i : P × C} {input : Input}
    (hexecuted : Executed (w.shared.after input.elapsed) (w.locals i)
      (execute (options (w.locals i).process) (w.shared.after input.elapsed) (w.locals i)))
    (hexecutes : input.executes = true) :
    Stored (Interleaving.advance (step options) w (i, input)) := by
  have hshared : (Interleaving.advance (step options) w (i, input)).shared =
      (execute (options (w.locals i).process) (w.shared.after input.elapsed) (w.locals i)).1 := by
    rw [Interleaving.advance_shared]
    simp only [step, hexecutes, if_true]
    rfl
  have hlocal : (Interleaving.advance (step options) w (i, input)).locals i =
      (execute (options (w.locals i).process) (w.shared.after input.elapsed) (w.locals i)).2 := by
    rw [Interleaving.advance_self]
    simp only [step, hexecutes, if_true]
    rfl
  have hown := hsigned.2 i
  have hnow : ∀ {expiry}, (w.shared.after input.elapsed).now < expiry → w.shared.now < expiry :=
    fun hlive => (Nat.le_add_right _ _).trans_lt hlive
  constructor
  · intro p k lease expiry hheld hexpiry hlive
    rw [hshared, hexecuted.pools] at hheld
    rw [hshared, hexecuted.now] at hlive
    have hstored := h.held p k lease expiry hheld hexpiry (hnow hlive)
    rw [hshared]
    refine execute_keeps hstored hlive fun outcome hphase => ?_
    have hp : p = i.1 := by
      rw [← hsigned.1 p k lease hheld, ← hown.process]
      exact hown.signed lease.token (by rw [hphase]; rfl)
    obtain ⟨p', c⟩ := i
    obtain rfl : p = p' := hp
    rw [show (w.shared.after input.elapsed).pools p = w.shared.pools p from rfl,
      hleased.none_of_channel hsigned hplaced (c := c) (by rw [hphase]; rfl) (by rw [hphase]; rfl)]
      at hheld
    cases hheld
  · intro j k token expiry hgranted hlive
    rw [hshared, hexecuted.now] at hlive
    rw [hshared]
    by_cases hj : j = i
    · subst hj
      rw [hlocal] at hgranted
      rcases execute_granted hgranted with ⟨hbefore, hsame⟩ | hnew
      · rw [hsame]
        exact h.granted j k token expiry hbefore (hnow hlive)
      · exact hnew
    · rw [Interleaving.advance_other _ w input hj] at hgranted
      refine execute_keeps (h.granted j k token expiry hgranted (hnow hlive)) hlive
        fun outcome hphase => hj ?_
      obtain ⟨hchannel, htoken, -⟩ := of_granted hgranted
      have hp : j.1 = i.1 := by
        rw [← (hsigned.2 j).process, ← hown.process, ← (hsigned.2 j).signed token htoken]
        exact hown.signed token (by rw [hphase]; rfl)
      have hc : j.2 = i.2 := by
        refine hplaced.holder hsigned (p := i.1) (k := k) ?_ (by rw [hphase]; rfl)
        rw [← hp]
        exact hchannel
      exact Prod.ext hp hc

theorem Stored.resumes {w : World K P C} (hsigned : Signed w) (h : Stored w) {i : P × C}
    {input : Input} (genuine : ¬MadeUp w (i, input)) (hexecutes : input.executes = false)
    {result : Pool K P C × Call K P C}
    (hturn : Turn (options (w.locals i).process) (w.shared.now + input.elapsed) input
      (w.shared.pools (w.locals i).process) (w.locals i) result)
    (hshared : (Interleaving.advance (step options) w (i, input)).shared =
      { w.shared with
        now := w.shared.now + input.elapsed
        pools := Function.update w.shared.pools (w.locals i).process result.1 })
    (hlocal : (Interleaving.advance (step options) w (i, input)).locals i = result.2) :
    Stored (Interleaving.advance (step options) w (i, input)) := by
  have hprocess := (hsigned.2 i).process
  have hnow : ∀ {expiry}, w.shared.now + input.elapsed < expiry → w.shared.now < expiry :=
    fun hlive => (Nat.le_add_right _ _).trans_lt hlive
  constructor
  · intro p k lease expiry hheld hexpiry hlive
    rw [hshared] at hheld hlive ⊢
    have hkept : (w.shared.pools p).holders k = some lease →
        w.shared.redis k = some ⟨lease.token, expiry⟩ :=
      fun hbefore => h.held p k lease expiry hbefore hexpiry (hnow hlive)
    by_cases hp : p = i.1
    · subst hp
      simp only [hprocess, Function.update_self] at hheld
      rw [hprocess] at hturn
      cases hturn.leasing with
      | same _ hholders => exact hkept (hholders ▸ hheld)
      | takes channel granted hchannel hanswer _ hholders =>
        rw [hholders] at hheld
        by_cases hk : k = channel
        · subst hk
          rw [Function.update_self] at hheld
          obtain rfl := Option.some.inj hheld
          exact h.granted i k _ expiry
            (granted_of_answer genuine hexecutes hchannel hanswer hexpiry) (hnow hlive)
        · rw [Function.update_of_ne hk] at hheld
          exact hkept hheld
      | gives channel _ _ hholders =>
        rw [hholders] at hheld
        by_cases hk : k = channel
        · subst hk
          rw [Function.update_self] at hheld
          cases hheld
        · rw [Function.update_of_ne hk] at hheld
          exact hkept hheld
    · simp only [hprocess, Function.update_of_ne hp] at hheld
      exact hkept hheld
  · intro j k token expiry hgranted hlive
    rw [hshared] at hlive ⊢
    by_cases hj : j = i
    · subst hj
      rw [hlocal] at hgranted
      rcases hturn.granted with hsame | hnone
      · exact h.granted j k token expiry (hsame ▸ hgranted) (hnow hlive)
      · cases hnone.symm.trans hgranted
    · rw [Interleaving.advance_other _ w input hj] at hgranted
      exact h.granted j k token expiry hgranted (hnow hlive)

theorem stored_advance {w : World K P C} (hsigned : Signed w) (hplaced : Placed options w)
    (hleased : Leased w) (h : Stored w) {turn : (P × C) × Input} (genuine : ¬MadeUp w turn) :
    Stored (Interleaving.advance (step options) w turn) := by
  obtain ⟨i, input⟩ := turn
  rcases advance_cases options w i input with
    ⟨hexecutes, -⟩ | ⟨hexecutes, result, hresume, hshared, hlocal⟩
  · exact h.executes hsigned hplaced hleased (execute_executed _ _) hexecutes
  · exact h.resumes hsigned genuine hexecutes (hresume ▸ resume_turn) hshared hlocal

/-! ## Runs -/

/-- The process has a lease of Redis that has not expired. -/
def HasLease (w : World K P C) (p : P) (k : K) : Prop :=
  ∃ lease expiry, (w.shared.pools p).holders k = some lease ∧ lease.sharedUntil = some expiry ∧
    w.shared.now < expiry

/-- Whoever works with a channel has a lease of it, a lease of Redis is in Redis until it expires,
and only one process has it. -/
structure LeaseLaw (w : World K P C) : Prop where
  leased : ∀ i k, (w.locals i).phase.uses = some k → (w.shared.pools i.1).holders k ≠ none
  stored : ∀ p k lease expiry, (w.shared.pools p).holders k = some lease →
    lease.sharedUntil = some expiry → w.shared.now < expiry →
    w.shared.redis k = some ⟨lease.token, expiry⟩
  one_process : ∀ p p' k, HasLease w p k → HasLease w p' k → p = p'

omit [DecidableEq K] [DecidableEq P] [DecidableEq C] in
theorem Stored.leaseLaw {w : World K P C} (hsigned : Signed w) (hleased : Leased w)
    (h : Stored w) : LeaseLaw w where
  leased i k huses := (hleased i.1 k).2 ⟨i.2, huses⟩
  stored := h.held
  one_process p p' k := by
    rintro ⟨lease, expiry, hheld, hexpiry, hlive⟩ ⟨lease', expiry', hheld', hexpiry', hlive'⟩
    have here := h.held p k lease expiry hheld hexpiry hlive
    have there := h.held p' k lease' expiry' hheld' hexpiry' hlive'
    have same : lease.token = lease'.token := by
      rw [here] at there
      exact congrArg Expiring.Entry.value (Option.some.inj there)
    rw [← hsigned.1 p k lease hheld, same, hsigned.1 p' k lease' hheld']

omit [DecidableEq K] [DecidableEq P] [DecidableEq C] in
theorem leased_start (options : P → ChannelPoolOptions K) :
    Leased (start options : World K P C) :=
  fun _ _ => iff_of_false (not_not.2 rfl) (by rintro ⟨_, ⟨⟩⟩)

omit [DecidableEq K] [DecidableEq P] [DecidableEq C] in
theorem stored_start (options : P → ChannelPoolOptions K) :
    Stored (start options : World K P C) :=
  ⟨nofun, nofun⟩

/-- However the calls of the processes interleave and whatever fails, every channel of a process is
in one place; and as long as no client makes a lease up, whoever works with a channel has a lease
of it, and one of Redis is with one process only until it expires. -/
theorem channels_exclusive (options : P → ChannelPoolOptions K)
    (schedule : List ((P × C) × Input)) :
    (∀ p, Apart options (run options schedule) p) ∧
    (Runs.Every (Interleaving.advance (step options)) (fun w turn => ¬MadeUp w turn)
      (start options) schedule → LeaseLaw (run options schedule)) := by
  refine ⟨apart_run options schedule, fun genuine => ?_⟩
  obtain ⟨hsigned, hplaced, hqueued⟩ := placed_run (C := C) options []
  obtain ⟨hsigned, -, -, hleased, hstored⟩ := Interleaving.inv_run_of_every
    (fun w => Signed w ∧ Placed options w ∧ Queued w ∧ Leased w ∧ Stored w)
    (fun w turn ⟨hsigned, hplaced, hqueued, hleased, hstored⟩ hgenuine =>
      ⟨signed_advance options hsigned turn, placed_advance hsigned hplaced turn,
        queued_advance hsigned hqueued turn, leased_advance hsigned hplaced hleased turn,
        stored_advance hsigned hplaced hleased hstored hgenuine⟩)
    ⟨hsigned, hplaced, hqueued, leased_start options, stored_start options⟩ genuine
  exact hstored.leaseLaw hsigned hleased

section Instances

def oneChannel : ChannelPoolOptions Unit := ⟨[()], List.nodup_singleton (), 60000, 3⟩

/-- A turn with Redis connected, and an execution of a command there. -/
def goesOn : Input := ⟨1, false, true, false, false, .success⟩

def executes : Input := { goesOn with executes := true }

/-- A call claims the channel, is granted the lease and submits. -/
def claimsAndSubmits (i : Bool × Bool) : List ((Bool × Bool) × Input) :=
  [(i, goesOn), (i, executes), (i, goesOn), (i, goesOn)]

/-- Another process is refused the channel until the first one has given it back. -/
theorem channel_taken_in_turn :
    let w := run (fun _ => oneChannel) (claimsAndSubmits (true, false) ++
      [((false, false), goesOn), ((false, false), executes), ((false, false), goesOn),
        ((true, false), goesOn), ((true, false), goesOn), ((true, false), executes),
        ((true, false), goesOn), ((false, false), goesOn), ((false, false), goesOn)] ++
      claimsAndSubmits (false, false))
    (w.locals (true, false)).phase = .finished true ∧
      (w.locals (false, false)).phase = .submitting () ∧ LeaseLaw w := by
  refine ⟨by decide +kernel, by decide +kernel, ?_⟩
  exact (channels_exclusive (fun _ => oneChannel) _).2 (by decide +kernel)

/-- While a process submits with the channel, the claim of another fails, is answered with OK, and
its call submits with the same channel. -/
theorem channel_used_twice :
    let w := run (fun _ => oneChannel) (claimsAndSubmits (true, false) ++
      [((false, false), goesOn), ((false, false), { goesOn with fails := true }),
        ((false, false), goesOn)])
    (w.locals (true, false)).phase = .submitting () ∧
      (w.locals (false, false)).phase = .submitting () ∧ HasLease w true () ∧
      HasLease w false () := by
  refine ⟨by decide +kernel, by decide +kernel, ?_, ?_⟩
  · exact ⟨⟨(true, 0), some 60002⟩, 60002, by decide +kernel, by decide, by decide +kernel⟩
  · exact ⟨⟨(false, 0), some 60006⟩, 60006, by decide +kernel, by decide, by decide +kernel⟩

end Instances

end MobileMoney.Channels
