import MobileMoney.Channels.Tokens

/-!
# A channel is in one place

A channel of a process is on its idle list, with one call, or handed to one woken waiter.
Each turn moves channels between these places and neither makes nor loses one.
-/

namespace MobileMoney.Channels

variable {K P C : Type}

/-- The channels no call works with. -/
def Pool.channels (pool : Pool K P C) : List K := pool.idle ++ pool.handed.map Prod.snd

/-- The calls whose promise in `waitForLocalRelease` is pending or has just been resolved. -/
def Pool.queue (pool : Pool K P C) : List C := pool.waiters ++ pool.handed.map Prod.fst

section Moves

variable [DecidableEq K] {options : ChannelPoolOptions K} {now : ℕ} {input : Input}
  {pool : Pool K P C} {call : Call K P C}

def Call.held (call : Call K P C) (k : K) : ℕ := if call.phase.channel = some k then 1 else 0

/-! ## What a turn does to the channels -/

@[simp] theorem claimShared_idle (channel : K) (rest : Option ℕ) :
    (claimShared options now input pool call channel rest).1.idle = pool.idle := by
  unfold claimShared
  grind

@[simp] theorem claimShared_handed (channel : K) (rest : Option ℕ) :
    (claimShared options now input pool call channel rest).1.handed = pool.handed := by
  unfold claimShared
  grind

@[simp] theorem claimShared_waiters (channel : K) (rest : Option ℕ) :
    (claimShared options now input pool call channel rest).1.waiters = pool.waiters := by
  unfold claimShared
  grind

@[simp] theorem claimShared_channel (channel : K) (rest : Option ℕ) :
    (claimShared options now input pool call channel rest).2.phase.channel = some channel := by
  unfold claimShared
  grind [Phase.channel]

theorem tryNext_channels (k : K) (rest : ℕ) :
    (tryNext options now input pool call rest).1.channels.count k +
      (tryNext options now input pool call rest).2.held k = pool.channels.count k := by
  cases rest with
  | zero => simp [tryNext, Call.held, Phase.channel]
  | succ rest =>
    cases hidle : pool.idle with
    | nil => simp [tryNext, hidle, Call.held, Phase.channel]
    | cons channel idle =>
      simp only [tryNext, hidle, Call.held, Pool.channels, claimShared_idle, claimShared_handed,
        claimShared_channel, List.count_append, List.count_cons, beq_iff_eq, Option.some.injEq]
      omega

theorem claimed_channels {channel k : K} (rest : Option ℕ) (granted : Option (Lease P))
    (hout : channel = k → k ∉ pool.idle) :
    (claimed pool call channel rest granted).1.channels.count k +
      (claimed pool call channel rest granted).2.held k =
      pool.channels.count k + if channel = k then 1 else 0 := by
  cases granted with
  | some lease => simp [claimed, Pool.channels, Call.held, Phase.channel]
  | none =>
    by_cases hidle : channel ∈ pool.idle
    · have hk : channel ≠ k := fun hk => hout hk (hk ▸ hidle)
      simp [claimed, hidle, Pool.channels, Call.held, hk]
    · simp only [claimed, hidle, Pool.channels, Call.held, if_false, List.count_append,
        List.count_singleton, beq_iff_eq, reduceCtorEq, refused_channel]
      omega

omit [DecidableEq K] in
@[simp] theorem giveBack_channels (channel : K) :
    (pool.giveBack channel).channels.Perm (channel :: pool.channels) := by
  unfold Pool.giveBack Pool.channels
  cases pool.waiters with
  | nil => simp
  | cons waiter waiters =>
    simp only [List.map_append, List.map_cons, List.map_nil, ← List.append_assoc]
    exact List.perm_append_singleton _ _

theorem released_channels (channel : K) (outcome : Outcome) (k : K) :
    (released pool call channel outcome).1.channels.count k +
      (released pool call channel outcome).2.held k =
      pool.channels.count k + if channel = k then 1 else 0 := by
  have hperm : (pool.giveBack channel).channels.Perm (channel :: pool.channels) :=
    giveBack_channels channel
  have hcount := hperm.count_eq k
  rw [List.count_cons] at hcount
  cases outcome <;> simpa [released, Call.held, Phase.channel] using hcount

theorem release_channels [DecidableEq P] (channel : K) (outcome : Outcome) (k : K) :
    (release input pool call channel outcome).1.channels.count k +
      (release input pool call channel outcome).2.held k =
      pool.channels.count k + if channel = k then 1 else 0 := by
  cases htoken : pool.holders channel with
  | none => simpa only [release, htoken] using released_channels channel outcome k
  | some token =>
    cases honline : input.online <;>
      simp [release, htoken, honline, Pool.channels, Call.held, Phase.channel]

theorem Turn.channels [DecidableEq P] [DecidableEq C] {result : Pool K P C × Call K P C}
    (hturn : Turn options now input pool call result) {k : K}
    (hout : call.phase.channel = some k → k ∉ pool.idle) :
    result.1.channels.count k + result.2.held k = pool.channels.count k + call.held k := by
  have hheld : ∀ {channel}, call.phase.channel = some channel →
      call.held k = if channel = k then 1 else 0 := by
    intro channel h
    simp [Call.held, h]
  cases hturn with
  | stays => rfl
  | tries attempt rest hchannel =>
    rw [tryNext_channels]
    simp [Call.held, hchannel]
  | claimed channel rest granted hchannel =>
    rw [hheld hchannel]
    exact claimed_channels rest granted fun hk => hout (hk ▸ hchannel)
  | goes phase hchannel => simp [Call.held, hchannel]
  | queues hlooked =>
    simp [Call.held, hlooked, Phase.channel, Pool.channels]
  | wakes hwaiting handed hfound =>
    have hperm := List.perm_cons_erase (List.mem_of_find?_eq_some hfound)
    have hcount := (hperm.map Prod.snd).count_eq k
    simp only [List.map_cons, List.count_cons, beq_iff_eq] at hcount
    have hnone : call.held k = 0 := by simp [Call.held, hwaiting, Phase.channel]
    rw [hnone]
    simp only [Pool.channels, claimShared_idle, claimShared_handed, Call.held,
      claimShared_channel, Option.some.injEq, List.count_append, hcount]
    omega
  | leaves hwaiting => simp [Call.held, hwaiting, Phase.channel, Pool.channels]
  | releases channel outcome huses =>
    rw [hheld (channel_of_uses huses)]
    exact release_channels channel outcome k
  | released channel outcome hchannel =>
    rw [hheld hchannel]
    exact released_channels channel outcome k

/-! ## What a turn does to the queue -/

/-- The queue has been at most rearranged, and the call does not wait. -/
def Unqueued (pool : Pool K P C) (result : Pool K P C × Call K P C) : Prop :=
  result.1.queue.Perm pool.queue ∧ result.2.phase.waits = false

theorem claimShared_unqueued (channel : K) (rest : Option ℕ) :
    Unqueued pool (claimShared options now input pool call channel rest) := by
  constructor
  · simp [Pool.queue]
  · unfold claimShared
    grind [Phase.waits]

theorem tryNext_unqueued (rest : ℕ) :
    Unqueued pool (tryNext options now input pool call rest) := by
  cases rest with
  | zero => exact ⟨.refl _, rfl⟩
  | succ rest =>
    cases hidle : pool.idle with
    | nil =>
      simp only [tryNext, hidle]
      exact ⟨.refl _, rfl⟩
    | cons channel idle =>
      simp only [tryNext, hidle]
      change Unqueued { pool with idle := idle } _
      exact claimShared_unqueued channel (some rest)

theorem claimed_unqueued (channel : K) (rest : Option ℕ) (granted : Option (Lease P)) :
    Unqueued pool (claimed pool call channel rest granted) := by
  cases granted with
  | some lease => exact ⟨.refl _, rfl⟩
  | none =>
    refine ⟨.refl _, ?_⟩
    cases rest <;> rfl

omit [DecidableEq K] in
theorem giveBack_queue (channel : K) : (pool.giveBack channel).queue.Perm pool.queue := by
  unfold Pool.giveBack Pool.queue
  cases pool.waiters with
  | nil => simp
  | cons waiter waiters =>
    simp only [List.map_append, List.map_cons, List.map_nil, ← List.append_assoc]
    exact List.perm_append_singleton _ _

omit [DecidableEq K] in
theorem released_unqueued (channel : K) (outcome : Outcome) :
    Unqueued pool (released pool call channel outcome) := by
  cases outcome <;> exact ⟨giveBack_queue channel, rfl⟩

theorem release_unqueued [DecidableEq P] (channel : K) (outcome : Outcome) :
    Unqueued pool (release input pool call channel outcome) := by
  cases htoken : pool.holders channel with
  | none =>
    simp only [release, htoken]
    exact released_unqueued channel outcome
  | some token =>
    simp only [release, htoken]
    split <;> exact ⟨.refl _, rfl⟩

section Queued

variable [DecidableEq C]

def Call.queued (call : Call K P C) (c : C) : ℕ :=
  if call.phase.waits ∧ call.id = c then 1 else 0

omit [DecidableEq K] in
theorem Unqueued.count {result : Pool K P C × Call K P C} (h : Unqueued pool result)
    (hnot : call.phase.waits = false) (c : C) :
    result.1.queue.count c + call.queued c = pool.queue.count c + result.2.queued c := by
  simp [Call.queued, h.1.count_eq c, h.2, hnot]

theorem Turn.queue [DecidableEq P] {result : Pool K P C × Call K P C}
    (hturn : Turn options now input pool call result)
    (hin : call.phase.waits → call.id ∈ pool.queue) (c : C) :
    result.1.queue.count c + call.queued c = pool.queue.count c + result.2.queued c := by
  have hqueued : call.phase = .waiting → call.queued c = if call.id = c then 1 else 0 := by
    intro h
    simp [Call.queued, h, Phase.waits]
  cases hturn with
  | stays => rfl
  | tries attempt rest _ hwaits => exact (tryNext_unqueued rest).count hwaits c
  | claimed channel rest granted hchannel =>
    exact (claimed_unqueued channel rest granted).count (waits_of_channel hchannel) c
  | goes phase _ _ hwaits hwaits' => simp [Call.queued, hwaits, hwaits']
  | queues hlooked =>
    simp only [Pool.queue, Call.queued, hlooked, Phase.waits, List.count_append,
      List.count_singleton, beq_iff_eq, true_and, Bool.false_eq_true, false_and, if_false]
    omega
  | wakes hwaiting handed hfound =>
    have hid : handed.1 = call.id := by simpa using List.find?_some hfound
    have hperm := List.perm_cons_erase (List.mem_of_find?_eq_some hfound)
    have hcount := (hperm.map Prod.fst).count_eq c
    simp only [List.map_cons, List.count_cons, beq_iff_eq, hid] at hcount
    have hclaim : Unqueued { pool with handed := pool.handed.erase handed }
        (claimShared options now input { pool with handed := pool.handed.erase handed } call
          handed.2 none) :=
      claimShared_unqueued handed.2 none
    have hqueue := hclaim.1.count_eq c
    rw [hqueued hwaiting]
    simp only [Pool.queue, List.count_append] at hqueue ⊢
    simp only [Call.queued, hclaim.2, Bool.false_eq_true, false_and, if_false]
    omega
  | leaves hwaiting hmissing =>
    have hmem : call.id ∈ pool.queue := hin (by rw [hwaiting]; rfl)
    have hhanded : call.id ∉ pool.handed.map Prod.fst := by
      intro hmap
      obtain ⟨handed, hin, hid⟩ := List.mem_map.1 hmap
      exact List.find?_eq_none.1 hmissing handed hin (by simpa using hid)
    have hwaiters : call.id ∈ pool.waiters := (List.mem_append.1 hmem).resolve_right hhanded
    have hcount := (List.perm_cons_erase hwaiters).count_eq c
    simp only [List.count_cons, beq_iff_eq] at hcount
    rw [hqueued hwaiting]
    simp only [Pool.queue, Call.queued, Phase.waits, List.count_append, Bool.false_eq_true,
      false_and, if_false]
    omega
  | releases channel outcome huses =>
    exact (release_unqueued channel outcome).count (waits_of_channel (channel_of_uses huses)) c
  | released channel outcome hchannel =>
    exact (released_unqueued channel outcome).count (waits_of_channel hchannel) c

end Queued

end Moves

/-! ## The places along a run -/

variable [DecidableEq K] [DecidableEq P] [DecidableEq C] {options : P → ChannelPoolOptions K}

/-- The channel is with this call of the process. -/
def Holds (p : P) (k : K) (call : Call K P C) : Prop :=
  call.process = p ∧ call.phase.channel = some k

def heldIn (p : P) (k : K) (call : Call K P C) : ℕ :=
  if call.process = p then call.held k else 0

omit [DecidableEq C] in
theorem heldIn_of {p : P} {k : K} {call : Call K P C} (h : Holds p k call) :
    heldIn p k call = 1 := by
  simp [heldIn, Call.held, h.1, h.2]

omit [DecidableEq C] in
theorem heldIn_of_not {p : P} {k : K} {call : Call K P C} (h : ¬ Holds p k call) :
    heldIn p k call = 0 := by
  by_cases hp : call.process = p
  · have hk : call.phase.channel ≠ some k := fun hk => h ⟨hp, hk⟩
    simp [heldIn, Call.held, hk]
  · simp [heldIn, hp]

/-- No call has the channel: it is in the pool, if it is one of the process at all. -/
def InPool (options : P → ChannelPoolOptions K) (p : P) (k : K) (cluster : Cluster K P C) :
    Prop :=
  (cluster.pools p).channels.count k = (options p).accounts.count k

/-- The channel is one of the process, and a call has taken it out of the pool. -/
def OutOfPool (options : P → ChannelPoolOptions K) (p : P) (k : K) (cluster : Cluster K P C)
    (call : Call K P C) : Prop :=
  Holds p k call ∧
    (cluster.pools p).channels.count k + 1 = (options p).accounts.count k

/-- Every channel is in the pool or with one call. -/
def Placed (options : P → ChannelPoolOptions K) (w : World K P C) : Prop :=
  ∀ p k, Interleaving.Exclusive (Holds p k) (InPool options p k) (OutOfPool options p k) w

/-- The calls in the queue of a process are the ones that wait. -/
def Queued (w : World K P C) : Prop :=
  ∀ i, (w.shared.pools i.1).queue.count i.2 = (w.locals i).queued i.2

theorem advance_channels (options : P → ChannelPoolOptions K) {w : World K P C}
    (hsigned : Signed w) (i : P × C) (input : Input) {p : P} {k : K}
    (hout : Holds p k (w.locals i) → k ∉ (w.shared.pools p).idle) :
    ((Interleaving.advance (step options) w (i, input)).shared.pools p).channels.count k +
        heldIn p k ((Interleaving.advance (step options) w (i, input)).locals i) =
      (w.shared.pools p).channels.count k + heldIn p k (w.locals i) := by
  have hprocess := (hsigned.2 i).process
  have hprocess' := ((signed_advance options hsigned (i, input)).2 i).process
  rcases advance_cases options w i input with
    ⟨-, hexecuted⟩ | ⟨-, result, hresume, hshared, hlocal⟩
  · rw [hexecuted.pools, heldIn, heldIn, Call.held, Call.held, hprocess', hprocess,
      hexecuted.channel]
    rfl
  · rw [hlocal] at hprocess' ⊢
    rw [hshared]
    by_cases hp : i.1 = p
    · have hcount := (hresume ▸ resume_turn).channels
        fun h => hprocess.symm ▸ hp ▸ hout ⟨hprocess.trans hp, h⟩
      simp only [hprocess, hp, Function.update_self, heldIn, hprocess', if_true] at hcount ⊢
      exact hcount
    · simp only [hprocess, Function.update_of_ne (Ne.symm hp), heldIn, hprocess', hp, if_false]

theorem placed_advance {w : World K P C} (hsigned : Signed w) (h : Placed options w)
    (turn : (P × C) × Input) :
    Placed options (Interleaving.advance (step options) w turn) := by
  obtain ⟨i, input⟩ := turn
  intro p k
  have hone : (options p).accounts.count k ≤ 1 :=
    List.nodup_iff_count_le_one.1 (options p).distinct k
  have hout : Holds p k (w.locals i) → k ∉ (w.shared.pools p).idle := by
    intro hholds hidle
    have hcount := ((h p k).owner hholds).1.2
    have hmem : k ∈ (w.shared.pools p).channels := List.mem_append_left _ hidle
    have hpos := List.count_pos_iff.2 hmem
    omega
  have hcount := advance_channels options hsigned i input hout
  rw [Interleaving.advance_shared, Interleaving.advance_self] at hcount
  refine Interleaving.exclusive_advance (h p k) ?_ ?_ ?_ ?_
  · intro hpool hnot hnot'
    rw [heldIn_of_not hnot, heldIn_of_not hnot'] at hcount
    exact hcount.trans hpool
  · intro hpool hnot hholds
    rw [heldIn_of_not hnot, heldIn_of hholds] at hcount
    exact ⟨hholds, hcount.trans hpool⟩
  · intro howned
    rw [heldIn_of howned.1, howned.2] at hcount
    by_cases hholds : Holds p k (step options input w.shared (w.locals i)).2
    · rw [heldIn_of hholds] at hcount
      exact .inl ⟨hholds, hcount⟩
    · rw [heldIn_of_not hholds] at hcount
      exact .inr ⟨hcount, hholds⟩
  · intro j _ howned hnot
    rw [heldIn_of_not hnot] at hcount
    have hnot' : ¬ Holds p k (step options input w.shared (w.locals i)).2 := by
      intro hholds
      rw [heldIn_of hholds] at hcount
      have htaken := howned.2
      omega
    rw [heldIn_of_not hnot'] at hcount
    refine ⟨⟨howned.1, ?_⟩, hnot'⟩
    rw [← howned.2]
    exact congrArg (· + 1) hcount

theorem queued_advance {w : World K P C} (hsigned : Signed w) (h : Queued w)
    (turn : (P × C) × Input) : Queued (Interleaving.advance (step options) w turn) := by
  obtain ⟨i, input⟩ := turn
  intro j
  obtain ⟨hprocess, hid, -⟩ := hsigned.2 i
  have hid' := ((signed_advance options hsigned (i, input)).2 i).id
  have hother : j ≠ i →
      (Interleaving.advance (step options) w (i, input)).locals j = w.locals j :=
    fun hj => Interleaving.advance_other _ w input hj
  rcases advance_cases options w i input with
    ⟨-, hexecuted⟩ | ⟨-, result, hresume, hshared, hlocal⟩
  · rw [hexecuted.pools]
    by_cases hj : j = i
    · rw [hj, Call.queued, hexecuted.waits, hexecuted.id]
      exact h i
    · rw [hother hj]
      exact h j
  · have hin : (w.locals i).phase.waits → (w.locals i).id ∈
        (w.shared.pools (w.locals i).process).queue := by
      intro hwaits
      rw [hprocess, hid]
      refine List.count_pos_iff.1 ?_
      rw [h i]
      simp [Call.queued, hwaits, hid]
    have hcount := (hresume ▸ resume_turn).queue hin j.2
    rw [hshared]
    by_cases hj : j = i
    · subst hj
      rw [hprocess, h j] at hcount
      simp only [hlocal, hprocess, Function.update_self]
      omega
    · rw [hother hj, ← h j]
      by_cases hp : j.1 = i.1
      · have hne : i.2 ≠ j.2 := fun h2 => hj (Prod.ext hp h2.symm)
        rw [hlocal] at hid'
        simp only [Call.queued, hid, hid', hne, and_false, if_false, add_zero, hprocess] at hcount
        simp only [hp, hprocess, Function.update_self]
        exact hcount
      · simp only [hprocess, Function.update_of_ne hp]

theorem placed_run (options : P → ChannelPoolOptions K) (schedule : List ((P × C) × Input)) :
    Signed (run options schedule) ∧ Placed options (run options schedule) ∧
      Queued (run options schedule) := by
  refine Runs.inv_foldl (fun w => Signed w ∧ Placed options w ∧ Queued w)
    (fun w turn h => ⟨signed_advance options h.1 turn, placed_advance h.1 h.2.1 turn,
      queued_advance h.1 h.2.2 turn⟩) ?_ schedule
  refine ⟨signed_start options, fun p k => .inl ⟨?_, ?_⟩, fun i => rfl⟩
  · simp [InPool, start, Pool.create, Pool.channels]
  · rintro i ⟨-, hchannel⟩
    cases hchannel

/-! ## One place for every channel -/

inductive Place (C : Type) where
  | idle
  | call (c : C)
  | waiter (c : C)

/-- The channel is idle, held by a call, or handed to a waiter that is yet to go on. -/
def At (w : World K P C) (p : P) (k : K) : Place C → Prop
  | .idle => k ∈ (w.shared.pools p).idle
  | .call c => (w.locals (p, c)).phase.channel = some k
  | .waiter c => (c, k) ∈ (w.shared.pools p).handed

/-- The channels of a process are kept apart. -/
structure Apart (options : P → ChannelPoolOptions K) (w : World K P C) (p : P) : Prop where
  one_place : ∀ k ∈ (options p).accounts, ∃! place, At w p k place
  idle_nodup : (w.shared.pools p).idle.Nodup
  handed_nodup : ((w.shared.pools p).handed.map Prod.fst).Nodup
  woken : ∀ c k, (c, k) ∈ (w.shared.pools p).handed →
    (w.locals (p, c)).phase = .waiting ∧ c ∉ (w.shared.pools p).waiters
  submissions : ∀ k c c', (w.locals (p, c)).phase = .submitting k →
    (w.locals (p, c')).phase = .submitting k → c = c'

omit [DecidableEq P] [DecidableEq C] in
theorem Placed.nodup {w : World K P C} (h : Placed options w) (p : P) :
    (w.shared.pools p).channels.Nodup := by
  refine List.nodup_iff_count_le_one.2 fun k => ?_
  have hone := List.nodup_iff_count_le_one.1 (options p).distinct k
  rcases h p k with ⟨hpool, -⟩ | ⟨i, howned, -⟩
  · exact hpool ▸ hone
  · have hout := howned.2
    omega

omit [DecidableEq P] in
theorem Placed.holder {w : World K P C} (hsigned : Signed w) (h : Placed options w) {p : P}
    {k : K} {c c' : C} (hc : (w.locals (p, c)).phase.channel = some k)
    (hc' : (w.locals (p, c')).phase.channel = some k) : c = c' := by
  by_contra hne
  obtain ⟨-, hrest⟩ := (h p k).owner (k := (p, c)) ⟨(hsigned.2 (p, c)).process, hc⟩
  refine hrest (p, c') ?_ ⟨(hsigned.2 (p, c')).process, hc'⟩
  simpa using Ne.symm hne

omit [DecidableEq P] [DecidableEq C] in
theorem Placed.held {w : World K P C} (hsigned : Signed w) (h : Placed options w) {p : P}
    {k : K} {c : C} (hc : (w.locals (p, c)).phase.channel = some k) :
    k ∉ (w.shared.pools p).channels := by
  obtain ⟨⟨-, hout⟩, -⟩ := (h p k).owner (k := (p, c)) ⟨(hsigned.2 (p, c)).process, hc⟩
  have hone := List.nodup_iff_count_le_one.1 (options p).distinct k
  refine List.count_eq_zero.1 ?_
  omega

omit [DecidableEq P] in
theorem Placed.one_place {w : World K P C} (hsigned : Signed w) (h : Placed options w) {p : P}
    {k : K} (hk : k ∈ (options p).accounts) : ∃! place, At w p k place := by
  have hnodup := List.nodup_append.1 (h.nodup p)
  rcases h p k with ⟨hpool, hnone⟩ | ⟨i, howned, -⟩
  · have hmem : k ∈ (w.shared.pools p).channels := by
      refine List.count_pos_iff.1 ?_
      rw [hpool]
      exact List.count_pos_iff.2 hk
    have hcall : ∀ c, (w.locals (p, c)).phase.channel ≠ some k :=
      fun c hc => hnone (p, c) ⟨(hsigned.2 (p, c)).process, hc⟩
    rcases List.mem_append.1 hmem with hidle | hhanded
    · refine ⟨.idle, hidle, ?_⟩
      rintro (_ | c | c) hat
      · rfl
      · exact absurd hat (hcall c)
      · exact absurd rfl (hnodup.2.2 k hidle k (List.mem_map_of_mem hat))
    · obtain ⟨⟨c, _⟩, hin, rfl⟩ := List.mem_map.1 hhanded
      refine ⟨.waiter c, hin, ?_⟩
      rintro (_ | c' | c') hat
      · exact absurd rfl (hnodup.2.2 _ hat _ hhanded)
      · exact absurd hat (hcall c')
      · have hsame := List.inj_on_of_nodup_map hnodup.2.1 hat hin rfl
        rw [show c' = c from congrArg Prod.fst hsame]
  · obtain ⟨⟨hp, hchannel⟩, -⟩ := howned
    obtain ⟨p', c⟩ := i
    obtain rfl : p' = p := (hsigned.2 (p', c)).process.symm.trans hp
    have hout := h.held hsigned hchannel
    refine ⟨.call c, hchannel, ?_⟩
    rintro (_ | c' | c') hat
    · exact absurd (List.mem_append_left _ hat) hout
    · rw [h.holder hsigned hat hchannel]
    · exact absurd (List.mem_append_right _ (List.mem_map_of_mem hat)) hout

omit [DecidableEq P] [DecidableEq K] in
theorem Queued.woken {w : World K P C} (h : Queued w) {p : P} {c : C}
    {k : K} (hin : (c, k) ∈ (w.shared.pools p).handed) :
    (w.locals (p, c)).phase = .waiting ∧ c ∉ (w.shared.pools p).waiters := by
  have hhanded : 0 < ((w.shared.pools p).handed.map Prod.fst).count c :=
    List.count_pos_iff.2 (List.mem_map_of_mem (f := Prod.fst) hin)
  have hqueue := h (p, c)
  simp only [Pool.queue, List.count_append, Call.queued] at hqueue
  split at hqueue
  · next hwaits =>
    constructor
    · cases hphase : (w.locals (p, c)).phase with
      | waiting => rfl
      | _ => simp [hphase, Phase.waits] at hwaits
    · exact List.count_eq_zero.1 (by omega)
  · omega

theorem apart_run (options : P → ChannelPoolOptions K) (schedule : List ((P × C) × Input))
    (p : P) : Apart options (run options schedule) p := by
  obtain ⟨hsigned, hplaced, hqueued⟩ := placed_run options schedule
  exact
    { one_place := fun k hk => hplaced.one_place hsigned hk
      idle_nodup := (List.nodup_append.1 (hplaced.nodup p)).1
      handed_nodup := by
        refine List.nodup_iff_count_le_one.2 fun c => ?_
        have hcount := hqueued (p, c)
        simp only [Pool.queue, List.count_append, Call.queued] at hcount
        split at hcount <;> omega
      woken := fun c k hin => hqueued.woken hin
      submissions := fun k c c' hc hc' =>
        hplaced.holder hsigned (by rw [hc]; rfl) (by rw [hc']; rfl) }

end MobileMoney.Channels
