import MobileMoney.Sep38.Books

/-!
# The liquidity that quotes reserve

One counter stands for all pairs. With node-redis it never moves, so that it is right as long as
quotes reserve nothing. With a client that has the command, in a run without a slip it is what the
live quotes reserve, up to the reservations and releases that calls still wait for, and every quote
is released once. A slip is a command that Redis does not execute, a failing statement that has been
executed all the same, the end of a quote before its reservation is made, a quote that is created
dead, or one that a lookup marks as expired, which nobody releases any more.
-/

namespace MobileMoney.Sep38

open Reservations (Lawful)

variable {K P : Type} {s : State K P}

/-! ## Slips -/

section Slips

variable [DecidableEq K] [DecidableEq P]

/-- A quote is ended before its call of `createQuote` has made the reservation. -/
def State.Hasty (s : State K P) (choice : Choice K P) : Prop :=
  ∃ row ∈ s.ending choice, row ∈ s.toReserve

instance (s : State K P) (choice : Choice K P) : Decidable (s.Hasty choice) :=
  inferInstanceAs (Decidable (∃ row ∈ s.ending choice, row ∈ s.toReserve))

def Slip (s : State K P) : Event K P → Prop
  | .createQuote _ id params answer =>
    answer = .failed true ∨ ¬ (params.quote id s.now).Live
  | .cancelQuote _ id requestingUserId found .answered =>
    checkCancel requestingUserId found = none ∧ s.Hasty (byId .database id)
  | .cancelQuote process id requestingUserId found (.failed executed) =>
    checkCancel requestingUserId found = none ∧
      ((executed = true ∧ s.ending (byId .database id) ≠ []) ∨
        s.Hasty (byId (.inMemoryQuotes process) id))
  | .getQuote process id => s.ending (ofVisit id process s.now) ≠ []
  | .expireStaleQuotes _ .answered => s.Hasty (stale .database s.now)
  | .expireStaleQuotes _ (.failed executed) =>
    executed = true ∧ s.ending (stale .database s.now) ≠ []
  | .visit call id => ∃ sweep ∈ s.sweepAt call, s.Hasty (ofVisit id sweep.1 sweep.2)
  | .redis _ answer => answer.executed = false
  | .passes _ | .cacheDel _ => False

instance (s : State K P) : ∀ e, Decidable (Slip s e)
  | .createQuote _ _ _ _ => inferInstanceAs (Decidable (_ ∨ _))
  | .cancelQuote _ _ _ _ .answered => inferInstanceAs (Decidable (_ ∧ _))
  | .cancelQuote _ _ _ _ (.failed _) => inferInstanceAs (Decidable (_ ∧ (_ ∧ _ ∨ _)))
  | .getQuote process id =>
    inferInstanceAs (Decidable (s.ending (ofVisit id process s.now) ≠ []))
  | .expireStaleQuotes _ .answered =>
    inferInstanceAs (Decidable (s.Hasty (stale .database s.now)))
  | .expireStaleQuotes _ (.failed _) => inferInstanceAs (Decidable (_ ∧ _))
  | .visit call id =>
    inferInstanceAs (Decidable (∃ sweep ∈ s.sweepAt call, s.Hasty (ofVisit id sweep.1 sweep.2)))
  | .redis _ answer => inferInstanceAs (Decidable (answer.executed = false))
  | .passes _ | .cacheDel _ => inferInstanceAs (Decidable False)

end Slips

/-! ## The end of what a call waits for -/

section Commands

variable {i : ℕ} {call : Call K P}

theorem sweepAt_eq_some {process : P} {now : ℕ} :
    s.sweepAt i = some (process, now) ↔
      s.calls[i]? = some ⟨.sweepingMemory process now, [], .incrbyfloat⟩ := by
  unfold State.sweepAt
  split
  · next hcall => simp [hcall]
  · next hnone =>
    refine ⟨nofun, fun hcall => ?_⟩
    exact absurd hcall (hnone process now)

theorem update_self (h : s.calls[i]? = some call) : s.update i call = s := by
  have hset : s.calls.set i call = s.calls := by
    apply List.ext_getElem?
    intro j
    by_cases hij : i = j
    · subst hij
      rw [List.getElem?_set_self (List.getElem?_eq_some_iff.1 h).1, h]
    · rw [List.getElem?_set_ne hij]
  rw [State.update, hset]

theorem Work.after_ne_clamp (work : Work P) (id id' : K) : work.after id ≠ .clamp id' := by
  cases work <;> nofun

theorem Work.eq_of_after {work : Work P} {id id' : K} (h : work.after id = .cacheDel id') :
    (∃ process, work = .sweeping process) ∧ id = id' := by
  cases work with
  | sweeping process => exact ⟨⟨process, rfl⟩, Await.cacheDel.inj h⟩
  | createQuote | cancelQuote | sweepingMemory => cases h

theorem command_cases {client : Client} (capable : client.incrbyfloat = true) {answer : Answer}
    (h : ∀ id, call.await ≠ .clamp id) (hanswer : answer.executed = true) :
    (∃ row rows, call.rows = row :: rows ∧ call.work = .createQuote ∧
      s.command client call answer =
        ({ s with reserved := s.reserved + row.amount }, { call with rows := rows })) ∨
    (∃ row rows, call.rows = row :: rows ∧ call.work ≠ .createQuote ∧
      s.command client call answer =
        ({ s with reserved := s.reserved - row.amount, released := row :: s.released },
        { call with
          rows := rows
          await :=
            if answer = .answered ∧ s.reserved - row.amount < 0 then .clamp row.id
            else call.work.after row.id })) ∨
    s.command client call answer = (s, call) := by
  unfold State.command
  split
  · next row rows _ hrows =>
    rw [if_pos capable, State.incrbyfloat]
    split
    · next hwork => exact .inl ⟨row, rows, hrows, hwork, by simp [hanswer]⟩
    · next hwork => exact .inr (.inl ⟨row, rows, hrows, hwork, by simp [hanswer]⟩)
  · next id hawait => exact absurd hawait (h id)
  · exact .inr (.inr rfl)

end Commands

/-! ## One step -/

section Step

variable [DecidableEq P] {choice : Choice K P} {status : QuoteStatus} {i : ℕ} {call : Call K P}

/-- A step keeps the stores and the calls in order, and is one of the books. -/
structure Good (s s' : State K P) : Prop where
  tidy : Tidy s'
  book : Reservations.Step Reservation.amount s.book s'.book

theorem Good.refl (h : Tidy s) : Good s s := ⟨h, .idle rfl⟩

/-- The chosen quotes are ended, and their reservations go to a call. -/
theorem step_closes {s' : State K P} (hstatus : status = .cancelled ∨ status = .expired)
    (hasty : ¬ s.Hasty choice) (hstored : s'.stored = (s.setStatus choice status).stored)
    (hreserved : s'.reserved = s.reserved) (hcreated : s'.created = s.created)
    (hreleased : s'.released = s.released)
    (htoReserve : (s'.toReserve : Multiset (Reservation K)) = s.toReserve)
    (htoRelease : (s'.toRelease : Multiset (Reservation K)) = s.toRelease + s.ending choice) :
    Reservations.Step Reservation.amount s.book s'.book := by
  have hlive : s'.live = (s.setStatus choice status).live := by
    rw [State.live, hstored, State.live]
  refine .closes (s.ending choice) s'.live ?_ ?_ ?_
  · rw [hlive]
    exact live_eq_ending_add choice hstatus s
  · rw [Multiset.disjoint_left]
    intro row hrow htoReserve
    exact hasty ⟨row, hrow, htoReserve⟩
  · simp only [State.book, hreserved, hcreated, hreleased, htoReserve, htoRelease]

theorem toReserve_begin (s : State K P) {work : Work P} (hwork : work ≠ .createQuote)
    (rows : List (Reservation K)) : (s.begin work rows).toReserve = s.toReserve := by
  simp [State.toReserve, State.begin, Call.toReserve, hwork]

theorem toRelease_begin (s : State K P) {work : Work P} (hwork : work ≠ .createQuote)
    (rows : List (Reservation K)) : (s.begin work rows).toRelease = s.toRelease ++ rows := by
  simp [State.toRelease, State.begin, Call.toRelease, hwork]

theorem good_finish (h : Tidy s) (hstatus : status = .cancelled ∨ status = .expired)
    (hasty : ¬ s.Hasty choice) {work : Work P} (hwork : work ≠ .createQuote)
    (hrows : ∀ process, work = .sweeping process →
      ∀ row ∈ s.ending choice, s.InDatabase row.id) :
    Good s (s.finish choice status work) where
  tidy := h.setStatus.begin fun process hsweeping row hrow =>
    (inDatabase_setStatus choice status _).2 (hrows process hsweeping row hrow)
  book := by
    refine step_closes hstatus hasty rfl rfl rfl rfl ?_ ?_
    · rw [State.finish, toReserve_begin _ hwork]
      rfl
    · rw [State.finish, toRelease_begin _ hwork, ← Multiset.coe_add]
      rfl

theorem good_cancel (h : Tidy s) (hasty : ¬ s.Hasty choice) : Good s (s.cancel choice).1 := by
  unfold State.cancel
  split
  · exact .refl h
  · exact good_finish h (.inl rfl) hasty nofun nofun

theorem good_begin (h : Tidy s) {work : Work P} (hwork : work ≠ .createQuote) :
    Good s (s.begin work []) where
  tidy := h.begin fun _ _ => nofun
  book := by
    refine .idle ?_
    simp only [State.book, toReserve_begin _ hwork, toRelease_begin _ hwork, List.append_nil]
    rfl

/-- The call makes its reservation. -/
theorem good_reserve (h : Tidy s) (hcall : s.calls[i]? = some call)
    (hwork : call.work = .createQuote) {row : Reservation K} {rows : List (Reservation K)}
    (hrows : call.rows = row :: rows) :
    Good s (State.update { s with reserved := s.reserved + row.amount } i
      { call with rows := rows }) := by
  have hsound := h.calls call (List.mem_of_getElem? hcall)
  constructor
  · refine Tidy.update (s := { s with reserved := s.reserved + row.amount })
      ⟨h.created, h.ids, h.calls⟩ i ⟨hsound.unclamped, ?_, hsound.deleted⟩
    intro process hsweeping
    rw [hwork] at hsweeping
    cases hsweeping
  · have hrelease := toRelease_update_same hcall { call with rows := rows }
      (by simp [Call.toRelease, hwork])
    refine .reserves row _ (toReserve_eq_cons hcall hwork hrows { call with rows := rows }
      hwork rfl) ?_
    simp only [State.book, ← hrelease]
    rfl

/-- The call releases a reservation. -/
theorem good_release (h : Tidy s) (hcall : s.calls[i]? = some call)
    (hwork : call.work ≠ .createQuote) {row : Reservation K} {rows : List (Reservation K)}
    (hrows : call.rows = row :: rows) :
    Good s (State.update
      { s with reserved := s.reserved - row.amount, released := row :: s.released } i
      { call with rows := rows, await := call.work.after row.id }) := by
  have hsound := h.calls call (List.mem_of_getElem? hcall)
  constructor
  · refine Tidy.update (s := { s with
      reserved := s.reserved - row.amount, released := row :: s.released })
      ⟨h.created, h.ids, h.calls⟩ i ⟨call.work.after_ne_clamp row.id, ?_, ?_⟩
    · intro process hsweeping row' hrow'
      exact hsound.rows process hsweeping row' (hrows ▸ List.mem_cons_of_mem row hrow')
    · intro id hdel
      obtain ⟨⟨process, hsweeping⟩, rfl⟩ := Work.eq_of_after hdel
      exact hsound.rows process hsweeping row (hrows ▸ List.mem_cons_self)
  · have hreserve := toReserve_update_same hcall
      { call with rows := rows, await := call.work.after row.id }
      (by simp [Call.toReserve, hwork])
    refine .releases row _ (toRelease_eq_cons hcall hwork hrows
      { call with rows := rows, await := call.work.after row.id } hwork rfl) ?_
    simp only [State.book, ← hreserve]
    rfl

theorem good_command {client : Client} (capable : client.incrbyfloat = true) {answer : Answer}
    (h : Tidy s) (hlawful : Lawful Reservation.amount s.book) (hcall : s.calls[i]? = some call)
    (hanswer : answer.executed = true) :
    Good s ((s.command client call answer).1.update i (s.command client call answer).2) := by
  have hsound := h.calls call (List.mem_of_getElem? hcall)
  rcases command_cases capable hsound.unclamped hanswer with
    ⟨row, rows, hrows, hwork, hcommand⟩ | ⟨row, rows, hrows, hwork, hcommand⟩ | hcommand
  · rw [hcommand]
    exact good_reserve h hcall hwork hrows
  · have hclosed := toRelease_eq_cons hcall hwork hrows { call with rows := rows } hwork rfl
    have hcovered : (row.amount : ℤ) ≤ s.reserved := hlawful.le_counter hclosed
    rw [hcommand, if_neg fun hshort => by omega]
    exact good_release h hcall hwork hrows
  · rw [hcommand, update_self hcall]
    exact .refl h

variable [DecidableEq K] {client : Client}

theorem good_visit (h : Tidy s) {process : P} {now : ℕ} {id : K}
    (hsweep : s.sweepAt i = some (process, now)) (hasty : ¬ s.Hasty (ofVisit id process now)) :
    Good s (step client s (.visit i id)) := by
  have hcall := sweepAt_eq_some.1 hsweep
  simp only [step, hsweep]
  constructor
  · exact h.setStatus.update i ⟨nofun, nofun, nofun⟩
  · refine step_closes (.inr rfl) hasty rfl rfl rfl rfl ?_ ?_
    · refine toReserve_update_same (s := s.setStatus (ofVisit id process now) .expired) hcall _ ?_
      simp [Call.toReserve]
    · have hrelease := toRelease_update (s := s.setStatus (ofVisit id process now) .expired) hcall
        ⟨.sweepingMemory process now, s.ending (ofVisit id process now), .incrbyfloat⟩
      simp only [Call.toRelease, reduceCtorEq, if_false, Multiset.coe_nil, add_zero] at hrelease
      exact hrelease

theorem good_cacheDel (h : Tidy s) : Good s (step client s (.cacheDel i)) := by
  simp only [step]
  split
  · next process rows id hcall =>
    have hsound := h.calls _ (List.mem_of_getElem? hcall)
    rw [forget_eq_self h.ids (hsound.deleted id rfl)]
    refine ⟨h.update i ⟨nofun, hsound.rows, nofun⟩, .idle ?_⟩
    have hreserve := toReserve_update_same hcall ⟨.sweeping process, rows, .incrbyfloat⟩ rfl
    have hrelease := toRelease_update_same hcall ⟨.sweeping process, rows, .incrbyfloat⟩ rfl
    simp only [State.book, hreserve, hrelease]
    rfl
  · exact .refl h

omit [DecidableEq K] [DecidableEq P] in
theorem copies_eq_singleton (process : P) (quote : Sep38Quote K) {answer : Answer}
    (h : answer ≠ .failed true) : ∃ store, copies process quote answer = [⟨store, quote⟩] := by
  unfold copies
  split_ifs
  · cases answer with
    | answered => exact ⟨_, rfl⟩
    | failed executed =>
      cases executed with
      | true => exact absurd rfl h
      | false => exact ⟨_, rfl⟩
  · exact ⟨_, rfl⟩

theorem good_createQuote (h : Tidy s) (process : P) (id : K) {params : CreateQuoteParams}
    {answer : Answer} (hanswer : answer ≠ .failed true) (hlive : (params.quote id s.now).Live) :
    Good s (step client s (.createQuote process id params answer)) := by
  simp only [step]
  split
  · next hfresh =>
    generalize hquote : params.quote id s.now = quote at hlive
    obtain rfl : quote.id = id := hquote ▸ rfl
    obtain ⟨store, hcopies⟩ := copies_eq_singleton process quote hanswer
    rw [hcopies]
    constructor
    · refine ⟨?_, ?_, ?_⟩
      · simp [h.created]
      · simp only [List.singleton_append, List.map_cons, List.nodup_cons]
        refine ⟨fun hmem => ?_, h.ids⟩
        obtain ⟨entry, hentry, hid⟩ := List.mem_map.1 hmem
        exact hfresh entry hentry hid
      · intro call hcall
        have hbegin : Tidy (s.begin .createQuote [quote.reservation]) := h.begin fun _ => nofun
        exact (hbegin.calls call hcall).mono fun id hid => List.mem_cons_of_mem _ hid
    · refine .opens quote.reservation ?_ ?_
      · intro hmem
        have hcreated : quote.reservation ∈ s.stored.map (·.quote.reservation) := by
          rw [h.created]
          exact hmem
        obtain ⟨entry, hentry, hreservation⟩ := List.mem_map.1 hcreated
        exact hfresh entry hentry (congrArg Reservation.id hreservation)
      · have hreserve : ((s.begin .createQuote [quote.reservation]).toReserve :
            Multiset (Reservation K)) = quote.reservation ::ₘ s.toReserve := by
          simp [State.toReserve, State.begin, Call.toReserve]
        have hrelease : (s.begin .createQuote [quote.reservation]).toRelease = s.toRelease := by
          simp [State.toRelease, State.begin, Call.toRelease]
        simp only [State.book, State.live, hlive, List.singleton_append, List.filter_cons,
          decide_true, if_true, List.map_cons, ← Multiset.cons_coe, ← hreserve, ← hrelease]
        rfl
  · exact .refl h

theorem good_cancelQuote (h : Tidy s) (process : P) (id : K) (requestingUserId : String)
    (found : Option (Sep38Quote K)) (answer : Answer)
    (hno : ¬ Slip s (.cancelQuote process id requestingUserId found answer)) :
    Good s (step client s (.cancelQuote process id requestingUserId found answer)) := by
  simp only [step, cancelQuote]
  cases hcheck : checkCancel requestingUserId found with
  | some err => exact .refl h
  | none =>
    cases answer with
    | answered => exact good_cancel h fun hhasty => hno ⟨hcheck, hhasty⟩
    | failed executed =>
      obtain ⟨hlost, hhasty⟩ := not_or.1 fun hslip => hno ⟨hcheck, hslip⟩
      simp only [setStatus_of_not_lost _ hlost]
      exact good_cancel h hhasty

theorem good_expireStaleQuotes (h : Tidy s) (process : P) (answer : Answer)
    (hno : ¬ Slip s (.expireStaleQuotes process answer)) :
    Good s (step client s (.expireStaleQuotes process answer)) := by
  cases answer with
  | answered => exact good_finish h (.inr rfl) hno (by simp) fun _ _ _ => inDatabase_of_stale
  | failed executed =>
    simp only [step, setStatus_of_not_lost _ hno]
    exact good_begin h (by simp)

theorem good_step (capable : client.incrbyfloat = true) (h : Tidy s)
    (hlawful : Lawful Reservation.amount s.book) (e : Event K P) (hno : ¬ Slip s e) :
    Good s (step client s e) := by
  cases e with
  | passes elapsed => exact ⟨⟨h.created, h.ids, h.calls⟩, .idle rfl⟩
  | createQuote process id params answer =>
    obtain ⟨hanswer, hlive⟩ := not_or.1 hno
    exact good_createQuote h process id hanswer (not_not.1 hlive)
  | cancelQuote process id requestingUserId found answer =>
    exact good_cancelQuote h process id requestingUserId found answer hno
  | getQuote process id =>
    simp only [step, setStatus_of_ending_eq_nil _ (not_not.1 hno)]
    exact .refl h
  | expireStaleQuotes process answer => exact good_expireStaleQuotes h process answer hno
  | visit call id =>
    cases hsweep : s.sweepAt call with
    | none =>
      simp only [step, hsweep]
      exact .refl h
    | some sweep => exact good_visit h hsweep fun hhasty => hno ⟨sweep, hsweep, hhasty⟩
  | redis call answer =>
    have hanswer : answer.executed = true := Bool.not_eq_false _ ▸ hno
    cases hcall : s.calls[call]? with
    | none =>
      simp only [step, hcall]
      exact .refl h
    | some waiting =>
      simp only [step, hcall]
      exact good_command capable h hlawful hcall hanswer
  | cacheDel call => exact good_cacheDel h

end Step

/-! ## Runs without a slip -/

section Runs

variable [DecidableEq K] [DecidableEq P] {client : Client}

structure Kept (s : State K P) : Prop where
  tidy : Tidy s
  lawful : Lawful Reservation.amount s.book

omit [DecidableEq K] in
theorem kept_start : Kept (start : State K P) :=
  ⟨⟨rfl, List.nodup_nil, nofun⟩, .start⟩

theorem kept_step (capable : client.incrbyfloat = true) (h : Kept s) (e : Event K P)
    (hno : ¬ Slip s e) : Kept (step client s e) :=
  have good := good_step capable h.tidy h.lawful e hno
  ⟨good.tidy, h.lawful.step good.book⟩

/-- The counter is what the live quotes reserve, up to what calls still wait for; a quote that
has been created is live, about to be released or released, in one of these once; and when no
call waits, the counter is exact and what is not live has been released once. -/
structure Accounted (s : State K P) : Prop where
  counter : s.reserved + total s.toReserve = total s.live + total s.toRelease
  once : ∀ row ∈ s.created, (s.live ++ s.toRelease ++ s.released).count row = 1
  only : ∀ row ∈ s.live ++ s.toRelease ++ s.released, row ∈ s.created
  atRest : s.AtRest → s.reserved = total s.live ∧
    ∀ row ∈ s.created, row ∉ s.live → s.released.count row = 1

theorem Kept.accounted (h : Kept s) : Accounted s := by
  have hcounter : s.reserved + total s.toReserve = total s.live + total s.toRelease := by
    have := h.lawful.counter
    simpa only [State.book, Reservations.total, total, Multiset.map_coe, Multiset.sum_coe]
      using this
  have hplaces : (s.live ++ s.toRelease ++ s.released).Perm s.created := by
    have := h.lawful.places
    simpa only [State.book, Multiset.coe_add, Multiset.coe_eq_coe] using this
  have honce : ∀ row ∈ s.created, (s.live ++ s.toRelease ++ s.released).count row = 1 := by
    intro row hrow
    have := h.lawful.count (b := s.book) (r := row) hrow
    simpa only [State.book, Multiset.coe_add, Multiset.coe_count] using this
  refine ⟨hcounter, honce, fun row hrow => hplaces.mem_iff.1 hrow, ?_⟩
  intro hrest
  have hreserve : s.toReserve = [] := by
    refine List.flatMap_eq_nil_iff.2 fun call hcall => ?_
    simp [Call.toReserve, hrest call hcall]
  have hrelease : s.toRelease = [] := by
    refine List.flatMap_eq_nil_iff.2 fun call hcall => ?_
    simp [Call.toRelease, hrest call hcall]
  refine ⟨?_, ?_⟩
  · simpa [hreserve, hrelease, total] using hcounter
  · intro row hrow hlive
    have honce := honce row hrow
    rw [hrelease, List.append_nil, List.count_append, List.count_eq_zero_of_not_mem hlive,
      Nat.zero_add] at honce
    exact honce

/-- Along a run without a slip the reservations are accounted for. -/
theorem accounted_of_noSlips (capable : client.incrbyfloat = true) (events : List (Event K P))
    (noSlips : Runs.Every (step client) (fun s e => ¬ Slip s e) start events) :
    Accounted (run client events) :=
  have kept : Kept (run client events) :=
    Runs.inv_foldl_of_every Kept (fun _ e h hno => kept_step capable h e hno) kept_start events
      noSlips
  kept.accounted

end Runs

/-- What reserves some dollars or euros of one owner for lumens. -/
def params (sellAsset : String) (reservedAmount ttlSeconds : ℕ) : CreateQuoteParams :=
  ⟨some "owner", sellAsset, "XLM", some .active, some reservedAmount, some ttlSeconds⟩

/-- The update of a cancellation is executed, but its answer is lost. -/
def lostAnswer : List (Event ℕ Bool) :=
  [.createQuote true 0 (params "USD" 5 300) .answered, .redis 0 .answered,
    .cancelQuote true 0 "owner" (some ((params "USD" 5 300).quote 0 0)) (.failed true)]

/-- A quote expires before its reservation is made. -/
def hastySweep : List (Event ℕ Bool) :=
  [.createQuote true 0 (params "USD" 5 60) .answered, .passes 100000,
    .expireStaleQuotes true .answered, .redis 1 .answered, .redis 1 .answered, .cacheDel 1,
    .redis 0 .answered]

/-- A quote is in the table and in the memory of another process than the one that sweeps. -/
def twoCopies : List (Event ℕ Bool) :=
  [.createQuote true 0 (params "USD" 5 300) .answered, .redis 0 .answered,
    .createQuote true 1 (params "USD" 7 60) (.failed true), .redis 1 .answered, .passes 100000,
    .expireStaleQuotes false .answered, .redis 2 .answered, .cacheDel 2,
    .expireStaleQuotes true (.failed false), .visit 3 1, .redis 3 .answered, .redis 3 .answered]

/-- A quote is in the memory and in the cache of its process, and is looked up after its expiry. -/
def markedByLookup : List (Event ℕ Bool) :=
  [.createQuote true 0 (params "USD" 5 60) (.failed false), .redis 0 .answered, .passes 60001,
    .getQuote true 0, .expireStaleQuotes true (.failed false), .visit 1 0]

/-- Even with that client, after a slip the counter is not that of the live quotes, some of which
are never released, or twice. -/
theorem slips_unaccounted :
    ((run ⟨true⟩ lostAnswer).AtRest ∧ (run ⟨true⟩ lostAnswer).reserved = 5 ∧
      (run ⟨true⟩ lostAnswer).live = [] ∧ (run ⟨true⟩ lostAnswer).released = []) ∧
    ((run ⟨true⟩ hastySweep).AtRest ∧ (run ⟨true⟩ hastySweep).reserved = 5 ∧
      (run ⟨true⟩ hastySweep).live = []) ∧
    ((run ⟨true⟩ twoCopies).AtRest ∧ (run ⟨true⟩ twoCopies).reserved = 0 ∧
      total (run ⟨true⟩ twoCopies).live = 5 ∧ (run ⟨true⟩ twoCopies).released.count ⟨1, 7⟩ = 2) ∧
    ((run ⟨true⟩ markedByLookup).AtRest ∧ (run ⟨true⟩ markedByLookup).reserved = 5 ∧
      (run ⟨true⟩ markedByLookup).live = [] ∧ (run ⟨true⟩ markedByLookup).released = []) := by
  decide +kernel

/-! ## The client in use -/

/-- The counter of every pair is what its live quotes reserve, and what has been reserved is
released once it is not live any more, and only then. -/
structure Settled [DecidableEq K] (s : State K P) : Prop where
  counter : ∀ sellAsset buyAsset, s.reserved = total (s.liveOf sellAsset buyAsset)
  released : ∀ row ∈ s.created, 0 < row.amount →
    s.released.count row = if row ∈ s.live then 0 else 1

/-- Nothing is reserved and nothing released. -/
structure Still (s : State K P) : Prop where
  reserved : s.reserved = 0
  released : s.released = []
  created : ∀ row ∈ s.stored.map (·.quote.reservation), row ∈ s.created

section Still

variable {client : Client}

theorem Still.setStatus (h : Still s) (choice : Choice K P) (status : QuoteStatus) :
    Still (s.setStatus choice status) := by
  refine ⟨h.reserved, h.released, fun row hrow => h.created row ?_⟩
  rwa [map_setStatus choice _ fun _ => rfl] at hrow

theorem Still.begin (h : Still s) (work : Work P) (rows : List (Reservation K)) :
    Still (s.begin work rows) :=
  ⟨h.reserved, h.released, h.created⟩

theorem Still.update (h : Still s) (i : ℕ) (call : Call K P) : Still (s.update i call) :=
  ⟨h.reserved, h.released, h.created⟩

theorem Still.cancel (h : Still s) (choice : Choice K P) : Still (s.cancel choice).1 := by
  unfold State.cancel
  split_ifs
  · exact h
  · exact (h.setStatus choice .cancelled).begin _ _

theorem Still.forget [DecidableEq K] [DecidableEq P] (h : Still s) (process : P) (id : K) :
    Still (s.forget process id) := by
  refine ⟨h.reserved, h.released, fun row hrow => h.created row ?_⟩
  obtain ⟨entry, hentry, rfl⟩ := List.mem_map.1 hrow
  exact List.mem_map_of_mem (List.mem_filter.1 hentry).1

/-- No command for the counter comes through. -/
theorem Still.command (incapable : client.incrbyfloat = false) (h : Still s) (call : Call K P)
    (answer : Answer) : Still (s.command client call answer).1 := by
  unfold State.command
  split
  · rw [if_neg (by simp [incapable])]
    exact h
  · split_ifs
    · exact ⟨rfl, h.released, h.created⟩
    · exact h
  · exact h

theorem copies_reservation (process : P) (quote : Sep38Quote K) (answer : Answer) :
    ∀ entry ∈ copies process quote answer, entry.quote = quote := by
  unfold copies
  split_ifs
  · rcases answer with _ | _ | _ <;> simp
  · simp

variable [DecidableEq K] [DecidableEq P]

theorem still_step (incapable : client.incrbyfloat = false) (s : State K P) (e : Event K P)
    (h : Still s) : Still (step client s e) := by
  cases e with
  | passes elapsed => exact ⟨h.reserved, h.released, h.created⟩
  | createQuote process id params answer =>
    simp only [step]
    split_ifs
    · refine ⟨h.reserved, h.released, fun row hrow => ?_⟩
      obtain ⟨entry, hentry, rfl⟩ := List.mem_map.1 hrow
      rcases List.mem_append.1 hentry with hentry | hentry
      · rw [copies_reservation process _ answer entry hentry]
        exact List.mem_cons_self
      · exact List.mem_cons_of_mem _ (h.created _ (List.mem_map_of_mem hentry))
    · exact h
  | cancelQuote process id requestingUserId found answer =>
    simp only [step, cancelQuote]
    split
    · exact h
    · split
      · exact h.cancel _
      · split_ifs
        · exact (h.setStatus _ _).cancel _
        · exact h.cancel _
  | getQuote process id => exact h.setStatus _ _
  | expireStaleQuotes process answer =>
    simp only [step]
    split
    · exact (h.setStatus _ _).begin _ _
    · split_ifs
      · exact (h.setStatus _ _).begin _ _
      · exact h.begin _ _
  | visit call id =>
    simp only [step]
    split
    · exact (h.setStatus _ _).update _ _
    · exact h
  | redis call answer =>
    simp only [step]
    split
    · exact (h.command incapable _ answer).update _ _
    · exact h
  | cacheDel call =>
    simp only [step]
    split
    · exact (h.forget _ _).update _ _
    · exact h

theorem still_run (events : List (Event K P)) : Still (run nodeRedis events) :=
  Runs.inv_foldl Still (still_step rfl) ⟨rfl, rfl, by simp [start]⟩ events

omit [DecidableEq K] [DecidableEq P] in
theorem total_eq_zero_iff {rows : List (Reservation K)} :
    total rows = 0 ↔ ∀ row ∈ rows, row.amount = 0 := by
  simp [total, List.sum_eq_zero_iff_forall_eq_nat]

/-- For every run, in every state of it: the law holds exactly as long as every quote that has been
created reserves nothing. -/
theorem reservations_accounted (events : List (Event K P)) :
    Settled (run nodeRedis events) ↔
      ∀ row ∈ (run nodeRedis events).created, row.amount = 0 := by
  have still := still_run events
  generalize run nodeRedis events = s at still
  constructor
  · intro settled row hrow
    by_contra hamount
    have hreleased := settled.released row hrow (Nat.pos_of_ne_zero hamount)
    rw [still.released, List.count_nil] at hreleased
    split_ifs at hreleased with hlive
    obtain ⟨entry, hentry, rfl⟩ := List.mem_map.1 hlive
    obtain ⟨hstored, hliving⟩ := List.mem_filter.1 hentry
    have hcounter := settled.counter entry.quote.sellAsset entry.quote.buyAsset
    rw [still.reserved] at hcounter
    apply hamount
    refine total_eq_zero_iff.1 (Int.ofNat_inj.1 hcounter.symm) _ (List.mem_map_of_mem ?_)
    exact List.mem_filter.2 ⟨hstored, by simpa using hliving⟩
  · intro nothing
    constructor
    · intro sellAsset buyAsset
      rw [still.reserved, eq_comm, Nat.cast_eq_zero, total_eq_zero_iff]
      intro row hrow
      obtain ⟨entry, hentry, rfl⟩ := List.mem_map.1 hrow
      exact nothing _ (still.created _ (List.mem_map_of_mem (List.mem_filter.1 hentry).1))
    · intro row hrow hamount
      exact absurd (nothing row hrow) (Nat.pos_iff_ne_zero.1 hamount)

end Still

/-- A quote reserves 5 dollars, with Redis connected, and is cancelled. -/
def reservedQuote : List (Event ℕ Bool) :=
  [.createQuote true 0 (params "USD" 5 300) .answered, .redis 0 .answered]

def cancelledQuote : List (Event ℕ Bool) :=
  reservedQuote ++
    [.cancelQuote true 0 "owner" (some ((params "USD" 5 300).quote 0 0)) .answered,
      .redis 1 .answered]

/-- Once the calls have returned, the counter is still 0, and then nothing has been released. -/
theorem reservations_unaccounted :
    ((run nodeRedis reservedQuote).AtRest ∧ (run nodeRedis reservedQuote).reserved = 0 ∧
      total ((run nodeRedis reservedQuote).liveOf "USD" "XLM") = 5 ∧
      ¬ Settled (run nodeRedis reservedQuote)) ∧
    (run nodeRedis cancelledQuote).AtRest ∧ (run nodeRedis cancelledQuote).live = [] ∧
      (run nodeRedis cancelledQuote).released = [] ∧ ¬ Settled (run nodeRedis cancelledQuote) := by
  refine ⟨⟨by decide +kernel, by decide +kernel, by decide +kernel, fun settled => ?_⟩,
    by decide +kernel, by decide +kernel, by decide +kernel, fun settled => ?_⟩
  · exact absurd (settled.counter "USD" "XLM") (by decide +kernel)
  · exact absurd (settled.released ⟨0, 5⟩ (by decide +kernel) (by decide)) (by decide +kernel)

end MobileMoney.Sep38
