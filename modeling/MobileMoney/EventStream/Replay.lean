import Mathlib.Data.Nat.Basic
import MobileMoney.EventStream.Program
import MobileMoney.Library.Numbered
import MobileMoney.Library.Runs

/-!
# What a client that comes back is told

The ids of a process are consecutive, so that what the buffer has lost shows in the oldest id it has
left. An id of an earlier process says nothing of the kind: what was published since is told, or the
gap is noticed, only as far as the numbers happen to differ.
-/

namespace MobileMoney.EventStream

variable {P ι : Type} {config : StreamConfig} {who : ι → TransactionStreamClient}

/-! ## The law -/

namespace Connection

def events (connection : Connection P) : List (BufferedTransactionEvent P) :=
  connection.sent.filterMap Frame.event?

def Noticed (connection : Connection P) : Prop :=
  ∃ gap, Frame.streamGap gap ∈ connection.sent

end Connection

/-- The event is one of the user, or of nobody and of the transaction asked for. -/
def Own (event : BufferedTransactionEvent P) (client : TransactionStreamClient) : Prop :=
  match given event.userId with
  | some userId => userId = client.userId
  | none => client.transactionId = some event.transactionId

/-- A stream that goes on from where its client was has noticed a gap or told all events that are
visible to it since, in their order; and it tells no events of others. -/
structure Client.Lawful (history : List (BufferedTransactionEvent P))
    (client : TransactionStreamClient) (c : Client P) : Prop where
  replayed : ∀ connection p, c.connection = some connection → connection.since = some p →
    connection.Noticed ∨
      connection.events = (history.drop p).filter (isEventVisible · client)
  own : ∀ connection, c.connection = some connection →
    ∀ event ∈ connection.events, Own event client

namespace World

def Law (who : ι → TransactionStreamClient) (w : World P ι) : Prop :=
  ∀ i, (w.clients i).Lawful w.history (who i)

/-- The id was given by the running process, or it is so old that the oldest event that is left
shows the gap, or nothing visible was published since by an earlier process or with a number up to
the id. -/
def Tells (who : ι → TransactionStreamClient) (w : World P ι) (i : ι) (lastEventId : ℕ) : Prop :=
  w.started < (w.clients i).seen ∨
  (∃ oldest ∈ w.server.buffer.head?, lastEventId + 1 < oldest.id) ∨
  ∀ event ∈ w.history.drop (w.clients i).seen, isEventVisible event (who i) = true →
    w.started ≤ event.place ∧ lastEventId < event.id

def Careful (who : ι → TransactionStreamClient) (w : World P ι) : Turn P ι → Prop
  | .connect i header => (w.clients i).connection = none → ∀ lastEventId,
      header = .valid lastEventId → (w.clients i).lastEventId = some lastEventId →
        w.Tells who i lastEventId
  | _ => True

end World

/-! ## Visibility -/

theorem own_of_visible {event : BufferedTransactionEvent P} {client : TransactionStreamClient}
    (h : isEventVisible event client = true) : Own event client := by
  unfold isEventVisible at h
  unfold Own
  split_ifs at h with hother
  cases huser : given event.userId with
  | some userId => simpa [huser] using h
  | none =>
    rw [huser] at h
    obtain ⟨transactionId, hgiven⟩ := Option.isSome_iff_exists.1 h
    rw [hgiven, Option.any_some, decide_eq_true_eq, not_not] at hother
    obtain ⟨hclient, -⟩ := Option.filter_eq_some_iff.1 hgiven
    rw [hclient, hother]

/-! ## What is kept -/

namespace World

/-- The buffer is the end of the history, and all of it has been numbered by this process. -/
structure Retains (w : World P ι) (first : ℕ) : Prop where
  started : w.started ≤ first
  bound : first ≤ w.history.length
  buffer : w.server.buffer = w.history.drop first
  kept : first = w.history.length → w.started = w.history.length

/-- What a stream has told. -/
structure Told (history : List (BufferedTransactionEvent P)) (client : TransactionStreamClient)
    (connection : Connection P) : Prop where
  since : ∀ p ∈ connection.since, p ≤ history.length
  events : ∀ event ∈ connection.events, event ∈ history ∧ isEventVisible event client = true
  unread : connection.unread <:+ connection.sent

/-- The client has seen the event with its id. -/
structure Sound (history : List (BufferedTransactionEvent P)) (started : ℕ)
    (client : TransactionStreamClient) (c : Client P) : Prop where
  seen : c.seen ≤ history.length
  last : ∀ lastEventId, c.lastEventId = some lastEventId → started < c.seen →
    lastEventId = c.seen - started
  told : ∀ connection, c.connection = some connection → Told history client connection

structure Inv (who : ι → TransactionStreamClient) (w : World P ι) : Prop where
  numbered : Numbered BufferedTransactionEvent.place w.history
  next : w.server.nextEventId = w.history.length - w.started + 1
  ids : ∀ event ∈ w.history, w.started ≤ event.place → event.id = event.place - w.started + 1
  retains : ∃ first, w.Retains first
  clients : ∀ i, Sound w.history w.started (who i) (w.clients i)

theorem Sound.own {history : List (BufferedTransactionEvent P)} {started : ℕ}
    {client : TransactionStreamClient} {c : Client P} (h : Sound history started client c) :
    ∀ connection, c.connection = some connection → ∀ event ∈ connection.events,
      Own event client := by
  intro connection hconnection event hevent
  exact own_of_visible ((h.told connection hconnection).events event hevent).2

theorem inv_init : (init : World P ι).Inv who where
  numbered := Numbered.nil
  next := rfl
  ids := by simp [init]
  retains := ⟨0, le_rfl, le_rfl, rfl, fun _ => rfl⟩
  clients _ := ⟨le_rfl, fun _ => nofun, fun _ => nofun⟩

theorem law_init : (init : World P ι).Law who := fun _ => ⟨fun _ _ => nofun, fun _ => nofun⟩

/-! ## The replay -/

theorem Retains.head {w : World P ι} {first : ℕ} (h : w.Retains first) (hw : w.Inv who)
    {oldest : BufferedTransactionEvent P} (hhead : w.server.buffer.head? = some oldest) :
    oldest.id = first - w.started + 1 := by
  rw [h.buffer, List.head?_drop] at hhead
  have hplace := hw.numbered.place_of_getElem? hhead
  rw [hw.ids oldest (List.mem_of_getElem? hhead) (by rw [hplace]; exact h.started), hplace]

/-- The ids from a place of this process on. -/
theorem Retains.head_isSome {w : World P ι} {first : ℕ} (h : w.Retains first)
    (hstarted : w.started < w.history.length) : ∃ oldest, w.server.buffer.head? = some oldest := by
  have hfirst : first < w.history.length := by
    refine lt_of_le_of_ne h.bound fun heq => ?_
    exact absurd (h.kept heq) (Nat.ne_of_lt hstarted)
  rw [h.buffer, List.head?_drop]
  exact ⟨_, List.getElem?_eq_getElem hfirst⟩

theorem gap_getReplayEvents {server : Server P} {lastEventId : ℕ} :
    (getReplayEvents server lastEventId).gap ≠ none ↔
      ∃ oldest ∈ server.buffer.head?, lastEventId + 1 < oldest.id := by
  unfold getReplayEvents
  cases hhead : server.buffer.head? with
  | none => simp
  | some oldest =>
    by_cases hgap : lastEventId + 1 < oldest.id
    · simp [hgap]
    · simp [hgap]

theorem events_getReplayEvents {server : Server P} {lastEventId : ℕ}
    (hgap : ¬∃ oldest ∈ server.buffer.head?, lastEventId + 1 < oldest.id) :
    (getReplayEvents server lastEventId).events =
      server.buffer.filter fun event => lastEventId < event.id := by
  unfold getReplayEvents
  cases hhead : server.buffer.head? with
  | none =>
    rw [List.head?_eq_none_iff] at hhead
    rw [hhead]
    rfl
  | some oldest =>
    have hno : ¬lastEventId + 1 < oldest.id := fun hlt => hgap ⟨oldest, hhead, hlt⟩
    simp only [if_neg hno]

/-- What is replayed without a notice is what has been missed if and only if the id tells. -/
theorem replay_eq_iff {w : World P ι} (h : w.Inv who) {i : ι} {lastEventId : ℕ}
    (hlast : (w.clients i).lastEventId = some lastEventId)
    (hgap : ¬∃ oldest ∈ w.server.buffer.head?, lastEventId + 1 < oldest.id) :
    ((getReplayEvents w.server lastEventId).events.filter (isEventVisible · (who i)) =
        (w.history.drop (w.clients i).seen).filter (isEventVisible · (who i))) ↔
      w.Tells who i lastEventId := by
  obtain ⟨first, retains⟩ := h.retains
  have started := retains.started
  have id_of : ∀ event ∈ w.history, first ≤ event.place →
      event.id = event.place - w.started + 1 :=
    fun event hevent hplace => h.ids event hevent (le_trans started hplace)
  -- Without a gap the buffer begins no later than behind the id.
  have near : w.started < w.history.length → first - w.started ≤ lastEventId := by
    intro hpublished
    obtain ⟨oldest, holdest⟩ := retains.head_isSome hpublished
    have hid := retains.head h holdest
    have hnear : ¬lastEventId + 1 < oldest.id := fun hlt => hgap ⟨oldest, holdest, hlt⟩
    omega
  rw [events_getReplayEvents hgap, retains.buffer, h.numbered.drop_eq_filter,
    h.numbered.drop_eq_filter, List.filter_filter, List.filter_filter, List.filter_filter]
  constructor
  · intro heq
    refine .inr (.inr fun event hevent hvisible => ?_)
    obtain ⟨hmem, hseen⟩ := h.numbered.mem_drop.1 hevent
    have replayed := congrArg (event ∈ ·) heq
    simp only [List.mem_filter, Bool.and_eq_true, decide_eq_true_eq, hmem, hvisible, hseen,
      true_and, and_true, eq_iff_iff, iff_true] at replayed
    exact ⟨le_trans started replayed.2, replayed.1⟩
  · intro tells
    apply List.filter_congr
    intro event hevent
    rw [Bool.eq_iff_iff]
    simp only [Bool.and_eq_true, decide_eq_true_eq]
    have hplace := h.numbered.place_lt hevent
    constructor
    · rintro ⟨⟨hvisible, hid⟩, hfirst⟩
      refine ⟨hvisible, ?_⟩
      by_contra hseen
      have := (h.clients i).last lastEventId hlast (by omega)
      have := id_of event hevent hfirst
      omega
    · rintro ⟨hvisible, hseen⟩
      rcases tells with hcurrent | hold | hmissed
      · have hid := (h.clients i).last lastEventId hlast hcurrent
        have hnear := near (lt_of_lt_of_le hcurrent (h.clients i).seen)
        have := id_of event hevent (by omega)
        exact ⟨⟨hvisible, by omega⟩, by omega⟩
      · exact absurd hold hgap
      · obtain ⟨hprocess, hid⟩ := hmissed event (h.numbered.mem_drop.2 ⟨hevent, hseen⟩) hvisible
        have hnear := near (lt_of_le_of_lt hprocess hplace)
        have := h.ids event hevent hprocess
        exact ⟨⟨hvisible, hid⟩, by omega⟩

/-! ## Steps -/

theorem events_write (frames : List (Frame P)) (connection : Connection P) :
    (connection.write frames).events = connection.events ++ frames.filterMap Frame.event? :=
  List.filterMap_append

theorem filterMap_event (events : List (BufferedTransactionEvent P)) :
    (events.map Frame.event).filterMap Frame.event? = events := by
  rw [List.filterMap_map]
  exact List.filterMap_some

theorem events_attach_valid (server : Server P) (client : TransactionStreamClient)
    (lastEventId : ℕ) (since : Option ℕ) :
    (attachTransactionStream server client (.valid lastEventId) since).events =
      (getReplayEvents server lastEventId).events.filter (isEventVisible · client) := by
  rw [attachTransactionStream, events_write, List.filterMap_cons_none rfl, replayFrames,
    List.filterMap_append, filterMap_event]
  cases (getReplayEvents server lastEventId).gap <;> rfl

theorem noticed_attach_valid (server : Server P) (client : TransactionStreamClient)
    (lastEventId : ℕ) (since : Option ℕ) :
    (attachTransactionStream server client (.valid lastEventId) since).Noticed ↔
      (getReplayEvents server lastEventId).gap ≠ none := by
  cases hgap : (getReplayEvents server lastEventId).gap with
  | none =>
    simp [Connection.Noticed, attachTransactionStream, Connection.write, replayFrames, hgap]
  | some gap =>
    simp only [ne_eq, reduceCtorEq, not_false_eq_true, iff_true]
    exact ⟨gap, by simp [attachTransactionStream, Connection.write, replayFrames, hgap]⟩

theorem mem_events_attach {w : World P ι} {client : TransactionStreamClient} {header : LastEventId}
    {since : Option ℕ} {first : ℕ} (h : w.Retains first) {event : BufferedTransactionEvent P}
    (hevent : event ∈ (attachTransactionStream w.server client header since).events) :
    event ∈ w.history ∧ isEventVisible event client = true := by
  cases header with
  | absent => exact absurd hevent List.not_mem_nil
  | invalid raw => exact absurd hevent List.not_mem_nil
  | valid lastEventId =>
    rw [events_attach_valid, List.mem_filter] at hevent
    refine ⟨?_, hevent.2⟩
    have buffered : event ∈ w.server.buffer := by
      have hmem := hevent.1
      unfold getReplayEvents at hmem
      split at hmem
      · cases hmem
      · split_ifs at hmem
        · exact hmem
        · exact (List.mem_filter.1 hmem).1
    rw [h.buffer] at buffered
    exact List.mem_of_mem_drop buffered

theorem sound_connect {w : World P ι} (h : w.Inv who) (i : ι) (header : LastEventId) :
    Sound w.history w.started (who i) { w.clients i with
      connection := some (attachTransactionStream w.server (who i) header
        ((w.clients i).since header)) } := by
  obtain ⟨first, retains⟩ := h.retains
  obtain ⟨hseen, hlast, -⟩ := h.clients i
  refine ⟨hseen, hlast, fun connection hconnection => ?_⟩
  cases hconnection
  refine ⟨fun p hp => ?_, fun event hevent => mem_events_attach retains hevent, List.suffix_rfl⟩
  have hp : (w.clients i).since header = some p := hp
  unfold Client.since at hp
  split at hp
  · split_ifs at hp
    cases hp
    exact hseen
  · cases hp

/-- Of a new stream the law is that the id tells. -/
theorem lawful_connect_iff {w : World P ι} (h : w.Inv who) (i : ι) (header : LastEventId) :
    Client.Lawful w.history (who i) { w.clients i with
        connection := some (attachTransactionStream w.server (who i) header
          ((w.clients i).since header)) } ↔
      ∀ lastEventId, header = .valid lastEventId →
        (w.clients i).lastEventId = some lastEventId → w.Tells who i lastEventId := by
  have told : ∀ lastEventId, (w.clients i).lastEventId = some lastEventId →
      ((attachTransactionStream w.server (who i) (.valid lastEventId)
          (some (w.clients i).seen)).Noticed ∨
        (attachTransactionStream w.server (who i) (.valid lastEventId)
          (some (w.clients i).seen)).events =
          (w.history.drop (w.clients i).seen).filter (isEventVisible · (who i)) ↔
      w.Tells who i lastEventId) := by
    intro lastEventId hlast
    rw [noticed_attach_valid, gap_getReplayEvents, events_attach_valid]
    by_cases hgap : ∃ oldest ∈ w.server.buffer.head?, lastEventId + 1 < oldest.id
    · exact iff_of_true (.inl hgap) (.inr (.inl hgap))
    · rw [or_iff_right hgap]
      exact replay_eq_iff h hlast hgap
  constructor
  · intro lawful lastEventId hheader hlast
    subst hheader
    have since : (w.clients i).since (.valid lastEventId) = some (w.clients i).seen := by
      simp [Client.since, hlast]
    have replayed := lawful.replayed _ _ rfl since
    rw [since] at replayed
    exact (told lastEventId hlast).1 replayed
  · intro tells
    refine ⟨fun connection p hconnection hsince => ?_, (sound_connect h i header).own⟩
    cases hconnection
    have since : (w.clients i).since header = some p := hsince
    unfold Client.since at since
    split at since
    · rename_i lastEventId hlast
      split_ifs at since with hheader
      cases since
      subst hheader
      have := (told lastEventId hlast).2 (tells lastEventId rfl hlast)
      simpa [Client.since, hlast] using this
    · cases since

/-! ## Turns -/

/-- The streams of the client are still as they were. -/
theorem lawful_of_same {history : List (BufferedTransactionEvent P)}
    {client : TransactionStreamClient} {c c' : Client P}
    (same : ∀ connection', c'.connection = some connection' → ∃ connection,
      c.connection = some connection ∧ connection'.since = connection.since ∧
        connection'.events = connection.events ∧ (connection.Noticed → connection'.Noticed))
    (h : c.Lawful history client) : c'.Lawful history client := by
  constructor
  · intro connection' p hconnection' hsince'
    obtain ⟨connection, hconnection, hsince, hevents, hnoticed⟩ := same connection' hconnection'
    rw [hsince] at hsince'
    rw [hevents]
    exact (h.replayed connection p hconnection hsince').imp_left hnoticed
  · intro connection' hconnection'
    obtain ⟨connection, hconnection, -, hevents, -⟩ := same connection' hconnection'
    rw [hevents]
    exact h.own connection hconnection

theorem inv_read {w : World P ι} (h : w.Inv who) (i : ι) :
    Sound w.history w.started (who i) (w.clients i).read := by
  obtain ⟨hseen, hlast, htold⟩ := h.clients i
  unfold Client.read
  split
  · rename_i since sent frame unread hconnection
    obtain ⟨hsince, hevents, hunread⟩ := htold _ hconnection
    have told : Told w.history (who i) ⟨since, sent, unread⟩ :=
      ⟨hsince, hevents, (List.suffix_cons frame unread).trans hunread⟩
    cases frame with
    | event event =>
      have hsent : Frame.event event ∈ sent := hunread.subset List.mem_cons_self
      have hmem := (hevents event (List.mem_filterMap.2 ⟨_, hsent, rfl⟩)).1
      have hplace := h.numbered.place_lt hmem
      refine ⟨hplace, fun lastEventId hid hcurrent => ?_, ?_⟩
      · cases hid
        have hcurrent : w.started < event.place + 1 := hcurrent
        have := h.ids event hmem (Nat.le_of_lt_succ hcurrent)
        change event.id = event.place + 1 - w.started
        omega
      · intro connection hconnection'
        cases hconnection'
        exact told
    | _ =>
      refine ⟨hseen, hlast, fun connection hconnection' => ?_⟩
      cases hconnection'
      exact told
  · exact ⟨hseen, hlast, htold⟩

theorem lawful_read {w : World P ι} (law : w.Law who) (i : ι) :
    (w.clients i).read.Lawful w.history (who i) := by
  refine lawful_of_same (fun connection' hconnection' => ?_) (law i)
  unfold Client.read at hconnection'
  split at hconnection'
  · rename_i since sent frame unread hconnection
    cases hconnection'
    exact ⟨_, hconnection, rfl, rfl, id⟩
  · exact ⟨connection', hconnection', rfl, rfl, id⟩

theorem sound_disconnect {w : World P ι} (h : w.Inv who) (i : ι) :
    Sound w.history w.started (who i) { w.clients i with connection := none } :=
  ⟨(h.clients i).seen, (h.clients i).last, fun _ => nofun⟩

theorem lawful_disconnect (history : List (BufferedTransactionEvent P))
    (client : TransactionStreamClient) (c : Client P) :
    Client.Lawful history client { c with connection := none } :=
  ⟨fun _ _ => nofun, fun _ => nofun⟩

theorem events_ping (connection : Connection P) :
    (connection.write [.ping]).events = connection.events := by
  rw [events_write]
  exact List.append_nil _

theorem sound_heartbeat {w : World P ι} (h : w.Inv who) (i : ι) :
    Sound w.history w.started (who i) { w.clients i with
      connection := (w.clients i).connection.map (Connection.write [.ping]) } := by
  obtain ⟨hseen, hlast, htold⟩ := h.clients i
  refine ⟨hseen, hlast, fun connection' hconnection' => ?_⟩
  obtain ⟨connection, hconnection, rfl⟩ := Option.map_eq_some_iff.1 hconnection'
  obtain ⟨hsince, hevents, hunread⟩ := htold connection hconnection
  exact ⟨hsince, by rwa [events_ping], List.suffix_append_self_iff.2 hunread⟩

theorem lawful_heartbeat {w : World P ι} (law : w.Law who) (i : ι) :
    Client.Lawful w.history (who i) { w.clients i with
      connection := (w.clients i).connection.map (Connection.write [.ping]) } := by
  refine lawful_of_same (fun connection' hconnection' => ?_) (law i)
  obtain ⟨connection, hconnection, rfl⟩ := Option.map_eq_some_iff.1 hconnection'
  refine ⟨connection, hconnection, rfl, events_ping connection, ?_⟩
  rintro ⟨gap, hgap⟩
  exact ⟨gap, List.mem_append_left _ hgap⟩

theorem inv_restart {w : World P ι} (h : w.Inv who) : Inv who { w with
    server := .init
    started := w.history.length
    clients := fun i => { w.clients i with connection := none } } where
  numbered := h.numbered
  next := by rw [Nat.sub_self]; rfl
  ids event hevent hplace := absurd (h.numbered.place_lt hevent) (not_lt.2 hplace)
  retains := ⟨w.history.length, le_rfl, le_rfl, by rw [List.drop_length]; rfl, fun _ => rfl⟩
  clients i := by
    have seen := (h.clients i).seen
    exact ⟨seen, fun _ _ hcurrent => absurd seen (not_le.2 hcurrent), fun _ => nofun⟩

/-! ## Publishing -/

theorem onEvent_events (client : TransactionStreamClient) (event : BufferedTransactionEvent P)
    (connection : Connection P) :
    (connection.onEvent client event).events =
      connection.events ++ [event].filter (isEventVisible · client) := by
  unfold Connection.onEvent
  split_ifs with hvisible
  · simp [events_write, Frame.event?, hvisible]
  · simp [hvisible]

theorem onEvent_since (client : TransactionStreamClient) (event : BufferedTransactionEvent P)
    (connection : Connection P) : (connection.onEvent client event).since = connection.since := by
  unfold Connection.onEvent
  split_ifs <;> rfl

theorem onEvent_unread {client : TransactionStreamClient} {event : BufferedTransactionEvent P}
    {connection : Connection P} (h : connection.unread <:+ connection.sent) :
    (connection.onEvent client event).unread <:+ (connection.onEvent client event).sent := by
  unfold Connection.onEvent
  split_ifs
  · exact List.suffix_append_self_iff.2 h
  · exact h

theorem Noticed.onEvent {client : TransactionStreamClient} {event : BufferedTransactionEvent P}
    {connection : Connection P} (h : connection.Noticed) :
    (connection.onEvent client event).Noticed := by
  obtain ⟨gap, hgap⟩ := h
  unfold Connection.onEvent
  split_ifs
  · exact ⟨gap, List.mem_append_left _ hgap⟩
  · exact ⟨gap, hgap⟩

/-- A full buffer gives up its oldest event, and never the newest. -/
theorem retains_publish {w : World P ι} {first : ℕ} (h : w.Retains first)
    (event : BufferedTransactionEvent P) :
    ∃ first', (w.publish config who event).Retains first' := by
  have hlength : (w.server.buffer ++ [event]).length = w.history.length - first + 1 := by
    rw [List.length_append, h.buffer, List.length_drop, List.length_singleton]
  have hbuffer : w.server.buffer ++ [event] = (w.history ++ [event]).drop first := by
    rw [List.drop_append_of_le_length h.bound, h.buffer]
  have hpos := config.replayBufferSize_pos
  have bound := h.bound
  have length : (w.publish config who event).history.length = w.history.length + 1 :=
    List.length_append
  refine ⟨first + (w.history.length - first + 1 - config.replayBufferSize), ?_, ?_, ?_, ?_⟩
  · exact le_trans h.started (Nat.le_add_right _ _)
  · rw [length]
    omega
  · simp only [publish, Server.push, hlength]
    rw [hbuffer, List.drop_drop]
  · rw [length]
    omega

theorem inv_publish {w : World P ι} (h : w.Inv who) (event : TransactionStreamEvent P) (now : ℕ) :
    (w.publish config who (w.server.buffered event now w.history.length)).Inv who := by
  obtain ⟨first, retains⟩ := h.retains
  have hstarted : w.started ≤ w.history.length := le_trans retains.started retains.bound
  have length : ∀ e : BufferedTransactionEvent P,
      (w.history ++ [e]).length = w.history.length + 1 := fun _ => List.length_append
  refine ⟨h.numbered.concat rfl, ?_, ?_, retains_publish retains _, fun i => ?_⟩
  · simp only [publish, Server.push, length, h.next]
    omega
  · intro e he hplace
    rcases List.mem_append.1 he with he | he
    · exact h.ids e he hplace
    · rw [List.mem_singleton.1 he]
      exact h.next
  · obtain ⟨hseen, hlast, htold⟩ := h.clients i
    refine ⟨?_, hlast, fun connection' hconnection' => ?_⟩
    · simp only [publish, length]
      omega
    · obtain ⟨connection, hconnection, rfl⟩ := Option.map_eq_some_iff.1 hconnection'
      obtain ⟨hsince, hevents, hunread⟩ := htold connection hconnection
      refine ⟨fun p hp => ?_, fun e he => ?_, onEvent_unread hunread⟩
      · rw [onEvent_since] at hp
        simp only [publish, length]
        exact le_trans (hsince p hp) (Nat.le_succ _)
      · rw [onEvent_events, List.mem_append, List.mem_filter] at he
        rcases he with he | ⟨he, hvisible⟩
        · exact ⟨List.mem_append_left _ (hevents e he).1, (hevents e he).2⟩
        · exact ⟨List.mem_append_right _ he, hvisible⟩

theorem law_publish {w : World P ι} (h : w.Inv who) (law : w.Law who)
    (event : BufferedTransactionEvent P) : (w.publish config who event).Law who := by
  intro i
  have hown : ∀ e ∈ [event].filter (isEventVisible · (who i)), Own e (who i) :=
    fun e he => own_of_visible (List.mem_filter.1 he).2
  constructor
  · intro connection' p hconnection' hsince'
    obtain ⟨connection, hconnection, rfl⟩ := Option.map_eq_some_iff.1 hconnection'
    rw [onEvent_since] at hsince'
    have bound := ((h.clients i).told connection hconnection).since p hsince'
    rcases (law i).replayed connection p hconnection hsince' with hnoticed | hevents
    · exact .inl (Noticed.onEvent hnoticed)
    · right
      rw [onEvent_events, hevents]
      simp only [publish]
      rw [List.drop_append_of_le_length bound, List.filter_append]
  · intro connection' hconnection' e he
    obtain ⟨connection, hconnection, rfl⟩ := Option.map_eq_some_iff.1 hconnection'
    rw [onEvent_events, List.mem_append] at he
    exact he.elim ((law i).own connection hconnection e) (hown e)

/-! ## Runs -/

variable [DecidableEq ι]

theorem inv_update {w : World P ι} (h : w.Inv who) {i : ι} {c : Client P}
    (hc : Sound w.history w.started (who i) c) :
    Inv who { w with clients := Function.update w.clients i c } := by
  refine ⟨h.numbered, h.next, h.ids, ?_, fun j => ?_⟩
  · obtain ⟨first, hfirst⟩ := h.retains
    exact ⟨first, hfirst.started, hfirst.bound, hfirst.buffer, hfirst.kept⟩
  · by_cases hj : j = i
    · subst hj
      simpa using hc
    · simpa [Function.update_of_ne hj] using h.clients j

theorem law_update {w : World P ι} (law : w.Law who) {i : ι} {c : Client P} :
    Law who { w with clients := Function.update w.clients i c } ↔ c.Lawful w.history (who i) := by
  constructor
  · intro law'
    simpa using law' i
  · intro hc j
    by_cases hj : j = i
    · subst hj
      simpa using hc
    · simpa [Function.update_of_ne hj] using law j

theorem inv_step (w : World P ι) (turn : Turn P ι) (h : w.Inv who) :
    (w.step config who turn).Inv who := by
  cases turn with
  | publish event now => exact inv_publish h event now
  | connect i header =>
    simp only [step]
    split_ifs
    · exact inv_update h (sound_connect h i header)
    · exact h
  | read i => exact inv_update h (inv_read h i)
  | disconnect i => exact inv_update h (sound_disconnect h i)
  | heartbeat i => exact inv_update h (sound_heartbeat h i)
  | restart => exact inv_restart h

theorem law_step_iff (w : World P ι) (turn : Turn P ι) (h : w.Inv who) (law : w.Law who) :
    (w.step config who turn).Law who ↔ w.Careful who turn := by
  cases turn with
  | publish event now => exact iff_of_true (law_publish h law _) trivial
  | connect i header =>
    simp only [step, Careful]
    by_cases hclosed : (w.clients i).connection = none
    · simp only [hclosed, true_implies]
      exact (law_update law).trans (lawful_connect_iff h i header)
    · rw [if_neg hclosed]
      exact iff_of_true law fun h => absurd h hclosed
  | read i => exact iff_of_true ((law_update law).2 (lawful_read law i)) trivial
  | disconnect i => exact iff_of_true ((law_update law).2 (lawful_disconnect _ _ _)) trivial
  | heartbeat i => exact iff_of_true ((law_update law).2 (lawful_heartbeat law i)) trivial
  | restart => exact iff_of_true (fun i => lawful_disconnect _ _ _) trivial

variable (config who) in
/-- Along a run all streams go on from where their clients were, or notice a gap, if and only if
every client that comes back has an id that tells. -/
theorem replayed_iff (turns : List (Turn P ι)) :
    (∀ pre, pre <+: turns → (pre.foldl (step config who) init).Law who) ↔
      Runs.Every (step config who) (Careful who) init turns :=
  Runs.forall_prefix_iff_every (Inv who) (Law who) inv_step law_step_iff inv_init law_init turns

section Instances

def small : StreamConfig := ⟨2, by decide⟩

def user : Unit → TransactionStreamClient := fun _ => ⟨"u", none⟩

def paid : TransactionStreamEvent Unit := ⟨"t", some "u", none, ()⟩

/-- The client has seen the first event of a process, and the first event of the next one is
published while it is away. -/
def restarted : List (Turn Unit Unit) :=
  [.connect () .absent, .publish paid 0, .read (), .read (), .restart, .publish paid 1,
    .connect () (.valid 1)]

/-- The second event has the id that the client has seen, and is told neither now nor later. -/
theorem restart_untold :
    ¬∀ pre, pre <+: restarted → (pre.foldl (step small user) init).Law user := by
  intro law
  have lawful := law restarted List.prefix_rfl ()
  have replayed := lawful.replayed ⟨some 1, [.connected], [.connected]⟩ 1 (by decide +kernel) rfl
  rcases replayed with ⟨gap, hgap⟩ | hevents
  · simp at hgap
  · exact absurd hevents (by decide +kernel)

end Instances

end World

end MobileMoney.EventStream
