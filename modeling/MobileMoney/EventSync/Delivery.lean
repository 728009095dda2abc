import MobileMoney.EventSync.Program

/-!
# The delivery of events

A pass that starts at a cursor behind which everything is handled leaves nothing out, as long as
the first page of the operations of a transaction has all its events. What has been handled is
always a first part of the events, and the cursor stays behind its end, also when passes overlap;
a cursor that is saved late can only go back.
-/

namespace MobileMoney.EventSync

open Interleaving

variable {C E ι : Type} [DecidableEq C] (config : Config C)

/-! ## Events -/

def Transaction.events (tx : Transaction C E) : List (Operation C E) :=
  tx.operations.filter fun operation => operation.Matches config.contractId

/-- The matching events after the starting cursor, in order. -/
def events (start : Option ℕ) (transactions : List (Transaction C E)) :
    List (Transaction C E × Operation C E) :=
  (transactions.filter fun tx => After start tx.pagingToken).flatMap fun tx =>
    (tx.events config).map (tx, ·)

/-- The events of these transactions are handled. -/
def Handled (s : State C E) (transactions : List (Transaction C E)) : Prop :=
  ∀ event ∈ events config s.start transactions, event ∈ s.handled

/-- What has been delivered is a first part of a list. -/
def FirstPart {α : Type} (delivered all : List α) : Prop :=
  ∃ n, n ≤ all.length ∧ ∀ a, a ∈ delivered ↔ a ∈ all.take n

/-- What has been handled is a first part of the events, it goes as far as the saved cursor, and
the cursor goes forward. -/
structure Lawful (s : State C E) : Prop where
  inOrder : FirstPart s.handled (events config s.start s.ledger.transactions)
  complete : ∀ event ∈ events config s.start s.ledger.transactions,
    After s.getEventSyncCursor event.1.pagingToken = false → event ∈ s.handled
  forward : s.saved.Pairwise (· ≥ ·) ∧ ∀ c ∈ s.start, ∀ c' ∈ s.saved, c ≤ c'

/-- The first page of the operations has all events. -/
def Transaction.OnFirstPage (tx : Transaction C E) : Prop :=
  ∀ operation ∈ tx.operations.drop config.operationsPage,
    operation.Matches config.contractId = false

instance (tx : Transaction C E) : Decidable (tx.OnFirstPage config) :=
  inferInstanceAs (Decidable (∀ operation ∈ tx.operations.drop config.operationsPage,
    operation.Matches config.contractId = false))

/-- No event is missing on the first page of its transaction, and no cursor is saved over a later
one. -/
def Proper (input : Input C E) (s : State C E) (phase : Phase C E) : Prop :=
  match input, phase with
  | .close transactions, _ =>
    ∀ tx ∈ transactions, After s.start tx.pagingToken → tx.OnFirstPage config
  | .turn answer, .saving page _ _ =>
    answer.executed → ∀ tx ∈ page.getLast?, ∀ c ∈ s.getEventSyncCursor, c ≤ tx.pagingToken
  | _, _ => True

instance (input : Input C E) (s : State C E) (phase : Phase C E) :
    Decidable (Proper config input s phase) := by
  cases input <;> cases phase <;> unfold Proper <;> infer_instance

variable {config}

theorem Transaction.OnFirstPage.fetched_eq {tx : Transaction C E} (h : tx.OnFirstPage config) :
    tx.fetched config = tx.events config := by
  have split := List.take_append_drop config.operationsPage tx.operations
  have later : (tx.operations.drop config.operationsPage).filter
      (fun operation => operation.Matches config.contractId) = [] :=
    List.filter_eq_nil_iff.2 fun operation hmem => by simp [h operation hmem]
  rw [Transaction.fetched, Transaction.events]
  conv_rhs => rw [← split, List.filter_append, later, List.append_nil]

theorem events_append (start : Option ℕ) (transactions transactions' : List (Transaction C E)) :
    events config start (transactions ++ transactions') =
      events config start transactions ++ events config start transactions' := by
  rw [events, List.filter_append, List.flatMap_append]
  rfl

theorem mem_events {start : Option ℕ} {transactions : List (Transaction C E)}
    {event : Transaction C E × Operation C E} : event ∈ events config start transactions ↔
      event.1 ∈ transactions ∧ After start event.1.pagingToken = true ∧
        event.2 ∈ event.1.events config := by
  obtain ⟨tx, operation⟩ := event
  simp only [events, List.mem_flatMap, List.mem_filter, List.mem_map, Prod.mk.injEq]
  constructor
  · rintro ⟨tx', ⟨hmem, hafter⟩, operation', hoperation, rfl, rfl⟩
    exact ⟨hmem, hafter, hoperation⟩
  · rintro ⟨hmem, hafter, hoperation⟩
    exact ⟨tx, ⟨hmem, hafter⟩, operation, hoperation, rfl, rfl⟩

theorem Handled.append {s : State C E} {transactions transactions' : List (Transaction C E)} :
    Handled config s (transactions ++ transactions') ↔
      Handled config s transactions ∧ Handled config s transactions' := by
  rw [Handled, events_append, List.forall_mem_append]
  rfl

/-! ## Where a pass stands -/

variable (config) in
/-- Everything up to the cursor is handled. The cursor is the starting one, or that of a transaction
after it. -/
structure Good (s : State C E) (cursor : Option ℕ) : Prop where
  handled : ∀ event ∈ events config s.start s.ledger.transactions,
    After cursor event.1.pagingToken = false → event ∈ s.handled
  anchored : cursor = s.start ∨ ∃ tx ∈ s.ledger.transactions,
    After s.start tx.pagingToken = true ∧ cursor = some tx.pagingToken

variable (config) in
/-- The page goes on with `rest`, and what comes before in the ledger is handled. -/
structure Splits (s : State C E) (rest page : List (Transaction C E)) (seen : ℕ)
    (before after : List (Transaction C E)) (last : Transaction C E) : Prop where
  ledger : s.ledger.transactions = before ++ rest ++ after
  handled : Handled config s before
  page_last : page.getLast? = some last
  ledger_last : (before ++ rest).getLast? = some last
  last_after : After s.start last.pagingToken = true
  rest_after : ∀ tx ∈ rest, After s.start tx.pagingToken = true
  short : page.length < config.chunkSize → (before ++ rest).length = seen

variable (config) in
def Position (s : State C E) (rest page : List (Transaction C E)) (seen : ℕ) : Prop :=
  ∃ before after last, Splits config s rest page seen before after last

variable (config) in
/-- What a pass relies on. -/
def Phase.Sound (s : State C E) : Phase C E → Prop
  | .fetching cursor _ => Good config s cursor
  | .processing tx rest page seen _ => Position config s (tx :: rest) page seen
  | .handling tx operation operations rest page seen _ =>
    Position config s (tx :: rest) page seen ∧
      ∃ before, tx.fetched config = before ++ operation :: operations ∧
        ∀ operation' ∈ before, (tx, operation') ∈ s.handled
  | .saving page seen _ => Position config s [] page seen
  | .resolved seen _ => seen ≤ s.ledger.transactions.length ∧
    Handled config s (s.ledger.transactions.take seen)
  | _ => True

variable (config) in
structure State.Sound (s : State C E) : Prop where
  firstPages : ∀ tx ∈ s.ledger.transactions, After s.start tx.pagingToken = true →
    tx.OnFirstPage config
  inOrder : FirstPart s.handled (events config s.start s.ledger.transactions)
  good : Good config s s.getEventSyncCursor
  forward : s.saved.Pairwise (· ≥ ·)
  start : ∀ c ∈ s.start, ∀ c' ∈ s.saved, c ≤ c'

theorem after_of_anchored {s : State C E} {cursor : Option ℕ} (h : Good config s cursor) {t : ℕ}
    (ht : After cursor t = true) : After s.start t = true := by
  rcases h.anchored with rfl | ⟨tx, -, hafter, rfl⟩
  · exact ht
  · cases hstart : s.start with
    | none => rfl
    | some c =>
      simp only [After, hstart, Option.all_some, decide_eq_true_eq] at hafter ht ⊢
      omega

omit [DecidableEq C] in
/-- A sorted list falls apart at a cursor. -/
theorem split_at_cursor (ledger : Ledger C E) (cursor : Option ℕ) :
    ledger.transactions =
      (ledger.transactions.filter fun tx => !After cursor tx.pagingToken) ++
        ledger.transactions.filter fun tx => After cursor tx.pagingToken := by
  obtain ⟨transactions, sorted⟩ := ledger
  dsimp only
  induction transactions with
  | nil => rfl
  | cons tx rest ih =>
    obtain ⟨first, sorted⟩ := List.pairwise_cons.1 sorted
    cases hafter : After cursor tx.pagingToken with
    | false =>
      rw [List.filter_cons_of_pos (by simp [hafter]), List.filter_cons_of_neg (by simp [hafter]),
        List.cons_append, ← ih sorted]
    | true =>
      have all : ∀ tx' ∈ tx :: rest, After cursor tx'.pagingToken = true := by
        intro tx' htx'
        rcases List.mem_cons.1 htx' with rfl | htx'
        · exact hafter
        · have hlt := first tx' htx'
          cases cursor with
          | none => rfl
          | some c =>
            simp only [After, Option.all_some, decide_eq_true_eq] at hafter ⊢
            omega
      rw [List.filter_eq_self.2 all, List.filter_eq_nil_iff.2 (by simpa using all),
        List.nil_append]

theorem fetch_sound {s : State C E} {cursor : Option ℕ} (h : Good config s cursor)
    (result : LedgerEventSyncResult) : (fetch config s cursor result).Sound config s := by
  have split := split_at_cursor s.ledger cursor
  have behind : Handled config s
      (s.ledger.transactions.filter fun tx => !After cursor tx.pagingToken) := by
    intro event hevent
    obtain ⟨hmem, hafter, hevents⟩ := mem_events.1 hevent
    obtain ⟨hmem, hnot⟩ := List.mem_filter.1 hmem
    exact h.handled event (mem_events.2 ⟨hmem, hafter, hevents⟩) (by simpa using hnot)
  unfold fetch
  cases hpage : fetchPage config s.ledger cursor with
  | nil =>
    have tip : s.ledger.transactions.filter (fun tx => After cursor tx.pagingToken) = [] := by
      rcases List.take_eq_nil_iff.1 hpage with hzero | hnil
      · exact absurd hzero config.chunkSize_pos.ne'
      · exact hnil
    rw [tip, List.append_nil] at split
    refine ⟨le_rfl, ?_⟩
    rw [List.take_length]
    exact split ▸ behind
  | cons tx rest =>
    have inPage : ∀ tx' ∈ tx :: rest, After s.start tx'.pagingToken = true := by
      intro tx' htx'
      rw [← hpage] at htx'
      exact after_of_anchored h (List.mem_filter.1 (List.mem_of_mem_take htx')).2
    obtain ⟨last, hlast⟩ : ∃ last, (tx :: rest).getLast? = some last :=
      ⟨_, List.getLast?_eq_some_getLast (List.cons_ne_nil tx rest)⟩
    have pages := List.take_append_drop config.chunkSize
      (s.ledger.transactions.filter fun tx => After cursor tx.pagingToken)
    rw [show List.take _ _ = tx :: rest from hpage] at pages
    refine ⟨_, (s.ledger.transactions.filter fun tx => After cursor tx.pagingToken).drop
      config.chunkSize, last, ?_, behind, hlast, ?_, inPage last (List.mem_of_getLast? hlast),
      inPage, ?_⟩
    · rw [List.append_assoc, pages]
      exact split
    · rw [List.getLast?_append_of_ne_nil _ (List.cons_ne_nil tx rest), hlast]
    · intro hshort
      have whole : s.ledger.transactions.filter (fun tx => After cursor tx.pagingToken) =
          tx :: rest := by
        rw [← hpage, fetchPage, List.take_of_length_le]
        rw [← hpage, fetchPage, List.length_take] at hshort
        omega
      rw [← whole, ← split]

theorem Position.next {s : State C E} {tx : Transaction C E} {rest page : List (Transaction C E)}
    {seen : ℕ} (h : Position config s (tx :: rest) page seen)
    (handled : ∀ operation ∈ tx.events config, (tx, operation) ∈ s.handled) :
    Position config s rest page seen := by
  obtain ⟨before, after, last, splits⟩ := h
  have move : before ++ (tx :: rest) = before ++ [tx] ++ rest := by simp
  refine ⟨before ++ [tx], after, last, ?_, ?_, splits.page_last, move ▸ splits.ledger_last,
    splits.last_after, fun tx' htx' => splits.rest_after tx' (List.mem_cons_of_mem _ htx'),
    move ▸ splits.short⟩
  · rw [← move]
    exact splits.ledger
  · refine Handled.append.2 ⟨splits.handled, ?_⟩
    rintro ⟨tx', operation⟩ hevent
    obtain ⟨hmem, -, hoperation⟩ := mem_events.1 hevent
    obtain rfl : tx' = tx := List.mem_singleton.1 hmem
    exact handled operation hoperation

theorem nextTransaction_sound {s : State C E} {rest page : List (Transaction C E)} {seen : ℕ}
    (h : Position config s rest page seen) (result : LedgerEventSyncResult) :
    (nextTransaction rest page seen result).Sound config s := by
  cases rest <;> exact h

theorem nextOperation_sound {s : State C E} (hs : s.Sound config) {tx : Transaction C E}
    {rest page : List (Transaction C E)} {seen : ℕ} (h : Position config s (tx :: rest) page seen)
    {before operations : List (Operation C E)} (split : tx.fetched config = before ++ operations)
    (handled : ∀ operation ∈ before, (tx, operation) ∈ s.handled)
    (result : LedgerEventSyncResult) :
    (nextOperation tx operations rest page seen result).Sound config s := by
  cases operations with
  | cons operation operations => exact ⟨h, before, split, handled⟩
  | nil =>
    refine nextTransaction_sound (h.next ?_) _
    obtain ⟨before', after, last, splits⟩ := h
    have hmem : tx ∈ s.ledger.transactions := by
      rw [splits.ledger]
      simp
    have complete := (hs.firstPages tx hmem
      (splits.rest_after tx List.mem_cons_self)).fetched_eq
    rw [← complete, split, List.append_nil]
    exact handled

/-! ## Steps -/

theorem FirstPart.extend {α : Type} {delivered all : List α} (h : FirstPart delivered all)
    (more : List α) : FirstPart delivered (all ++ more) := by
  obtain ⟨n, hn, hmem⟩ := h
  refine ⟨n, by rw [List.length_append]; omega, fun a => ?_⟩
  rw [hmem, List.take_append_of_le_length hn]

/-- The next delivery, or one that is repeated. -/
theorem FirstPart.deliver {α : Type} {delivered all : List α} (h : FirstPart delivered all)
    {before after : List α} {a : α} (split : all = before ++ a :: after)
    (earlier : ∀ b ∈ before, b ∈ delivered) : FirstPart (delivered ++ [a]) all := by
  obtain ⟨n, hn, hmem⟩ := h
  rcases Nat.lt_or_ge before.length n with hlt | hge
  · refine ⟨n, hn, fun b => ?_⟩
    have again : a ∈ all.take n := by
      refine List.mem_take_iff_getElem.2 ⟨before.length, ?_, ?_⟩
      · omega
      · simp [split]
    rw [List.mem_append, List.mem_singleton, hmem]
    constructor
    · rintro (hb | rfl)
      · exact hb
      · exact again
    · exact Or.inl
  · have first : all.take (before.length + 1) = before ++ [a] := by
      rw [split, List.take_append, List.take_of_length_le (by omega)]
      simp
    refine ⟨before.length + 1, by simp [split], fun b => ?_⟩
    rw [first, List.mem_append, List.mem_append]
    constructor
    · rintro (hb | hb)
      · left
        have inside := (hmem b).1 hb
        rw [split, List.take_append_of_le_length hge] at inside
        exact List.mem_of_mem_take inside
      · exact Or.inr hb
    · rintro (hb | hb)
      · exact Or.inl (earlier b hb)
      · exact Or.inr hb

structure State.Extends (s' s : State C E) : Prop where
  start : s'.start = s.start
  ledger : ∃ new, s'.ledger.transactions = s.ledger.transactions ++ new
  handled : s.handled ⊆ s'.handled

omit [DecidableEq C] in
theorem State.Extends.refl (s : State C E) : s.Extends s :=
  ⟨rfl, ⟨[], (List.append_nil _).symm⟩, fun _ hmem => hmem⟩

omit [DecidableEq C] in
theorem save_extends (s : State C E) (page : List (Transaction C E)) :
    (s.save page).Extends s :=
  ⟨rfl, ⟨[], (List.append_nil _).symm⟩, fun _ hmem => hmem⟩

omit [DecidableEq C] in
theorem handle_extends (s : State C E) (event : Transaction C E × Operation C E) :
    State.Extends { s with handled := s.handled ++ [event] } s :=
  ⟨rfl, ⟨[], (List.append_nil _).symm⟩, List.subset_append_left _ _⟩

variable {s s' : State C E}

theorem Handled.mono {transactions : List (Transaction C E)} (h : Handled config s transactions)
    (extends_ : s'.Extends s) : Handled config s' transactions := by
  intro event hevent
  rw [extends_.start] at hevent
  exact extends_.handled (h event hevent)

theorem Position.mono {rest page : List (Transaction C E)} {seen : ℕ}
    (h : Position config s rest page seen) (extends_ : s'.Extends s) :
    Position config s' rest page seen := by
  obtain ⟨before, after, last, splits⟩ := h
  obtain ⟨new, hnew⟩ := extends_.ledger
  refine ⟨before, after ++ new, last, ?_, splits.handled.mono extends_, splits.page_last,
    splits.ledger_last, ?_, ?_, splits.short⟩
  · rw [hnew, splits.ledger, List.append_assoc, List.append_assoc]
  · rw [extends_.start]
    exact splits.last_after
  · rw [extends_.start]
    exact splits.rest_after

/-- A transaction that a cursor leaves behind does not come later. -/
theorem Good.mono {cursor : Option ℕ} (h : Good config s cursor) (extends_ : s'.Extends s) :
    Good config s' cursor := by
  obtain ⟨new, hnew⟩ := extends_.ledger
  refine ⟨?_, ?_⟩
  · intro event hevent hbehind
    rw [extends_.start, hnew, events_append] at hevent
    rcases List.mem_append.1 hevent with hevent | hevent
    · exact extends_.handled (h.handled event hevent hbehind)
    · obtain ⟨hmem, hafter, -⟩ := mem_events.1 hevent
      rcases h.anchored with rfl | ⟨tx, htx, -, rfl⟩
      · rw [hafter] at hbehind
        cases hbehind
      · have sorted := s'.ledger.sorted
        rw [hnew] at sorted
        have hlt := (List.pairwise_append.1 sorted).2.2 tx htx event.1 hmem
        simp [After] at hbehind
        omega
  · rw [extends_.start, hnew]
    rcases h.anchored with hstart | ⟨tx, htx, hafter⟩
    · exact Or.inl hstart
    · exact Or.inr ⟨tx, List.mem_append_left _ htx, hafter⟩

theorem Phase.Sound.mono {phase : Phase C E} (h : phase.Sound config s)
    (extends_ : s'.Extends s) : phase.Sound config s' := by
  cases phase with
  | fetching cursor result => exact Good.mono h extends_
  | processing | saving => exact Position.mono h extends_
  | handling =>
    obtain ⟨position, before, split, handled⟩ := h
    exact ⟨position.mono extends_, before, split,
      fun operation hmem => extends_.handled (handled operation hmem)⟩
  | resolved seen result =>
    obtain ⟨new, hnew⟩ := extends_.ledger
    refine ⟨?_, ?_⟩
    · rw [hnew, List.length_append]
      exact Nat.le_add_right_of_le h.1
    · rw [hnew, List.take_append_of_le_length h.1]
      exact h.2.mono extends_
  | _ => exact trivial

/-- The cursor of a page that is done. -/
theorem Position.good {page : List (Transaction C E)} {seen : ℕ}
    (h : Position config s [] page seen) : ∃ last, page.getLast? = some last ∧
      After s.start last.pagingToken = true ∧ Good config s (some last.pagingToken) := by
  obtain ⟨before, after, last, splits⟩ := h
  have hledger := splits.ledger
  have hlast := splits.ledger_last
  rw [List.append_nil] at hledger hlast
  have inBefore : last ∈ before := List.mem_of_getLast? hlast
  refine ⟨last, splits.page_last, splits.last_after, ?_, Or.inr ⟨last, ?_, splits.last_after, rfl⟩⟩
  · intro event hevent hbehind
    rw [hledger, events_append] at hevent
    rcases List.mem_append.1 hevent with hevent | hevent
    · exact splits.handled event hevent
    · have sorted := s.ledger.sorted
      rw [hledger] at sorted
      have hlt := (List.pairwise_append.1 sorted).2.2 last inBefore event.1 (mem_events.1 hevent).1
      simp [After] at hbehind
      omega
  · rw [hledger]
    exact List.mem_append_left _ inBefore

theorem saved_sound {page : List (Transaction C E)} {seen : ℕ}
    (h : Position config s [] page seen) (result : LedgerEventSyncResult) :
    (saved config page seen result).Sound config s := by
  unfold saved
  split_ifs with hshort
  · obtain ⟨before, after, last, splits⟩ := h
    have hledger := splits.ledger
    have hseen := splits.short hshort
    rw [List.append_nil] at hledger hseen
    subst hseen
    refine ⟨?_, ?_⟩
    · rw [hledger, List.length_append]
      exact Nat.le_add_right _ _
    · rw [hledger, List.take_left]
      exact splits.handled
  · obtain ⟨last, hlast, -, good⟩ := h.good
    rw [hlast]
    exact good

theorem sound_close (h : s.Sound config) {transactions : List (Transaction C E)}
    (proper : ∀ tx ∈ transactions, After s.start tx.pagingToken → tx.OnFirstPage config) :
    State.Sound config { s with ledger := s.ledger.close transactions } ∧
      State.Extends { s with ledger := s.ledger.close transactions } s := by
  unfold Ledger.close
  split_ifs with hsorted
  · have extends_ : State.Extends { s with
        ledger := ⟨s.ledger.transactions ++ transactions, hsorted⟩ } s :=
      ⟨rfl, ⟨transactions, rfl⟩, fun _ hmem => hmem⟩
    refine ⟨⟨?_, ?_, h.good.mono extends_, h.forward, h.start⟩, extends_⟩
    · intro tx htx hafter
      rcases List.mem_append.1 htx with htx | htx
      · exact h.firstPages tx htx hafter
      · exact proper tx htx hafter
    · show FirstPart s.handled (events config s.start (s.ledger.transactions ++ transactions))
      rw [events_append]
      exact h.inOrder.extend _
  · exact ⟨h, .refl s⟩

theorem sound_handle (h : s.Sound config) {tx : Transaction C E} {operation : Operation C E}
    {operations : List (Operation C E)} {rest page : List (Transaction C E)} {seen : ℕ}
    {result : LedgerEventSyncResult}
    (hphase : (Phase.handling tx operation operations rest page seen result).Sound config s) :
    State.Sound config { s with handled := s.handled ++ [(tx, operation)] } := by
  obtain ⟨⟨before, after, last, splits⟩, done_, split, handled⟩ := hphase
  have hmem : tx ∈ s.ledger.transactions := by
    rw [splits.ledger]
    simp
  have hafter := splits.rest_after tx List.mem_cons_self
  refine ⟨h.firstPages, ?_, h.good.mono (handle_extends s _), h.forward, h.start⟩
  have order : events config s.start s.ledger.transactions =
      (events config s.start before ++ done_.map (tx, ·)) ++ (tx, operation) ::
        (operations.map (tx, ·) ++ events config s.start (rest ++ after)) := by
    have all : tx.events config = done_ ++ operation :: operations := by
      rw [← (h.firstPages tx hmem hafter).fetched_eq, split]
    rw [splits.ledger, List.append_assoc, events_append, List.cons_append]
    simp [events, hafter, all]
  refine h.inOrder.deliver order ?_
  intro event hevent
  rcases List.mem_append.1 hevent with hevent | hevent
  · exact splits.handled event hevent
  · obtain ⟨operation', hoperation, rfl⟩ := List.mem_map.1 hevent
    exact handled operation' hoperation

theorem sound_save (h : s.Sound config) {page : List (Transaction C E)} {seen : ℕ}
    (position : Position config s [] page seen)
    (proper : ∀ tx ∈ page.getLast?, ∀ c ∈ s.getEventSyncCursor, c ≤ tx.pagingToken) :
    State.Sound config (s.save page) := by
  obtain ⟨last, hlast, hafter, good⟩ := position.good
  have saved_eq : (s.save page).saved = last.pagingToken :: s.saved := by simp [State.save, hlast]
  have cursor_eq : (s.save page).getEventSyncCursor = some last.pagingToken := by
    simp [State.getEventSyncCursor, saved_eq]
  refine ⟨h.firstPages, h.inOrder, ?_, ?_, ?_⟩
  · rw [cursor_eq]
    exact good.mono (save_extends s page)
  · rw [saved_eq, List.pairwise_cons]
    refine ⟨?_, h.forward⟩
    have later := proper last hlast
    have forward := h.forward
    cases hsaved : s.saved with
    | nil => exact nofun
    | cons c saved =>
      rw [hsaved] at forward
      have hc : c ≤ last.pagingToken := later c (by simp [State.getEventSyncCursor, hsaved])
      intro c' hc'
      rcases List.mem_cons.1 hc' with rfl | hc'
      · exact hc
      · exact le_trans ((List.pairwise_cons.1 forward).1 c' hc') hc
  · intro c hc c' hc'
    rw [saved_eq] at hc'
    rcases List.mem_cons.1 hc' with rfl | hc'
    · have hstart : s.start = some c := hc
      simp only [After, hstart, Option.all_some, decide_eq_true_eq] at hafter
      exact hafter.le
    · exact h.start c hc c' hc'

variable (config) in
theorem turn_extends (answer : DbAnswer) (s : State C E) (phase : Phase C E) :
    (turn config answer s phase).1.Extends s := by
  cases phase with
  | handling tx operation operations rest page seen result =>
    simp only [turn]
    split_ifs
    · exact handle_extends s _
    · exact .refl s
  | saving page seen result =>
    simp only [turn]
    split_ifs
    · exact save_extends s page
    · exact .refl s
  | _ => exact .refl s

theorem turn_sound (h : s.Sound config) {answer : DbAnswer} {phase : Phase C E}
    (hphase : phase.Sound config s) (proper : Proper config (.turn answer) s phase) :
    (turn config answer s phase).1.Sound config ∧
      (turn config answer s phase).2.Sound config (turn config answer s phase).1 := by
  have extends_ := turn_extends config answer s phase
  cases phase with
  | starting =>
    refine ⟨h, ?_⟩
    simp only [turn]
    split_ifs
    · exact h.good
    · exact trivial
  | fetching cursor result =>
    refine ⟨h, ?_⟩
    simp only [turn]
    split_ifs
    · exact fetch_sound hphase result
    · exact trivial
  | processing tx rest page seen result =>
    refine ⟨h, ?_⟩
    simp only [turn]
    split_ifs
    · exact nextOperation_sound h hphase (List.nil_append _).symm nofun result
    · exact trivial
  | handling tx operation operations rest page seen result =>
    simp only [turn] at extends_ ⊢
    split_ifs at extends_ ⊢
    · have sound := sound_handle h hphase
      obtain ⟨position, before, split, handled⟩ := hphase.mono extends_
      refine ⟨sound, nextOperation_sound sound position
        (split.trans (List.append_cons before operation operations)) ?_ result⟩
      intro operation' hmem
      rcases List.mem_append.1 hmem with hmem | hmem
      · exact handled operation' hmem
      · rw [List.mem_singleton.1 hmem]
        exact List.mem_append_right _ (List.mem_singleton_self _)
    · exact ⟨h, trivial⟩
  | saving page seen result =>
    have sound : (turn config answer s (.saving page seen result)).1.Sound config := by
      cases hexecuted : answer.executed with
      | true => simpa only [turn, hexecuted, if_true] using sound_save h hphase (proper hexecuted)
      | false => simpa only [turn, hexecuted, Bool.false_eq_true, if_false] using h
    refine ⟨sound, ?_⟩
    simp only [turn] at extends_ ⊢
    split_ifs at extends_ ⊢
    · exact (saved_sound hphase result).mono extends_
    · exact trivial
    · exact (saved_sound hphase result).mono extends_
    · exact trivial
  | _ => exact ⟨h, hphase⟩

theorem step_sound (h : s.Sound config) {input : Input C E} {phase : Phase C E}
    (hphase : phase.Sound config s) (proper : Proper config input s phase) :
    ((step config input s phase).1.Sound config ∧
      (step config input s phase).2.Sound config (step config input s phase).1) ∧
      (step config input s phase).1.Extends s := by
  have same := State.Extends.refl s
  cases input with
  | close transactions =>
    have onFirstPages : ∀ tx ∈ transactions, After s.start tx.pagingToken →
        tx.OnFirstPage config := by
      cases phase <;> exact proper
    obtain ⟨sound, extends_⟩ := sound_close h onFirstPages
    exact ⟨⟨sound, hphase.mono extends_⟩, extends_⟩
  | poll =>
    refine ⟨⟨h, ?_⟩, same⟩
    cases phase <;> first | exact hphase | exact trivial
  | turn answer => exact ⟨turn_sound h hphase proper, turn_extends config answer s phase⟩
  | crash => exact ⟨⟨h, trivial⟩, same⟩

end MobileMoney.EventSync
