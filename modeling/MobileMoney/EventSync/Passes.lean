import Mathlib.Logic.Relation
import MobileMoney.EventSync.Delivery

/-!
# Passes that are left alone

A pass that no other turn comes between, and whose requests and statements are answered, goes on to
the end of the ledger.
-/

namespace MobileMoney.EventSync

open Interleaving
open Relation (ReflTransGen)

variable {C E ι : Type} [DecidableEq C] {config : Config C}

variable (config) in
/-- An answered turn of a pass. -/
def Undisturbed (x y : State C E × Phase C E) : Prop :=
  Proper config (.turn .answered) x.1 x.2 ∧ y = turn config .answered x.1 x.2

/-- A pass changes neither the ledger nor, before its page is done, the cursor. -/
structure State.Keeps (s' s : State C E) : Prop where
  ledger : s'.ledger = s.ledger
  saved : s'.saved = s.saved
  start : s'.start = s.start

omit [DecidableEq C] in
theorem State.Keeps.refl (s : State C E) : s.Keeps s := ⟨rfl, rfl, rfl⟩

omit [DecidableEq C] in
theorem State.Keeps.trans {s'' s' s : State C E} (h : s''.Keeps s') (h' : s'.Keeps s) :
    s''.Keeps s :=
  ⟨h.ledger.trans h'.ledger, h.saved.trans h'.saved, h.start.trans h'.start⟩

variable (config) in
theorem operations_run (tx : Transaction C E) (operations : List (Operation C E))
    (rest page : List (Transaction C E)) (seen : ℕ) (result : LedgerEventSyncResult)
    (s : State C E) : ∃ s' : State C E, s'.Keeps s ∧
      ReflTransGen (Undisturbed config) (s, nextOperation tx operations rest page seen result)
        (s', nextTransaction rest page seen result.processed) := by
  induction operations generalizing s with
  | nil => exact ⟨s, .refl s, .refl⟩
  | cons operation operations ih =>
    obtain ⟨s', keeps, run⟩ := ih { s with handled := s.handled ++ [(tx, operation)] }
    exact ⟨s', keeps.trans ⟨rfl, rfl, rfl⟩, .head ⟨trivial, rfl⟩ run⟩

variable (config) in
theorem page_run (rest page : List (Transaction C E)) (seen : ℕ) (result : LedgerEventSyncResult)
    (s : State C E) : ∃ (s' : State C E) (result' : LedgerEventSyncResult), s'.Keeps s ∧
      ReflTransGen (Undisturbed config) (s, nextTransaction rest page seen result)
        (s', .saving page seen result') := by
  induction rest generalizing s result with
  | nil => exact ⟨s, result, .refl s, .refl⟩
  | cons tx rest ih =>
    obtain ⟨s₁, keeps₁, run₁⟩ :=
      operations_run config tx (tx.fetched config) rest page seen result s
    obtain ⟨s₂, result', keeps₂, run₂⟩ := ih result.processed s₁
    exact ⟨s₂, result', keeps₂.trans keeps₁, .head ⟨trivial, rfl⟩ (run₁.trans run₂)⟩

/-- The transactions that a cursor leaves to be processed. -/
def remaining (ledger : Ledger C E) (cursor : Option ℕ) : ℕ :=
  (ledger.transactions.filter fun tx => After cursor tx.pagingToken).length

omit [DecidableEq C] in
theorem remaining_lt {ledger : Ledger C E} {cursor : Option ℕ} {tx : Transaction C E}
    (hmem : tx ∈ ledger.transactions) (hafter : After cursor tx.pagingToken = true) :
    remaining ledger (some tx.pagingToken) < remaining ledger cursor := by
  have fewer : ledger.transactions.filter (fun tx' => After (some tx.pagingToken) tx'.pagingToken) =
      (ledger.transactions.filter fun tx' => After cursor tx'.pagingToken).filter
        fun tx' => After (some tx.pagingToken) tx'.pagingToken := by
    rw [List.filter_filter]
    apply List.filter_congr
    intro tx' _
    cases cursor with
    | none => simp [After]
    | some c =>
      simp only [After, Option.all_some, decide_eq_true_eq] at hafter ⊢
      grind
  rw [remaining, fewer, remaining]
  refine List.length_filter_lt_length_iff_exists.2 ⟨tx, List.mem_filter.2 ⟨hmem, hafter⟩, ?_⟩
  simp [After]

variable (config) in
theorem pass_run (s : State C E) (cursor : Option ℕ) (result : LedgerEventSyncResult)
    (hcursor : s.getEventSyncCursor = cursor) :
    ∃ (s' : State C E) (result' : LedgerEventSyncResult), s'.ledger = s.ledger ∧
      ReflTransGen (Undisturbed config) (s, .fetching cursor result)
        (s', .resolved s.ledger.transactions.length result') := by
  induction hleft : remaining s.ledger cursor using Nat.strong_induction_on
    generalizing s cursor result with
  | h left ih =>
    have first : Undisturbed config (s, .fetching cursor result)
        (s, fetch config s cursor result) := ⟨trivial, rfl⟩
    cases hpage : fetchPage config s.ledger cursor with
    | nil =>
      refine ⟨s, result, rfl, .single ?_⟩
      simpa only [fetch, hpage] using first
    | cons tx rest =>
      have begins : fetch config s cursor result =
          nextTransaction (tx :: rest) (tx :: rest) s.ledger.transactions.length result := by
        simp only [fetch, hpage, nextTransaction]
      rw [begins] at first
      obtain ⟨last, hlast⟩ : ∃ last, (tx :: rest).getLast? = some last :=
        ⟨_, List.getLast?_eq_some_getLast (List.cons_ne_nil tx rest)⟩
      have inPage := List.mem_of_getLast? hlast
      rw [← hpage] at inPage
      obtain ⟨hmem, hafter⟩ := List.mem_filter.1 (List.mem_of_mem_take inPage)
      obtain ⟨s₁, result₁, keeps, run⟩ :=
        page_run config (tx :: rest) (tx :: rest) s.ledger.transactions.length result s
      have forward : Proper config (.turn .answered) s₁
          (.saving (tx :: rest) s.ledger.transactions.length result₁) := by
        intro _ tx' htx' c hc
        obtain rfl : last = tx' := Option.some.inj (hlast.symm.trans htx')
        have same : s₁.getEventSyncCursor = cursor := by
          rw [State.getEventSyncCursor, keeps.saved, keeps.start]
          exact hcursor
        rw [same] at hc
        obtain rfl := Option.mem_def.1 hc
        simp only [After, Option.all_some, decide_eq_true_eq] at hafter
        exact hafter.le
      have saves : Undisturbed config
          (s₁, .saving (tx :: rest) s.ledger.transactions.length result₁)
          (s₁.save (tx :: rest),
            saved config (tx :: rest) s.ledger.transactions.length result₁) := ⟨forward, rfl⟩
      have whole := (ReflTransGen.head first run).tail saves
      by_cases hshort : (tx :: rest).length < config.chunkSize
      · refine ⟨s₁.save (tx :: rest), { result₁ with pages := result₁.pages + 1 }, keeps.ledger, ?_⟩
        simpa only [saved, if_pos hshort] using whole
      · have ledger_eq : (s₁.save (tx :: rest)).ledger = s.ledger := keeps.ledger
        have fewer := remaining_lt hmem hafter
        rw [hleft] at fewer
        obtain ⟨s₂, result₂, hledger, run₂⟩ := ih _ fewer (s₁.save (tx :: rest))
          (some last.pagingToken) { result₁ with pages := result₁.pages + 1 }
          (by simp [State.getEventSyncCursor, State.save, hlast]) (by rw [ledger_eq])
        rw [ledger_eq] at run₂ hledger
        refine ⟨s₂, result₂, hledger, ?_⟩
        simp only [saved, if_neg hshort, hlast, Option.map_some] at whole
        exact whole.trans run₂

/-! ## Runs -/

variable [DecidableEq ι]

/-- The turns of one pass in a world. -/
theorem schedule_of_run {x y : State C E × Phase C E} (h : ReflTransGen (Undisturbed config) x y)
    {w : World C E ι} {i : ι} (hshared : w.shared = x.1) (hlocal : w.locals i = x.2) :
    ∃ n, Runs.Every (advance (step config))
        (fun w turn => Proper config turn.2 w.shared (w.locals turn.1)) w
        (List.replicate n (i, .turn .answered)) ∧
      (run (step config) w (List.replicate n (i, .turn .answered))).shared = y.1 ∧
      (run (step config) w (List.replicate n (i, .turn .answered))).locals i = y.2 := by
  induction h using ReflTransGen.head_induction_on generalizing w with
  | refl => exact ⟨0, trivial, hshared, hlocal⟩
  | head hstep _ ih =>
    obtain ⟨proper, rfl⟩ := hstep
    obtain ⟨n, every, hs, hl⟩ := ih (w := advance (step config) w (i, .turn .answered))
      (by rw [advance_shared, hshared, hlocal]; rfl)
      (by rw [advance_self, hshared, hlocal]; rfl)
    refine ⟨n + 1, ⟨?_, every⟩, hs, hl⟩
    rw [← hshared, ← hlocal] at proper
    exact proper

def Phase.AtRest : Phase C E → Bool
  | .idle | .resolved _ _ | .rejected => true
  | _ => false

variable (config) in
/-- A pass that resolves has left nothing out that was in the ledger when it fetched its last page,
and a pass that is left alone resolves. -/
structure Delivers (w : World C E ι) : Prop where
  lawful : Lawful config w.shared
  resolved : ∀ i seen result, w.locals i = .resolved seen result →
    Handled config w.shared (w.shared.ledger.transactions.take seen)
  alone : ∀ i, (w.locals i).AtRest → ∃ n,
    let w' := run (step config) w ((i, .poll) :: List.replicate n (i, .turn .answered))
    w'.shared.ledger = w.shared.ledger ∧ Handled config w'.shared w.shared.ledger.transactions

def Sound (config : Config C) (w : World C E ι) : Prop :=
  Holds (State.Sound config) (fun s phase => phase.Sound config s) w

omit [DecidableEq ι] in
variable (config) in
theorem sound_init (start : Option ℕ) : Sound config (World.init start : World C E ι) := by
  refine ⟨⟨nofun, ⟨0, le_rfl, by simp [World.init]⟩, ⟨nofun, Or.inl rfl⟩, List.Pairwise.nil, ?_⟩,
    fun _ => trivial⟩
  intro _ _ _ hmem
  cases hmem

theorem sound_run {w : World C E ι} (h : Sound config w) {schedule : List (ι × Input C E)}
    (proper : Runs.Every (advance (step config))
      (fun w turn => Proper config turn.2 w.shared (w.locals turn.1)) w schedule) :
    Sound config (run (step config) w schedule) := by
  apply inv_run_of_every _ _ h proper
  intro w turn hw hturn
  obtain ⟨own, extends_⟩ := step_sound hw.1 (hw.2 turn.1) hturn
  exact holds_advance hw own fun phase hphase => hphase.mono extends_

omit [DecidableEq ι] in
theorem State.Sound.lawful {s : State C E} (h : s.Sound config) : Lawful config s :=
  ⟨h.inOrder, h.good.handled, h.forward, h.start⟩

theorem Sound.alone {w : World C E ι} (h : Sound config w) {i : ι}
    (hrest : (w.locals i).AtRest = true) : ∃ n,
    let w' := run (step config) w ((i, .poll) :: List.replicate n (i, .turn .answered))
    w'.shared.ledger = w.shared.ledger ∧ Handled config w'.shared w.shared.ledger.transactions := by
  have polled : (advance (step config) w (i, .poll)).locals i = .starting := by
    rw [advance_self]
    cases hphase : w.locals i <;> rw [hphase] at hrest <;> first | rfl | cases hrest
  obtain ⟨s', result, hledger, run_⟩ := pass_run config w.shared _ ⟨0, 0⟩ rfl
  have first : Undisturbed config (w.shared, .starting)
      (w.shared, .fetching w.shared.getEventSyncCursor ⟨0, 0⟩) := ⟨trivial, rfl⟩
  obtain ⟨n, every, hshared, hlocal⟩ := schedule_of_run (run_.head first)
    (w := advance (step config) w (i, .poll)) rfl polled
  have proper : Runs.Every (advance (step config))
      (fun w turn => Proper config turn.2 w.shared (w.locals turn.1)) w
      ((i, .poll) :: List.replicate n (i, .turn .answered)) :=
    ⟨by cases w.locals i <;> trivial, every⟩
  have sound := sound_run h proper
  refine ⟨n, ?_, ?_⟩
  · rw [run_cons, hshared]
    exact hledger
  · have resolved := sound.2 i
    rw [run_cons, hlocal] at resolved
    have handled := resolved.2
    rw [hshared, hledger, List.take_length, ← hshared] at handled
    exact handled

/-- In a run in which no event is missing on the first page of its transaction and no cursor is
saved over a later one, events are handled in order and none is left behind. -/
theorem events_delivered (config : Config C) (start : Option ℕ) {schedule : List (ι × Input C E)}
    (proper : Runs.Every (advance (step config))
      (fun w turn => Proper config turn.2 w.shared (w.locals turn.1))
      (World.init start : World C E ι) schedule) {pre : List (ι × Input C E)}
    (h : pre <+: schedule) : Delivers config (run (step config) (World.init start) pre) := by
  have sound := sound_run (sound_init config start) (proper.of_prefix h)
  refine ⟨sound.1.lawful, ?_, fun i hrest => sound.alone hrest⟩
  intro i seen result hphase
  have resolved := sound.2 i
  rw [hphase] at resolved
  exact resolved.2

/-- Transactions of the contract 1, with a page of ten operations. -/
def escrowConfig (chunkSize : ℕ) : Config ℕ := .init 1 (some chunkSize) 10

def eventOf (contract value : ℕ) : Operation ℕ ℕ := ⟨true, contract, value⟩

def escrowLedger : List (Transaction ℕ ℕ) :=
  [⟨5, [eventOf 1 50, eventOf 2 51]⟩, ⟨6, [eventOf 1 60]⟩]

/-- Two passes of two processes, the second of which starts while the first one is handling. -/
theorem overlapping_passes_deliver :
    let schedule : List (ℕ × Input ℕ ℕ) := [(0, Input.close escrowLedger), (0, Input.poll)] ++
      List.replicate 3 (0, Input.turn .answered) ++ [(1, Input.poll)] ++
      List.replicate 4 (0, Input.turn .answered) ++ List.replicate 3 (1, Input.turn .answered)
    let w : World ℕ ℕ ℕ := run (step (escrowConfig 200)) (World.init none) schedule
    w.shared.saved = [6] ∧ w.shared.handled.map (·.2.value) = [50, 60] ∧
      Delivers (escrowConfig 200) w :=
  ⟨by decide +kernel, by decide +kernel,
    events_delivered (escrowConfig 200) none (by decide +kernel) List.prefix_rfl⟩

/-- The eleventh operation of a transaction is never fetched, and the pass saves the cursor. A pass
that is overtaken by another one before it saves its cursor takes the cursor back. -/
theorem cursor_passes_event :
    ¬ Delivers (escrowConfig 200) (run (step (escrowConfig 200)) (World.init none : World ℕ ℕ ℕ)
      ([(0, Input.close [⟨5, List.replicate 10 (eventOf 2 51) ++ [eventOf 1 50]⟩]),
        (0, Input.poll)] ++ List.replicate 4 (0, Input.turn .answered))) ∧
    ¬ Delivers (escrowConfig 1) (run (step (escrowConfig 1)) (World.init none : World ℕ ℕ ℕ)
      ([(0, Input.close escrowLedger), (0, Input.poll)] ++
        List.replicate 4 (0, Input.turn .answered) ++ [(1, Input.poll)] ++
        List.replicate 10 (1, Input.turn .answered) ++ [(0, Input.turn .answered)])) := by
  constructor
  · intro delivers
    have handled := delivers.lawful.complete
      (⟨5, List.replicate 10 (eventOf 2 51) ++ [eventOf 1 50]⟩, eventOf 1 50)
      (by decide +kernel) (by decide +kernel)
    exact absurd handled (by decide +kernel)
  · intro delivers
    exact absurd delivers.lawful.forward.1 (by decide +kernel)

end MobileMoney.EventSync
