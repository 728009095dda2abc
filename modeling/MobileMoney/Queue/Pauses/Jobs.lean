import MobileMoney.Library.Ownership
import MobileMoney.Queue.Pauses.Wakeups

/-!
# Jobs of paused providers

A job is held, or it is in the main queue and no worker has passed it on yet. A move puts it into
the main queue before it removes the held one, and a diversion holds it before its worker returns.
Only where the two meet is it left nowhere: the hold queue ignores the id that the drain is going
to remove.
-/

namespace MobileMoney.Queue.Pauses

open Interleaving

variable {T ι : Type}

/-! ## Workers and their jobs -/

def Caller.job : Caller T → Option (JobId T)
  | .worker id => some id
  | .enqueue | .resume => none

/-- The job that a worker has taken, and whether it has been passed on. -/
def Phase.job : Phase T → Option (JobId T × Bool)
  | .checking id | .diverting id => some (id, false)
  | .processing id | .returning id => some (id, true)
  | .held caller | .releasing caller | .locking caller | .draining caller _ | .fetching caller _
  | .finding caller _ _ _ | .examining caller _ _ _ | .clearing caller _ _ _
  | .moving caller _ _ _ _ | .removing caller _ _ _ | .unlocking caller _
  | .recheckingPaused caller | .recheckingCount caller => caller.job.map (·, true)
  | .idle | .dispatching _ | .adding _ | .holding _ | .pausing | .resuming => none

theorem after_job (caller : Caller T) : caller.after.job = caller.job.map (·, true) := by
  cases caller <;> rfl

theorem nextJob_job (caller : Caller T) (token : ℕ) (rest : List (JobId T)) :
    (Phase.nextJob caller token rest).job = caller.job.map (·, true) := by
  cases rest <;> rfl

/-- What becomes of a main job in one turn: its state, and how far the worker that takes the turn
has come with it. A waiting job can be cleared away only if `cleared`, and `passedOn` comes with
passing a job on. -/
inductive Fate (cleared passedOn : Prop) :
    Option JobState → Option Bool → Option JobState → Option Bool → Prop where
  | same (state mine) : Fate cleared passedOn state mine state mine
  | queued (mine) : Fate cleared passedOn none mine (some .waiting) mine
  | taken : Fate cleared passedOn (some .waiting) none (some (.active false)) (some false)
  | passed (state) (h : passedOn) :
    Fate cleared passedOn state (some false) (state.map fun _ => .active true) (some true)
  | released (state next) (h : next = .waiting ∨ next = .finished) :
    Fate cleared passedOn state (some true) (state.map fun _ => next) none
  | expired (mine) : Fate cleared passedOn (some .finished) mine none mine
  | removed (mine) (h : cleared) : Fate cleared passedOn (some .waiting) mine none mine

/-- No worker has passed the job on. -/
def JobState.Open (state : JobState) : Prop := state = .waiting ∨ state = .active false

instance (state : JobState) : Decidable state.Open :=
  inferInstanceAs (Decidable (_ ∨ _))

section Fates

variable {cleared passedOn : Prop} {before after : Option JobState} {mine : Option Bool}

/-- A job that no worker has taken up to now. -/
theorem Fate.of_inactive (h : Fate cleared passedOn before none after mine)
    (hbefore : ∀ b, before ≠ some (.active b)) :
    (mine = none ∧ ∀ b, after ≠ some (.active b)) ∨
      mine = some false ∧ after = some (.active false) := by
  cases h with
  | taken => exact Or.inr ⟨rfl, rfl⟩
  | same => exact Or.inl ⟨rfl, hbefore⟩
  | queued => exact Or.inl ⟨rfl, by simp⟩
  | expired => exact Or.inl ⟨rfl, by simp⟩
  | removed => exact Or.inl ⟨rfl, by simp⟩

theorem Fate.of_mine {b : Bool}
    (h : Fate cleared passedOn (some (.active b)) (some b) after mine) :
    (∃ b', mine = some b' ∧ after = some (.active b')) ∨
      mine = none ∧ ∀ b', after ≠ some (.active b') := by
  cases h with
  | same => exact Or.inl ⟨b, rfl, rfl⟩
  | passed => exact Or.inl ⟨true, rfl, rfl⟩
  | released _ next hnext =>
    refine Or.inr ⟨rfl, ?_⟩
    rcases hnext with rfl | rfl <;> simp

/-- A job that another worker has taken. -/
theorem Fate.of_other {b : Bool} (h : Fate cleared passedOn (some (.active b)) none after mine) :
    mine = none ∧ after = some (.active b) := by
  cases h with
  | same => exact ⟨rfl, rfl⟩

theorem Fate.of_open {state : JobState} {mine' : Option Bool}
    (h : Fate cleared passedOn (some state) mine after mine') (hopen : state.Open)
    (hmine : mine ≠ some true) :
    (∃ state', after = some state' ∧ state'.Open) ∨ passedOn ∨ cleared ∧ state = .waiting := by
  cases h with
  | same => exact Or.inl ⟨state, rfl, hopen⟩
  | taken => exact Or.inl ⟨.active false, rfl, Or.inr rfl⟩
  | passed _ hpassed => exact Or.inr (Or.inl hpassed)
  | released => exact absurd rfl hmine
  | expired => exact absurd hopen (by decide)
  | removed _ hcleared => exact Or.inr (Or.inr ⟨hcleared, rfl⟩)

theorem Fate.of_finished (h : Fate cleared passedOn (some .finished) none after mine) :
    after = some .finished ∨ after = none := by
  cases h with
  | same => exact Or.inl rfl
  | expired => exact Or.inr rfl

/-- A job that comes into the main queue waits there. -/
theorem Fate.of_none {mine' : Option Bool} (h : Fate cleared passedOn none mine after mine') :
    after = none ∨ after = some .waiting := by
  cases h with
  | same => exact Or.inl rfl
  | queued => exact Or.inr rfl
  | passed => exact Or.inl rfl
  | released => exact Or.inl rfl

end Fates

section Turns

variable [DecidableEq T]

/-- How far a worker has come with a job. -/
def Phase.stage (phase : Phase T) (id : JobId T) : Option Bool :=
  (phase.job.filter (·.1 = id)).map (·.2)

/-- The held job that is about to be removed. -/
def Phase.removes : Phase T → Option (JobId T)
  | .removing _ _ job _ => some job
  | _ => none

/-- The main job that is about to be removed. -/
def Phase.clears : Phase T → Option (JobId T)
  | .clearing _ _ job _ => some job
  | _ => none

/-- The input lets a command be executed. -/
def Input.Executes : Input T → Prop
  | .turn answer => answer.executed = true
  | _ => False

instance (input : Input T) : Decidable input.Executes := by
  cases input <;> unfold Input.Executes <;> infer_instance

/-! ## The state of a job -/

theorem state_addMain (s : State T) (id id' : JobId T) :
    (s.addMain id).state id' =
      if id' = id ∧ s.state id = none then some .waiting else s.state id' := by
  unfold State.state State.addMain
  cases hfound : s.main.find? id with
  | none =>
    rw [Keyed.find?_insert (a := (⟨id, .waiting⟩ : MainJob T)) hfound]
    by_cases hid : id' = id <;> simp [hid]
  | some job =>
    rw [Keyed.insert_of_found (a := (⟨id, .waiting⟩ : MainJob T)) hfound, if_neg]
    simp

theorem state_setState (s : State T) (id id' : JobId T) (state : JobState) :
    (s.setState id state).state id' =
      if id' = id then (s.state id).map fun _ => state else s.state id' := by
  unfold State.state State.setState
  by_cases hid : id' = id
  · subst hid
    rw [if_pos rfl, Keyed.find?_modify_self, Option.map_map, Option.map_map]
    rfl
  · rw [if_neg hid, Keyed.find?_modify_of_ne _ hid]

theorem state_erase (s : State T) (id id' : JobId T) :
    ({ s with main := s.main.erase id } : State T).state id' =
      if id' = id then none else s.state id' := by
  unfold State.state
  by_cases hid : id' = id
  · rw [if_pos hid, hid, Keyed.find?_erase_self]
    rfl
  · rw [if_neg hid, Keyed.find?_erase_of_ne hid]

/-! ## What a turn does to a job -/

theorem fate_of_same {cleared passedOn : Prop} {s s' : State T} {phase phase' : Phase T}
    {id : JobId T} (hstate : s'.state id = s.state id) (hjob : phase'.job = phase.job) :
    Fate cleared passedOn (s.state id) (phase.stage id) (s'.state id) (phase'.stage id) := by
  unfold Phase.stage
  rw [hstate, hjob]
  exact .same _ _

theorem fate_addMain {cleared passedOn : Prop} (s : State T) {phase phase' : Phase T}
    (id id' : JobId T) (hjob : phase'.job = phase.job) :
    Fate cleared passedOn (s.state id') (phase.stage id') ((s.addMain id).state id')
      (phase'.stage id') := by
  unfold Phase.stage
  rw [hjob, state_addMain]
  split_ifs with hnew
  · rw [hnew.1, hnew.2]
    exact .queued _
  · exact .same _ _

theorem stage_of_job {phase : Phase T} {job : JobId T} {mine : Option Bool}
    (h : phase.job = mine.map (job, ·)) (id : JobId T) :
    phase.stage id = if id = job then mine else none := by
  unfold Phase.stage
  rw [h]
  by_cases hid : id = job
  · cases mine <;> simp [hid]
  · cases mine <;> simp [hid, Ne.symm hid]

/-- The turn of a worker on its job. -/
theorem fate_setState {cleared passedOn : Prop} (s : State T) {phase phase' : Phase T}
    (job id : JobId T) (state : JobState) (mine mine' : Option Bool)
    (hbefore : phase.job = mine.map (job, ·)) (hafter : phase'.job = mine'.map (job, ·))
    (own : id = job → Fate cleared passedOn (s.state job) mine
      ((s.state job).map fun _ => state) mine') :
    Fate cleared passedOn (s.state id) (phase.stage id) ((s.setState job state).state id)
      (phase'.stage id) := by
  rw [state_setState, stage_of_job hbefore, stage_of_job hafter]
  by_cases hid : id = job
  · rw [if_pos hid, if_pos hid, if_pos hid, hid]
    exact own hid
  · rw [if_neg hid, if_neg hid, if_neg hid]
    exact .same _ _

/-- The id under which a turn puts a job into the hold queue. -/
def parks : Input T → Phase T → Option (JobId T)
  | .turn _, .diverting id => some id
  | .turn _, .holding t => some (.transaction t)
  | _, _ => none

/-- The turn puts the job into the hold queue, or it hands its transaction over. -/
def PassesOn (input : Input T) (s : State T) (phase : Phase T) (id : JobId T) : Prop :=
  parks input phase = some id ∧ id ∈ (step input s phase).1.hold ∨
    id.transactionId ∉ (step input s phase).1.accepted

def Clears (input : Input T) (phase : Phase T) (id : JobId T) : Prop :=
  input.Executes ∧ phase.clears = some id

theorem clear_fate (answer : DbAnswer) (s : State T) (caller : Caller T) (token : ℕ)
    (job : JobId T) (rest : List (JobId T)) (id : JobId T) :
    let phase : Phase T := .clearing caller token job rest
    Fate (Clears (.turn answer) phase id) (PassesOn (.turn answer) s phase id) (s.state id)
      (phase.stage id) ((turn answer s phase).1.state id) ((turn answer s phase).2.stage id) := by
  intro phase
  by_cases hremoved : answer.executed = true ∧ s.Removes job
  · have hshared : (turn answer s phase).1 = { s with main := s.main.erase job } := by
      simp only [phase, turn, if_pos hremoved]
    have hstage : (turn answer s phase).2.stage id = phase.stage id := rfl
    rw [hstage, hshared, state_erase]
    by_cases hid : id = job
    · subst hid
      rw [if_pos rfl]
      cases hstate : s.state id with
      | none => exact .same _ _
      | some state =>
        rcases hremoved.2 state hstate with rfl | rfl
        · exact .removed _ ⟨hremoved.1, rfl⟩
        · exact .expired _
    · rw [if_neg hid]
      exact .same _ _
  · apply fate_of_same
    · simp only [phase, turn, if_neg hremoved]
    · rfl

theorem turn_fate (answer : DbAnswer) (s : State T) (phase : Phase T) (id : JobId T) :
    Fate (Clears (.turn answer) phase id) (PassesOn (.turn answer) s phase id) (s.state id)
      (phase.stage id) ((turn answer s phase).1.state id) ((turn answer s phase).2.stage id) := by
  cases phase with
  | adding t =>
    simp only [turn]
    split_ifs
    · exact fate_addMain s (.transaction t) id rfl
    · exact fate_of_same rfl rfl
  | diverting job =>
    refine fate_setState (s.addHold job) job id (.active true) (some false) (some true) rfl rfl ?_
    rintro rfl
    refine .passed _ (Or.inl ⟨rfl, ?_⟩)
    simp only [step, turn, State.setState, State.addHold]
    split_ifs with hheld
    · exact hheld
    · simp
  | checking job =>
    simp only [turn]
    split_ifs with hpaused
    · exact fate_of_same rfl rfl
    · refine fate_setState s job id (.active true) (some false) (some true) rfl rfl ?_
      rintro rfl
      refine .passed _ (Or.inr ?_)
      simp [step, turn, hpaused, State.hand]
  | clearing caller token job rest => exact clear_fate answer s caller token job rest id
  | moving caller token job target rest =>
    have hjob : (turn answer s (.moving caller token job target rest)).2.job =
        caller.job.map (·, true) := by
      simp only [turn]
      split_ifs <;> rfl
    simp only [turn] at hjob ⊢
    by_cases hexecuted : answer.executed = true
    · rw [if_pos hexecuted]
      exact fate_addMain s target id hjob
    · rw [if_neg hexecuted]
      exact fate_of_same rfl hjob
  | _ =>
    apply fate_of_same <;> simp only [turn]
    all_goals grind [Phase.job, Caller.job, after_job, nextJob_job, State.state, State.addHold,
      State.accept, State.removeHold]

omit [DecidableEq T] in
theorem start_job (phase next : Phase T) (h : next.job = none) :
    (phase.start next).job = phase.job := by
  cases phase with
  | idle => exact h
  | _ => rfl

theorem step_fate (input : Input T) (s : State T) (phase : Phase T) (id : JobId T) :
    Fate (Clears input phase id) (PassesOn input s phase id) (s.state id)
      (phase.stage id) ((step input s phase).1.state id) ((step input s phase).2.stage id) := by
  cases input with
  | turn answer => exact turn_fate answer s phase id
  | passes elapsed => exact fate_of_same rfl rfl
  | enqueue t => exact fate_of_same rfl (start_job phase _ rfl)
  | pause => exact fate_of_same rfl (start_job phase _ rfl)
  | resume => exact fate_of_same rfl (start_job phase _ rfl)
  | page jobs =>
    refine fate_of_same rfl ?_
    cases phase with
    | fetching caller token =>
      simp only [step, page]
      by_cases hpage : s.Page jobs
      · rw [if_pos hpage]
        cases jobs <;> rfl
      · rw [if_neg hpage]
    | _ => rfl
  | take job =>
    cases phase with
    | idle =>
      simp only [step, take]
      split_ifs with hwaiting
      · refine fate_setState s job id (.active false) none (some false) rfl rfl ?_
        rintro rfl
        rw [hwaiting]
        exact .taken
      · exact fate_of_same rfl rfl
    | _ => exact fate_of_same rfl rfl
  | finish retried =>
    cases phase with
    | processing job =>
      refine fate_setState s job id _ (some true) none rfl rfl fun _ => .released _ _ ?_
      cases retried
      · exact Or.inr rfl
      · exact Or.inl rfl
    | returning job =>
      exact fate_setState s job id .finished (some true) none rfl rfl
        fun _ => .released _ _ (Or.inr rfl)
    | _ => exact fate_of_same rfl rfl
  | expire job =>
    simp only [step, State.expire]
    split_ifs with hfinished
    · rw [state_erase]
      by_cases hid : id = job
      · rw [if_pos hid, hid, hfinished]
        exact .expired _
      · rw [if_neg hid]
        exact .same _ _
    · exact fate_of_same rfl rfl

/-! ## What a turn does to the hold queue -/

theorem step_hold (input : Input T) (s : State T) (phase : Phase T) {id : JobId T}
    (h : id ∈ s.hold) : id ∈ (step input s phase).1.hold ∨
      input.Executes ∧ phase.removes = some id ∧ (step input s phase).1 = s.removeHold id := by
  cases input with
  | turn answer =>
    cases phase <;> simp only [step, turn]
    all_goals grind [Phase.removes, Input.Executes, State.addMain, State.addHold, State.setState,
      State.accept, State.hand, State.removeHold]
  | take job => cases phase <;> grind [step, take, State.setState]
  | finish retried => cases phase <;> grind [step, finish, State.setState]
  | expire job => grind [step, State.expire]
  | _ => exact Or.inl h

/-- A job is accepted by the queue that has it then. -/
theorem step_accepted (input : Input T) (s : State T) (phase : Phase T) {t : T}
    (h : t ∈ (step input s phase).1.accepted) : t ∈ s.accepted ∨
      parks input phase = some (.transaction t) ∧
        .transaction t ∈ (step input s phase).1.hold ∨
      (step input s phase).1.state (.transaction t) = some .waiting := by
  cases input with
  | turn answer =>
    cases phase with
    | adding t' =>
      simp only [step, turn] at h ⊢
      split_ifs at h ⊢ with hnew
      · rcases List.mem_cons.1 h with rfl | hbefore
        · exact Or.inr (Or.inr ((state_addMain s _ _).trans (if_pos ⟨rfl, hnew⟩)))
        · exact Or.inl hbefore
      · exact Or.inl h
    | _ =>
      simp only [step, turn] at h ⊢
      grind [parks, State.addMain, State.addHold, State.setState, State.accept, State.hand,
        State.removeHold]
  | take job => cases phase <;> grind [step, take, State.setState]
  | finish retried => cases phase <;> grind [step, finish, State.setState]
  | expire job => grind [step, State.expire]
  | _ => exact Or.inl h

end Turns

/-! ## One worker for a job -/

/-- In the hands of its worker, an active job is as far as the worker has come with it. -/
def Owned [DecidableEq T] (id : JobId T) (s : State T) (phase : Phase T) : Prop :=
  ∃ passedOn, phase.stage id = some passedOn ∧ s.state id = some (.active passedOn)

def Inactive [DecidableEq T] (id : JobId T) (s : State T) : Prop :=
  ∀ passedOn, s.state id ≠ some (.active passedOn)

def Worked [DecidableEq T] (id : JobId T) (w : World T ι) : Prop :=
  Exclusive (fun phase : Phase T => phase.stage id ≠ none) (Inactive id) (Owned id) w

theorem worked_advance [DecidableEq T] [DecidableEq ι] {id : JobId T} {w : World T ι}
    (h : Worked id w) (turn : ι × Input T) : Worked id (advance step w turn) := by
  obtain ⟨k, input⟩ := turn
  have hfate := step_fate input w.shared (w.locals k) id
  apply exclusive_advance h
  · intro hfree hnot hnext
    rw [not_not.1 hnot] at hfate
    rcases hfate.of_inactive hfree with ⟨-, hinactive⟩ | ⟨htaken, -⟩
    · exact hinactive
    · rw [htaken] at hnext
      exact absurd (Option.some_ne_none _) hnext
  · intro hfree hnot hnext
    rw [not_not.1 hnot] at hfate
    rcases hfate.of_inactive hfree with ⟨hnone, -⟩ | ⟨htaken, hactive⟩
    · exact absurd hnone hnext
    · exact ⟨false, htaken, hactive⟩
  · rintro ⟨passedOn, hmine, hactive⟩
    rw [hmine, hactive] at hfate
    rcases hfate.of_mine with howned | ⟨hnone, hinactive⟩
    · exact Or.inl howned
    · exact Or.inr ⟨hinactive, not_not.2 hnone⟩
  · rintro i - ⟨passedOn, hmine, hactive⟩ hnot
    rw [not_not.1 hnot, hactive] at hfate
    obtain ⟨hnone, hsame⟩ := hfate.of_other
    exact ⟨⟨passedOn, hmine, hsame⟩, not_not.2 hnone⟩

/-! ## Moves -/

/-- The held job that a move is about to put into the main queue, and the id that it is to have
there. -/
def Phase.move : Phase T → Option (JobId T × JobId T)
  | .moving _ _ job target _ => some (job, target)
  | _ => none

/-- A job keeps its transaction when it moves. -/
def Phase.Matched (phase : Phase T) : Prop :=
  ∀ move ∈ phase.move, move.2.transactionId = move.1.transactionId

/-- The drain, if it is one, moves no job, removes none and clears none away. -/
def Phase.Plain (phase : Phase T) : Prop :=
  phase.move = none ∧ phase.removes = none ∧ phase.clears = none

/-- The drain has a job of its page in hand, whose held copy it is not about to remove. -/
def Phase.handles : Phase T → Bool
  | .finding .. | .examining .. | .clearing .. | .moving .. => true
  | _ => false

theorem after_plain (caller : Caller T) : caller.after.Plain := by
  cases caller <;> exact ⟨rfl, rfl, rfl⟩

theorem nextJob_plain (caller : Caller T) (token : ℕ) (rest : List (JobId T)) :
    (Phase.nextJob caller token rest).Plain := by
  cases rest <;> exact ⟨rfl, rfl, rfl⟩

section Moves

variable [DecidableEq T]

/-- The drain is about to remove the held job, and the main queue has the job of its move. -/
def Phase.Drops (s : State T) (phase : Phase T) (id : JobId T) : Prop :=
  phase.removes = some id ∨ ∃ move ∈ phase.move, move.1 = id ∧ s.state move.2 ≠ none

instance (s : State T) (phase : Phase T) (id : JobId T) : Decidable (phase.Drops s id) :=
  inferInstanceAs (Decidable (phase.removes = some id ∨
    ∃ move ∈ phase.move, move.1 = id ∧ s.state move.2 ≠ none))

/-- The main queue has a job of the transaction that no worker has passed on. -/
def State.Queued (s : State T) (t : T) : Prop :=
  ∃ job ∈ s.main.rows, job.id.transactionId = t ∧ job.state.Open

theorem state_of_mem {s : State T} {job : MainJob T} (h : job ∈ s.main.rows) :
    s.state job.id = some job.state := by
  unfold State.state
  rw [Keyed.find?_of_mem h]
  rfl

theorem mem_of_state {s : State T} {id : JobId T} {state : JobState}
    (h : s.state id = some state) : ⟨id, state⟩ ∈ s.main.rows := by
  obtain ⟨job, hfound, rfl⟩ := Option.map_eq_some_iff.1 h
  obtain ⟨hmem, rfl⟩ := Keyed.of_find? hfound
  exact hmem

theorem queued_of_waiting {s : State T} {id : JobId T} (h : s.state id = some .waiting) :
    s.Queued id.transactionId :=
  ⟨_, mem_of_state h, rfl, Or.inl rfl⟩

variable {input : Input T} {s : State T} {phase : Phase T} {job target : JobId T}

/-- An id that a move makes is not the one of a main job that has been passed on. -/
def Fresh (input : Input T) (s : State T) (phase : Phase T) : Prop :=
  ∀ move ∈ (step input s phase).2.move, phase.move = none → move.2 = .resumed move.1 s.now →
    ∀ state ∈ (step input s phase).1.state move.2, state.Open

instance (input : Input T) (s : State T) (phase : Phase T) : Decidable (Fresh input s phase) :=
  inferInstanceAs (Decidable (∀ move ∈ (step input s phase).2.move, _ → _ → ∀ _ ∈ _, _))

/-- Only in these phases, and only in a turn, a drain sees to a job. -/
theorem step_plain (h : ∀ answer, input = .turn answer → phase.handles = false) :
    (step input s phase).2 = phase ∨ (step input s phase).2.Plain := by
  cases input with
  | turn answer =>
    specialize h answer rfl
    cases phase with
    | finding | examining | clearing | moving => cases h
    | held caller | releasing caller | recheckingPaused caller | recheckingCount caller =>
      simp only [step, turn]
      split_ifs
      · exact Or.inr (after_plain caller)
      · exact Or.inr ⟨rfl, rfl, rfl⟩
    | locking caller =>
      simp only [step, turn]
      split_ifs
      · exact Or.inr ⟨rfl, rfl, rfl⟩
      · exact Or.inr (after_plain caller)
    | removing caller token job rest =>
      simp only [step, turn]
      split_ifs
      · exact Or.inr (nextJob_plain caller token rest)
      · exact Or.inr ⟨rfl, rfl, rfl⟩
    | dispatching | checking | draining =>
      simp only [step, turn]
      split_ifs
      · exact Or.inr ⟨rfl, rfl, rfl⟩
      · exact Or.inr ⟨rfl, rfl, rfl⟩
    | adding | holding | diverting | pausing | resuming | unlocking =>
      exact Or.inr ⟨rfl, rfl, rfl⟩
    | _ => exact Or.inl rfl
  | page jobs =>
    cases phase with
    | fetching caller token =>
      simp only [step, page]
      split_ifs
      · cases jobs <;> exact Or.inr ⟨rfl, rfl, rfl⟩
      · exact Or.inl rfl
    | _ => exact Or.inl rfl
  | take id =>
    cases phase with
    | idle =>
      simp only [step, take]
      split_ifs
      · exact Or.inr ⟨rfl, rfl, rfl⟩
      · exact Or.inl rfl
    | _ => exact Or.inl rfl
  | enqueue | pause | resume | finish => cases phase <;> first
    | exact Or.inl rfl
    | exact Or.inr ⟨rfl, rfl, rfl⟩
  | _ => exact Or.inl rfl

/-- What the drain makes of a job that the main queue has. -/
theorem turn_examining (answer : DbAnswer) (s : State T) (caller : Caller T) (token : ℕ)
    (job : JobId T) (rest : List (JobId T)) :
    (turn answer s (.examining caller token job rest)).2.Plain ∨
      (turn answer s (.examining caller token job rest)).2 = .removing caller token job rest ∧
        s.state job = some .waiting ∨
      (turn answer s (.examining caller token job rest)).2 =
        .moving caller token job (.resumed job s.now) rest ∨
      (turn answer s (.examining caller token job rest)).2 = .clearing caller token job rest ∧
        ∀ state ∈ s.state job, state = .finished := by
  simp only [turn]
  split_ifs
  · cases hstate : s.state job with
    | none => exact Or.inr (Or.inr (Or.inr ⟨rfl, by rintro state ⟨⟩⟩))
    | some before =>
      cases before with
      | waiting => exact Or.inr (Or.inl ⟨rfl, rfl⟩)
      | active passedOn => exact Or.inr (Or.inr (Or.inl rfl))
      | finished =>
        refine Or.inr (Or.inr (Or.inr ⟨rfl, ?_⟩))
        exact fun state hfinished => (Option.some.inj hfinished).symm
  · exact Or.inl ⟨rfl, rfl, rfl⟩

/-- A move begins with an id that the main queue does not have, or with a new one. -/
theorem step_move (h : (step input s phase).2.move = some (job, target)) :
    phase.move = some (job, target) ∨
      phase.move = none ∧
        (target = job ∧ (step input s phase).1.state target = none ∨
          target = .resumed job s.now) := by
  by_cases hplain : ∀ answer, input = .turn answer → phase.handles = false
  · rcases step_plain (s := s) hplain with hsame | hnext
    · exact Or.inl (hsame ▸ h)
    · rw [hnext.1] at h
      cases h
  push Not at hplain
  obtain ⟨answer, rfl, hhandles⟩ := hplain
  cases phase with
  | finding caller token job' rest =>
    simp only [step, turn] at h ⊢
    split_ifs at h with hanswer hnone
    · cases h
      exact Or.inr ⟨rfl, Or.inl ⟨rfl, hnone⟩⟩
    · cases h
    · cases h
  | examining caller token job' rest =>
    refine Or.inr ⟨rfl, Or.inr ?_⟩
    rw [step] at h
    rcases turn_examining answer s caller token job' rest with
      hnext | ⟨hnext, -⟩ | hnext | ⟨hnext, -⟩
    · rw [hnext.1] at h
      cases h
    · rw [hnext] at h
      cases h
    · rw [hnext] at h
      cases h
      rfl
    · rw [hnext] at h
      cases h
  | clearing caller token job' rest =>
    refine Or.inr ⟨rfl, ?_⟩
    simp only [step, turn, Phase.move, Option.some.injEq, Prod.mk.injEq] at h ⊢
    obtain ⟨rfl, rfl⟩ := h
    by_cases hcleared : answer = .answered ∧ s.Removes job'
    · left
      have hexecuted := DbAnswer.executed_of_answered hcleared.1
      rw [if_pos hcleared, if_pos ⟨hexecuted, hcleared.2⟩, state_erase, if_pos rfl]
      exact ⟨rfl, rfl⟩
    · right
      rw [if_neg hcleared]
  | moving caller token job' target' rest =>
    simp only [step, turn] at h
    split_ifs at h
    · cases h
    · cases h
  | _ => exact absurd rfl hhandles

/-- A held job is removed after its move, or when the main queue is seen to have it. -/
theorem step_removing (h : (step input s phase).2.removes = some job) :
    phase.removes = some job ∨
      (step input s phase).1 = s ∧ s.state job = some .waiting ∨
      ∃ target, phase.move = some (job, target) ∧ (step input s phase).1 = s.addMain target := by
  by_cases hplain : ∀ answer, input = .turn answer → phase.handles = false
  · rcases step_plain (s := s) hplain with hsame | hnext
    · exact Or.inl (hsame ▸ h)
    · rw [hnext.2.1] at h
      cases h
  push Not at hplain
  obtain ⟨answer, rfl, hhandles⟩ := hplain
  cases phase with
  | finding caller token job' rest =>
    simp only [step, turn] at h
    split_ifs at h
    all_goals cases h
  | examining caller token job' rest =>
    refine Or.inr (Or.inl ⟨rfl, ?_⟩)
    rw [step] at h
    rcases turn_examining answer s caller token job' rest with
      hnext | ⟨hnext, hwaiting⟩ | hnext | ⟨hnext, -⟩
    · rw [hnext.2.1] at h
      cases h
    · rw [hnext] at h
      cases h
      exact hwaiting
    · rw [hnext] at h
      cases h
    · rw [hnext] at h
      cases h
  | clearing caller token job' rest => cases h
  | moving caller token job' target rest =>
    simp only [step, turn] at h ⊢
    split_ifs at h with hanswer
    · cases h
      rw [if_pos (DbAnswer.executed_of_answered hanswer)]
      exact Or.inr (Or.inr ⟨target, rfl, rfl⟩)
    · cases h
  | _ => exact absurd rfl hhandles

/-- A main job is cleared away that is seen to have finished. -/
theorem step_clearing (h : (step input s phase).2.clears = some job) :
    phase.clears = some job ∨
      (step input s phase).1 = s ∧ ∀ state ∈ s.state job, state = .finished := by
  by_cases hplain : ∀ answer, input = .turn answer → phase.handles = false
  · rcases step_plain (s := s) hplain with hsame | hnext
    · exact Or.inl (hsame ▸ h)
    · rw [hnext.2.2] at h
      cases h
  push Not at hplain
  obtain ⟨answer, rfl, hhandles⟩ := hplain
  cases phase with
  | finding caller token job' rest =>
    simp only [step, turn] at h
    split_ifs at h
    all_goals cases h
  | examining caller token job' rest =>
    refine Or.inr ⟨rfl, ?_⟩
    rw [step] at h
    rcases turn_examining answer s caller token job' rest with
      hnext | ⟨hnext, -⟩ | hnext | ⟨hnext, hfinished⟩
    · rw [hnext.2.2] at h
      cases h
    · rw [hnext] at h
      cases h
    · rw [hnext] at h
      cases h
    · rw [hnext] at h
      cases h
      exact hfinished
  | clearing caller token job' rest => cases h
  | moving caller token job' target rest =>
    simp only [step, turn] at h
    split_ifs at h
    all_goals cases h
  | _ => exact absurd rfl hhandles

theorem matched_step (h : phase.Matched) : (step input s phase).2.Matched := by
  rintro ⟨job, target⟩ hmove
  rcases step_move hmove with hbefore | ⟨-, ⟨rfl, -⟩ | rfl⟩
  · exact h _ hbefore
  · rfl
  · rfl

/-- The main queue has taken the job of a move. -/
theorem drops_of_move (hmatched : phase.Matched) (hmove : phase.move = some (job, target))
    (h : (step input s other).1.state target ≠ none) :
    phase.Drops s job ∨ (step input s other).1.Queued job.transactionId := by
  by_cases hnone : s.state target = none
  · right
    have hfate := step_fate input s other target
    rw [hnone] at hfate
    rw [← hmatched _ hmove]
    exact queued_of_waiting (hfate.of_none.resolve_left h)
  · exact Or.inl (Or.inr ⟨_, hmove, rfl, hnone⟩)

/-- What a drain does to be about to remove a held job leaves a job in the main queue. -/
theorem drops_step (fresh : Fresh input s phase) (hmatched : phase.Matched)
    (h : (step input s phase).2.Drops (step input s phase).1 job) :
    phase.Drops s job ∨ (step input s phase).1.Queued job.transactionId := by
  rcases h with hremoves | ⟨⟨job', target⟩, hmove, rfl, hstate⟩
  · rcases step_removing hremoves with hbefore | ⟨hsame, hwaiting⟩ | ⟨target, hmove, hshared⟩
    · exact Or.inl (Or.inl hbefore)
    · right
      rw [hsame]
      exact queued_of_waiting hwaiting
    · refine drops_of_move hmatched hmove ?_
      rw [hshared, state_addMain]
      split_ifs with hnew
      · simp
      · exact fun hnone => hnew ⟨rfl, hnone⟩
  · rcases step_move hmove with hbefore | ⟨hidle, ⟨rfl, hnone⟩ | rfl⟩
    · exact drops_of_move hmatched hbefore hstate
    · exact absurd hnone hstate
    · right
      obtain ⟨state, hfound⟩ := Option.ne_none_iff_exists'.1 hstate
      exact ⟨_, mem_of_state hfound, rfl, fresh _ hmove hidle rfl state hfound⟩

/-- The same of a drain that waits while another process takes its turn. -/
theorem drops_other {other : Phase T} (hmatched : phase.Matched)
    (h : phase.Drops (step input s other).1 job) :
    phase.Drops s job ∨ (step input s other).1.Queued job.transactionId := by
  rcases h with hremoves | ⟨⟨job', target⟩, hmove, rfl, hstate⟩
  · exact Or.inl (Or.inl hremoves)
  · exact drops_of_move hmatched hmove hstate

end Moves

/-! ## What stands for an accepted job -/

section Kept

variable [DecidableEq T]

/-- Three turns are excluded: one that puts a job into the hold queue from which a drain is about
to remove it, as the main queue has it already; one that puts a job into the main queue from which
a drain is about to clear the job of that id; and one that makes an id which is not new. -/
structure Undisturbed (w : World T ι) (turn : ι × Input T) : Prop where
  parked : ∀ id ∈ parks turn.2 (w.locals turn.1), ∀ k, ¬ (w.locals k).Drops w.shared id
  cleared : ∀ k, ∀ id ∈ (w.locals k).clears, w.shared.state id = none →
    (step turn.2 w.shared (w.locals turn.1)).1.state id = none
  fresh : Fresh turn.2 w.shared (w.locals turn.1)

instance [Fintype ι] (w : World T ι) (turn : ι × Input T) : Decidable (Undisturbed w turn) :=
  decidable_of_iff
    ((∀ id ∈ parks turn.2 (w.locals turn.1), ∀ k, ¬ (w.locals k).Drops w.shared id) ∧
      (∀ k, ∀ id ∈ (w.locals k).clears, w.shared.state id = none →
        (step turn.2 w.shared (w.locals turn.1)).1.state id = none) ∧
      Fresh turn.2 w.shared (w.locals turn.1))
    ⟨fun h => ⟨h.1, h.2.1, h.2.2⟩, fun h => ⟨h.parked, h.cleared, h.fresh⟩⟩

/-- For every accepted transaction that is not handed over yet there is a main job that has not
been passed on, or a held job that no drain is about to remove. -/
def Kept (w : World T ι) : Prop :=
  ∀ t ∈ w.shared.accepted, w.shared.Queued t ∨
    ∃ id ∈ w.shared.hold, id.transactionId = t ∧ ∀ k, ¬ (w.locals k).Drops w.shared id

/-- What the undisturbed runs keep. -/
structure Sound (w : World T ι) : Prop where
  worked : ∀ id, Worked id w
  matched : ∀ k, (w.locals k).Matched
  clearing : ∀ k, ∀ id ∈ (w.locals k).clears, ∀ state ∈ w.shared.state id, state = .finished
  kept : Kept w

theorem sound_init : Sound (World.init : World T ι) := by
  constructor
  · intro id
    left
    refine ⟨?_, fun i => not_not.2 rfl⟩
    simp [Inactive, State.state, World.init, Keyed.find?]
  · intro k move hmove
    cases hmove
  · intro k id hclears
    cases hclears
  · simp [Kept, World.init]

variable [DecidableEq ι] {w : World T ι} {turn : ι × Input T}

/-- A held job that no drain was about to remove. -/
theorem kept_of_held (h : Sound w) (fresh : Fresh turn.2 w.shared (w.locals turn.1))
    {id : JobId T} (hheld : id ∈ (advance step w turn).shared.hold)
    (hfree : ∀ k, ¬ (w.locals k).Drops w.shared id) :
    (advance step w turn).shared.Queued id.transactionId ∨
      ∃ id' ∈ (advance step w turn).shared.hold, id'.transactionId = id.transactionId ∧
        ∀ k, ¬ ((advance step w turn).locals k).Drops (advance step w turn).shared id' := by
  obtain ⟨i, input⟩ := turn
  by_cases hdropped : ∃ k, ((advance step w (i, input)).locals k).Drops
      (advance step w (i, input)).shared id
  · obtain ⟨k, hk⟩ := hdropped
    left
    by_cases hki : k = i
    · subst hki
      rw [advance_self] at hk
      exact (drops_step fresh (h.matched k) hk).resolve_left (hfree k)
    · rw [advance_other step w input hki] at hk
      exact (drops_other (h.matched k) hk).resolve_left (hfree k)
  · exact Or.inr ⟨id, hheld, rfl, not_exists.1 hdropped⟩

theorem kept_advance (h : Sound w) (calm : Undisturbed w turn) : Kept (advance step w turn) := by
  obtain ⟨i, input⟩ := turn
  intro t ht
  rcases step_accepted input w.shared (w.locals i) ht with hbefore | ⟨hparks, hheld⟩ | hwaiting
  · rcases h.kept t hbefore with ⟨job, hmem, rfl, hopen⟩ | ⟨id, hmem, rfl, hfree⟩
    · have hstate := state_of_mem hmem
      have hfate := step_fate input w.shared (w.locals i) job.id
      rw [hstate] at hfate
      have hmine : (w.locals i).stage job.id ≠ some true := by
        intro hstage
        obtain ⟨⟨passedOn, hpassed, hactive⟩, -⟩ := (h.worked job.id).owner (k := i)
          (by simp [hstage])
        rw [hstage] at hpassed
        obtain rfl := Option.some.inj hpassed
        rw [hstate] at hactive
        rw [Option.some.inj hactive] at hopen
        exact absurd hopen (by decide)
      rcases hfate.of_open hopen hmine with
        ⟨state', hafter, hopen'⟩ | (⟨hparks, hheld⟩ | hhanded) | ⟨⟨-, hclears⟩, hwaiting⟩
      · exact Or.inl ⟨_, mem_of_state hafter, rfl, hopen'⟩
      · exact kept_of_held h calm.fresh hheld (calm.parked job.id hparks)
      · exact absurd ht hhanded
      · rw [hwaiting] at hstate
        exact absurd (h.clearing i job.id hclears .waiting hstate) (by decide)
    · rcases step_hold input w.shared (w.locals i) hmem with hstill | ⟨-, hremoves, -⟩
      · exact kept_of_held h calm.fresh hstill hfree
      · exact absurd (Or.inl hremoves) (hfree i)
  · exact kept_of_held h calm.fresh hheld (calm.parked _ hparks)
  · exact Or.inl (queued_of_waiting hwaiting)

theorem clearing_advance (h : Sound w) (calm : Undisturbed w turn) :
    ∀ k, ∀ id ∈ ((advance step w turn).locals k).clears,
      ∀ state ∈ (advance step w turn).shared.state id, state = .finished := by
  obtain ⟨i, input⟩ := turn
  have still : ∀ k, ∀ id ∈ (w.locals k).clears,
      ∀ state ∈ (step input w.shared (w.locals i)).1.state id, state = .finished := by
    intro k id hclears state hafter
    have hfinished := h.clearing k id hclears
    have hfate := step_fate input w.shared (w.locals i) id
    cases hbefore : w.shared.state id with
    | none =>
      rw [calm.cleared k id hclears hbefore] at hafter
      cases hafter
    | some before =>
      obtain rfl := hfinished before hbefore
      have hmine : (w.locals i).stage id = none := by
        by_contra hstage
        obtain ⟨⟨passedOn, -, hactive⟩, -⟩ := (h.worked id).owner hstage
        rw [hbefore] at hactive
        cases hactive
      rw [hbefore, hmine] at hfate
      rcases hfate.of_finished with hsame | hnone
      · rw [hsame] at hafter
        exact (Option.some.inj hafter).symm
      · rw [hnone] at hafter
        cases hafter
  intro k id hclears
  by_cases hki : k = i
  · subst hki
    rw [advance_self] at hclears
    rcases step_clearing hclears with hbefore | ⟨hsame, hfinished⟩
    · exact still k id hbefore
    · rw [advance_shared]
      dsimp only
      rw [hsame]
      exact hfinished
  · rw [advance_other step w input hki] at hclears
    exact still k id hclears

theorem sound_advance (h : Sound w) (calm : Undisturbed w turn) :
    Sound (advance step w turn) where
  worked id := worked_advance (h.worked id) turn
  matched := locals_advance step Phase.Matched (matched_step (h.matched turn.1))
    fun k _ => h.matched k
  clearing := clearing_advance h calm
  kept := kept_advance h calm

end Kept

/-! ## The law -/

/-- Every accepted job that has not been handed over is held, or it is pending or active in the
main queue; and nothing is held when the provider is not paused and all calls have returned. -/
structure Lawful (w : World T ι) : Prop where
  kept : ∀ t ∈ w.shared.accepted, (∃ id ∈ w.shared.hold, id.transactionId = t) ∨
    ∃ job ∈ w.shared.main.rows, job.id.transactionId = t ∧ job.state ≠ .finished
  released : (∀ i, (w.locals i).Resting) → w.shared.paused = false → w.shared.hold = []

section Law

variable [DecidableEq T] [DecidableEq ι]

omit [DecidableEq ι] in
theorem lawful_of_sound {w : World T ι} (h : Sound w) (hattended : Attended w) : Lawful w := by
  refine ⟨?_, hattended.released⟩
  intro t ht
  rcases h.kept t ht with ⟨job, hmem, htransaction, hopen⟩ | ⟨id, hheld, htransaction, -⟩
  · refine Or.inr ⟨job, hmem, htransaction, ?_⟩
    intro hfinished
    rw [hfinished] at hopen
    exact absurd hopen (by decide)
  · exact Or.inl ⟨id, hheld, htransaction⟩

/-- In every run in which no job comes back to a queue from which a drain is about to remove it, no
job is lost and none stays held. -/
theorem pauses_lose_no_job (schedule : List (ι × Input T))
    (calm : Runs.Every (advance step) Undisturbed (World.init : World T ι) schedule) :
    ∀ pre, pre <+: schedule → Lawful (run step (World.init : World T ι) pre) := by
  intro pre hpre
  refine lawful_of_sound ?_ (attended_run pre)
  exact inv_run_of_every Sound (fun w turn h hturn => sound_advance h hturn) sound_init
    (calm.of_prefix hpre)

/-- A transaction is enqueued while the provider is paused, and a resume queues its job in the main
queue. -/
def queuedAgain : List (Fin 3 × Input ℕ) :=
  [(0, .pause), (0, .turn .answered), (1, .enqueue 7), (1, .turn .answered),
    (1, .turn .answered), (1, .turn .answered), (0, .resume), (0, .turn .answered),
    (0, .turn .answered), (0, .turn .answered), (0, .turn .answered),
    (0, .page [.transaction 7]), (0, .turn .answered), (0, .turn .answered)]

/-- The job is processed. -/
theorem released_job_is_kept :
    let schedule := queuedAgain ++
      [(0, .turn .answered), (2, .take (.transaction 7)), (2, .turn .answered)]
    (run step (World.init : World ℕ (Fin 3)) schedule).shared.accepted = [] ∧
      ∀ pre, pre <+: schedule → Lawful (run step (World.init : World ℕ (Fin 3)) pre) :=
  ⟨by decide +kernel, pauses_lose_no_job _ (by decide +kernel)⟩

end Law

/-- Before the resume has removed the held job, the provider is paused once more. A worker takes the
job and diverts it, which the hold queue ignores because it still has the id, and then the resume
removes the held job. -/
theorem removal_loses_diverted :
    let schedule := queuedAgain ++
      [(1, Input.pause), (1, Input.turn .answered), (2, Input.take (.transaction 7)),
        (2, Input.turn .answered), (2, Input.turn .answered), (2, Input.turn .answered),
        (2, Input.finish false), (0, Input.turn .answered)]
    let w := run step (World.init : World ℕ (Fin 3)) schedule
    w.shared.hold = [] ∧ w.shared.main.rows = [⟨.transaction 7, .finished⟩] ∧
      w.shared.accepted = [7] ∧ ¬ Lawful w := by
  intro schedule w
  have hhold : w.shared.hold = [] := by decide +kernel
  have hmain : w.shared.main.rows = [⟨.transaction 7, .finished⟩] := by decide +kernel
  have haccepted : w.shared.accepted = [7] := by decide +kernel
  refine ⟨hhold, hmain, haccepted, ?_⟩
  intro hlawful
  rcases hlawful.kept 7 (by rw [haccepted]; simp) with ⟨id, hid, -⟩ | ⟨job, hjob, -, hstate⟩
  · rw [hhold] at hid
    cases hid
  · rw [hmain, List.mem_singleton] at hjob
    rw [hjob] at hstate
    exact hstate rfl

end MobileMoney.Queue.Pauses
