import Mathlib.Algebra.Group.Fin.Basic
import Mathlib.Data.List.FinRange
import Mathlib.Data.List.Perm.Basic
import MobileMoney.Library.Interleaving
import MobileMoney.Stellar.Pool

/-!
# The pool of Horizon nodes

`HorizonPool` of `stellar/horizonPool.ts`: a request is tried on one node after the other until one
answers. Requests overlap: each keeps the order it was given at its start, and all of them report to
the counters of the same nodes. A turn of a request is what it does between two `await`s.

Nodes are their positions in the configured list, which is not empty. The proxies that record calls
and hand them to `execute`, the metrics and the logs are left out.
-/

namespace MobileMoney.HorizonPool

/-! ## Errors -/

/-- The fields of a thrown object that are looked at. A code is a text. -/
structure ErrorObject where
  status : Option ℕ
  code : Option String
  name : Option String
  message : Option String
  deriving DecidableEq

/-- What is thrown, if it is an object. -/
abbrev Thrown := Option ErrorObject

def networkCodes : List String :=
  ["ECONNREFUSED", "ECONNRESET", "ETIMEDOUT", "ENOTFOUND", "EAI_AGAIN", "EPIPE", "ECONNABORTED"]

/-- The case does not matter. -/
def mentions (text part : String) : Bool := Stellar.includes text.toLower part

def isFailoverEligible : Thrown → Bool
  | none => false
  | some err =>
    match err.status with
    | some status => status = 429 || 500 ≤ status
    | none =>
      let message := err.message.getD ""
      networkCodes.contains (err.code.getD "") || err.name.getD "" = "NetworkError" ||
        mentions message "timeout" || mentions message "network" ||
          mentions message "socket hang up"

/-! ## The pool -/

structure Config where
  maxConsecutiveFailures : ℕ
  cooldownMs : ℕ

structure Pool (n : ℕ) where
  consecutiveFailures : Fin n → ℕ
  downUntil : Fin n → ℕ
  cursor : Fin n

variable {n : ℕ} [NeZero n]

def Pool.initial : Pool n := ⟨fun _ => 0, fun _ => 0, 0⟩

/-- All nodes from the cursor on; the addition wraps around. -/
def rotated (pool : Pool n) : List (Fin n) := (List.finRange n).map (pool.cursor + ·)

def candidateOrder (pool : Pool n) (now : ℕ) : List (Fin n) :=
  let healthy := (rotated pool).filter fun node => pool.downUntil node ≤ now
  let down := (rotated pool).filter fun node => now < pool.downUntil node
  if 0 < healthy.length then healthy ++ down else rotated pool

def markSuccess (node : Fin n) (pool : Pool n) : Pool n :=
  { pool with
    consecutiveFailures := Function.update pool.consecutiveFailures node 0
    downUntil := Function.update pool.downUntil node 0 }

def markFailure (config : Config) (node : Fin n) (now : ℕ) (pool : Pool n) : Pool n :=
  let failures := pool.consecutiveFailures node + 1
  { pool with
    consecutiveFailures := Function.update pool.consecutiveFailures node failures
    downUntil := if config.maxConsecutiveFailures ≤ failures then
      Function.update pool.downUntil node (now + config.cooldownMs) else pool.downUntil }

/-! ## Requests -/

/-- One call of `execute`, between two turns. -/
inductive Request (n : ℕ) (T : Type) where
  | fresh
  | awaiting (node : Fin n) (rest : List (Fin n))
  | resolved (result : T)
  | rejected (error : Thrown)

abbrev Answer (T : Type) := Except Thrown T

/-- What a turn depends on: the time, and the answer of the node that is awaited. -/
structure Input (T : Type) where
  now : ℕ
  answer : Answer T

variable {T : Type}

/-- The request turns to the next of the candidates. -/
def attempt (lastError : Thrown) : List (Fin n) → Request n T
  | [] => .rejected lastError
  | node :: rest => .awaiting node rest

def execute (config : Config) (input : Input T) (pool : Pool n) :
    Request n T → Pool n × Request n T
  | .fresh => (pool, attempt none (candidateOrder pool input.now))
  | .awaiting node rest =>
    match input.answer with
    | .ok result => ({ markSuccess node pool with cursor := node + 1 }, .resolved result)
    | .error e =>
      if isFailoverEligible e then (markFailure config node input.now pool, attempt e rest)
      else (pool, .rejected e)
  | settled => (pool, settled)

/-! ## The order -/

theorem rotated_perm (pool : Pool n) : (rotated pool).Perm (List.finRange n) := by
  have nodup : (rotated pool).Nodup := (List.nodup_finRange n).map (add_right_injective _)
  refine (List.perm_ext_iff_of_nodup nodup (List.nodup_finRange n)).2 fun node => ?_
  simp only [rotated, List.mem_map, List.mem_finRange, true_and, iff_true]
  exact ⟨node - pool.cursor, add_sub_cancel _ _⟩

theorem candidateOrder_perm (pool : Pool n) (now : ℕ) :
    (candidateOrder pool now).Perm (List.finRange n) := by
  refine List.Perm.trans ?_ (rotated_perm pool)
  unfold candidateOrder
  dsimp only
  split_ifs
  · have split := List.filter_append_perm (fun node => decide (pool.downUntil node ≤ now))
      (rotated pool)
    simpa only [← decide_not, not_le] using split
  · exact List.Perm.refl _

omit [NeZero n] in
/-- No node that is down comes before one that is not. -/
theorem candidateOrder_healthy_first (pool : Pool n) (now : ℕ) :
    (candidateOrder pool now).Pairwise fun node node' =>
      now < pool.downUntil node → now < pool.downUntil node' := by
  unfold candidateOrder
  dsimp only
  split_ifs with some
  · refine List.pairwise_append.2 ⟨?_, ?_, ?_⟩
    · refine List.pairwise_of_forall_mem_list fun node hnode _ _ hdown => ?_
      have := (List.mem_filter.1 hnode).2
      simp only [decide_eq_true_eq] at this
      omega
    · refine List.pairwise_of_forall_mem_list fun _ _ node hnode _ => ?_
      simpa using (List.mem_filter.1 hnode).2
    · intro _ _ node hnode _
      simpa using (List.mem_filter.1 hnode).2
  · refine List.pairwise_of_forall_mem_list fun _ _ node hnode _ => ?_
    have none := List.filter_eq_nil_iff.1 (List.length_eq_zero_iff.1 (Nat.eq_zero_of_not_pos some))
    simpa using none node hnode

/-! ## The course of a request -/

variable {ι : Type} [DecidableEq ι]

abbrev State (ι : Type) (n : ℕ) (T : Type) := Interleaving.World (Pool n) ι (Request n T)

abbrev run (config : Config) : State ι n T → List (ι × Input T) → State ι n T :=
  Interleaving.run (execute config)

/-- What happens in the turns of one request. -/
inductive Note (n : ℕ) (T : Type) where
  | ordered (pool : Pool n) (now : ℕ)
  | asked (node : Fin n) (answer : Answer T)

def noted (i : ι) (w : State ι n T) (turn : ι × Input T) : List (Note n T) :=
  if turn.1 = i then
    match w.locals i with
    | .fresh => [.ordered w.shared turn.2.now]
    | .awaiting node _ => [.asked node turn.2.answer]
    | _ => []
  else []

/-- The node failed, and another one may not. -/
def Failed (answer : Answer T) : Prop := ∃ e, answer = .error e ∧ isFailoverEligible e = true

/-- How a request stands after these answers, when the nodes of the second list have not been
asked. -/
def Stands (asked : List (Fin n × Answer T)) (unasked : List (Fin n)) : Request n T → Prop
  | .fresh => False
  | .awaiting node rest => unasked = node :: rest ∧ ∀ a ∈ asked, Failed a.2
  | .resolved result => ∃ earlier node, asked = earlier ++ [(node, .ok result)] ∧
    ∀ a ∈ earlier, Failed a.2
  | .rejected e => ∃ earlier node, asked = earlier ++ [(node, .error e)] ∧
    (∀ a ∈ earlier, Failed a.2) ∧ (isFailoverEligible e = true → unasked = [])

def Course (request : Request n T) (notes : List (Note n T)) : Prop :=
  request = .fresh ∧ notes = [] ∨
    ∃ pool now asked unasked, notes = .ordered pool now :: asked.map (fun a => .asked a.1 a.2) ∧
      candidateOrder pool now = asked.map (·.1) ++ unasked ∧ Stands asked unasked request

omit [NeZero n] in
theorem Stands.attempt {asked : List (Fin n × Answer T)} {node : Fin n} {e : Thrown}
    (failed : ∀ a ∈ asked, Failed a.2) (eligible : isFailoverEligible e = true)
    (rest : List (Fin n)) :
    Stands (asked ++ [(node, .error e)]) rest (attempt e rest : Request n T) := by
  have failed' : ∀ a ∈ asked ++ [(node, (.error e : Answer T))], Failed a.2 := by
    intro a ha
    rcases List.mem_append.1 ha with ha | ha
    · exact failed a ha
    · rw [List.mem_singleton.1 ha]
      exact ⟨e, rfl, eligible⟩
  cases rest with
  | nil => exact ⟨asked, node, rfl, failed, fun _ => rfl⟩
  | cons next rest => exact ⟨rfl, failed'⟩

theorem Course.advance {config : Config} {w : State ι n T} {i : ι} {notes : List (Note n T)}
    (h : Course (w.locals i) notes) (turn : ι × Input T) :
    Course ((Interleaving.advance (execute config) w turn).locals i)
      (notes ++ noted i w turn) := by
  obtain ⟨j, input⟩ := turn
  by_cases mine : j = i
  · subst mine
    rw [Interleaving.advance_self, noted, if_pos rfl]
    rcases h with ⟨fresh, rfl⟩ | ⟨pool, now, asked, unasked, rfl, order, stands⟩
    · rw [fresh]
      refine .inr ⟨w.shared, input.now, [], candidateOrder w.shared input.now, rfl, rfl, ?_⟩
      cases start : candidateOrder w.shared input.now with
      | nil =>
        have := (candidateOrder_perm w.shared input.now).length_eq
        rw [start, List.length_finRange] at this
        exact absurd this.symm (NeZero.ne n)
      | cons node rest => simp [execute, attempt, start, Stands]
    · cases request : w.locals j with
      | fresh =>
        rw [request] at stands
        exact stands.elim
      | awaiting node rest =>
        rw [request] at stands
        obtain ⟨rfl, failed⟩ := stands
        have order' : candidateOrder pool now =
            (asked ++ [(node, input.answer)]).map (·.1) ++ rest := by
          rw [order, List.map_append, List.append_assoc]
          rfl
        refine .inr ⟨pool, now, asked ++ [(node, input.answer)], rest, by simp, order', ?_⟩
        unfold execute
        cases answer : input.answer with
        | ok result => exact ⟨asked, node, rfl, failed⟩
        | error e =>
          by_cases eligible : isFailoverEligible e = true
          · simp only [eligible, if_true]
            exact Stands.attempt failed eligible rest
          · simp only [eligible]
            exact ⟨asked, node, rfl, failed, fun h => absurd h eligible⟩
      | resolved result =>
        rw [request] at stands
        refine .inr ⟨pool, now, asked, unasked, by simp, order, stands⟩
      | rejected e =>
        rw [request] at stands
        refine .inr ⟨pool, now, asked, unasked, by simp, order, stands⟩
  · rw [Interleaving.advance_other _ _ _ fun h => mine h.symm, noted, if_neg mine,
      List.append_nil]
    exact h

/-- The turns of its own after which a request is over. -/
def Request.remaining : Request n T → ℕ
  | .fresh => n + 1
  | .awaiting _ rest => rest.length + 1
  | _ => 0

theorem remaining_execute (config : Config) (input : Input T) (pool : Pool n)
    (request : Request n T) :
    (execute config input pool request).2.remaining ≤ request.remaining - 1 := by
  have attempt_le (e : Thrown) (rest : List (Fin n)) :
      (attempt e rest : Request n T).remaining ≤ rest.length := by
    cases rest with
    | nil => exact le_rfl
    | cons node rest => exact le_rfl
  cases request with
  | fresh =>
    have len := (candidateOrder_perm pool input.now).length_eq
    rw [List.length_finRange] at len
    have := attempt_le none (candidateOrder pool input.now)
    change (attempt none (candidateOrder pool input.now)).remaining ≤ n + 1 - 1
    omega
  | awaiting node rest =>
    unfold execute
    cases input.answer with
    | ok result => exact Nat.zero_le _
    | error e =>
      dsimp only
      split_ifs
      · exact attempt_le e rest
      · exact Nat.zero_le _
  | resolved | rejected => exact Nat.zero_le _

theorem remaining_run (config : Config) (w : State ι n T) (i : ι) (schedule : List (ι × Input T)) :
    ((run config w schedule).locals i).remaining ≤
      (w.locals i).remaining - (schedule.filter (·.1 = i)).length := by
  induction schedule generalizing w with
  | nil => exact le_rfl
  | cons turn schedule ih =>
    obtain ⟨j, input⟩ := turn
    refine (ih _).trans ?_
    by_cases mine : j = i
    · subst mine
      have := remaining_execute config input w.shared (w.locals j)
      rw [Interleaving.advance_self, List.filter_cons_of_pos (by simp), List.length_cons]
      omega
    · rw [Interleaving.advance_other _ _ _ fun h => mine h.symm,
        List.filter_cons_of_neg (by simpa using mine)]

/-- However requests overlap, a request asks nodes in the order it was given at its start, healthy
nodes first, and no node twice. It goes on just after failures that another node may not have, and
it is over after one turn for each node, and one to start: with the answer or the deterministic
error of the node asked last, or with the last error when all nodes have failed. -/
theorem request_course (config : Config) (pool : Pool n) (schedule : List (ι × Input T)) (i : ι) :
    let start : State ι n T := ⟨pool, fun _ => .fresh⟩
    let request := (run config start schedule).locals i
    let notes := Runs.collect (Interleaving.advance (execute config)) (noted i) start schedule
    Course request notes ∧
      (∀ pool now, .ordered pool now ∈ notes → (candidateOrder pool now).Perm (List.finRange n) ∧
        (candidateOrder pool now).Pairwise fun node node' =>
          now < pool.downUntil node → now < pool.downUntil node') ∧
      (n < (schedule.filter (·.1 = i)).length →
        (∃ result, request = .resolved result) ∨ ∃ e, request = .rejected e) := by
  intro start request notes
  refine ⟨?_, fun pool now _ => ⟨candidateOrder_perm pool now,
    candidateOrder_healthy_first pool now⟩, fun many => ?_⟩
  · exact Runs.inv_collect (fun (w : State ι n T) notes => Course (w.locals i) notes)
      (fun _ _ turn h => h.advance turn) (.inl ⟨rfl, rfl⟩) schedule
  · have left := remaining_run config start i schedule
    have begun : (start.locals i).remaining = n + 1 := rfl
    have settled : request.remaining = 0 := Nat.le_zero.1 (left.trans (by omega))
    cases h : request with
    | fresh | awaiting => rw [h] at settled; cases settled
    | resolved result => exact .inl ⟨result, rfl⟩
    | rejected e => exact .inr ⟨e, rfl⟩

/-- Two requests on two nodes: the first node is overloaded, and both go to the second. -/
def overlapping : List (ℕ × Input ℕ) :=
  let overloaded : Answer ℕ := .error (some ⟨some 503, none, none, none⟩)
  [(0, ⟨10, .ok 0⟩), (1, ⟨11, .ok 0⟩), (0, ⟨20, overloaded⟩), (1, ⟨25, overloaded⟩),
    (1, ⟨30, .ok 7⟩), (0, ⟨31, .ok 8⟩)]

theorem request_course_overlapping :
    let start : State ℕ 2 ℕ := ⟨.initial, fun _ => .fresh⟩
    let request := (run ⟨2, 1000⟩ start overlapping).locals 0
    (∃ result, request = .resolved result) ∨ ∃ e, request = .rejected e :=
  (request_course ⟨2, 1000⟩ .initial overlapping 0).2.2 (by decide)

/-! ## The health of a node -/

/-- What the nodes are reported, and when: an answer, or a failure that counts. -/
def reported (node : Fin n) (w : State ι n T) (turn : ι × Input T) : List (ℕ × Bool) :=
  match w.locals turn.1 with
  | .awaiting node' _ =>
    if node' = node then
      match turn.2.answer with
      | .ok _ => [(turn.2.now, true)]
      | .error e => if isFailoverEligible e then [(turn.2.now, false)] else []
    else []
  | _ => []

/-- The times of the failures since the last answer, the latest first. -/
def failures (reports : List (ℕ × Bool)) : List ℕ :=
  (reports.reverse.takeWhile fun report => !report.2).map (·.1)

theorem failures_concat (reports : List (ℕ × Bool)) (now : ℕ) (answered : Bool) :
    failures (reports ++ [(now, answered)]) = if answered then [] else now :: failures reports := by
  cases answered <;> simp [failures]

/-- The counters of a node follow from what was reported about it. -/
def Healthy (config : Config) (node : Fin n) (pool : Pool n) (reports : List (ℕ × Bool)) : Prop :=
  pool.consecutiveFailures node = (failures reports).length ∧
    pool.downUntil node = if config.maxConsecutiveFailures ≤ (failures reports).length then
      ((failures reports).head?.map (· + config.cooldownMs)).getD 0 else 0

omit [NeZero n] in
theorem Healthy.congr {config : Config} {node : Fin n} {pool pool' : Pool n}
    {reports : List (ℕ × Bool)} (h : Healthy config node pool reports)
    (failures : pool'.consecutiveFailures node = pool.consecutiveFailures node)
    (cooldown : pool'.downUntil node = pool.downUntil node) :
    Healthy config node pool' reports :=
  ⟨failures.trans h.1, cooldown.trans h.2⟩

omit [NeZero n] in
theorem healthy_markSuccess (config : Config) (node : Fin n) (pool : Pool n) (now : ℕ)
    (reports : List (ℕ × Bool)) :
    Healthy config node (markSuccess node pool) (reports ++ [(now, true)]) := by
  simp [Healthy, failures_concat, markSuccess]

omit [NeZero n] in
theorem Healthy.markFailure {config : Config} {node : Fin n} {pool : Pool n}
    {reports : List (ℕ × Bool)} (h : Healthy config node pool reports) (now : ℕ) :
    Healthy config node (markFailure config node now pool) (reports ++ [(now, false)]) := by
  obtain ⟨count, down⟩ := h
  simp only [Healthy, failures_concat, HorizonPool.markFailure, Bool.false_eq_true, if_false,
    List.length_cons, List.head?_cons, Option.map_some, Option.getD_some,
    Function.update_self, count, true_and]
  by_cases reached : config.maxConsecutiveFailures ≤ (failures reports).length + 1
  · rw [if_pos reached, if_pos reached, Function.update_self]
  · -- Before the limit the node has not been taken out.
    rw [if_neg reached, if_neg reached, down, if_neg (by omega)]

theorem Healthy.advance {config : Config} {node : Fin n} {w : State ι n T}
    {reports : List (ℕ × Bool)} (h : Healthy config node w.shared reports)
    (turn : ι × Input T) :
    Healthy config node (Interleaving.advance (execute config) w turn).shared
      (reports ++ reported node w turn) := by
  rw [Interleaving.advance_shared]
  unfold reported
  cases w.locals turn.1 with
  | fresh | resolved | rejected => rwa [List.append_nil]
  | awaiting node' rest =>
    unfold execute
    by_cases same : node' = node
    · subst same
      cases turn.2.answer with
      | ok result =>
        simp only [if_true]
        exact (healthy_markSuccess config node' w.shared turn.2.now reports).congr rfl rfl
      | error e =>
        by_cases eligible : isFailoverEligible e = true
        · simp only [eligible, if_true]
          exact h.markFailure turn.2.now
        · simp only [eligible, if_true, Bool.false_eq_true, if_false, List.append_nil]
          exact h
    · simp only [same, if_false, List.append_nil]
      cases turn.2.answer with
      | ok result =>
        exact h.congr (Function.update_of_ne (Ne.symm same) _ _)
          (Function.update_of_ne (Ne.symm same) _ _)
      | error e =>
        dsimp only
        split_ifs
        · refine h.congr (Function.update_of_ne (Ne.symm same) _ _) ?_
          dsimp only [HorizonPool.markFailure]
          split_ifs
          · exact Function.update_of_ne (Ne.symm same) _ _
          · rfl
        · exact h

/-- However requests overlap, a node is taken out of rotation just when its last reports are
failures and reach the limit, and until a cooldown after the last of them. Errors that do not count
change nothing, and one answer puts it back. -/
theorem health_of_reports (config : Config) (schedule : List (ι × Input T)) (node : Fin n) :
    let start : State ι n T := ⟨.initial, fun _ => .fresh⟩
    let pool := (run config start schedule).shared
    let reports := Runs.collect (Interleaving.advance (execute config)) (reported node) start
      schedule
    pool.consecutiveFailures node = (failures reports).length ∧
      ∀ now, now < pool.downUntil node ↔
        config.maxConsecutiveFailures ≤ (failures reports).length ∧
          ∃ last ∈ (failures reports).head?, now < last + config.cooldownMs := by
  intro start pool reports
  have healthy : Healthy config node pool reports :=
    Runs.inv_collect (fun (w : State ι n T) reports => Healthy config node w.shared reports)
      (fun _ _ turn h => h.advance turn) (by simp [Healthy, failures, start, Pool.initial])
      schedule
  refine ⟨healthy.1, fun now => ?_⟩
  rw [healthy.2]
  by_cases reached : config.maxConsecutiveFailures ≤ (failures reports).length
  · rw [if_pos reached]
    cases (failures reports).head? <;> simp [reached]
  · simp [reached]

theorem health_of_reports_overlapping :
    let start : State ℕ 2 ℕ := ⟨.initial, fun _ => .fresh⟩
    let pool := (run ⟨2, 1000⟩ start overlapping).shared
    ∀ now, now < pool.downUntil 0 → now < 1025 := by
  intro start pool now down
  obtain ⟨-, last, hlast, before⟩ :=
    ((health_of_reports ⟨2, 1000⟩ overlapping (0 : Fin 2)).2 now).1 down
  cases hlast
  exact before

end MobileMoney.HorizonPool
