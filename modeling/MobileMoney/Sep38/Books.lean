import MobileMoney.Library.Reservations
import MobileMoney.Sep38.Program

/-!
# The books of the quotes

The stores and the calls under way, read as a book of reservations: which of them still have to be
made, are live, have to be released or have been released.
-/

namespace MobileMoney.Sep38

open Reservations (Book)

variable {K P : Type} {s : State K P}

/-! ## What is stored -/

section Stored

variable (choice : Choice K P) {status : QuoteStatus}

theorem map_setStatus {β : Type*} (f : Entry K P → β)
    (hf : ∀ entry, f (entry.setStatus status) = f entry) (s : State K P) :
    (s.setStatus choice status).stored.map f = s.stored.map f := by
  simp only [State.setStatus, List.map_map]
  apply List.map_congr_left
  intro entry _
  simp only [Function.comp_apply]
  split
  · exact hf entry
  · rfl

/-- What is live divides into what is ended and what stays live. -/
theorem live_eq_ending_add (hstatus : status = .cancelled ∨ status = .expired) (s : State K P) :
    (s.live : Multiset (Reservation K)) = s.ending choice + (s.setStatus choice status).live := by
  simp only [State.live, State.ending, State.setStatus]
  induction s.stored with
  | nil => rfl
  | cons entry entries ih =>
    have hended : ¬ (entry.setStatus status).quote.Live := by
      rcases hstatus with rfl | rfl <;> simp [Entry.setStatus, Sep38Quote.Live]
    by_cases hends : choice.ends entry = true
    · have hlive : entry.quote.Live := by
        simp only [Choice.ends, Bool.and_eq_true, decide_eq_true_eq] at hends
        exact hends.1
      simp only [List.filter_cons, List.map_cons, hends, hlive, hended, decide_true, decide_false,
        if_true, Bool.false_eq_true, if_false, ← Multiset.cons_coe, ih, Multiset.cons_add]
    · by_cases hlive : entry.quote.Live
      · simp only [List.filter_cons, List.map_cons, hends, hlive, decide_true, if_true,
          Bool.false_eq_true, if_false, ← Multiset.cons_coe, ih, Multiset.add_cons]
      · simp only [List.filter_cons, List.map_cons, hends, hlive, decide_false,
          Bool.false_eq_true, if_false, ih]

theorem setStatus_of_ending_eq_nil (h : s.ending choice = []) : s.setStatus choice status = s := by
  have hnone : ∀ entry ∈ s.stored, ¬ choice.ends entry = true := by
    simpa [State.ending, List.filter_eq_nil_iff] using h
  have hstored : s.stored.map (fun entry =>
      if choice.ends entry then entry.setStatus status else entry) = s.stored := by
    conv_rhs => rw [← List.map_id s.stored]
    apply List.map_congr_left
    intro entry hentry
    simp [hnone entry hentry]
  rw [State.setStatus, hstored]

/-- A failed statement that would have ended something has not been executed. -/
theorem setStatus_of_not_lost {executed : Bool} (h : ¬ (executed = true ∧ s.ending choice ≠ [])) :
    (if executed then s.setStatus choice status else s) = s := by
  split
  · next hexecuted =>
    exact setStatus_of_ending_eq_nil choice (not_not.1 fun hne => h ⟨hexecuted, hne⟩)
  · rfl

end Stored

theorem cancel_refused {choice : Choice K P} (h : (s.cancel choice).2 ≠ none) :
    (s.cancel choice).1 = s := by
  unfold State.cancel at h ⊢
  split
  · rfl
  · next hne => exact absurd (by rw [if_neg hne]) h

/-- A cancellation that is refused changes nothing, unless its update has been executed although
it failed. -/
theorem cancelQuote_refused [DecidableEq K] [DecidableEq P] {process : P} {id : K}
    {requestingUserId : String} {found : Option (Sep38Quote K)} {answer : Answer}
    (h : (cancelQuote s process id requestingUserId found answer).2 ≠ none)
    (hanswer : answer ≠ .failed true) :
    (cancelQuote s process id requestingUserId found answer).1 = s := by
  unfold cancelQuote at h ⊢
  cases hcheck : checkCancel requestingUserId found with
  | some err => rfl
  | none =>
    simp only [hcheck] at h
    cases answer with
    | answered => exact cancel_refused h
    | failed executed =>
      cases executed with
      | true => exact absurd rfl hanswer
      | false => exact cancel_refused h

/-- The quote with this id is a row of the table. -/
def State.InDatabase (s : State K P) (id : K) : Prop :=
  (id, Store.database) ∈ s.stored.map fun entry => (entry.quote.id, entry.store)

theorem inDatabase_setStatus (choice : Choice K P) (status : QuoteStatus) (id : K) :
    (s.setStatus choice status).InDatabase id ↔ s.InDatabase id := by
  rw [State.InDatabase, map_setStatus choice _ fun _ => rfl, State.InDatabase]

theorem inDatabase_of_stale [DecidableEq P] {now : ℕ} {row : Reservation K}
    (h : row ∈ s.ending (stale .database now)) : s.InDatabase row.id := by
  obtain ⟨entry, hentry, rfl⟩ := List.mem_map.1 h
  obtain ⟨hmem, hends⟩ := List.mem_filter.1 hentry
  simp only [Choice.ends, stale, Bool.and_eq_true, decide_eq_true_eq] at hends
  exact List.mem_map.2 ⟨entry, hmem, Prod.ext rfl hends.2.1⟩

/-- A row of the table has no copy in a memory. -/
theorem forget_eq_self [DecidableEq K] [DecidableEq P]
    (ids : (s.stored.map (·.quote.id)).Nodup) {id : K} (h : s.InDatabase id)
    (process : P) : s.forget process id = s := by
  obtain ⟨row, hrow, hkey⟩ := List.mem_map.1 h
  obtain ⟨rfl, hstore⟩ := Prod.mk.inj hkey
  have hall : ∀ entry ∈ s.stored,
      (!byId (.inMemoryQuotes process) row.quote.id entry) = true := by
    intro entry hentry
    by_contra hbyId
    simp only [byId, Bool.not_eq_true', decide_eq_false_iff_not, not_not] at hbyId
    obtain rfl := List.inj_on_of_nodup_map ids hentry hrow hbyId.2
    rw [hstore] at hbyId
    cases hbyId.1
  rw [State.forget, List.filter_eq_self.2 hall]

/-! ## The order of the stores and the calls -/

/-- The counter has not been found short, and what a sweep of the table releases and deletes
are rows of the table. -/
structure Call.Sound (inDatabase : K → Prop) (call : Call K P) : Prop where
  unclamped : ∀ id, call.await ≠ .clamp id
  rows : ∀ process, call.work = .sweeping process → ∀ row ∈ call.rows, inDatabase row.id
  deleted : ∀ id, call.await = .cacheDel id → inDatabase id

theorem Call.Sound.mono {inDatabase inDatabase' : K → Prop} {call : Call K P}
    (h : call.Sound inDatabase) (himp : ∀ id, inDatabase id → inDatabase' id) :
    call.Sound inDatabase' :=
  ⟨h.unclamped, fun process hwork row hrow => himp _ (h.rows process hwork row hrow),
    fun id hawait => himp id (h.deleted id hawait)⟩

structure Tidy (s : State K P) : Prop where
  created : s.stored.map (·.quote.reservation) = s.created
  ids : (s.stored.map (·.quote.id)).Nodup
  calls : ∀ call ∈ s.calls, call.Sound s.InDatabase

section Tidy

variable {choice : Choice K P} {status : QuoteStatus} {call : Call K P}

theorem Tidy.setStatus (h : Tidy s) : Tidy (s.setStatus choice status) where
  created := (map_setStatus choice _ (fun _ => rfl) s).trans h.created
  ids := by
    rw [map_setStatus choice _ fun _ => rfl]
    exact h.ids
  calls := fun call hcall =>
    (h.calls call hcall).mono fun id => (inDatabase_setStatus choice status id).2

theorem Tidy.begin (h : Tidy s) {work : Work P} {rows : List (Reservation K)}
    (hrows : ∀ process, work = .sweeping process → ∀ row ∈ rows, s.InDatabase row.id) :
    Tidy (s.begin work rows) where
  created := h.created
  ids := h.ids
  calls := by
    intro call hcall
    rcases List.mem_append.1 hcall with hcall | hcall
    · exact h.calls call hcall
    · obtain rfl := List.mem_singleton.1 hcall
      exact ⟨nofun, hrows, nofun⟩

theorem Tidy.update (h : Tidy s) (i : ℕ) (hcall : call.Sound s.InDatabase) :
    Tidy (s.update i call) where
  created := h.created
  ids := h.ids
  calls := by
    intro call' hcall'
    rcases List.mem_or_eq_of_mem_set hcall' with hcall' | rfl
    · exact h.calls call' hcall'
    · exact hcall

end Tidy

/-! ## The calls under way -/

theorem coe_flatMap_set {α β : Type*} {l : List α} {i : ℕ} {a : α} (h : l[i]? = some a) (b : α)
    (f : α → List β) :
    ((l.set i b).flatMap f : Multiset β) + f a = l.flatMap f + (f b : Multiset β) := by
  obtain ⟨hi, rfl⟩ := List.getElem?_eq_some_iff.1 h
  have hbefore : (l.flatMap f : Multiset β) = f l[i] + (l.eraseIdx i).flatMap f :=
    Multiset.coe_eq_coe.2 ((List.getElem_cons_eraseIdx_perm hi).symm.flatMap_right f)
  have hafter : ((l.set i b).flatMap f : Multiset β) = f b + (l.eraseIdx i).flatMap f :=
    Multiset.coe_eq_coe.2 ((List.set_perm_cons_eraseIdx hi b).flatMap_right f)
  rw [hbefore, hafter]
  abel

section Calls

variable [DecidableEq P] {call : Call K P} {i : ℕ}

theorem toReserve_update (h : s.calls[i]? = some call) (call' : Call K P) :
    ((s.update i call').toReserve : Multiset (Reservation K)) + call.toReserve =
      s.toReserve + call'.toReserve :=
  coe_flatMap_set h call' Call.toReserve

theorem toRelease_update (h : s.calls[i]? = some call) (call' : Call K P) :
    ((s.update i call').toRelease : Multiset (Reservation K)) + call.toRelease =
      s.toRelease + call'.toRelease :=
  coe_flatMap_set h call' Call.toRelease

theorem toReserve_update_same (h : s.calls[i]? = some call) (call' : Call K P)
    (hsame : call'.toReserve = call.toReserve) :
    ((s.update i call').toReserve : Multiset (Reservation K)) = s.toReserve :=
  add_right_cancel ((toReserve_update h call').trans (by rw [hsame]))

theorem toRelease_update_same (h : s.calls[i]? = some call) (call' : Call K P)
    (hsame : call'.toRelease = call.toRelease) :
    ((s.update i call').toRelease : Multiset (Reservation K)) = s.toRelease :=
  add_right_cancel ((toRelease_update h call').trans (by rw [hsame]))

variable {row : Reservation K} {rows : List (Reservation K)}

theorem toReserve_eq_cons (h : s.calls[i]? = some call) (hwork : call.work = .createQuote)
    (hrows : call.rows = row :: rows) (call' : Call K P) (hwork' : call'.work = .createQuote)
    (hrows' : call'.rows = rows) :
    (s.toReserve : Multiset (Reservation K)) = row ::ₘ (s.update i call').toReserve := by
  have hupdate := toReserve_update h call'
  simp only [Call.toReserve, hwork, hwork', hrows, hrows', if_true, ← Multiset.cons_coe,
    Multiset.add_cons, ← Multiset.cons_add] at hupdate
  exact (add_right_cancel hupdate).symm

theorem toRelease_eq_cons (h : s.calls[i]? = some call) (hwork : call.work ≠ .createQuote)
    (hrows : call.rows = row :: rows) (call' : Call K P) (hwork' : call'.work ≠ .createQuote)
    (hrows' : call'.rows = rows) :
    (s.toRelease : Multiset (Reservation K)) = row ::ₘ (s.update i call').toRelease := by
  have hupdate := toRelease_update h call'
  simp only [Call.toRelease, hwork, hwork', hrows, hrows', if_false, ← Multiset.cons_coe,
    Multiset.add_cons, ← Multiset.cons_add] at hupdate
  exact (add_right_cancel hupdate).symm

/-- What the stores and the calls come to. -/
def State.book (s : State K P) : Book (Reservation K) :=
  ⟨s.reserved, s.created, s.toReserve, s.live, s.toRelease, s.released⟩

end Calls

end MobileMoney.Sep38
