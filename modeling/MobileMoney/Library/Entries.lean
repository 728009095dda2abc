import Mathlib.Data.List.Pairwise
import Mathlib.Order.Defs.Unbundled
import Mathlib.Tactic.Common

/-!
# Entries in the order of their keys

An object is a list of entries. Assigning to a key changes its entry where it stands, and puts a
new entry before the first key that it comes before, or last. Keys that come before none of each
other therefore keep the order in which they were first assigned.
-/

namespace Entries

variable {κ α β : Type*} {before : κ → κ → Prop}

def Ordered (before : κ → κ → Prop) (es : List (κ × α)) : Prop :=
  es.Pairwise fun e e' => e.1 ≠ e'.1 ∧ ¬ before e'.1 e.1

theorem Ordered.map (f : κ × α → β) {es : List (κ × α)} (h : Ordered before es) :
    Ordered before (es.map fun e => (e.1, f e)) := by
  rw [Ordered, List.pairwise_map]
  exact h

variable [DecidableEq κ] (before) [DecidableRel before]

@[grind =] def assign (k : κ) (a : α) : List (κ × α) → List (κ × α)
  | [] => [(k, a)]
  | e :: es =>
    if e.1 = k then (k, a) :: es
    else if before k e.1 then (k, a) :: e :: es
    else e :: assign k a es

def ofList (es : List (κ × α)) : List (κ × α) :=
  es.foldl (fun es e => assign before e.1 e.2 es) []

variable {before} {k : κ} {a : α} {es : List (κ × α)}

theorem mem_assign {e : κ × α} (h : e ∈ assign before k a es) : e = (k, a) ∨ e ∈ es := by
  induction es with
  | nil => exact .inl (List.mem_singleton.1 h)
  | cons e' es ih =>
    rw [assign] at h
    split_ifs at h with same first
    · exact (List.mem_cons.1 h).imp_right (List.mem_cons_of_mem _)
    · exact List.mem_cons.1 h
    · rcases List.mem_cons.1 h with rfl | h
      · exact .inr List.mem_cons_self
      · exact (ih h).imp_right (List.mem_cons_of_mem _)

theorem mem_foldl_assign {es' : List (κ × α)} {e : κ × α}
    (h : e ∈ es'.foldl (fun es e => assign before e.1 e.2 es) es) : e ∈ es ∨ e ∈ es' := by
  induction es' generalizing es with
  | nil => exact .inl h
  | cons e' es' ih =>
    rcases ih h with h | h
    · rcases mem_assign h with rfl | h
      · exact .inr List.mem_cons_self
      · exact .inl h
    · exact .inr (List.mem_cons_of_mem _ h)

theorem mem_of_mem_ofList {e : κ × α} (h : e ∈ ofList before es) : e ∈ es :=
  (mem_foldl_assign h).resolve_left List.not_mem_nil

/-- The keys of two objects alike, so are the places of their entries. -/
theorem assign_map (f : κ × α → β) :
    (assign before k a es).map (fun e => (e.1, f e)) =
      assign before k (f (k, a)) (es.map fun e => (e.1, f e)) := by
  induction es with
  | nil => rfl
  | cons e es ih =>
    simp only [assign, List.map_cons]
    split_ifs
    · rfl
    · rfl
    · rw [List.map_cons, ih]

theorem ofList_map (f : κ × α → β) (es : List (κ × α)) :
    (ofList before es).map (fun e => (e.1, f e)) =
      ofList before (es.map fun e => (e.1, f e)) := by
  have general (es es' : List (κ × α)) :
      (es'.foldl (fun es e => assign before e.1 e.2 es) es).map (fun e => (e.1, f e)) =
        (es'.map fun e => (e.1, f e)).foldl (fun es e => assign before e.1 e.2 es)
          (es.map fun e => (e.1, f e)) := by
    induction es' generalizing es with
    | nil => rfl
    | cons e es' ih => rw [List.foldl_cons, ih, assign_map, List.map_cons, List.foldl_cons]
  exact general [] es

/-! ## Looking up and leaving out -/

def get? (k : κ) (es : List (κ × α)) : Option α := (es.find? fun e => e.1 = k).map (·.2)

theorem get?_eq_none_iff : get? k es = none ↔ k ∉ es.map (·.1) := by
  rw [get?, Option.map_eq_none_iff, List.find?_eq_none, List.mem_map]
  constructor
  · rintro h ⟨e, he, hkey⟩
    exact h e he (decide_eq_true hkey)
  · exact fun h e he hkey => h ⟨e, he, of_decide_eq_true hkey⟩

theorem mem_of_get? (h : get? k es = some a) : ∃ e ∈ es, e.2 = a := by
  obtain ⟨e, he, rfl⟩ := Option.map_eq_some_iff.1 h
  exact ⟨e, List.mem_of_find?_eq_some he, rfl⟩

theorem get?_cons (e : κ × α) (es : List (κ × α)) :
    get? k (e :: es) = if e.1 = k then some e.2 else get? k es := by
  rw [get?, List.find?_cons]
  split_ifs with h <;> simp [h, get?]

theorem get?_assign (k' : κ) :
    get? k' (assign before k a es) = if k = k' then some a else get? k' es := by
  induction es with
  | nil => rw [assign, get?_cons]
  | cons e es ih =>
    rw [assign]
    by_cases same : e.1 = k
    · subst same
      rw [if_pos rfl, get?_cons, get?_cons]
      split_ifs <;> rfl
    · rw [if_neg same]
      by_cases first : before k e.1
      · rw [if_pos first, get?_cons]
      · rw [if_neg first, get?_cons, ih, get?_cons]
        by_cases hk : k = k'
        · rw [if_pos hk, if_pos hk, if_neg fun h => same (h.trans hk.symm)]
        · rw [if_neg hk, if_neg hk]

/-- The entries assigned last are the ones that are found. -/
theorem get?_foldl_assign {es' : List (κ × α)} (nodup : (es'.map (·.1)).Nodup) (k : κ) :
    get? k (es'.foldl (fun es e => assign before e.1 e.2 es) es) =
      (get? k es').or (get? k es) := by
  induction es' generalizing es with
  | nil => rfl
  | cons e es' ih =>
    rw [List.map_cons, List.nodup_cons] at nodup
    rw [List.foldl_cons, ih nodup.2, get?_assign, get?_cons]
    split_ifs with h
    · subst h
      rw [get?_eq_none_iff.2 nodup.1]
      rfl
    · rfl

theorem filter_foldl_assign (p : κ → Bool) {es' : List (κ × α)} (h : ∀ e ∈ es', p e.1 = false) :
    (es'.foldl (fun es e => assign before e.1 e.2 es) es).filter (fun e => p e.1) =
      es.filter fun e => p e.1 := by
  have one {k : κ} (a : α) (hk : p k = false) (es : List (κ × α)) :
      (assign before k a es).filter (fun e => p e.1) = es.filter fun e => p e.1 := by
    induction es with
    | nil => simp [assign, hk]
    | cons e es ih =>
      rw [assign]
      split_ifs with same first
      · subst same
        simp [hk]
      · simp [hk]
      · rw [List.filter_cons, List.filter_cons, ih]
  induction es' generalizing es with
  | nil => rfl
  | cons e es' ih =>
    obtain ⟨he, hes⟩ := List.forall_mem_cons.1 h
    rw [List.foldl_cons, ih hes, one e.2 he]

/-! ## Order -/

theorem ordered_assign [IsStrictOrder κ before] (h : Ordered before es) :
    Ordered before (assign before k a es) := by
  induction es with
  | nil => exact List.pairwise_singleton _ _
  | cons e es ih =>
    obtain ⟨hfirst, hrest⟩ := List.pairwise_cons.1 h
    rw [assign]
    split_ifs with same first
    · subst same
      exact List.pairwise_cons.2 ⟨hfirst, hrest⟩
    · refine List.pairwise_cons.2 ⟨fun e' he' => ?_, h⟩
      rcases List.mem_cons.1 he' with rfl | he'
      · exact ⟨Ne.symm same, fun back => irrefl _ (trans_of before first back)⟩
      · obtain ⟨-, hnot⟩ := hfirst e' he'
        exact ⟨fun hkey => hnot (hkey ▸ first), fun back => hnot (trans_of before back first)⟩
    · refine List.pairwise_cons.2 ⟨fun e' he' => ?_, ih hrest⟩
      rcases mem_assign he' with rfl | he'
      · exact ⟨same, first⟩
      · exact hfirst e' he'

theorem ordered_foldl_assign [IsStrictOrder κ before] {es' : List (κ × α)}
    (h : Ordered before es) :
    Ordered before (es'.foldl (fun es e => assign before e.1 e.2 es) es) := by
  induction es' generalizing es with
  | nil => exact h
  | cons e es' ih => exact ih (ordered_assign h)

theorem ordered_ofList [IsStrictOrder κ before] (es : List (κ × α)) :
    Ordered before (ofList before es) := ordered_foldl_assign List.Pairwise.nil

theorem assign_of_last (h : ∀ e ∈ es, e.1 ≠ k ∧ ¬ before k e.1) :
    assign before k a es = es ++ [(k, a)] := by
  induction es with
  | nil => rfl
  | cons e es ih =>
    obtain ⟨⟨hne, hnot⟩, hes⟩ := List.forall_mem_cons.1 h
    rw [assign, if_neg hne, if_neg hnot, ih hes, List.cons_append]

/-- In order they are left as they are. -/
theorem ofList_of_ordered (h : Ordered before es) : ofList before es = es := by
  have general (es es' : List (κ × α)) (h : Ordered before (es ++ es')) :
      es'.foldl (fun es e => assign before e.1 e.2 es) es = es ++ es' := by
    induction es' generalizing es with
    | nil => exact (List.append_nil es).symm
    | cons e es' ih =>
      have last := (List.pairwise_append.1 h).2.2
      have h' : Ordered before ((es ++ [e]) ++ es') := by
        rwa [List.append_assoc, List.singleton_append]
      rw [List.foldl_cons, assign_of_last fun e' he' => last e' he' e List.mem_cons_self,
        ih _ h',
        List.append_assoc, List.singleton_append]
  exact general [] es h

end Entries
