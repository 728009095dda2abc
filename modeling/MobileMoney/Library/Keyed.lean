import Mathlib.Data.List.Induction
import Mathlib.Data.List.Nodup
import Mathlib.Data.List.Perm.Lattice
import Mathlib.Data.List.Perm.Subperm
import Mathlib.Tactic.Common

/-!
# Tables with a primary key

A table is a list of rows, no two of them with the same key. An update changes the row with
a given key and may not change its key; an insertion of a key that is there is refused.
-/

structure Keyed {α κ : Type*} (key : α → κ) where
  rows : List α
  nodup : (rows.map key).Nodup

namespace Keyed

variable {α κ : Type*} {key : α → κ}

/-- Entries that keep their keys leave keys out, and add none. -/
theorem map_filterMap_sublist {β : Type*} {key' : β → κ} {f : α → Option β} {rows : List α}
    (h : ∀ a ∈ rows, ∀ b ∈ f a, key' b = key a) :
    ((rows.filterMap f).map key').Sublist (rows.map key) := by
  induction rows with
  | nil => exact .slnil
  | cons a rows ih =>
    obtain ⟨ha, hrows⟩ := List.forall_mem_cons.1 h
    rw [List.filterMap_cons, List.map_cons]
    cases kept : f a with
    | none => exact (ih hrows).cons _
    | some b =>
      rw [List.map_cons, ha b kept]
      exact (ih hrows).cons_cons _

theorem eq_of_mem (table : Keyed key) {a b : α} (ha : a ∈ table.rows) (hb : b ∈ table.rows)
    (h : key a = key b) : a = b :=
  List.inj_on_of_nodup_map table.nodup ha hb h

/-- A key stands in one place. -/
theorem place_eq (table : Keyed key) {i j : ℕ} {a b : α} (ha : table.rows[i]? = some a)
    (hb : table.rows[j]? = some b) (h : key a = key b) : i = j := by
  have hkeys : (table.rows.map key)[i]? = (table.rows.map key)[j]? := by
    rw [List.getElem?_map, List.getElem?_map, ha, hb, Option.map_some, Option.map_some, h]
  have hlt : i < (table.rows.map key).length := by
    rw [List.length_map]
    exact (List.getElem?_eq_some_iff.1 ha).1
  exact (List.getElem?_inj hlt table.nodup).1 hkeys

variable [DecidableEq κ]

omit [DecidableEq κ] in
/-- Every row is changed, and none its key. -/
def map (table : Keyed key) (f : α → α) (same : ∀ a, key (f a) = key a) : Keyed key where
  rows := table.rows.map f
  nodup := by
    have keys : (table.rows.map f).map key = table.rows.map key := by
      rw [List.map_map]
      exact List.map_congr_left fun a _ => same a
    rw [keys]
    exact table.nodup

def modify (table : Keyed key) (k : κ) (f : α → α) (same : ∀ a, key (f a) = key a) :
    Keyed key where
  rows := table.rows.map fun a => if key a = k then f a else a
  nodup := by
    have keys : (table.rows.map fun a => if key a = k then f a else a).map key =
        table.rows.map key := by
      rw [List.map_map]
      apply List.map_congr_left
      intro a _
      simp only [Function.comp_apply]
      split_ifs
      · exact same a
      · rfl
    rw [keys]
    exact table.nodup

theorem mem_modify {table : Keyed key} {k : κ} {f : α → α} (same : ∀ a, key (f a) = key a)
    {b : α} : b ∈ (table.modify k f same).rows ↔
      ∃ a ∈ table.rows, b = if key a = k then f a else a := by
  simp only [modify, List.mem_map]
  apply exists_congr
  intro a
  rw [eq_comm (a := b)]

def insert (table : Keyed key) (a : α) : Keyed key :=
  if h : key a ∈ table.rows.map key then table
  else
    ⟨table.rows ++ [a], by
      rw [List.map_append]
      refine List.nodup_append.2 ⟨table.nodup, List.nodup_singleton _, ?_⟩
      rintro k hk _ ha rfl
      obtain rfl : k = key a := List.mem_singleton.1 ha
      exact h hk⟩

theorem mem_insert_of_mem {table : Keyed key} {a b : α} (h : b ∈ table.rows) :
    b ∈ (table.insert a).rows := by
  unfold insert
  split_ifs
  · exact h
  · exact List.mem_append_left _ h

theorem mem_insert_cases {table : Keyed key} {a b : α} (h : b ∈ (table.insert a).rows) :
    b ∈ table.rows ∨ b = a := by
  unfold insert at h
  split_ifs at h
  · exact Or.inl h
  · simpa using h

def find? (table : Keyed key) (k : κ) : Option α := table.rows.find? fun a => key a = k

theorem of_find? {table : Keyed key} {k : κ} {a : α} (h : table.find? k = some a) :
    a ∈ table.rows ∧ key a = k := by
  unfold find? at h
  have hkey := List.find?_some h
  exact ⟨List.mem_of_find?_eq_some h, of_decide_eq_true hkey⟩

/-- The row that is there is the one that is found. -/
theorem find?_of_mem {table : Keyed key} {a : α} (h : a ∈ table.rows) :
    table.find? (key a) = some a := by
  have found : (table.find? (key a)).isSome = true :=
    List.find?_isSome.2 ⟨a, h, decide_eq_true rfl⟩
  obtain ⟨b, hb⟩ := Option.isSome_iff_exists.1 found
  obtain ⟨hmem, hkey⟩ := of_find? hb
  rw [hb, table.eq_of_mem hmem h hkey]

theorem find?_ne_none {table : Keyed key} {k : κ} :
    table.find? k ≠ none ↔ ∃ a ∈ table.rows, key a = k := by
  constructor
  · intro h
    obtain ⟨a, ha⟩ := Option.ne_none_iff_exists'.1 h
    exact ⟨a, of_find? ha⟩
  · rintro ⟨a, ha, rfl⟩
    rw [find?_of_mem ha]
    exact Option.some_ne_none a

theorem find?_modify {table : Keyed key} {k : κ} {f : α → α} (same : ∀ a, key (f a) = key a)
    (k' : κ) : (table.modify k f same).find? k' =
      (table.find? k').map fun a => if key a = k then f a else a := by
  have hkey : ∀ a, key (if key a = k then f a else a) = key a := by
    intro a
    split_ifs
    · exact same a
    · rfl
  simp only [find?, modify, List.find?_map]
  congr 2
  funext a
  simp only [Function.comp_apply, hkey]

theorem find?_map {table : Keyed key} {f : α → α} (same : ∀ a, key (f a) = key a) (k : κ) :
    (table.map f same).find? k = (table.find? k).map f := by
  simp only [find?, map, List.find?_map]
  congr 2
  funext a
  simp only [Function.comp_apply, same]

/-- The row that is changed. -/
theorem find?_modify_self {table : Keyed key} {k : κ} {f : α → α}
    (same : ∀ a, key (f a) = key a) :
    (table.modify k f same).find? k = (table.find? k).map f := by
  rw [find?_modify]
  apply Option.map_congr
  intro a ha
  rw [if_pos (of_find? ha).2]

theorem find?_modify_of_ne {table : Keyed key} {k k' : κ} {f : α → α}
    (same : ∀ a, key (f a) = key a) (h : k' ≠ k) :
    (table.modify k f same).find? k' = table.find? k' := by
  rw [find?_modify]
  cases found : table.find? k' with
  | none => rfl
  | some a =>
    have hkey : key a ≠ k := (of_find? found).2 ▸ h
    rw [Option.map_some, if_neg hkey]

/-- An insertion leaves the rows that are there. -/
theorem find?_insert_of_mem {table : Keyed key} {a b : α} (h : b ∈ table.rows) :
    (table.insert a).find? (key b) = some b :=
  find?_of_mem (mem_insert_of_mem h)

theorem rows_insert {table : Keyed key} {a : α} (h : table.find? (key a) = none) :
    (table.insert a).rows = table.rows ++ [a] := by
  have absent : key a ∉ table.rows.map key := by
    intro hmem
    obtain ⟨b, hb, hkey⟩ := List.mem_map.1 hmem
    have found := find?_of_mem hb
    rw [hkey, h] at found
    cases found
  rw [insert, dif_neg absent]

theorem find?_insert {table : Keyed key} {a : α} (h : table.find? (key a) = none) (k : κ) :
    (table.insert a).find? k = if k = key a then some a else table.find? k := by
  simp only [find?, rows_insert h, List.find?_append]
  by_cases hk : k = key a
  · subst hk
    rw [find?] at h
    simp [h]
  · simp [hk, Ne.symm hk]

theorem insert_of_found {table : Keyed key} {a b : α} (h : table.find? (key a) = some b) :
    table.insert a = table := by
  obtain ⟨hmem, hkey⟩ := of_find? h
  rw [insert, dif_pos (List.mem_map.2 ⟨b, hmem, hkey⟩)]

def erase (table : Keyed key) (k : κ) : Keyed key where
  rows := table.rows.filter fun a => key a ≠ k
  nodup := table.nodup.sublist (List.filter_sublist.map key)

theorem mem_erase {table : Keyed key} {k : κ} {a : α} :
    a ∈ (table.erase k).rows ↔ a ∈ table.rows ∧ key a ≠ k := by
  simp [erase]

theorem find?_erase_self (table : Keyed key) (k : κ) : (table.erase k).find? k = none := by
  cases found : (table.erase k).find? k with
  | none => rfl
  | some a =>
    obtain ⟨hmem, hkey⟩ := of_find? found
    exact absurd hkey (mem_erase.1 hmem).2

theorem find?_erase_of_ne {table : Keyed key} {k k' : κ} (h : k' ≠ k) :
    (table.erase k).find? k' = table.find? k' := by
  simp only [find?, erase, List.find?_filter]
  congr 1
  funext a
  by_cases hk : key a = k'
  · simp [hk, h]
  · simp [hk]

/-- The row takes the place of the row with its key, or comes last if there is none. -/
def put (table : Keyed key) (a : α) : Keyed key :=
  if key a ∈ table.rows.map key then
    table.map (fun b => if key b = key a then a else b) (by intro b; split_ifs <;> simp [*])
  else table.insert a

theorem mem_put {table : Keyed key} {a b : α} :
    b ∈ (table.put a).rows ↔ b = a ∨ b ∈ table.rows ∧ key b ≠ key a := by
  unfold put
  split_ifs with present
  · simp only [map, List.mem_map]
    constructor
    · rintro ⟨c, hc, rfl⟩
      by_cases hkey : key c = key a
      · exact .inl (if_pos hkey)
      · rw [if_neg hkey]
        exact .inr ⟨hc, hkey⟩
    · rintro (rfl | ⟨hb, hkey⟩)
      · obtain ⟨c, hc, hkey⟩ := List.mem_map.1 present
        exact ⟨c, hc, if_pos hkey⟩
      · exact ⟨b, hb, if_neg hkey⟩
  · rw [insert, dif_neg present, List.mem_append, List.mem_singleton]
    constructor
    · rintro (hb | rfl)
      · exact .inr ⟨hb, fun hkey => present (hkey ▸ List.mem_map_of_mem hb)⟩
      · exact .inl rfl
    · rintro (rfl | ⟨hb, -⟩)
      · exact .inr rfl
      · exact .inl hb

theorem length_put_le (table : Keyed key) (a : α) :
    (table.put a).rows.length ≤ table.rows.length + 1 := by
  unfold put
  split_ifs with present
  · simp [map]
  · simp [insert, present]

theorem mem_foldl_erase {table : Keyed key} {ks : List κ} {a : α} :
    a ∈ (ks.foldl erase table).rows ↔ a ∈ table.rows ∧ key a ∉ ks := by
  induction ks generalizing table with
  | nil => simp
  | cons k ks ih =>
    rw [List.foldl_cons, ih, mem_erase]
    grind

/-!
## Indexing a list by a key

Rows are put into a table one after the other, so that of the rows with a key the last one is found.
The table has lost nothing exactly when no key is repeated.
-/

variable {β : Type*} {key' : β → κ}

theorem find?_put (table : Keyed key) (a : α) (k : κ) :
    (table.put a).find? k = if key a = k then some a else table.find? k := by
  by_cases hk : key a = k
  · subst hk
    rw [if_pos rfl]
    exact find?_of_mem (mem_put.2 (.inl rfl))
  · rw [if_neg hk]
    cases found : table.find? k with
    | some b =>
      obtain ⟨hb, rfl⟩ := of_find? found
      exact find?_of_mem (mem_put.2 (.inr ⟨hb, Ne.symm hk⟩))
    | none =>
      cases found' : (table.put a).find? k with
      | none => rfl
      | some b =>
        obtain ⟨hb, rfl⟩ := of_find? found'
        rcases mem_put.1 hb with rfl | ⟨hb, -⟩
        · exact absurd rfl hk
        · rw [find?_of_mem hb] at found
          cases found

def ofList (rows : List α) : Keyed key := rows.foldl put ⟨[], List.nodup_nil⟩

/-- The last row with the key is the one that is found. -/
theorem find?_ofList (rows : List α) (k : κ) :
    (ofList rows : Keyed key).find? k = (rows.filter fun a => key a = k).getLast? := by
  induction rows using List.reverseRecOn with
  | nil => rfl
  | append_singleton rows a ih =>
    rw [ofList, List.foldl_append, List.foldl_cons, List.foldl_nil, find?_put, ← ofList, ih,
      List.filter_append]
    by_cases hk : key a = k <;> simp [hk]

theorem mem_of_mem_ofList {rows : List α} {a : α} (h : a ∈ (ofList rows : Keyed key).rows) :
    a ∈ rows := by
  have found := find?_of_mem h
  rw [find?_ofList] at found
  exact (List.mem_filter.1 (List.mem_of_getLast? found)).1

variable (key) in
theorem exists_mem_ofList {rows : List α} {a : α} (h : a ∈ rows) :
    ∃ b ∈ (ofList rows : Keyed key).rows, key b = key a := by
  apply find?_ne_none.1
  rw [find?_ofList, Ne, List.getLast?_eq_none_iff]
  exact List.ne_nil_of_mem (List.mem_filter.2 ⟨h, by simp⟩)

variable (key) in
/-- The same keys, one time each. -/
theorem mem_keys_ofList {rows : List α} {k : κ} :
    k ∈ (ofList rows : Keyed key).rows.map key ↔ k ∈ rows.map key := by
  simp only [List.mem_map]
  constructor
  · rintro ⟨a, ha, rfl⟩
    exact ⟨a, mem_of_mem_ofList ha, rfl⟩
  · rintro ⟨a, ha, rfl⟩
    obtain ⟨b, hb, hkey⟩ := exists_mem_ofList key ha
    exact ⟨b, hb, hkey⟩

variable (key) in
theorem find?_ofList_ne_none {rows : List α} {k : κ} :
    (ofList rows : Keyed key).find? k ≠ none ↔ k ∈ rows.map key := by
  rw [find?_ne_none, ← mem_keys_ofList key, List.mem_map]

omit [DecidableEq κ] in
theorem nodup_filter (table : Keyed key) (p : α → Bool) :
    ((table.rows.filter p).map key).Nodup :=
  table.nodup.sublist (List.filter_sublist.map key)

variable (key) in
/-- The rows whose keys meet a condition have all been kept if and only if no such key is
repeated. -/
theorem filter_ofList_perm_iff {rows : List α} (q : κ → Bool) :
    ((ofList rows : Keyed key).rows.filter fun a => q (key a)).Perm
        (rows.filter fun a => q (key a)) ↔
      ((rows.filter fun a => q (key a)).map key).Nodup := by
  constructor
  · intro perm
    exact (perm.map key).nodup_iff.1 (nodup_filter _ _)
  · intro nodup
    refine (List.perm_ext_iff_of_nodup (nodup_filter _ _).of_map nodup.of_map).2 fun a => ?_
    simp only [List.mem_filter]
    constructor
    · exact fun ⟨ha, hq⟩ => ⟨mem_of_mem_ofList ha, hq⟩
    · rintro ⟨ha, hq⟩
      obtain ⟨b, hb, hkey⟩ := exists_mem_ofList key ha
      have same : b = a := by
        refine List.inj_on_of_nodup_map nodup ?_ ?_ hkey
        · exact List.mem_filter.2 ⟨mem_of_mem_ofList hb, by rw [hkey]; exact hq⟩
        · exact List.mem_filter.2 ⟨ha, hq⟩
      exact ⟨same ▸ hb, hq⟩

variable (key) in
/-- And if and only if they are still as many. -/
theorem length_filter_ofList_iff (q : κ → Bool) (rows : List α) :
    ((ofList rows : Keyed key).rows.filter fun a => q (key a)).length =
        (rows.filter fun a => q (key a)).length ↔
      ((rows.filter fun a => q (key a)).map key).Nodup := by
  constructor
  · intro hlength
    rw [← filter_ofList_perm_iff key q]
    have some_ : ((ofList rows : Keyed key).rows.filter fun a => q (key a)).Subperm
        (rows.filter fun a => q (key a)) := by
      apply List.subperm_of_subset (nodup_filter _ _).of_map
      intro a ha
      obtain ⟨hmem, hq⟩ := List.mem_filter.1 ha
      exact List.mem_filter.2 ⟨mem_of_mem_ofList hmem, hq⟩
    exact some_.perm_of_length_le (Nat.le_of_eq hlength.symm)
  · intro nodup
    exact ((filter_ofList_perm_iff key q).2 nodup).length_eq

/-- Rows with other keys do not matter. -/
theorem find?_ofList_filter {rows : List α} {k : κ} {q : κ → Bool} (hq : q k = true) :
    (ofList (rows.filter fun a => q (key a)) : Keyed key).find? k =
      (ofList rows : Keyed key).find? k := by
  rw [find?_ofList, find?_ofList, List.filter_filter]
  congr 1
  apply List.filter_congr
  intro a _
  rw [Bool.eq_iff_iff, Bool.and_eq_true, decide_eq_true_eq]
  exact ⟨And.left, fun hkey => ⟨hkey, hkey ▸ hq⟩⟩

/-- The rows of one table that certain keys of another find are the rows with such keys. -/
theorem filterMap_find?_perm (table : Keyed key) (table' : Keyed key') (q : κ → Bool)
    {p : β → Bool}
    (hp : ∀ b ∈ table'.rows, p b = true ↔ q (key' b) = true ∧ key' b ∈ table.rows.map key) :
    (table.rows.filterMap fun a => if q (key a) then table'.find? (key a) else none).Perm
      (table'.rows.filter p) := by
  have keys : (table.rows.filterMap fun a => if q (key a) then table'.find? (key a) else none).map
      key' = (table.rows.map key).filter fun k => q k && (table'.find? k).isSome := by
    induction table.rows with
    | nil => rfl
    | cons a rows ih =>
      rw [List.map_cons, List.filter_cons, List.filterMap_cons]
      by_cases hq : q (key a) = true
      · cases found : table'.find? (key a) with
        | none => simpa [hq] using ih
        | some b => simpa [hq, (of_find? found).2] using ih
      · simpa [hq] using ih
  have nodup := List.Nodup.of_map key' (keys ▸ table.nodup.filter _)
  refine (List.perm_ext_iff_of_nodup nodup (nodup_filter _ _).of_map).2 fun b => ?_
  simp only [List.mem_filterMap, List.mem_filter]
  constructor
  · rintro ⟨a, ha, found⟩
    split_ifs at found with hq
    obtain ⟨hb, hkey⟩ := of_find? found
    exact ⟨hb, (hp b hb).2 ⟨hkey ▸ hq, List.mem_map.2 ⟨a, ha, hkey.symm⟩⟩⟩
  · rintro ⟨hb, hpb⟩
    obtain ⟨hq, hmem⟩ := (hp b hb).1 hpb
    obtain ⟨a, ha, hkey⟩ := List.mem_map.1 hmem
    exact ⟨a, ha, by rw [hkey, if_pos hq]; exact find?_of_mem hb⟩

end Keyed
