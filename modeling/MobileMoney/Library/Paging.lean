import Mathlib.Data.List.Sort
import Mathlib.Order.Lattice
import Mathlib.Order.Nat
import Mathlib.Tactic.Common

/-!
# Keyset paging

Rows in descending order of their keys are read page by page. Each page but the last ends
with a cursor, made from its last row, and the next page starts with the greatest key below
the cursor. A cursor need not be the key it was made from, and there may be none.

Following the cursors reads every row once and in order exactly when each cursor separates
the last row of its page from the row after it.
-/

namespace Paging

variable {α κ : Type*} [LinearOrder κ] (key : α → κ) (cut : α → Option κ) (n : ℕ)

/-- The rows a cursor leaves to be read. -/
def pending (rows : List α) : Option κ → List α
  | none => rows
  | some c => rows.filter fun a => key a < c

/-- All pages from a cursor on, unless there are too many or a cursor is missing. -/
def follow (rows : List α) : ℕ → Option κ → Option (List α)
  | 0, _ => none
  | fuel + 1, cursor =>
    let rest := pending key rows cursor
    if rest.length ≤ n then some rest
    else
      ((rest.take n).getLast?.bind cut).bind fun next =>
        (follow rows fuel (some next)).map (rest.take n ++ ·)

/-- The cursor made before the row at `j` lies above its key and not above the key before. -/
def Separates (rows : List α) (j : ℕ) : Prop :=
  ∃ last next c, rows[j - 1]? = some last ∧ rows[j]? = some next ∧ cut last = some c ∧
    key next < c ∧ c ≤ key last

variable {key cut n} {rows : List α}

abbrev Descending (key : α → κ) (rows : List α) : Prop := rows.Pairwise fun a b => key b < key a

theorem pending_eq_drop (sorted : Descending key rows) {j : ℕ} {last next : α} {c : κ}
    (hlast : rows[j - 1]? = some last) (hj : 0 < j) (hnext : rows[j]? = some next)
    (below : key next < c) (above : c ≤ key last) : pending key rows (some c) = rows.drop j := by
  obtain ⟨hlt, rfl⟩ := List.getElem?_eq_some_iff.1 hlast
  obtain ⟨hlt', rfl⟩ := List.getElem?_eq_some_iff.1 hnext
  have earlier : (rows.take j).filter (fun a => key a < c) = [] := by
    rw [List.filter_eq_nil_iff]
    intro a ha
    obtain ⟨i, hi, rfl⟩ := List.mem_take_iff_getElem.1 ha
    have hle : key rows[j - 1] ≤ key rows[i] := by
      rcases Nat.lt_or_ge i (j - 1) with h | h
      · exact (List.pairwise_iff_getElem.1 sorted i (j - 1) _ _ h).le
      · exact le_of_eq (by congr 2; omega)
    simpa using above.trans hle
  have later : (rows.drop j).filter (fun a => key a < c) = rows.drop j := by
    rw [List.filter_eq_self]
    intro a ha
    obtain ⟨i, hi, rfl⟩ := List.mem_drop_iff_getElem.1 ha
    have hle : key rows[j + i] ≤ key rows[j] := by
      rcases Nat.eq_zero_or_pos i with rfl | h
      · exact le_rfl
      · exact (List.pairwise_iff_getElem.1 sorted j (j + i) _ _ (by omega)).le
    simpa using hle.trans_lt below
  have split : rows.filter (fun a => key a < c) =
      (rows.take j).filter (fun a => key a < c) ++ (rows.drop j).filter (fun a => key a < c) := by
    rw [← List.filter_append, List.take_append_drop]
  rw [pending, split, earlier, later, List.nil_append]

/-- The page from row `j` on ends with the row before the next page. -/
theorem getLast?_page {j : ℕ} (hn : 0 < n) (more : ¬ (rows.drop j).length ≤ n) :
    ((rows.drop j).take n).getLast? = rows[j + n - 1]? := by
  rw [List.length_drop] at more
  rw [List.getLast?_eq_getElem?, List.length_take, List.length_drop,
    List.getElem?_take_of_lt (by omega), List.getElem?_drop]
  congr 1
  omega

theorem follow_last {j fuel : ℕ} {cursor : Option κ}
    (left : pending key rows cursor = rows.drop j) (last : (rows.drop j).length ≤ n) :
    follow key cut n rows (fuel + 1) cursor = some (rows.drop j) := by
  simp only [follow, left, if_pos last]

/-- One page with another one after it. -/
theorem follow_more (hn : 0 < n) {j fuel : ℕ} {cursor : Option κ}
    (left : pending key rows cursor = rows.drop j) (more : ¬ (rows.drop j).length ≤ n) :
    follow key cut n rows (fuel + 1) cursor = (rows[j + n - 1]?.bind cut).bind fun next =>
      (follow key cut n rows fuel (some next)).map ((rows.drop j).take n ++ ·) := by
  simp only [follow, left, if_neg more, getLast?_page hn more]

/-- What is read starts with the greatest key that is left. -/
theorem head?_of_follow (hn : 0 < n) {fuel : ℕ} {cursor : Option κ} {result : List α}
    (h : follow key cut n rows fuel cursor = some result) :
    result.head? = (pending key rows cursor).head? := by
  cases fuel with
  | zero => cases h
  | succ fuel =>
    simp only [follow] at h
    split_ifs at h with hlast
    · rw [← Option.some.inj h]
    · simp only [Option.bind_eq_some_iff, Option.map_eq_some_iff] at h
      obtain ⟨_, -, later, -, rfl⟩ := h
      obtain ⟨first, rest, hpending⟩ := List.exists_cons_of_ne_nil
        (show pending key rows cursor ≠ [] by rintro hnil; simp [hnil] at hlast)
      obtain ⟨m, rfl⟩ := Nat.exists_eq_add_of_lt hn
      rw [hpending, Nat.zero_add, List.take_succ_cons]
      rfl

theorem follow_of_separates (sorted : Descending key rows) (hn : 0 < n) (j : ℕ)
    (separates : ∀ k, 0 < k → j + k * n < rows.length → Separates key cut rows (j + k * n))
    (fuel k : ℕ) {cursor : Option κ} (left : pending key rows cursor = rows.drop (j + k * n))
    (within : j + k * n ≤ rows.length) (enough : rows.length < j + (k + fuel) * n) :
    follow key cut n rows fuel cursor = some (rows.drop (j + k * n)) := by
  induction fuel generalizing k cursor with
  | zero =>
    rw [Nat.add_zero] at enough
    omega
  | succ fuel ih =>
    by_cases more : (rows.drop (j + k * n)).length ≤ n
    · exact follow_last left more
    · have next : j + (k + 1) * n = j + k * n + n := by rw [Nat.succ_mul, Nat.add_assoc]
      have hlt : j + (k + 1) * n < rows.length := by
        rw [List.length_drop] at more
        omega
      obtain ⟨last, _, c, hlast, hnext, hcut, below, above⟩ := separates (k + 1) k.succ_pos hlt
      have rest := pending_eq_drop sorted hlast (by omega) hnext below above
      have whole := List.take_append_drop n (rows.drop (j + k * n))
      rw [List.drop_drop, ← next] at whole
      rw [follow_more hn left more, ← next, hlast, Option.bind_some, hcut, Option.bind_some,
        ih (k + 1) rest hlt.le (by rwa [Nat.add_assoc, Nat.add_comm 1 fuel]), Option.map_some,
        whole]

/-- A cursor that leaves exactly the rows from `j` on separates the row before from them. -/
theorem separates_of_follow (sorted : Descending key rows) (hn : 0 < n) {j fuel : ℕ} {last : α}
    {c : κ} (hj : 0 < j) (hlt : j < rows.length) (hlast : rows[j - 1]? = some last)
    (hcut : cut last = some c) (h : follow key cut n rows fuel (some c) = some (rows.drop j)) :
    Separates key cut rows j := by
  obtain ⟨hlt', rfl⟩ := List.getElem?_eq_some_iff.1 hlast
  have head : (pending key rows (some c)).head? = some rows[j] := by
    rw [← head?_of_follow hn h, List.head?_drop, List.getElem?_eq_getElem hlt]
  obtain ⟨rest, hpending⟩ := List.head?_eq_some_iff.1 head
  have mem : rows[j] ∈ pending key rows (some c) := by
    rw [hpending]
    exact List.mem_cons_self
  have below : key rows[j] < c := by simpa using (List.mem_filter.1 mem).2
  refine ⟨rows[j - 1], rows[j], c, hlast, List.getElem?_eq_getElem hlt, hcut, below, ?_⟩
  -- a row before could not be left out of what is below the cursor
  by_contra hnot
  have before : key rows[j] < key rows[j - 1] :=
    List.pairwise_iff_getElem.1 sorted (j - 1) j hlt' hlt (by omega)
  have left : rows[j - 1] ∈ pending key rows (some c) :=
    List.mem_filter.2 ⟨List.getElem_mem _, by simpa using not_le.1 hnot⟩
  have order : Descending key (pending key rows (some c)) :=
    sorted.sublist List.filter_sublist
  rw [hpending] at left order
  rcases List.mem_cons.1 left with same | later
  · rw [same] at before
    exact lt_irrefl _ before
  · exact lt_asymm before ((List.pairwise_cons.1 order).1 _ later)

theorem separates_of_follow_run (sorted : Descending key rows) (hn : 0 < n) (j fuel k : ℕ)
    {cursor : Option κ} (left : pending key rows cursor = rows.drop (j + k * n))
    (h : follow key cut n rows fuel cursor = some (rows.drop (j + k * n))) :
    ∀ k', k < k' → j + k' * n < rows.length → Separates key cut rows (j + k' * n) := by
  induction fuel generalizing k cursor with
  | zero => cases h
  | succ fuel ih =>
    intro k' hk' hlt
    have next : j + (k + 1) * n = j + k * n + n := by rw [Nat.succ_mul, Nat.add_assoc]
    have hle : (k + 1) * n ≤ k' * n := Nat.mul_le_mul_right n hk'
    have more : ¬ (rows.drop (j + k * n)).length ≤ n := by
      rw [List.length_drop]
      omega
    rw [follow_more hn left more, ← next] at h
    simp only [Option.bind_eq_some_iff, Option.map_eq_some_iff] at h
    obtain ⟨c, ⟨last, hlast, hcut⟩, later, hfollow, happend⟩ := h
    have rest : later = rows.drop (j + (k + 1) * n) := by
      have whole := List.take_append_drop n (rows.drop (j + k * n))
      rw [List.drop_drop, ← next] at whole
      exact List.append_cancel_left (happend.trans whole.symm)
    rw [rest] at hfollow
    have first : Separates key cut rows (j + (k + 1) * n) :=
      separates_of_follow sorted hn (by omega) (by omega) hlast hcut hfollow
    rcases Nat.lt_or_ge (k + 1) k' with hlater | hsame
    · obtain ⟨_, _, c', hlast', hnext, hcut', below, above⟩ := first
      obtain rfl := Option.some.inj (hlast.symm.trans hlast')
      obtain rfl := Option.some.inj (hcut.symm.trans hcut')
      exact ih (k + 1) (pending_eq_drop sorted hlast (by omega) hnext below above) hfollow k'
        hlater hlt
    · obtain rfl : k' = k + 1 := by omega
      exact first

/-- From row `j` on, every row is read once and in order exactly when the cursors separate the
pages. -/
theorem follow_eq_drop_iff (sorted : Descending key rows) (hn : 0 < n) {j : ℕ}
    {cursor : Option κ} (start : pending key rows cursor = rows.drop j) (within : j ≤ rows.length) :
    (∃ fuel, follow key cut n rows fuel cursor = some (rows.drop j)) ↔
      ∀ k, 0 < k → j + k * n < rows.length → Separates key cut rows (j + k * n) := by
  have first : pending key rows cursor = rows.drop (j + 0 * n) := by rwa [Nat.zero_mul]
  constructor
  · rintro ⟨fuel, h⟩ k hk hlt
    refine separates_of_follow_run sorted hn j fuel 0 first ?_ k hk hlt
    rwa [Nat.zero_mul]
  · intro separates
    refine ⟨rows.length + 1, ?_⟩
    have h := follow_of_separates sorted hn j separates (rows.length + 1) 0 first (by omega)
      (by
        rw [Nat.zero_add]
        have := Nat.le_mul_of_pos_right (rows.length + 1) hn
        omega)
    rwa [Nat.zero_mul] at h

/-- Every row is read once and in order exactly when the cursors separate the pages. -/
theorem follow_eq_rows_iff (sorted : Descending key rows) (hn : 0 < n) :
    (∃ fuel, follow key cut n rows fuel none = some rows) ↔
      ∀ k, 0 < k → k * n < rows.length → Separates key cut rows (k * n) := by
  have h : (∃ fuel, follow key cut n rows fuel none = some (rows.drop 0)) ↔
      ∀ k, 0 < k → 0 + k * n < rows.length → Separates key cut rows (0 + k * n) :=
    follow_eq_drop_iff sorted hn rfl (Nat.zero_le _)
  simpa only [Nat.zero_add, List.drop_zero] using h

/-- What a cursor leaves are the last rows. -/
theorem exists_pending_eq_drop (sorted : Descending key rows) (c : κ) :
    ∃ j ≤ rows.length, pending key rows (some c) = rows.drop j := by
  induction rows with
  | nil => exact ⟨0, le_rfl, rfl⟩
  | cons a rows ih =>
    obtain ⟨below, sorted⟩ := List.pairwise_cons.1 sorted
    by_cases h : key a < c
    · refine ⟨0, Nat.zero_le _, List.filter_eq_self.2 fun b hb => ?_⟩
      rcases List.mem_cons.1 hb with rfl | hb
      · exact decide_eq_true h
      · exact decide_eq_true ((below b hb).trans h)
    · obtain ⟨j, hj, hpending⟩ := ih sorted
      refine ⟨j + 1, Nat.succ_le_succ hj, ?_⟩
      rw [pending, List.filter_cons_of_neg (by simpa using h), List.drop_succ_cons, ← hpending]
      rfl

/-- Cursors that are the keys they were made from lose no row. -/
theorem separates_of_cut_eq_key (sorted : Descending key rows)
    (exact : ∀ a ∈ rows, cut a = some (key a)) {j : ℕ} (hj : 0 < j) (hlt : j < rows.length) :
    Separates key cut rows j := by
  have hlt' : j - 1 < rows.length := by omega
  refine ⟨rows[j - 1], rows[j], key rows[j - 1], List.getElem?_eq_getElem hlt',
    List.getElem?_eq_getElem hlt, exact _ (List.getElem_mem _), ?_, le_rfl⟩
  exact List.pairwise_iff_getElem.1 sorted (j - 1) j hlt' hlt (by omega)

/-! ## Readers -/

section Readers

variable {C : Type*} {Page : C → List α → Option C → Prop} {Opens : C → κ → Prop}

/-- A reader asks for the page of a cursor and goes on with the cursor that comes with it. -/
inductive Reads (Page : C → List α → Option C → Prop) : C → List α → Prop
  | last {c data} : Page c data none → Reads Page c data
  | next {c c' data rest} : Page c data (some c') → Reads Page c' rest → Reads Page c (data ++ rest)

variable (key cut n rows Page Opens) in
/-- The page of a cursor that opens at a place is the next one from there, and its cursor opens at
the place made from its last row. -/
structure Serves : Prop where
  last : ∀ {c k data next}, Opens c k → (pending key rows (some k)).length ≤ n →
    (Page c data next ↔ data = pending key rows (some k) ∧ next = none)
  more : ∀ {c k}, Opens c k → ¬ (pending key rows (some k)).length ≤ n → ∃ c' k', Opens c' k' ∧
    ((pending key rows (some k)).take n).getLast?.bind cut = some k' ∧
    ∀ data next, Page c data next ↔ data = (pending key rows (some k)).take n ∧ next = some c'

theorem follow_of_reads (serves : Serves key cut n rows Page Opens) {c : C} {result : List α}
    (h : Reads Page c result) {k : κ} (opens : Opens c k) :
    ∃ fuel, follow key cut n rows fuel (some k) = some result := by
  induction h generalizing k with
  | last page =>
    by_cases few : (pending key rows (some k)).length ≤ n
    · obtain ⟨rfl, -⟩ := (serves.last opens few).1 page
      exact ⟨1, by simp [follow, few]⟩
    · obtain ⟨c', k', -, -, hpage⟩ := serves.more opens few
      cases ((hpage _ _).1 page).2
  | next page _ ih =>
    by_cases few : (pending key rows (some k)).length ≤ n
    · cases ((serves.last opens few).1 page).2
    · obtain ⟨c', k', opens', hcut, hpage⟩ := serves.more opens few
      obtain ⟨rfl, hnext⟩ := (hpage _ _).1 page
      cases hnext
      obtain ⟨fuel, hfollow⟩ := ih opens'
      exact ⟨fuel + 1, by simp [follow, few, hcut, hfollow]⟩

theorem reads_of_follow (serves : Serves key cut n rows Page Opens) {fuel : ℕ} {c : C} {k : κ}
    (opens : Opens c k) {result : List α}
    (h : follow key cut n rows fuel (some k) = some result) : Reads Page c result := by
  induction fuel generalizing c k result with
  | zero => cases h
  | succ fuel ih =>
    by_cases few : (pending key rows (some k)).length ≤ n
    · rw [follow, if_pos few] at h
      cases h
      exact .last ((serves.last opens few).2 ⟨rfl, rfl⟩)
    · obtain ⟨c', k', opens', hcut, hpage⟩ := serves.more opens few
      rw [follow, if_neg few, hcut, Option.bind_some, Option.map_eq_some_iff] at h
      obtain ⟨rest, hrest, rfl⟩ := h
      exact .next ((hpage _ _).2 ⟨rfl, rfl⟩) (ih opens' hrest)

/-- What a cursor leaves is read, once and in order, exactly when the cursors separate the pages. -/
theorem reads_pending_iff (serves : Serves key cut n rows Page Opens)
    (sorted : Descending key rows) (hn : 0 < n) {c : C} {k : κ} (opens : Opens c k) {j : ℕ}
    (start : pending key rows (some k) = rows.drop j) (within : j ≤ rows.length) :
    Reads Page c (rows.drop j) ↔
      ∀ k, 0 < k → j + k * n < rows.length → Separates key cut rows (j + k * n) := by
  rw [← follow_eq_drop_iff sorted hn start within]
  constructor
  · exact fun h => follow_of_reads serves h opens
  · rintro ⟨fuel, h⟩
    exact reads_of_follow serves opens h

end Readers

/-! ## Keys that are not distinct -/

section Ties

variable (key) in
/-- Any order of the rows with the greatest keys first. -/
structure Arranged (rows result : List α) : Prop where
  perm : result.Perm rows
  sorted : result.Pairwise fun a b => key b ≤ key a

variable {s s' : List α}

/-- However the ties are broken, the keys are in one order. -/
theorem Arranged.keys_eq (h : Arranged key rows s) (h' : Arranged key rows s') :
    s.map key = s'.map key :=
  List.Perm.eq_of_sortedGE (List.pairwise_map.2 h.sorted).sortedGE
    (List.pairwise_map.2 h'.sorted).sortedGE ((h.perm.trans h'.perm.symm).map key)

/-- Without ties there is one order. -/
theorem Arranged.eq (h : Arranged key rows s) (h' : Arranged key rows s')
    (nodup : (rows.map key).Nodup) : s = s' := by
  refine List.Perm.eq_of_pairwise (fun a b ha hb hba hab => ?_) h.sorted h'.sorted
    (h.perm.trans h'.perm.symm)
  exact List.inj_on_of_nodup_map nodup (h.perm.mem_iff.1 ha) (h'.perm.mem_iff.1 hb)
    (le_antisymm hab hba)

theorem Arranged.exists_iff (h : Arranged key rows s) (nodup : (rows.map key).Nodup)
    {p : List α → Prop} : (∃ s', Arranged key rows s' ∧ p s') ↔ p s := by
  constructor
  · rintro ⟨s', h', hp⟩
    rwa [h'.eq h nodup] at hp
  · intro hp
    exact ⟨s, h, hp⟩

theorem Arranged.descending (h : Arranged key rows s) (nodup : (rows.map key).Nodup) :
    Descending key s := by
  have distinct : (s.map key).Nodup := (h.perm.map key).nodup_iff.2 nodup
  exact (List.pairwise_and_iff.2 ⟨h.sorted, List.pairwise_map.1 distinct⟩).imp
    fun hab => lt_of_le_of_ne hab.1 (Ne.symm hab.2)

theorem Arranged.getElem?_key_eq (h : Arranged key rows s) (h' : Arranged key rows s') (i : ℕ) :
    s[i]?.map key = s'[i]?.map key := by
  rw [← List.getElem?_map, ← List.getElem?_map, h.keys_eq h']

theorem filter_lt_eq_drop (sorted : rows.Pairwise fun a b => key b ≤ key a) {j : ℕ} {last : α}
    (hlast : rows[j - 1]? = some last) (hj : 0 < j) (next : ∀ a ∈ rows[j]?, key a < key last) :
    rows.filter (fun a => key a < key last) = rows.drop j := by
  obtain ⟨hlt, rfl⟩ := List.getElem?_eq_some_iff.1 hlast
  have earlier : (rows.take j).filter (fun a => key a < key rows[j - 1]) = [] := by
    rw [List.filter_eq_nil_iff]
    intro a ha
    obtain ⟨i, hi, rfl⟩ := List.mem_take_iff_getElem.1 ha
    have hle : key rows[j - 1] ≤ key rows[i] := by
      rcases Nat.lt_or_ge i (j - 1) with h | h
      · exact List.pairwise_iff_getElem.1 sorted i (j - 1) _ _ h
      · exact le_of_eq (by congr 2; omega)
    simpa using hle
  have later : (rows.drop j).filter (fun a => key a < key rows[j - 1]) = rows.drop j := by
    rw [List.filter_eq_self]
    intro a ha
    obtain ⟨i, hi, rfl⟩ := List.mem_drop_iff_getElem.1 ha
    have below := next _ (List.getElem?_eq_getElem (by omega))
    have hle : key rows[j + i] ≤ key rows[j] := by
      rcases Nat.eq_zero_or_pos i with rfl | h
      · exact le_rfl
      · exact List.pairwise_iff_getElem.1 sorted j (j + i) _ _ (by omega)
    simpa using hle.trans_lt below
  have split : rows.filter (fun a => key a < key rows[j - 1]) =
      (rows.take j).filter (fun a => key a < key rows[j - 1]) ++
        (rows.drop j).filter fun a => key a < key rows[j - 1] := by
    rw [← List.filter_append, List.take_append_drop]
  rw [split, earlier, later, List.nil_append]

/-- The rows below the last one of the skipped rows are, in any order, those that are left. -/
theorem arranged_filter_iff (h : Arranged key rows s) {j : ℕ} {last : α}
    (hlast : s[j - 1]? = some last) (hj : 0 < j) (next : ∀ a ∈ s[j]?, key a < key last)
    (result : List α) : Arranged key (rows.filter fun a => key a < key last) result ↔
      ∃ s', Arranged key rows s' ∧ s'.drop j = result := by
  have left := filter_lt_eq_drop h.sorted hlast hj next
  obtain ⟨hlt, hget⟩ := List.getElem?_eq_some_iff.1 hlast
  constructor
  · intro h'
    have perm : result.Perm (s.drop j) := by
      rw [← left]
      exact h'.perm.trans (h.perm.symm.filter _)
    have split : s.take j ++ s.drop j = s := List.take_append_drop j s
    have length : (s.take j).length = j := by
      rw [List.length_take]
      omega
    refine ⟨s.take j ++ result, ⟨?_, ?_⟩, ?_⟩
    · have whole := List.Perm.append_left (s.take j) perm
      rw [split] at whole
      exact whole.trans h.perm
    · have sorted := h.sorted
      rw [← split, List.pairwise_append] at sorted
      exact List.pairwise_append.2 ⟨sorted.1, h'.sorted, fun a ha b hb =>
        sorted.2.2 a ha b (perm.subset hb)⟩
    · rw [List.drop_append, List.drop_eq_nil_of_le length.le, length, Nat.sub_self]
      rfl
  · rintro ⟨s', h', rfl⟩
    have sameLast := h'.getElem?_key_eq h (j - 1)
    rw [hlast, Option.map_some, Option.map_eq_some_iff] at sameLast
    obtain ⟨last', hlast', hkey⟩ := sameLast
    have left' : s'.filter (fun a => key a < key last) = s'.drop j := by
      rw [← hkey]
      refine filter_lt_eq_drop h'.sorted hlast' hj fun a ha => ?_
      have sameNext := h'.getElem?_key_eq h j
      rw [ha, Option.map_some, eq_comm, Option.map_eq_some_iff] at sameNext
      obtain ⟨b, hb, hab⟩ := sameNext
      rw [hkey, ← hab]
      exact next b hb
    rw [← left']
    exact ⟨h'.perm.filter _, h'.sorted.filter _⟩

end Ties

end Paging
