import MobileMoney.Library.EditDistance
import MobileMoney.Sanctions.Matching

/-!
# The edit distance of names

`levenshteinDistance` as it works in place on two rows, which are swapped after each unit of the
first string. Both it and the rows of the matching model compute the edit distance.
-/

namespace MobileMoney.Sanctions

open EditDistance

variable {s1 s2 : JsString}

/-! ## Two rows -/

namespace Rolling

/-- The arrays, whose slots are written before they are read. -/
structure Rows where
  previous : List ℕ
  current : List ℕ

/-- The first row, and an empty one. -/
def firstRows (len2 : ℕ) : Rows := ⟨List.range (len2 + 1), List.replicate (len2 + 1) 0⟩

def writeCell (s1 s2 : JsString) (i j : ℕ) (rows : Rows) : Rows :=
  let cost := if s1[i - 1]? = s2[j - 1]? then 0 else 1
  let cell := min (rows.previous.getD j 0 + 1)
    (min (rows.current.getD (j - 1) 0 + 1) (rows.previous.getD (j - 1) 0 + cost))
  { rows with current := rows.current.set j cell }

/-- The cells of row `i` up to the `j`-th. -/
def fillRow (s1 s2 : JsString) (i : ℕ) (rows : Rows) : ℕ → Rows
  | 0 => { rows with current := rows.current.set 0 i }
  | j + 1 => writeCell s1 s2 i (j + 1) (fillRow s1 s2 i rows j)

def swap (rows : Rows) : Rows := ⟨rows.current, rows.previous⟩

def rowsAfter (s1 s2 : JsString) : ℕ → Rows
  | 0 => firstRows s2.length
  | i + 1 => swap (fillRow s1 s2 (i + 1) (rowsAfter s1 s2 i) s2.length)

def levenshteinDistance (s1 s2 : JsString) : ℕ :=
  if s1.length = 0 then s2.length
  else if s2.length = 0 then s1.length
  else if s1 = s2 then 0
  else (rowsAfter s1 s2 s1.length).previous.getD s2.length 0

end Rolling

/-! ## The cells -/

/-- The distance of the first units of both strings. -/
def cell (s1 s2 : JsString) (i j : ℕ) : ℕ := distance (s1.take i).reverse (s2.take j).reverse

theorem cell_zero_left (s1 : JsString) {j : ℕ} (h : j ≤ s2.length) : cell s1 s2 0 j = j := by
  simp [cell, h]

theorem cell_zero_right (s2 : JsString) {i : ℕ} (h : i ≤ s1.length) : cell s1 s2 i 0 = i := by
  simp [cell, h]

theorem reverse_take_succ {s : JsString} {i : ℕ} (h : i < s.length) :
    (s.take (i + 1)).reverse = s[i] :: (s.take i).reverse := by
  rw [List.take_add_one, List.getElem?_eq_getElem h, List.reverse_append]
  rfl

theorem cell_succ {i j : ℕ} (hi : i < s1.length) (hj : j < s2.length) :
    cell s1 s2 (i + 1) (j + 1) = min (cell s1 s2 i (j + 1) + 1)
      (min (cell s1 s2 (i + 1) j + 1)
        (cell s1 s2 i j + if s1[i]? = s2[j]? then 0 else 1)) := by
  simp only [cell, reverse_take_succ hi, reverse_take_succ hj, distance_cons_cons,
    List.getElem?_eq_getElem hi, List.getElem?_eq_getElem hj, Option.some.injEq]

theorem cell_length (s1 s2 : JsString) : cell s1 s2 s1.length s2.length = distance s1 s2 := by
  simp only [cell, List.take_length, distance_reverse]

namespace Rolling

/-! ## The loops -/

/-- A row of the table up to the `j`-th cell. -/
def Holds (s1 s2 : JsString) (i j : ℕ) (row : List ℕ) : Prop :=
  row.length = s2.length + 1 ∧ ∀ k ≤ j, row.getD k 0 = cell s1 s2 i k

@[simp] theorem previous_fillRow (i : ℕ) (rows : Rows) (j : ℕ) :
    (fillRow s1 s2 i rows j).previous = rows.previous := by
  induction j with
  | zero => rfl
  | succ j ih => exact ih

theorem getD_set {row : List ℕ} {j : ℕ} (h : j < row.length) (x k : ℕ) :
    (row.set j x).getD k 0 = if k = j then x else row.getD k 0 := by
  grind

/-- The inner loop: a cell is made from three that hold already. -/
theorem fillRow_holds {i : ℕ} {rows : Rows} (hi : i < s1.length)
    (previous : Holds s1 s2 i s2.length rows.previous)
    (current : rows.current.length = s2.length + 1) {j : ℕ} (hj : j ≤ s2.length) :
    Holds s1 s2 (i + 1) j (fillRow s1 s2 (i + 1) rows j).current := by
  induction j with
  | zero =>
    refine ⟨by simpa [fillRow] using current, fun k hk => ?_⟩
    obtain rfl := Nat.le_zero.1 hk
    rw [fillRow, getD_set (by omega), if_pos rfl, cell_zero_right s2 hi]
  | succ j ih =>
    obtain ⟨length, filled⟩ := ih (by omega)
    refine ⟨by simpa [fillRow, writeCell] using length, fun k hk => ?_⟩
    simp only [fillRow, writeCell, previous_fillRow, Nat.add_sub_cancel]
    rw [getD_set (by omega), previous.2 (j + 1) hj, previous.2 j (by omega), filled j le_rfl,
      ← cell_succ hi hj]
    split_ifs with hkj
    · rw [hkj]
    · exact filled k (by omega)

/-- The outer loop: after each swap the upper row is that of the units seen. -/
theorem rowsAfter_holds {i : ℕ} (hi : i ≤ s1.length) :
    Holds s1 s2 i s2.length (rowsAfter s1 s2 i).previous ∧
      (rowsAfter s1 s2 i).current.length = s2.length + 1 := by
  induction i with
  | zero =>
    refine ⟨⟨by simp [rowsAfter, firstRows], fun k hk => ?_⟩, by simp [rowsAfter, firstRows]⟩
    rw [cell_zero_left s1 hk]
    simp only [rowsAfter, firstRows]
    grind
  | succ i ih =>
    obtain ⟨previous, current⟩ := ih (by omega)
    refine ⟨fillRow_holds (by omega) previous current le_rfl, ?_⟩
    simpa [rowsAfter, swap] using previous.1

theorem levenshteinDistance_eq (s1 s2 : JsString) : levenshteinDistance s1 s2 = distance s1 s2 := by
  unfold levenshteinDistance
  split_ifs with h1 h2 heq
  · rw [List.length_eq_zero_iff.1 h1, distance_nil_left]
  · rw [List.length_eq_zero_iff.1 h2, distance_nil_right]
  · exact (distance_eq_zero_iff.2 heq).symm
  · rw [(rowsAfter_holds le_rfl).1.2 s2.length le_rfl, cell_length]

/-- For all strings: the least number of edits, which is symmetric, zero on equal strings only, and
satisfies the triangle inequality. -/
theorem levenshteinDistance_isLeast :
    (∀ s1 s2 : JsString, IsLeast {n | Edits n s1 s2} (levenshteinDistance s1 s2)) ∧
      (∀ s1 s2, levenshteinDistance s1 s2 = levenshteinDistance s2 s1) ∧
      (∀ s1 s2, levenshteinDistance s1 s2 = 0 ↔ s1 = s2) ∧
      ∀ s1 s2 s3,
        levenshteinDistance s1 s3 ≤ levenshteinDistance s1 s2 + levenshteinDistance s2 s3 := by
  simp only [levenshteinDistance_eq]
  exact ⟨distance_isLeast, distance_comm, fun _ _ => distance_eq_zero_iff, distance_triangle⟩

end Rolling

/-! ## The rows of the matching model -/

/-- The cells from one column on. -/
def cellsFrom (p : JsString) : JsString → JsString → List ℕ
  | q, [] => [distance p q]
  | q, d :: rest => distance p q :: cellsFrom p (d :: q) rest

theorem nextCells_cellsFrom (c : UInt16) (p q rest : JsString) :
    distance (c :: p) q :: nextCells c rest (cellsFrom p q rest) (distance (c :: p) q) =
      cellsFrom (c :: p) q rest := by
  induction rest generalizing q with
  | nil => simp [cellsFrom, nextCells]
  | cons d rest ih =>
    have head : cellsFrom p (d :: q) rest =
        distance p (d :: q) :: (cellsFrom p (d :: q) rest).tail := by
      cases rest <;> rfl
    rw [cellsFrom, cellsFrom, ← ih, head, nextCells, ← distance_cons_cons, ← head]

theorem lastRow_cellsFrom (s2 s1 p : JsString) :
    lastRow s2 s1 (p.length + 1) (cellsFrom p [] s2) = cellsFrom (s1.reverse ++ p) [] s2 := by
  induction s1 generalizing p with
  | nil => rfl
  | cons c s1 ih =>
    have first := nextCells_cellsFrom c p [] s2
    rw [distance_nil_right, List.length_cons] at first
    rw [lastRow, first, ← List.length_cons, ih, List.reverse_cons, List.append_assoc]
    rfl

theorem getLastD_cellsFrom (p q rest : JsString) :
    (cellsFrom p q rest).getLastD 0 = distance p (rest.reverse ++ q) := by
  induction rest generalizing q with
  | nil => rfl
  | cons d rest ih =>
    have := ih (d :: q)
    cases rest <;> simp_all [cellsFrom]

theorem cellsFrom_nil (q rest : JsString) :
    cellsFrom [] q rest = List.range' q.length (rest.length + 1) := by
  induction rest generalizing q with
  | nil => simp [cellsFrom]
  | cons d rest ih => rw [cellsFrom, ih, distance_nil_left, List.length_cons, List.range'_succ]; rfl

/-- What the scores are made of is what the two rows compute. -/
theorem levenshteinDistance_eq_rolling (s1 s2 : JsString) :
    levenshteinDistance s1 s2 = Rolling.levenshteinDistance s1 s2 := by
  have table : (lastRow s2 s1 1 (List.range (s2.length + 1))).getLastD 0 = distance s1 s2 := by
    have rows := lastRow_cellsFrom s2 s1 []
    rw [cellsFrom_nil, List.length_nil, ← List.range_eq_range'] at rows
    rw [rows, getLastD_cellsFrom, List.append_nil, List.append_nil, distance_reverse]
  rw [Rolling.levenshteinDistance_eq, levenshteinDistance, table]
  split_ifs with h1 h2 heq
  · rw [List.length_eq_zero_iff.1 h1, distance_nil_left]
  · rw [List.length_eq_zero_iff.1 h2, distance_nil_right]
  · exact (distance_eq_zero_iff.2 heq).symm
  · rfl

end MobileMoney.Sanctions
