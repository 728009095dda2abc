import Mathlib.Data.Int.ConditionallyCompleteOrder
import Mathlib.Data.Prod.Lex
import Mathlib.Data.Rat.Defs
import Mathlib.Order.ConditionallyCompleteLattice.Basic
import Mathlib.Order.WithBot
import MobileMoney.Library.Paging

/-!
# Listing transactions

`list` of `models/transaction.ts`. Behind an offset the rows are not skipped: the last row that
would be is looked up, and what is listed are the rows below it. The database may put rows with the
same creation time and id in any order, and a row without a creation time comes first.
-/

namespace MobileMoney.Transactions

/-- A row of the table as far as it is filtered and ordered by. -/
structure ListedRow where
  id : ℕ
  createdAt : Option ℤ
  userId : Option String
  amount : ℚ
  provider : String
  referenceNumber : String
  status : String
  tags : Option (List String)
  deriving DecidableEq

/-- An amount that is not finite counts as none. -/
structure TransactionListFilters where
  userId : Option String
  minAmount : Option ℚ
  maxAmount : Option ℚ
  provider : Option String
  tags : List String
  referenceNumber : Option String
  statuses : List String

structure TransactionCursorOptions where
  before : Option String
  after : Option String

/-- What the language does with texts. -/
structure Texts where
  trim : String → String
  startOfDay : String → ℤ
  normalizeEndDate : String → ℤ
  decodeTransactionCursor : String → Except String (ℤ × ℕ)

inductive Condition where
  | userId (value : String)
  | createdFrom (value : ℤ)
  | createdTo (value : ℤ)
  | amountFrom (value : ℚ)
  | amountTo (value : ℚ)
  | provider (value : String)
  | referenceNumber (value : String)
  | status (values : List String)
  | tags (values : List String)

/-- A comparison with `NULL` does not hold. -/
def Condition.Holds (row : ListedRow) : Condition → Prop
  | .userId value => row.userId = some value
  | .createdFrom value => ∃ time ∈ row.createdAt, value ≤ time
  | .createdTo value => ∃ time ∈ row.createdAt, time ≤ value
  | .amountFrom value => value ≤ row.amount
  | .amountTo value => row.amount ≤ value
  | .provider value => row.provider = value
  | .referenceNumber value => row.referenceNumber = value
  | .status values => row.status ∈ values
  | .tags values => ∃ tags ∈ row.tags, ∀ tag ∈ values, tag ∈ tags

instance (row : ListedRow) : DecidablePred (Condition.Holds row) := fun condition =>
  match condition with
  | .userId value => inferInstanceAs (Decidable (row.userId = some value))
  | .createdFrom value => inferInstanceAs (Decidable (∃ time ∈ row.createdAt, value ≤ time))
  | .createdTo value => inferInstanceAs (Decidable (∃ time ∈ row.createdAt, time ≤ value))
  | .amountFrom value => inferInstanceAs (Decidable (value ≤ row.amount))
  | .amountTo value => inferInstanceAs (Decidable (row.amount ≤ value))
  | .provider value => inferInstanceAs (Decidable (row.provider = value))
  | .referenceNumber value => inferInstanceAs (Decidable (row.referenceNumber = value))
  | .status values => inferInstanceAs (Decidable (row.status ∈ values))
  | .tags values => inferInstanceAs (Decidable (∃ tags ∈ row.tags, ∀ tag ∈ values, tag ∈ tags))

variable (texts : Texts) (startDate endDate : Option String) (filters : TransactionListFilters)

/-- A text that is given and not empty. -/
def given (text : Option String) : Option String := text.filter (· ≠ "")

def buildListWhere : List Condition :=
  ((given filters.userId).map Condition.userId).toList ++
    ((given startDate).map fun date => Condition.createdFrom (texts.startOfDay date)).toList ++
    ((given endDate).map fun date => Condition.createdTo (texts.normalizeEndDate date)).toList ++
    (filters.minAmount.map Condition.amountFrom).toList ++
    (filters.maxAmount.map Condition.amountTo).toList ++
    ((given filters.provider).map Condition.provider).toList ++
    ((given ((given filters.referenceNumber).map texts.trim)).map
      Condition.referenceNumber).toList ++
    (if filters.statuses = [] then [] else [Condition.status filters.statuses]) ++
    (if filters.tags = [] then [] else [Condition.tags filters.tags])

/-- `WHERE` of the conditions. -/
def selected (conditions : List Condition) (table : List ListedRow) : List ListedRow :=
  table.filter fun row => ∀ condition ∈ conditions, condition.Holds row

/-- What rows are ordered by. A missing creation time counts as the greatest. -/
def ListedRow.key (row : ListedRow) : WithTop ℤ ×ₗ ℕ := toLex (row.createdAt.elim ⊤ (↑), row.id)

/-- `(created_at, id) < (createdAt, id)`, which does not hold when a time is missing. -/
def ListedRow.Below (row : ListedRow) (createdAt : Option ℤ) (id : ℕ) : Prop :=
  ∃ time ∈ row.createdAt, ∃ bound ∈ createdAt, time < bound ∨ time = bound ∧ row.id < id

/-- `(created_at, id) > (createdAt, id)`. -/
def ListedRow.Above (row : ListedRow) (createdAt : Option ℤ) (id : ℕ) : Prop :=
  ∃ time ∈ row.createdAt, ∃ bound ∈ createdAt, bound < time ∨ time = bound ∧ id < row.id

instance (row : ListedRow) (createdAt : Option ℤ) (id : ℕ) : Decidable (row.Below createdAt id) :=
  inferInstanceAs (Decidable (∃ time ∈ row.createdAt, ∃ bound ∈ createdAt, _))

instance (row : ListedRow) (createdAt : Option ℤ) (id : ℕ) : Decidable (row.Above createdAt id) :=
  inferInstanceAs (Decidable (∃ time ∈ row.createdAt, ∃ bound ∈ createdAt, _))

/-- `EXISTS (SELECT 1 FROM anchor) AND (created_at, id) < (SELECT created_at, id FROM anchor)`. -/
def BelowAnchor (anchor : Option ListedRow) (row : ListedRow) : Prop :=
  ∃ found ∈ anchor, row.Below found.createdAt found.id

instance (anchor : Option ListedRow) : DecidablePred (BelowAnchor anchor) := fun row =>
  inferInstanceAs (Decidable (∃ found ∈ anchor, row.Below found.createdAt found.id))

open Paging

/-- What `ORDER BY created_at DESC, id DESC LIMIT limit OFFSET offset` may return. -/
def Listed (rows : List ListedRow) (offset limit : ℕ) (result : List ListedRow) : Prop :=
  ∃ s, Arranged ListedRow.key rows s ∧ result = (s.drop offset).take limit

/-- What may be returned from the anchor on, which is looked up in an order of its own. -/
def FromAnchor (rows : List ListedRow) (offset limit : ℕ) (result : List ListedRow) : Prop :=
  ∃ s, Arranged ListedRow.key rows s ∧
    Listed (rows.filter fun row => BelowAnchor s[offset - 1]? row) 0 limit result

/-- What may be returned from a cursor on, backwards if it comes before. -/
def FromCursor (rows : List ListedRow) (after : Bool) (cursor : ℤ × ℕ) (limit : ℕ)
    (result : List ListedRow) : Prop :=
  if after then
    Listed (rows.filter fun row => row.Below (some cursor.1) cursor.2) 0 limit result
  else
    ∃ s, Arranged (fun row => OrderDual.toDual row.key)
      (rows.filter fun row => row.Above (some cursor.1) cursor.2) s ∧ result = s.take limit

def cappedLimit (limit : ℤ) : ℕ := (min (max limit 1) 1000).toNat

def safeOffset (offset : ℤ) : ℕ := (max offset 0).toNat

/-- What `list` may return. -/
def MayList (table : List ListedRow) (limit offset : ℤ) (cursorOptions : TransactionCursorOptions)
    (outcome : Except String (List ListedRow)) : Prop :=
  let rows := selected (buildListWhere texts startDate endDate filters) table
  match given cursorOptions.before, given cursorOptions.after with
  | some _, some _ => outcome = .error "Use either before or after cursor, not both"
  | none, some cursor =>
    match texts.decodeTransactionCursor cursor with
    | .error e => outcome = .error e
    | .ok decoded =>
      ∃ result, outcome = .ok result ∧ FromCursor rows true decoded (cappedLimit limit) result
  | some cursor, none =>
    match texts.decodeTransactionCursor cursor with
    | .error e => outcome = .error e
    | .ok decoded =>
      ∃ result, outcome = .ok result ∧ FromCursor rows false decoded (cappedLimit limit) result
  | none, none =>
    ∃ result, outcome = .ok result ∧
      if 0 < safeOffset offset then FromAnchor rows (safeOffset offset) (cappedLimit limit) result
      else Listed rows 0 (cappedLimit limit) result

/-! ## The anchor and the offset -/

/-- The first row behind the offset, if there is one, comes after a row with a creation time and
another key. -/
def Separated (rows : List ListedRow) (offset : ℕ) : Prop :=
  ∀ s, Arranged ListedRow.key rows s → ∀ next ∈ s[offset]?,
    ∃ last ∈ s[offset - 1]?, last.createdAt ≠ none ∧ next.key ≠ last.key

variable {rows s : List ListedRow} {offset limit : ℕ}

theorem key_top_iff {row : ListedRow} : (ofLex row.key).1 = ⊤ ↔ row.createdAt = none := by
  unfold ListedRow.key
  cases row.createdAt <;> simp

theorem below_iff_lt {row anchor : ListedRow} (h : anchor.createdAt ≠ none) :
    row.Below anchor.createdAt anchor.id ↔ row.key < anchor.key := by
  obtain ⟨bound, hbound⟩ := Option.ne_none_iff_exists'.1 h
  unfold ListedRow.Below ListedRow.key
  rw [hbound, Prod.Lex.toLex_lt_toLex]
  cases row.createdAt with
  | none => simp
  | some time => simp

theorem not_below_of_none {row anchor : ListedRow} (h : anchor.createdAt = none) :
    ¬ row.Below anchor.createdAt anchor.id := by
  rintro ⟨_, -, _, hbound, -⟩
  rw [h] at hbound
  cases hbound

theorem belowAnchor_some {row anchor : ListedRow} (h : anchor.createdAt ≠ none) :
    BelowAnchor (some anchor) row ↔ row.key < anchor.key := by
  rw [BelowAnchor, ← below_iff_lt h]
  simp

theorem arranged_nil_iff {result : List ListedRow} :
    Arranged ListedRow.key [] result ↔ result = [] := by
  constructor
  · exact fun h => h.perm.eq_nil
  · rintro rfl
    exact ⟨.nil, .nil⟩

/-- The rows below the anchor are those behind the offset. -/
theorem arranged_below_iff (pos : 0 < offset) (separated : Separated rows offset)
    (h : Arranged ListedRow.key rows s) (result : List ListedRow) :
    Arranged ListedRow.key (rows.filter fun row => BelowAnchor s[offset - 1]? row) result ↔
      ∃ s', Arranged ListedRow.key rows s' ∧ s'.drop offset = result := by
  by_cases short : s.length ≤ offset
  · have none (row : ListedRow) (hrow : row ∈ rows) : ¬ BelowAnchor s[offset - 1]? row := by
      rintro ⟨last, hlast, hbelow⟩
      have time : last.createdAt ≠ none := fun hnone => not_below_of_none hnone hbelow
      have hlt := (below_iff_lt time).1 hbelow
      obtain ⟨hindex, rfl⟩ := List.getElem?_eq_some_iff.1 hlast
      obtain ⟨i, hi, rfl⟩ := List.mem_iff_getElem.1 (h.perm.mem_iff.2 hrow)
      rcases Nat.lt_or_ge i (offset - 1) with earlier | later
      · exact hlt.not_ge (List.pairwise_iff_getElem.1 h.sorted i (offset - 1) hi hindex earlier)
      · have same : i = offset - 1 := by omega
        subst same
        exact lt_irrefl _ hlt
    have left (s' : List ListedRow) (h' : Arranged ListedRow.key rows s') :
        s'.drop offset = [] := by
      rw [List.drop_eq_nil_iff, h'.perm.length_eq, ← h.perm.length_eq]
      exact short
    rw [List.filter_eq_nil_iff.2 (by simpa using none), arranged_nil_iff]
    constructor
    · rintro rfl
      exact ⟨s, h, left s h⟩
    · rintro ⟨s', h', rfl⟩
      exact left s' h'
  · obtain ⟨last, hlast, time, differ⟩ :=
      separated s h s[offset] (List.getElem?_eq_getElem (by omega))
    have below : (fun row => decide (BelowAnchor s[offset - 1]? row)) =
        fun row => decide (row.key < last.key) := by
      funext row
      rw [decide_eq_decide, hlast, belowAnchor_some time]
    rw [below]
    refine arranged_filter_iff h hlast pos (fun a ha => ?_) result
    obtain ⟨hindex, rfl⟩ := List.getElem?_eq_some_iff.1 ha
    obtain ⟨hindex', rfl⟩ := List.getElem?_eq_some_iff.1 hlast
    exact lt_of_le_of_ne (List.pairwise_iff_getElem.1 h.sorted _ _ hindex' hindex (by omega)) differ

theorem fromAnchor_iff_listed_iff (hoffset : 0 < offset) (hlimit : 0 < limit) :
    (∀ result, FromAnchor rows offset limit result ↔ Listed rows offset limit result) ↔
      Separated rows offset := by
  constructor
  · intro same s h next hnext
    have listed : Listed rows offset limit ((s.drop offset).take limit) := ⟨s, h, rfl⟩
    obtain ⟨s₂, h₂, s₃, h₃, heq⟩ := (same _).2 listed
    have first : next ∈ s₃ := by
      obtain ⟨limit, rfl⟩ := Nat.exists_eq_succ_of_ne_zero hlimit.ne'
      obtain ⟨hindex, rfl⟩ := List.getElem?_eq_some_iff.1 hnext
      rw [List.drop_eq_getElem_cons hindex, List.take_succ_cons, List.drop_zero] at heq
      exact List.mem_of_mem_take (heq ▸ List.mem_cons_self)
    have below : BelowAnchor s₂[offset - 1]? next := by
      simpa using (List.mem_filter.1 (h₃.perm.mem_iff.1 first)).2
    obtain ⟨anchor, hanchor, hbelow⟩ := below
    have time : anchor.createdAt ≠ none := fun hnone => not_below_of_none hnone hbelow
    have sameKey := h.getElem?_key_eq h₂ (offset - 1)
    rw [hanchor, Option.map_some, Option.map_eq_some_iff] at sameKey
    obtain ⟨last, hlast, hkey⟩ := sameKey
    refine ⟨last, hlast, ?_, ?_⟩
    · rwa [ne_eq, ← key_top_iff, hkey, key_top_iff]
    · rw [hkey]
      exact ((below_iff_lt time).1 hbelow).ne
  · intro separated result
    constructor
    · rintro ⟨s, h, s₃, h₃, rfl⟩
      obtain ⟨s', h', hdrop⟩ := (arranged_below_iff hoffset separated h s₃).1 h₃
      exact ⟨s', h', by rw [hdrop, List.drop_zero]⟩
    · rintro ⟨s, h, rfl⟩
      exact ⟨s, h, s.drop offset, (arranged_below_iff hoffset separated h _).2 ⟨s, h, rfl⟩, rfl⟩

/-- Rows with creation times and keys of their own are listed alike. -/
theorem separated_of_distinct (pos : 0 < offset) (time : ∀ row ∈ rows, row.createdAt ≠ none)
    (distinct : (rows.map ListedRow.key).Nodup) : Separated rows offset := by
  intro s h next hnext
  obtain ⟨hindex, rfl⟩ := List.getElem?_eq_some_iff.1 hnext
  have hindex' : offset - 1 < s.length := by omega
  have nodup : (s.map ListedRow.key).Nodup := (h.perm.map _).nodup_iff.2 distinct
  refine ⟨s[offset - 1], List.getElem?_eq_getElem hindex', ?_, fun same => ?_⟩
  · exact time _ (h.perm.mem_iff.1 (List.getElem_mem hindex'))
  · have differ := List.pairwise_iff_getElem.1 (List.pairwise_map.1 nodup) (offset - 1) offset
      hindex' hindex (by omega)
    exact differ same.symm

/-- Behind an offset `list` returns the rows of the plain query, exactly when the first of them
comes after a row with a creation time and another key. -/
theorem list_eq_plain_iff (texts : Texts) (table : List ListedRow) (limit offset : ℤ)
    (startDate endDate : Option String) (filters : TransactionListFilters) :
    (∀ outcome, MayList texts startDate endDate filters table limit offset ⟨none, none⟩ outcome ↔
        ∃ result, outcome = .ok result ∧
          Listed (selected (buildListWhere texts startDate endDate filters) table)
            (safeOffset offset) (cappedLimit limit) result) ↔
      safeOffset offset = 0 ∨
        Separated (selected (buildListWhere texts startDate endDate filters) table)
          (safeOffset offset) := by
  have hlimit : 0 < cappedLimit limit := by
    rw [cappedLimit]
    omega
  rcases Nat.eq_zero_or_pos (safeOffset offset) with hzero | hpos
  · refine iff_of_true (fun outcome => ?_) (.inl hzero)
    simp [MayList, given, hzero]
  · rw [← fromAnchor_iff_listed_iff hpos hlimit, or_iff_right hpos.ne']
    simp only [MayList, given, Option.filter_none, if_pos hpos]
    constructor
    · intro same result
      simpa using same (.ok result)
    · intro same outcome
      simp only [same]

/-- A transaction without a creation time, which the table of `database/schema.sql` allows. -/
def untimed (id : ℕ) : ListedRow where
  id := id
  createdAt := none
  userId := some "user"
  amount := 100
  provider := "mtn"
  referenceNumber := "TXN"
  status := "pending"
  tags := some []

theorem untimed_lost :
    let texts : Texts := ⟨id, fun _ => 0, fun _ => 0, fun _ => .error "Invalid transaction cursor"⟩
    let filters : TransactionListFilters := ⟨none, none, none, none, [], none, []⟩
    let table := [untimed 2, untimed 1]
    ¬ ∀ outcome, MayList texts none none filters table 50 1 ⟨none, none⟩ outcome ↔
      ∃ result, outcome = .ok result ∧
        Listed (selected (buildListWhere texts none none filters) table) (safeOffset 1)
          (cappedLimit 50) result := by
  intro texts filters table same
  have listed (result : List ListedRow) :
      FromAnchor table 1 50 result ↔ Listed table 1 50 result := by
    simpa [MayList, given, safeOffset, cappedLimit, buildListWhere, selected, filters] using
      same (.ok result)
  have separated := (fromAnchor_iff_listed_iff (by decide) (by decide)).1 listed
  have arranged : Arranged ListedRow.key table table :=
    ⟨.refl _, by simp [table, untimed, ListedRow.key, Prod.Lex.toLex_le_toLex]⟩
  obtain ⟨last, hlast, time, -⟩ := separated table arranged (untimed 1) rfl
  cases hlast
  exact time rfl

end MobileMoney.Transactions
