import MobileMoney.Library.Base64
import MobileMoney.Library.Utf8
import MobileMoney.Transactions.Listing

/-!
# Paging through the history

The history of transactions, page by page: `getTransactionHistoryHandler` when it is given a cursor,
and the cursors of `utils/pagination.ts`, which `list` reads in its own way. A cursor is the time of
a row and its id as base64 for URLs. The database keeps times in microseconds, and a `Date` has
milliseconds, so a cursor is not always the place it was made at.
-/

namespace MobileMoney.Transactions

open Json (Text text)
open Paging

/-- What the language and the driver do with dates and ids. -/
structure CursorTexts where
  trim : String → String
  startOfDay : String → ℤ
  normalizeEndDate : String → ℤ
  toISOString : ℤ → List Char
  parseDate : Text → Option ℤ
  uuidText : ℕ → List Char
  parseUuid : Text → Option ℕ

/-- A time of the database as a `Date`. -/
def toMilliseconds (time : ℤ) : ℤ := time / 1000

/-- And back as a parameter of a query. -/
def toMicroseconds (date : ℤ) : ℤ := date * 1000

def bar : ℕ := '|'.toNat

/-- `slice` on both sides of `lastIndexOf("|")`. -/
def splitAtLastBar (raw : Text) : Option (Text × Text) :=
  if bar ∈ raw then some ((raw.rdropWhile (· ≠ bar)).dropLast, raw.rtakeWhile (· ≠ bar)) else none

section Cursors

variable (texts : CursorTexts)

def encodeCursor (createdAt id : List Char) : Except Text String :=
  if createdAt = [] ∨ id = [] then .error (text "encodeCursor: created_at and id are required")
  else if texts.parseDate (createdAt.flatMap Utf8.units) = none then
    .error (text "encodeCursor: invalid created_at value \"" ++ createdAt.flatMap Utf8.units ++
      text "\"")
  else .ok (.ofList (Base64.urlSafe (Base64.encode (Utf8.encode (createdAt ++ '|' :: id)))))

def decodeCursor (cursor : String) : Except Text (Text × Text) :=
  if cursor = "" then .error (text "decodeCursor: cursor must be a non-empty string")
  else
    match splitAtLastBar (Utf8.decode (Base64.decode (Base64.padded cursor.toList))) with
    | none => .error (text "decodeCursor: malformed cursor — missing separator")
    | some (createdAt, id) =>
      if createdAt = [] ∨ id = [] then
        .error (text "decodeCursor: malformed cursor — empty fields")
      else if texts.parseDate createdAt = none then
        .error (text "decodeCursor: invalid created_at value in cursor \"" ++ createdAt ++
          text "\"")
      else .ok (createdAt, id)

def decodeTransactionCursor (cursor : String) : Except String (ℤ × Text) :=
  match splitAtLastBar (Utf8.decode (Base64.decode cursor.toList)) with
  | none => .error "Invalid transaction cursor"
  | some (createdAt, id) =>
    match texts.parseDate createdAt with
    | none => .error "Invalid transaction cursor"
    | some date => if id = [] then .error "Invalid transaction cursor" else .ok (date, id)

/-- As `list` has it. The query casts the id. -/
def CursorTexts.listing : Texts where
  trim := texts.trim
  startOfDay := texts.startOfDay
  normalizeEndDate := texts.normalizeEndDate
  decodeTransactionCursor cursor :=
    match decodeTransactionCursor texts cursor with
    | .error e => .error e
    | .ok (date, id) =>
      match texts.parseUuid id with
      | none => .error "invalid input syntax for type uuid"
      | some id => .ok (toMicroseconds date, id)

end Cursors

/-! ## Pages -/

inductive Direction where
  | forward | backward
  deriving DecidableEq

/-- The answer to a request with a cursor. -/
structure HistoryPage where
  data : List ListedRow
  nextCursor : Option String
  prevCursor : Option String
  hasNext : Bool
  hasPrev : Bool
  count : ℕ
  limit : ℕ

inductive HistoryError where
  | invalidDate
  | startAfterEnd
  | invalidCursor (error : Text)
  | internal (error : Text)

/-- `/^\d{4}-\d{2}-\d{2}$/` -/
def hasDateShape (date : List Char) : Bool :=
  match date with
  | [y₁, y₂, y₃, y₄, '-', m₁, m₂, '-', d₁, d₂] =>
    [y₁, y₂, y₃, y₄, m₁, m₂, d₁, d₂].all (·.isDigit)
  | _ => false

section Requests

variable (texts : CursorTexts)

def newDate (date : String) : Option ℤ := texts.parseDate (date.toList.flatMap Utf8.units)

def isValidISO (dateStr : Option String) : Bool :=
  match given dateStr with
  | none => true
  | some date =>
    hasDateShape date.toList &&
      match newDate texts (date ++ "T00:00:00.000Z") with
      | none => false
      | some d => date.toList.isPrefixOf (texts.toISOString d)

/-- A comparison with an invalid date does not hold. -/
def startsAfterEnd (startDate endDate : Option String) : Bool :=
  match (given startDate).bind (newDate texts), (given endDate).bind (newDate texts) with
  | some start, some finish => finish < start
  | _, _ => false

def checkDates (startDate endDate : Option String) : Except HistoryError Unit :=
  if ¬ isValidISO texts startDate ∨ ¬ isValidISO texts endDate then .error .invalidDate
  else if startsAfterEnd texts startDate endDate then .error .startAfterEnd
  else .ok ()

/-- Without a creation time the date is the epoch. -/
def cursorOf (row : ListedRow) : Except Text String :=
  encodeCursor texts (texts.toISOString ((row.createdAt.map toMilliseconds).getD 0))
    (texts.uuidText row.id)

/-- The first or the last row of a page as a cursor, when there is one and it is wanted. -/
def cursorWhen (wanted : Bool) (row : Option ListedRow) : Except Text (Option String) :=
  match row with
  | some row => if wanted then (cursorOf texts row).map some else .ok none
  | none => .ok none

def buildPaginationMeta (rows : List ListedRow) (limit : ℕ) (direction : Direction)
    (hasPrevPage : Bool) : Except Text HistoryPage := do
  let hasMore : Bool := limit < rows.length
  let trimmed := match direction with
    | .forward => rows.take limit
    | .backward => (rows.take limit).reverse
  let prevCursor ← cursorWhen texts (hasPrevPage || direction = .backward && hasMore) trimmed.head?
  let nextCursor ← cursorWhen texts
    (match direction with | .forward => hasMore | .backward => hasPrevPage) trimmed.getLast?
  return { data := trimmed
           nextCursor := nextCursor
           prevCursor := prevCursor
           hasNext := match direction with | .forward => hasMore | .backward => hasPrevPage
           hasPrev := match direction with | .forward => hasPrevPage | .backward => hasMore
           count := trimmed.length
           limit := limit }

/-- `limit` is what `parseInt` makes of the parameter, if it is a number. -/
def limitNum (limit : Option ℤ) : ℕ :=
  (max 1 (min 100 ((limit.filter (· ≠ 0)).getD 20))).toNat

variable (startDate endDate : Option String) (filters : TransactionListFilters)
  (table : List ListedRow) (limit : Option ℤ)

/-- What `getTransactionHistoryHandler` may answer when it is given a cursor. With both, the one
behind is followed, and the page is turned around. -/
def MayAnswer (before after : Option String) (outcome : Except HistoryError HistoryPage) : Prop :=
  let options : TransactionCursorOptions := match given after with
    | some after => ⟨none, some after⟩
    | none => ⟨before, none⟩
  match checkDates texts startDate endDate with
  | .error e => outcome = .error e
  | .ok () => ∃ cursor ∈ (given after).or (given before),
    match decodeCursor texts cursor with
    | .error e => outcome = .error (.invalidCursor e)
    | .ok _ =>
      let direction := if (given before).isSome then Direction.backward else .forward
      ∃ listed, MayList texts.listing startDate endDate filters table (limitNum limit + 1) 0 options
          listed ∧
        outcome = match listed with
          | .error e => .error (.internal (text e))
          | .ok rows =>
            (buildPaginationMeta texts rows (limitNum limit) direction
              (given after).isSome).mapError .internal

/-- What is read by following `next_cursor` to the end. -/
def ReadsOn : String → List ListedRow → Prop :=
  Reads fun cursor data next => ∃ page,
    MayAnswer texts startDate endDate filters table limit none (some cursor) (.ok page) ∧
      page.data = data ∧ page.nextCursor = next

/-- What is read by following `prev_cursor`, the oldest row first. -/
def ReadsBack : String → List ListedRow → Prop :=
  Reads fun cursor data prev => ∃ page,
    MayAnswer texts startDate endDate filters table limit (some cursor) none (.ok page) ∧
      page.data.reverse = data ∧ page.prevCursor = prev

end Requests

/-! ## What a cursor says -/

/-- The date and the id are read as they were written, and the id has no bar in it. -/
structure Readable (texts : CursorTexts) (date : ℤ) (id : ℕ) : Prop where
  date_text : texts.toISOString date ≠ []
  date_read : texts.parseDate ((texts.toISOString date).flatMap Utf8.units) = some date
  id_text : texts.uuidText id ≠ []
  id_read : texts.parseUuid ((texts.uuidText id).flatMap Utf8.units) = some id
  id_plain : '|' ∉ texts.uuidText id

/-- Both readers take the cursor, and the query starts at this time and id. -/
def Opens (texts : CursorTexts) (cursor : String) (place : ℤ × ℕ) : Prop :=
  (∃ payload, decodeCursor texts cursor = .ok payload) ∧
    texts.listing.decodeTransactionCursor cursor = .ok place

def cursorText (texts : CursorTexts) (date : ℤ) (id : ℕ) : String :=
  .ofList (Base64.urlSafe (Base64.encode
    (Utf8.encode (texts.toISOString date ++ '|' :: texts.uuidText id))))

theorem bar_mem_units {c : Char} (h : bar ∈ Utf8.units c) : c = '|' := by
  unfold Utf8.units Utf8.codeUnits bar at h
  split_ifs at h
  · have same : c.toNat = '|'.toNat := (List.mem_singleton.1 h).symm
    exact Char.toNat_inj.1 same
  · simp at h
    omega

theorem bar_notMem_units {s : List Char} (h : '|' ∉ s) : bar ∉ s.flatMap Utf8.units := by
  intro hbar
  obtain ⟨c, hc, hunits⟩ := List.mem_flatMap.1 hbar
  exact h (bar_mem_units hunits ▸ hc)

theorem splitAtLastBar_append {a b : Text} (h : bar ∉ b) :
    splitAtLastBar (a ++ bar :: b) = some (a, b) := by
  have plain : ∀ c ∈ b.reverse, decide (c ≠ bar) = true := by
    intro c hc
    exact decide_eq_true fun same => h (same ▸ List.mem_reverse.1 hc)
  have tail : (a ++ [bar] ++ b).rtakeWhile (· ≠ bar) = b := by
    rw [List.rtakeWhile, List.reverse_append, List.takeWhile_append_of_pos plain,
      List.reverse_concat, List.takeWhile_cons_of_neg (by simp), List.append_nil,
      List.reverse_reverse]
  have head : (a ++ [bar] ++ b).rdropWhile (· ≠ bar) = a ++ [bar] := by
    have split := List.rdropWhile_append_rtakeWhile (p := (· ≠ bar)) (l := a ++ [bar] ++ b)
    rw [tail] at split
    exact List.append_cancel_right split
  rw [List.append_cons, splitAtLastBar, if_pos (by simp), tail, head, List.dropLast_concat]

theorem flatMap_units_ne_nil {s : List Char} (h : s ≠ []) : s.flatMap Utf8.units ≠ [] := by
  obtain ⟨c, rest, rfl⟩ := List.exists_cons_of_ne_nil h
  rw [List.flatMap_cons, Utf8.units, Utf8.codeUnits]
  split_ifs <;> simp

section Reading

variable {texts : CursorTexts} {date : ℤ} {id : ℕ} (h : Readable texts date id)
include h

theorem Readable.split :
    splitAtLastBar ((texts.toISOString date ++ '|' :: texts.uuidText id).flatMap Utf8.units) =
      some ((texts.toISOString date).flatMap Utf8.units,
        (texts.uuidText id).flatMap Utf8.units) := by
  rw [List.flatMap_append, List.flatMap_cons]
  exact splitAtLastBar_append (bar_notMem_units h.id_plain)

theorem Readable.encodeCursor : encodeCursor texts (texts.toISOString date) (texts.uuidText id) =
    .ok (cursorText texts date id) := by
  rw [Transactions.encodeCursor, if_neg (by simp [h.date_text, h.id_text]),
    if_neg (by simp [h.date_read])]
  rfl

theorem Readable.opens : Opens texts (cursorText texts date id) (toMicroseconds date, id) := by
  have raw : Utf8.decode (Base64.decode (cursorText texts date id).toList) =
      (texts.toISOString date ++ '|' :: texts.uuidText id).flatMap Utf8.units := by
    rw [cursorText, String.toList_ofList, Base64.decode_urlSafe, Utf8.decode_encode]
  have nonempty : cursorText texts date id ≠ "" := by
    intro empty
    rw [empty] at raw
    exact flatMap_units_ne_nil (by simp) raw.symm
  constructor
  · refine ⟨((texts.toISOString date).flatMap Utf8.units,
      (texts.uuidText id).flatMap Utf8.units), ?_⟩
    rw [decodeCursor, if_neg nonempty, Base64.decode_padded, raw, h.split]
    simp [flatMap_units_ne_nil h.date_text, flatMap_units_ne_nil h.id_text, h.date_read]
  · simp only [CursorTexts.listing, decodeTransactionCursor, raw, h.split, h.date_read, h.id_read,
      if_neg (flatMap_units_ne_nil h.id_text)]

end Reading

/-! ## The rows that a cursor leaves -/

def placeKey (place : ℤ × ℕ) : WithTop ℤ ×ₗ ℕ := toLex (↑place.1, place.2)

theorem below_place_iff {row : ListedRow} {place : ℤ × ℕ} :
    row.Below (some place.1) place.2 ↔ row.key < placeKey place := by
  unfold ListedRow.Below ListedRow.key placeKey
  rw [Prod.Lex.toLex_lt_toLex]
  cases row.createdAt with
  | none => simp
  | some time => simp

theorem above_place_iff {row : ListedRow} {place : ℤ × ℕ} :
    row.Above (some place.1) place.2 ↔ row.createdAt.isSome = true ∧ placeKey place < row.key := by
  unfold ListedRow.Above ListedRow.key placeKey
  rw [Prod.Lex.toLex_lt_toLex]
  cases row.createdAt with
  | none => simp
  | some time => simp [eq_comm]

/-- The rows with a creation time; the others are behind no cursor. -/
def newestFirst (rows : List ListedRow) : List ListedRow :=
  (rows.filter (·.createdAt.isSome)).mergeSort fun a b => b.key ≤ a.key

abbrev oldestKey (row : ListedRow) : (WithTop ℤ ×ₗ ℕ)ᵒᵈ := OrderDual.toDual row.key

section Order

variable {rows : List ListedRow}

theorem arranged_newestFirst :
    Arranged ListedRow.key (rows.filter (·.createdAt.isSome)) (newestFirst rows) where
  perm := List.mergeSort_perm _ _
  sorted := by
    have sorted : (newestFirst rows).Pairwise fun a b => decide (b.key ≤ a.key) = true :=
      List.pairwise_mergeSort
        (fun a b c hab hbc => by simp only [decide_eq_true_eq] at *; exact hbc.trans hab)
        (fun a b => by simpa using le_total b.key a.key) _
    exact sorted.imp of_decide_eq_true

variable (distinct : (rows.map ListedRow.key).Nodup)
include distinct

theorem newestFirst_descending : Descending ListedRow.key (newestFirst rows) :=
  arranged_newestFirst.descending (distinct.sublist (List.filter_sublist.map _))

theorem oldestFirst_descending : Descending oldestKey (newestFirst rows).reverse :=
  List.pairwise_reverse.2 (newestFirst_descending distinct)

theorem fromCursor_after_iff {place : ℤ × ℕ} {limit : ℕ} {result : List ListedRow} :
    FromCursor rows true place limit result ↔
      result = (pending ListedRow.key (newestFirst rows) (some (placeKey place))).take limit := by
  have arranged : Arranged ListedRow.key
      (rows.filter fun row => row.Below (some place.1) place.2)
      (pending ListedRow.key (newestFirst rows) (some (placeKey place))) := by
    have same : rows.filter (fun row => row.Below (some place.1) place.2) =
        (rows.filter (·.createdAt.isSome)).filter fun row => row.key < placeKey place := by
      rw [List.filter_filter]
      refine List.filter_congr fun row _ => ?_
      rw [Bool.eq_iff_iff, decide_eq_true_eq, below_place_iff, Bool.and_eq_true, decide_eq_true_eq]
      refine ⟨fun below => ⟨below, ?_⟩, fun h => h.1⟩
      obtain ⟨time, htime, -⟩ := below_place_iff.2 below
      exact Option.isSome_iff_exists.2 ⟨time, htime⟩
    rw [same]
    exact ⟨arranged_newestFirst.perm.filter _, arranged_newestFirst.sorted.filter _⟩
  simp only [FromCursor, if_true, Listed, List.drop_zero]
  exact arranged.exists_iff (distinct.sublist (List.filter_sublist.map _))

theorem fromCursor_before_iff {place : ℤ × ℕ} {limit : ℕ} {result : List ListedRow} :
    FromCursor rows false place limit result ↔
      result = (pending oldestKey (newestFirst rows).reverse
        (some (OrderDual.toDual (placeKey place)))).take limit := by
  have arranged : Arranged oldestKey
      (rows.filter fun row => row.Above (some place.1) place.2)
      (pending oldestKey (newestFirst rows).reverse
        (some (OrderDual.toDual (placeKey place)))) := by
    have same : rows.filter (fun row => row.Above (some place.1) place.2) =
        (rows.filter (·.createdAt.isSome)).filter fun row =>
          oldestKey row < OrderDual.toDual (placeKey place) := by
      rw [List.filter_filter]
      refine List.filter_congr fun row _ => ?_
      rw [Bool.eq_iff_iff, decide_eq_true_eq, above_place_iff, Bool.and_eq_true, decide_eq_true_eq,
        and_comm]
      rfl
    rw [same]
    refine ⟨((List.reverse_perm _).trans arranged_newestFirst.perm).filter _, ?_⟩
    exact ((oldestFirst_descending distinct).imp le_of_lt).filter _
  have nodup : ((rows.filter fun row => row.Above (some place.1) place.2).map oldestKey).Nodup :=
    distinct.sublist (List.filter_sublist.map _)
  simp only [FromCursor, Bool.false_eq_true, if_false]
  exact arranged.exists_iff nodup

end Order

/-! ## Answers -/

section Answers

variable {texts : CursorTexts} {startDate endDate : Option String}
  {filters : TransactionListFilters} {table : List ListedRow} {limit : Option ℤ}

theorem limitNum_bounds (limit : Option ℤ) : 0 < limitNum limit ∧ limitNum limit ≤ 100 := by
  unfold limitNum
  omega

theorem cappedLimit_limitNum (limit : Option ℤ) :
    cappedLimit ((limitNum limit : ℤ) + 1) = limitNum limit + 1 := by
  have := limitNum_bounds limit
  unfold cappedLimit
  omega

theorem Opens.given {cursor : String} {place : ℤ × ℕ} (opens : Opens texts cursor place) :
    given (some cursor) = some cursor := by
  have nonempty : cursor ≠ "" := by
    rintro rfl
    obtain ⟨_, read⟩ := opens.1
    cases read
  simp [Transactions.given, nonempty]

/-- The instant that a cursor made from the row keeps. -/
def cursorPlace (row : ListedRow) : ℤ × ℕ :=
  (toMicroseconds ((row.createdAt.map toMilliseconds).getD 0), row.id)

def rowCursor (texts : CursorTexts) (row : ListedRow) : String :=
  cursorText texts ((row.createdAt.map toMilliseconds).getD 0) row.id

/-- The dates and ids of the rows are read as they were written. -/
def AllReadable (texts : CursorTexts) (rows : List ListedRow) : Prop :=
  ∀ row ∈ rows, ∀ time ∈ row.createdAt, Readable texts (toMilliseconds time) row.id

theorem AllReadable.opens {rows : List ListedRow} (h : AllReadable texts rows) {row : ListedRow}
    (hrow : row ∈ newestFirst rows) :
    cursorOf texts row = .ok (rowCursor texts row) ∧
      Opens texts (rowCursor texts row) (cursorPlace row) := by
  have timed := List.mem_filter.1 ((List.mergeSort_perm _ _).mem_iff.1 hrow)
  obtain ⟨time, htime⟩ := Option.isSome_iff_exists.1 timed.2
  have readable := h row timed.1 time htime
  unfold cursorOf rowCursor cursorPlace
  rw [htime]
  exact ⟨readable.encodeCursor, readable.opens⟩

theorem cursorWhen_eq {wanted : Bool} {row : Option ListedRow}
    (h : ∀ r ∈ row, cursorOf texts r = .ok (rowCursor texts r)) :
    cursorWhen texts wanted row = .ok (if wanted then row.map (rowCursor texts) else none) := by
  cases row with
  | none => cases wanted <;> rfl
  | some r =>
    rw [cursorWhen, h r rfl]
    cases wanted <;> rfl

/-- The page behind a cursor, when these rows are left. -/
def nextPage (texts : CursorTexts) (n : ℕ) (rest : List ListedRow) : HistoryPage where
  data := rest.take n
  nextCursor := if n < rest.length then (rest.take n).getLast?.map (rowCursor texts) else none
  prevCursor := (rest.take n).head?.map (rowCursor texts)
  hasNext := n < rest.length
  hasPrev := true
  count := (rest.take n).length
  limit := n

/-- The page before a cursor. It says that nothing comes after it. -/
def prevPage (texts : CursorTexts) (n : ℕ) (rest : List ListedRow) : HistoryPage where
  data := (rest.take n).reverse
  nextCursor := none
  prevCursor := if n < rest.length then (rest.take n).getLast?.map (rowCursor texts) else none
  hasNext := false
  hasPrev := n < rest.length
  count := (rest.take n).length
  limit := n

section Meta

variable {n : ℕ} {rest : List ListedRow}
  (h : ∀ row ∈ rest, cursorOf texts row = .ok (rowCursor texts row))
include h

theorem cursorWhen_head (wanted : Bool) : cursorWhen texts wanted (rest.take n).head? =
    .ok (if wanted then (rest.take n).head?.map (rowCursor texts) else none) :=
  cursorWhen_eq fun row hrow => h row (List.mem_of_mem_take (List.mem_of_mem_head? hrow))

theorem cursorWhen_getLast (wanted : Bool) : cursorWhen texts wanted (rest.take n).getLast? =
    .ok (if wanted then (rest.take n).getLast?.map (rowCursor texts) else none) :=
  cursorWhen_eq fun row hrow => h row (List.mem_of_mem_take (List.mem_of_mem_getLast? hrow))

theorem buildPaginationMeta_forward :
    buildPaginationMeta texts (rest.take (n + 1)) n .forward true =
      .ok (nextPage texts n rest) := by
  have more : n < min (n + 1) rest.length ↔ n < rest.length := by omega
  have page : (rest.take (n + 1)).take n = rest.take n := by
    rw [List.take_take, Nat.min_eq_left (Nat.le_succ n)]
  simp [buildPaginationMeta, page, cursorWhen_head h, cursorWhen_getLast h, more, nextPage]
  rfl

theorem buildPaginationMeta_backward :
    buildPaginationMeta texts (rest.take (n + 1)) n .backward false =
      .ok (prevPage texts n rest) := by
  have more : n < min (n + 1) rest.length ↔ n < rest.length := by omega
  have page : (rest.take (n + 1)).take n = rest.take n := by
    rw [List.take_take, Nat.min_eq_left (Nat.le_succ n)]
  simp [buildPaginationMeta, page, cursorWhen_head h, cursorWhen_getLast h, more, prevPage]
  rfl

end Meta

/-- What the filters leave of the table. -/
abbrev found (texts : CursorTexts) (startDate endDate : Option String)
    (filters : TransactionListFilters) (table : List ListedRow) : List ListedRow :=
  selected (buildListWhere texts.listing startDate endDate filters) table

/-- Where the cursor of a row opens in the order of the rows. -/
def cut (row : ListedRow) : Option (WithTop ℤ ×ₗ ℕ) := some (placeKey (cursorPlace row))

def cutBack (row : ListedRow) : Option (WithTop ℤ ×ₗ ℕ)ᵒᵈ :=
  some (OrderDual.toDual (placeKey (cursorPlace row)))

theorem getLast?_take_some {rest : List ListedRow} {n : ℕ} (hn : 0 < n) (more : n < rest.length) :
    ∃ row ∈ rest, (rest.take n).getLast? = some row := by
  cases h : (rest.take n).getLast? with
  | none =>
    have empty := congrArg List.length (List.getLast?_eq_none_iff.1 h)
    rw [List.length_take, List.length_nil] at empty
    omega
  | some row => exact ⟨row, List.mem_of_mem_take (List.mem_of_mem_getLast? h), rfl⟩

theorem MayAnswer.dates {before after : Option String} {page : HistoryPage}
    (h : MayAnswer texts startDate endDate filters table limit before after (.ok page)) :
    checkDates texts startDate endDate = .ok () := by
  unfold MayAnswer at h
  cases hdates : checkDates texts startDate endDate with
  | error e =>
    rw [hdates] at h
    cases h
  | ok => rfl

theorem ReadsOn.dates {cursor : String} {rows : List ListedRow}
    (h : ReadsOn texts startDate endDate filters table limit cursor rows) :
    checkDates texts startDate endDate = .ok () := by
  cases h with
  | last page | next page =>
    obtain ⟨_, answered, -⟩ := page
    exact answered.dates

theorem ReadsBack.dates {cursor : String} {rows : List ListedRow}
    (h : ReadsBack texts startDate endDate filters table limit cursor rows) :
    checkDates texts startDate endDate = .ok () := by
  cases h with
  | last page | next page =>
    obtain ⟨_, answered, -⟩ := page
    exact answered.dates

section Served

variable (dates : checkDates texts startDate endDate = .ok ())
  (distinct : ((found texts startDate endDate filters table).map ListedRow.key).Nodup)
  (readable : AllReadable texts (found texts startDate endDate filters table))
include dates distinct readable

theorem answer_after {cursor : String} {place : ℤ × ℕ} (opens : Opens texts cursor place)
    {page : HistoryPage} :
    MayAnswer texts startDate endDate filters table limit none (some cursor) (.ok page) ↔
      page = nextPage texts (limitNum limit) (pending ListedRow.key
        (newestFirst (found texts startDate endDate filters table)) (some (placeKey place))) := by
  obtain ⟨payload, read⟩ := opens.1
  let rest := pending ListedRow.key
    (newestFirst (found texts startDate endDate filters table)) (some (placeKey place))
  have built : buildPaginationMeta texts (rest.take (limitNum limit + 1)) (limitNum limit)
      .forward true = .ok (nextPage texts (limitNum limit) rest) :=
    buildPaginationMeta_forward fun row hrow => (readable.opens (List.mem_filter.1 hrow).1).1
  have none_given : given none = none := rfl
  simp only [MayAnswer, dates, opens.given, none_given, Option.or_none, Option.mem_def,
    Option.some.injEq, exists_eq_left', read, MayList, opens.2, cappedLimit_limitNum,
    fromCursor_after_iff distinct, Option.isSome_none, Option.isSome_some, Bool.false_eq_true,
    if_false]
  constructor
  · rintro ⟨_, ⟨_, rfl, rfl⟩, same⟩
    dsimp only at same
    rw [built] at same
    exact Except.ok.inj same
  · rintro rfl
    refine ⟨_, ⟨_, rfl, rfl⟩, ?_⟩
    dsimp only
    rw [built]
    rfl

theorem answer_before {cursor : String} {place : ℤ × ℕ} (opens : Opens texts cursor place)
    {page : HistoryPage} :
    MayAnswer texts startDate endDate filters table limit (some cursor) none (.ok page) ↔
      page = prevPage texts (limitNum limit) (pending oldestKey
        (newestFirst (found texts startDate endDate filters table)).reverse
        (some (OrderDual.toDual (placeKey place)))) := by
  obtain ⟨payload, read⟩ := opens.1
  let rest := pending oldestKey
    (newestFirst (found texts startDate endDate filters table)).reverse
    (some (OrderDual.toDual (placeKey place)))
  have built : buildPaginationMeta texts (rest.take (limitNum limit + 1)) (limitNum limit)
      .backward false = .ok (prevPage texts (limitNum limit) rest) :=
    buildPaginationMeta_backward fun row hrow =>
      (readable.opens (List.mem_reverse.1 (List.mem_filter.1 hrow).1)).1
  have none_given : given none = none := rfl
  simp only [MayAnswer, dates, opens.given, none_given, Option.none_or, Option.mem_def,
    Option.some.injEq, exists_eq_left', read, MayList, opens.2, cappedLimit_limitNum,
    fromCursor_before_iff distinct, Option.isSome_none, Option.isSome_some, if_true]
  constructor
  · rintro ⟨_, ⟨_, rfl, rfl⟩, same⟩
    dsimp only at same
    rw [built] at same
    exact Except.ok.inj same
  · rintro rfl
    refine ⟨_, ⟨_, rfl, rfl⟩, ?_⟩
    dsimp only
    rw [built]
    rfl

theorem serves_after : Serves ListedRow.key cut (limitNum limit)
    (newestFirst (found texts startDate endDate filters table))
    (fun cursor data next => ∃ page,
      MayAnswer texts startDate endDate filters table limit none (some cursor) (.ok page) ∧
        page.data = data ∧ page.nextCursor = next)
    (fun cursor key => ∃ place, Opens texts cursor place ∧ key = placeKey place) where
  last := by
    rintro c _ data next ⟨place, opens, rfl⟩ few
    simp only [answer_after dates distinct readable opens, exists_eq_left, nextPage,
      if_neg few.not_gt, List.take_of_length_le few]
    rw [eq_comm, eq_comm (a := none)]
  more := by
    rintro c _ ⟨place, opens, rfl⟩ many
    obtain ⟨row, hrow, last⟩ := getLast?_take_some (limitNum_bounds limit).1 (not_le.1 many)
    refine ⟨rowCursor texts row, placeKey (cursorPlace row),
      ⟨_, (readable.opens (List.mem_filter.1 hrow).1).2, rfl⟩, by rw [last]; rfl,
      fun data next => ?_⟩
    simp only [answer_after dates distinct readable opens, exists_eq_left, nextPage,
      if_pos (not_le.1 many), last, Option.map_some]
    rw [eq_comm, eq_comm (a := some _)]

theorem serves_before : Serves oldestKey cutBack (limitNum limit)
    (newestFirst (found texts startDate endDate filters table)).reverse
    (fun cursor data prev => ∃ page,
      MayAnswer texts startDate endDate filters table limit (some cursor) none (.ok page) ∧
        page.data.reverse = data ∧ page.prevCursor = prev)
    (fun cursor key => ∃ place, Opens texts cursor place ∧
      key = OrderDual.toDual (placeKey place)) where
  last := by
    rintro c _ data next ⟨place, opens, rfl⟩ few
    simp only [answer_before dates distinct readable opens, exists_eq_left, prevPage,
      if_neg few.not_gt, List.take_of_length_le few, List.reverse_reverse]
    rw [eq_comm, eq_comm (a := none)]
  more := by
    rintro c _ ⟨place, opens, rfl⟩ many
    obtain ⟨row, hrow, last⟩ := getLast?_take_some (limitNum_bounds limit).1 (not_le.1 many)
    refine ⟨rowCursor texts row, OrderDual.toDual (placeKey (cursorPlace row)),
      ⟨_, (readable.opens (List.mem_reverse.1 (List.mem_filter.1 hrow).1)).2, rfl⟩,
      by rw [last]; rfl, fun data next => ?_⟩
    simp only [answer_before dates distinct readable opens, exists_eq_left, prevPage,
      if_pos (not_le.1 many), last, Option.map_some, List.reverse_reverse]
    rw [eq_comm, eq_comm (a := some _)]

end Served

/-- The cursor of a row with a creation time is at it or before it, less than a millisecond. -/
theorem placeKey_cursorPlace_le (row : ListedRow) (timed : row.createdAt.isSome = true) :
    placeKey (cursorPlace row) ≤ row.key := by
  obtain ⟨time, htime⟩ := Option.isSome_iff_exists.1 timed
  unfold placeKey cursorPlace ListedRow.key
  rw [htime, Prod.Lex.toLex_le_toLex]
  have floor : toMicroseconds (toMilliseconds time) ≤ time := by
    unfold toMicroseconds toMilliseconds
    omega
  rcases floor.lt_or_eq with earlier | same
  · left
    simpa using earlier
  · right
    simpa using same

/-- A time that a `Date` has. -/
def WholeMilliseconds (row : ListedRow) : Prop :=
  ∃ time ∈ row.createdAt, toMicroseconds (toMilliseconds time) = time

theorem le_placeKey_cursorPlace {row : ListedRow} (timed : row.createdAt.isSome = true) :
    row.key ≤ placeKey (cursorPlace row) ↔ WholeMilliseconds row := by
  obtain ⟨time, htime⟩ := Option.isSome_iff_exists.1 timed
  unfold placeKey cursorPlace ListedRow.key WholeMilliseconds
  rw [htime, Prod.Lex.toLex_le_toLex]
  have floor : toMicroseconds (toMilliseconds time) ≤ time := by
    unfold toMicroseconds toMilliseconds
    omega
  simp
  omega

theorem mem_newestFirst_isSome {rows : List ListedRow} {row : ListedRow}
    (h : row ∈ newestFirst rows) : row.createdAt.isSome = true :=
  (List.mem_filter.1 ((List.mergeSort_perm _ _).mem_iff.1 h)).2

/-- The rows below a place, the newest first. -/
def rowsBelow (place : ℤ × ℕ) (rows : List ListedRow) : List ListedRow :=
  (newestFirst rows).filter fun row => row.Below (some place.1) place.2

/-- The rows above a place, the oldest first. -/
def rowsAbove (place : ℤ × ℕ) (rows : List ListedRow) : List ListedRow :=
  (newestFirst rows).reverse.filter fun row => row.Above (some place.1) place.2

theorem rowsBelow_eq (place : ℤ × ℕ) (rows : List ListedRow) :
    rowsBelow place rows = pending ListedRow.key (newestFirst rows) (some (placeKey place)) :=
  List.filter_congr fun _ _ => decide_eq_decide.2 below_place_iff

theorem rowsAbove_eq (place : ℤ × ℕ) (rows : List ListedRow) :
    rowsAbove place rows = pending oldestKey (newestFirst rows).reverse
      (some (OrderDual.toDual (placeKey place))) := by
  refine List.filter_congr fun row hrow => decide_eq_decide.2 ?_
  rw [above_place_iff, and_iff_right (mem_newestFirst_isSome (List.mem_reverse.1 hrow))]
  rfl

/-- Following the next cursors reads every row below the place where it starts, once and from the
newest to the oldest, exactly when the dates of the request are accepted and at the end of every
page the next row is below the last one with its time cut to milliseconds. -/
theorem readsOn_rowsBelow_iff
    (distinct : ((found texts startDate endDate filters table).map ListedRow.key).Nodup)
    (readable : AllReadable texts (found texts startDate endDate filters table))
    {cursor : String} {place : ℤ × ℕ} (opens : Opens texts cursor place) :
    let rows := rowsBelow place (found texts startDate endDate filters table)
    ReadsOn texts startDate endDate filters table limit cursor rows ↔
      checkDates texts startDate endDate = .ok () ∧
      ∀ k, 0 < k → ∀ last ∈ rows[k * limitNum limit - 1]?, ∀ next ∈ rows[k * limitNum limit]?,
        next.Below (some (cursorPlace last).1) (cursorPlace last).2 := by
  intro rows
  by_cases dates : checkDates texts startDate endDate = .ok ()
  swap
  · exact iff_of_false (fun reads => dates reads.dates) fun both => dates both.1
  rw [and_iff_right dates]
  have sorted := newestFirst_descending distinct
  have pos := (limitNum_bounds limit).1
  obtain ⟨j, within, start⟩ := exists_pending_eq_drop sorted (placeKey place)
  have rows_eq : rows = (newestFirst (found texts startDate endDate filters table)).drop j :=
    (rowsBelow_eq _ _).trans start
  rw [rows_eq, ReadsOn,
    reads_pending_iff (serves_after dates distinct readable) sorted pos ⟨place, opens, rfl⟩ start
      within]
  simp only [List.getElem?_drop]
  refine forall₂_congr fun k hk => ?_
  have page : 0 < k * limitNum limit := Nat.mul_pos hk pos
  have index : j + (k * limitNum limit - 1) = j + k * limitNum limit - 1 := by omega
  rw [index]
  constructor
  · intro separates last hlast next hnext
    obtain ⟨hlt, -⟩ := List.getElem?_eq_some_iff.1 hnext
    obtain ⟨last', next', c, hlast', hnext', hcut, below, -⟩ := separates hlt
    obtain rfl := Option.some.inj (hlast.symm.trans hlast')
    obtain rfl := Option.some.inj (hnext.symm.trans hnext')
    obtain rfl := Option.some.inj hcut
    exact below_place_iff.2 below
  · intro below hlt
    have hlast : j + k * limitNum limit - 1 <
        (newestFirst (found texts startDate endDate filters table)).length := by omega
    refine ⟨_, _, _, List.getElem?_eq_getElem hlast, List.getElem?_eq_getElem hlt, rfl,
      below_place_iff.1 (below _ (List.getElem?_eq_getElem hlast) _ (List.getElem?_eq_getElem hlt)),
      placeKey_cursorPlace_le _ (mem_newestFirst_isSome (List.getElem_mem _))⟩

/-- Following the previous cursors reads every row above the place where it starts, once and from
the oldest to the newest, exactly when the dates of the request are accepted and the last row of
every page but the last one has a time in whole milliseconds: otherwise it is read again. -/
theorem readsBack_rowsAbove_iff
    (distinct : ((found texts startDate endDate filters table).map ListedRow.key).Nodup)
    (readable : AllReadable texts (found texts startDate endDate filters table))
    {cursor : String} {place : ℤ × ℕ} (opens : Opens texts cursor place) :
    let rows := rowsAbove place (found texts startDate endDate filters table)
    ReadsBack texts startDate endDate filters table limit cursor rows ↔
      checkDates texts startDate endDate = .ok () ∧
      ∀ k, 0 < k → k * limitNum limit < rows.length →
        ∀ last ∈ rows[k * limitNum limit - 1]?, WholeMilliseconds last := by
  intro rows
  by_cases dates : checkDates texts startDate endDate = .ok ()
  swap
  · exact iff_of_false (fun reads => dates reads.dates) fun both => dates both.1
  rw [and_iff_right dates]
  have sorted := oldestFirst_descending distinct
  have pos := (limitNum_bounds limit).1
  obtain ⟨j, within, start⟩ := exists_pending_eq_drop sorted (OrderDual.toDual (placeKey place))
  have rows_eq :
      rows = (newestFirst (found texts startDate endDate filters table)).reverse.drop j :=
    (rowsAbove_eq _ _).trans start
  rw [rows_eq, ReadsBack,
    reads_pending_iff (serves_before dates distinct readable) sorted pos ⟨place, opens, rfl⟩ start
      within]
  simp only [List.getElem?_drop, List.length_drop]
  refine forall₂_congr fun k hk => ?_
  have page : 0 < k * limitNum limit := Nat.mul_pos hk pos
  have index : j + (k * limitNum limit - 1) = j + k * limitNum limit - 1 := by omega
  rw [index]
  constructor
  · intro separates hlt last hlast
    obtain ⟨last', next, c, hlast', -, hcut, -, above⟩ := separates (by omega)
    obtain rfl := Option.some.inj (hlast.symm.trans hlast')
    obtain rfl := Option.some.inj hcut
    exact (le_placeKey_cursorPlace (mem_newestFirst_isSome
      (List.mem_reverse.1 (List.mem_of_getElem? hlast)))).1 above
  · intro whole hlt
    have hlast : j + k * limitNum limit - 1 <
        (newestFirst (found texts startDate endDate filters table)).reverse.length := by omega
    have member := List.mem_reverse.1 (List.getElem_mem hlast)
    have above := (le_placeKey_cursorPlace (mem_newestFirst_isSome member)).2
      (whole (by omega) _ (List.getElem?_eq_getElem hlast))
    have order := List.pairwise_iff_getElem.1 sorted _ _ hlast hlt (by omega)
    exact ⟨_, _, _, List.getElem?_eq_getElem hlast, List.getElem?_eq_getElem hlt, rfl,
      lt_of_lt_of_le order
        (placeKey_cursorPlace_le _ (mem_newestFirst_isSome member)), above⟩

end Answers

/-! ## Examples -/

/-- The texts of the first dates of the epoch and of the smallest ids. -/
def epochTexts : CursorTexts where
  trim := id
  startOfDay _ := 0
  normalizeEndDate _ := 0
  toISOString date :=
    ['1', '9', '7', '0', '-', '0', '1', '-', '0', '1', 'T', '0', '0', ':', '0', '0', ':', '0', '0',
      '.', '0', '0', Nat.digitChar date.toNat, 'Z']
  parseDate iso := iso.dropLast.getLast?.map fun unit => (unit : ℤ) - '0'.toNat
  uuidText id :=
    ['0', '0', '0', '0', '0', '0', '0', '0', '-', '0', '0', '0', '0', '-', '0', '0', '0', '0', '-',
      '0', '0', '0', '0', '-', '0', '0', '0', '0', '0', '0', '0', '0', '0', '0', '0',
      Nat.digitChar id]
  parseUuid uuid := uuid.getLast?.map (· - '0'.toNat)

theorem epochTexts_readable (date id : ℕ) (hdate : date < 10) (hid : id < 10) :
    Readable epochTexts date id where
  date_text := by simp [epochTexts]
  date_read := by
    revert date
    decide
  id_text := by simp [epochTexts]
  id_read := by
    revert id
    decide
  id_plain := by
    revert id
    decide

def noFilters : TransactionListFilters := ⟨none, none, none, none, [], none, []⟩

/-- Two rows made in the same millisecond. -/
def twins : List ListedRow :=
  [{ untimed 1 with createdAt := some 500 }, { untimed 2 with createdAt := some 700 }]

theorem twins_distinct :
    ((found epochTexts none none noFilters twins).map ListedRow.key).Nodup :=
  List.Nodup.sublist (List.filter_sublist.map _) (by simp [twins, untimed, ListedRow.key])

theorem twins_readable : AllReadable epochTexts (found epochTexts none none noFilters twins) := by
  intro row hrow time htime
  obtain rfl | rfl : row = { untimed 1 with createdAt := some 500 } ∨
      row = { untimed 2 with createdAt := some 700 } := by
    simpa [twins] using List.mem_of_mem_filter hrow
  all_goals
    obtain rfl := Option.some.inj htime
    exact epochTexts_readable 0 _ (by decide) (by decide)

theorem found_twins : found epochTexts none none noFilters twins = twins := by
  simp [found, selected, buildListWhere, noFilters, given]

theorem newestFirst_twins : newestFirst twins = twins.reverse := by
  have older : toLex (((500 : ℤ) : WithTop ℤ), 1) ≤ toLex (((700 : ℤ) : WithTop ℤ), 2) :=
    Prod.Lex.toLex_le_toLex.2 (.inl (WithTop.coe_lt_coe.2 (by decide)))
  have arranged : Arranged ListedRow.key (twins.filter (·.createdAt.isSome)) twins.reverse :=
    ⟨List.reverse_perm _, List.pairwise_pair.2 older⟩
  refine arranged_newestFirst.eq arranged ?_
  simp [twins, untimed, ListedRow.key]

/-- The first page ends with the newer of the two, and the older one is not read. -/
theorem readsOn_rowsBelow_iff_twins :
    ¬ ReadsOn epochTexts none none noFilters twins (some 1) (cursorText epochTexts 1 3)
      twins.reverse := by
  have opens : Opens epochTexts (cursorText epochTexts 1 3) (1000, 3) :=
    (epochTexts_readable 1 3 (by decide) (by decide)).opens
  have rows : rowsBelow (1000, 3) (found epochTexts none none noFilters twins) =
      twins.reverse := by
    rw [found_twins, rowsBelow, newestFirst_twins]
    decide
  rw [← rows]
  intro reads
  have separated := ((readsOn_rowsBelow_iff twins_distinct twins_readable opens).1 reads).2
  rw [rows] at separated
  exact absurd (separated 1 one_pos _ rfl _ rfl) (by decide)

/-- The other way the older of the two is read again and again. -/
theorem readsBack_rowsAbove_iff_twins :
    ¬ ReadsBack epochTexts none none noFilters twins (some 1) (cursorText epochTexts 0 0)
      twins := by
  have opens : Opens epochTexts (cursorText epochTexts 0 0) (0, 0) :=
    (epochTexts_readable 0 0 (by decide) (by decide)).opens
  have rows : rowsAbove (0, 0) (found epochTexts none none noFilters twins) = twins := by
    rw [found_twins, rowsAbove, newestFirst_twins]
    decide
  intro reads
  have whole := ((readsBack_rowsAbove_iff twins_distinct twins_readable opens).1
    (by rw [rows]; exact reads)).2
  rw [rows] at whole
  exact absurd (whole 1 one_pos (by decide) _ rfl)
    (by simp [WholeMilliseconds, toMicroseconds, toMilliseconds])

end MobileMoney.Transactions
