import MobileMoney.Ledger.Entries

/-!
# Following the cursors

The pages of an account are keyset pages over its entries in descending order. They come out
complete exactly when each cursor, as the database reads it back, separates the last entry of
its page from the next one. In a process whose local time is UTC a cursor loses nothing but
the microseconds within its millisecond.
-/

namespace MobileMoney.Ledger

open Binary64 Checked Paging

/-! ## The order of the entries -/

theorem key_injective (table : EntryTable) {a b : LedgerEntryRow} (ha : a ∈ table.rows)
    (hb : b ∈ table.rows) (h : a.key = b.key) : a = b := by
  refine table.eq_of_mem ha hb ?_
  simp only [LedgerEntryRow.key, toLex_inj, Prod.mk.injEq] at h
  exact h.2.2

theorem mem_orderEntries {rows : List LedgerEntryRow} {row : LedgerEntryRow} :
    row ∈ orderEntries rows ↔ row ∈ rows :=
  (List.perm_insertionSort _ rows).mem_iff

theorem orderEntries_descending (table : EntryTable) (p : LedgerEntryRow → Prop)
    [DecidablePred p] : Descending LedgerEntryRow.key
      (orderEntries (table.rows.filter fun row => p row)) := by
  have total : Std.Total fun a b : LedgerEntryRow => b.key ≤ a.key :=
    ⟨fun a b => le_total b.key a.key⟩
  have trans : IsTrans LedgerEntryRow fun a b => b.key ≤ a.key :=
    ⟨fun _ _ _ hab hbc => hbc.trans hab⟩
  have ordered := List.pairwise_insertionSort (fun a b : LedgerEntryRow => b.key ≤ a.key)
    (table.rows.filter fun row => p row)
  have nodup : (orderEntries (table.rows.filter fun row => p row)).Nodup :=
    (List.perm_insertionSort _ _).nodup_iff.2 (table.nodup.of_map.filter _)
  refine (ordered.and nodup).imp_of_mem ?_
  rintro a b ha hb ⟨hle, hne⟩
  refine lt_of_le_of_ne hle fun heq => hne ?_
  exact (key_injective table (List.mem_of_mem_filter (mem_orderEntries.1 hb))
    (List.mem_of_mem_filter (mem_orderEntries.1 ha)) heq).symm

theorem accountEntries_descending (table : EntryTable) (accountCode : String)
    (options : PageOptions) :
    Descending LedgerEntryRow.key (accountEntries table accountCode options) :=
  orderEntries_descending table _

theorem pending_eq_filter (rows : List LedgerEntryRow) (after : Option EntryKey) :
    pending LedgerEntryRow.key rows after =
      rows.filter fun row => ∀ key ∈ after, row.key < key := by
  cases after with
  | none => simp [pending]
  | some c => simp [pending]

/-- What a cursor leaves is a part of all entries, in the same order. -/
theorem orderEntries_pending (table : EntryTable) (accountCode : String)
    (options : PageOptions) (after : Option EntryKey) :
    orderEntries (table.rows.filter fun row =>
        Selected accountCode options row ∧ ∀ key ∈ after, row.key < key) =
      pending LedgerEntryRow.key (accountEntries table accountCode options) after := by
  have same : (orderEntries (table.rows.filter fun row =>
      Selected accountCode options row ∧ ∀ key ∈ after, row.key < key)).Perm
        (pending LedgerEntryRow.key (accountEntries table accountCode options) after) := by
    rw [pending_eq_filter]
    refine (List.perm_insertionSort _ _).trans ?_
    have parts : (table.rows.filter fun row =>
        Selected accountCode options row ∧ ∀ key ∈ after, row.key < key) =
          (table.rows.filter fun row => Selected accountCode options row).filter
            fun row => ∀ key ∈ after, row.key < key := by
      rw [List.filter_filter]
      congr 1
      funext row
      rw [← Bool.decide_and]
      exact decide_eq_decide.2 and_comm
    rw [parts]
    exact ((List.perm_insertionSort _ _).filter _).symm
  refine same.eq_of_pairwise ?_ (orderEntries_descending table _) ?_
  · intro a b _ _ hab hba
    exact absurd hab (lt_asymm hba)
  · rw [pending_eq_filter]
    exact (accountEntries_descending _ _ _).sublist List.filter_sublist

/-! ## Cursors as the database reads them -/

/-- The cursor of an entry, read back: its date and time by the clock of the process, in UTC
and without the microseconds. -/
def cursorKey (zone : ℤ → ℤ) (row : LedgerEntryRow) : Option EntryKey :=
  match row.entryDate, row.createdAt with
  | .finite day, .finite micros =>
    let date := zone (day * dayMillis)
    let time := zone (micros / 1000)
    if Readable date ∧ Readable time then
      some (toLex (.finite (date / dayMillis), toLex (.finite (time * 1000), row.id)))
    else none
  | _, _ => none

theorem abs_le_of_readable {instant : ℤ} (h : Readable instant) :
    |instant| ≤ 8640000000000000 := by
  unfold Readable at h
  rw [abs_le]
  omega

/-- A cursor that the database reads comes from finite columns and readable instants. -/
theorem cursorParameters_eq_ok {cursor : LedgerEntryCursor} {after : Option EntryKey} :
    cursorParameters (some cursor) = .ok after ↔ ∃ date time, cursor.entryDate = some date ∧
      cursor.createdAt = some time ∧ Readable date ∧ Readable time ∧
      some (toLex (.finite (date / dayMillis), toLex (.finite (time * 1000), cursor.id))) =
        after := by
  simp only [cursorParameters, decodeLedgerEntryCursor, castDate, castTimestamp, bind_eq_ok,
    orFail_eq_ok, require_eq_ok, pure_eq_ok, exists_const]
  constructor
  · rintro ⟨_, ⟨date, hdate, time, htime, rfl⟩, _, ⟨readable, rfl⟩, _, ⟨readable', rfl⟩, rfl⟩
    exact ⟨date, time, hdate, htime, readable, readable', rfl⟩
  · rintro ⟨date, time, hdate, htime, readable, readable', rfl⟩
    exact ⟨_, ⟨date, hdate, time, htime, rfl⟩, _, ⟨readable, rfl⟩, _, ⟨readable', rfl⟩, rfl⟩

theorem toCursorDate_eq_ok {parsed : Parsed} {instant : ℤ} (readable : Readable instant) :
    toCursorDate parsed = .ok (some instant) ↔ parsed = .date instant := by
  cases parsed with
  | number negative => simp [toCursorDate]
  | date time =>
    simp only [toCursorDate, bind_eq_ok, require_eq_ok, pure_eq_ok, exists_const,
      Option.some.injEq, Parsed.date.injEq]
    exact ⟨fun h => h.2, fun h => ⟨h ▸ abs_le_of_readable readable, h⟩⟩

theorem parseColumn_eq_date {zone toMillis : ℤ → ℤ} {column : Column} {time : ℤ} :
    parseColumn zone toMillis column = .date time ↔
      ∃ x, column = .finite x ∧ zone (toMillis x) = time := by
  cases column <;> simp [parseColumn]

/-- Encoding, decoding and casting a cursor. -/
theorem encode_cursorParameters (zone : ℤ → ℤ) (row : LedgerEntryRow) (after : Option EntryKey) :
    (∃ cursor, encodeLedgerEntryCursor zone row = .ok cursor ∧
      cursorParameters (some cursor) = .ok after) ↔
      ∃ key, cursorKey zone row = some key ∧ some key = after := by
  simp only [cursorParameters_eq_ok, encodeLedgerEntryCursor, bind_eq_ok, pure_eq_ok]
  constructor
  · rintro ⟨_, ⟨_, hdate, _, htime, rfl⟩, date, time, rfl, rfl, readable, readable', rfl⟩
    obtain ⟨day, hday, rfl⟩ := parseColumn_eq_date.1 ((toCursorDate_eq_ok readable).1 hdate)
    obtain ⟨micros, hmicros, rfl⟩ :=
      parseColumn_eq_date.1 ((toCursorDate_eq_ok readable').1 htime)
    refine ⟨_, ?_, rfl⟩
    rw [cursorKey, hday, hmicros]
    exact if_pos ⟨readable, readable'⟩
  · rintro ⟨key, hkey, rfl⟩
    unfold cursorKey at hkey
    split at hkey
    · next day micros hday hmicros =>
      dsimp only at hkey
      split_ifs at hkey with readable
      refine ⟨_, ⟨some _, (toCursorDate_eq_ok readable.1).2 ?_, some _,
        (toCursorDate_eq_ok readable.2).2 ?_, rfl⟩, _, _, rfl, rfl, readable.1, readable.2, hkey⟩
      · rw [hday]
        rfl
      · rw [hmicros]
        rfl
    · cases hkey

/-! ## Pages -/

theorem pageLimit_pos (options : PageOptions) : 0 < options.pageLimit := by
  unfold PageOptions.pageLimit normalizeLimit defaultLedgerEntryLimit maxLedgerEntryLimit
  split
  · split <;> omega
  · omega

section Page

variable {zone : ℤ → ℤ} {rest : List LedgerEntryRow} {n : ℕ}

/-- One row more than the page holds tells whether there is another page. -/
theorem toPage_take_succ : toPage zone n (rest.take (n + 1)) =
    if rest.length ≤ n then .ok ⟨rest, none, false, n⟩
    else do
      let last ← orFail (rest.take n).getLast? .typeError
      let nextCursor ← encodeLedgerEntryCursor zone last
      return ⟨rest.take n, some nextCursor, true, n⟩ := by
  unfold toPage
  rw [List.length_take, List.take_take, Nat.min_eq_left (Nat.le_succ n)]
  split_ifs with more last last
  · omega
  · rfl
  · rw [List.take_of_length_le (by omega)]
  · omega

variable {table : EntryTable} {accountCode : String} {options : PageOptions}

/-- Following the cursors is keyset paging over the entries of the account. -/
theorem followPages_eq_ok {fuel : ℕ} {cursor : Option LedgerEntryCursor}
    {result : List LedgerEntryRow} :
    followPages zone table accountCode options fuel cursor = .ok result ↔
      ∃ after, cursorParameters cursor = .ok after ∧
        follow LedgerEntryRow.key (cursorKey zone) options.pageLimit
          (accountEntries table accountCode options) fuel after = some result := by
  induction fuel generalizing cursor result with
  | zero => simp [followPages, follow]
  | succ fuel ih =>
    simp only [followPages, getEntriesByAccountPage, bind_eq_ok, selectEntries,
      orderEntries_pending, toPage_take_succ, follow]
    constructor
    · rintro ⟨page, ⟨after, hafter, hpage⟩, h⟩
      refine ⟨after, hafter, ?_⟩
      split_ifs at hpage ⊢ with hlast
      · obtain rfl := Except.ok.inj hpage
        simpa using h
      · simp only [bind_eq_ok, orFail_eq_ok, pure_eq_ok] at hpage
        obtain ⟨last, hlast, next, hnext, rfl⟩ := hpage
        simp only [bind_eq_ok, pure_eq_ok, ih] at h
        obtain ⟨later, ⟨after', hafter', hfollow⟩, rfl⟩ := h
        obtain ⟨key, hkey, rfl⟩ :=
          (encode_cursorParameters zone last after').1 ⟨next, hnext, hafter'⟩
        simp [hlast, hkey, hfollow]
    · rintro ⟨after, hafter, h⟩
      split_ifs at h with hlast
      · obtain rfl := Option.some.inj h
        exact ⟨_, ⟨after, hafter, if_pos hlast⟩, rfl⟩
      · simp only [Option.bind_eq_some_iff, Option.map_eq_some_iff] at h
        obtain ⟨key, ⟨last, hlast', hkey⟩, later, hfollow, rfl⟩ := h
        obtain ⟨next, hnext, hafter'⟩ :=
          (encode_cursorParameters zone last (some key)).2 ⟨key, hkey, rfl⟩
        set rest := pending LedgerEntryRow.key (accountEntries table accountCode options) after
        refine ⟨⟨rest.take options.pageLimit, some next, true, options.pageLimit⟩,
          ⟨after, hafter, ?_⟩, ?_⟩
        · rw [if_neg hlast]
          simp only [bind_eq_ok, orFail_eq_ok, pure_eq_ok]
          exact ⟨last, hlast', next, hnext, rfl⟩
        · simp only [bind_eq_ok, pure_eq_ok, ih]
          exact ⟨later, ⟨some key, hafter', hfollow⟩, rfl⟩

theorem complete_iff_follow :
    (∃ fuel, followPages zone table accountCode options fuel none =
      .ok (accountEntries table accountCode options)) ↔
    ∃ fuel, follow LedgerEntryRow.key (cursorKey zone) options.pageLimit
      (accountEntries table accountCode options) fuel none =
        some (accountEntries table accountCode options) := by
  have first : cursorParameters none = .ok none := rfl
  refine exists_congr fun fuel => followPages_eq_ok.trans ?_
  simp only [first, Except.ok.injEq, exists_eq_left']

end Page

/-- For every set of entries, every page size, dates and local time of the process: following
the cursors from the first page yields every entry of the account once and in order exactly
when each cursor, read back, lies between the last entry of its page and the next one. -/
theorem paging_complete_iff (zone : ℤ → ℤ) (table : EntryTable) (accountCode : String)
    (options : PageOptions) :
    let entries := accountEntries table accountCode options
    (∃ fuel, followPages zone table accountCode options fuel none = .ok entries) ↔
      ∀ k, 0 < k → k * options.pageLimit < entries.length →
        Separates LedgerEntryRow.key (cursorKey zone) entries (k * options.pageLimit) :=
  complete_iff_follow.trans
    (follow_eq_rows_iff (accountEntries_descending table accountCode options)
      (pageLimit_pos options))

/-! ## In UTC -/

/-- Entries whose times are whole milliseconds of readable years. -/
structure WholeMillis (row : LedgerEntryRow) : Prop where
  date : ∃ day, row.entryDate = .finite day ∧ Readable (day * dayMillis)
  time : ∃ millis, row.createdAt = .finite (millis * 1000) ∧ Readable millis

theorem cursorKey_of_wholeMillis {row : LedgerEntryRow} (h : WholeMillis row) :
    cursorKey id row = some row.key := by
  obtain ⟨day, hday, readable⟩ := h.date
  obtain ⟨millis, hmillis, readable'⟩ := h.time
  have exact : millis * 1000 / 1000 = millis := Int.mul_ediv_cancel _ (by decide)
  have whole : day * dayMillis / dayMillis = day := Int.mul_ediv_cancel _ (by decide)
  simp only [cursorKey, LedgerEntryRow.key, hday, hmillis, exact, whole, id_eq,
    if_pos (And.intro readable readable')]

/-- In UTC and without microseconds the pages are complete. -/
theorem paging_complete_of_wholeMillis (table : EntryTable) (accountCode : String)
    (options : PageOptions) (whole : ∀ row ∈ table.rows, WholeMillis row) :
    ∃ fuel, followPages id table accountCode options fuel none =
      .ok (accountEntries table accountCode options) := by
  rw [complete_iff_follow,
    follow_eq_rows_iff (accountEntries_descending _ _ _) (pageLimit_pos options)]
  intro k hk hlt
  refine separates_of_cut_eq_key (accountEntries_descending _ _ _) ?_
    (Nat.mul_pos hk (pageLimit_pos options)) hlt
  intro row hrow
  exact cursorKey_of_wholeMillis (whole row (List.mem_of_mem_filter (mem_orderEntries.1 hrow)))

/-! ## Two entries within a millisecond -/

def entryAt (id : Fin (2 ^ 128)) (micros : ℤ) : LedgerEntryRow where
  id := id
  entryDate := .finite 20000
  accountCode := "1100"
  accountName := "Mobile Money Float"
  debitAmount := 1
  creditAmount := 0
  description := "deposit"
  referenceNumber := "REF"
  transactionId := none
  createdAt := .finite micros

def closeEntries : List LedgerEntryRow :=
  [entryAt 1 1728000000001200, entryAt 2 1728000000001500]

theorem closeEntries_nodup : (closeEntries.map LedgerEntryRow.id).Nodup := by decide

def closeTable : EntryTable := ⟨closeEntries, closeEntries_nodup⟩

def onePerPage : PageOptions := ⟨none, none, some (.ofRat 1)⟩

theorem closeTable_entries : accountEntries closeTable "1100" onePerPage =
    [entryAt 2 1728000000001500, entryAt 1 1728000000001200] := by decide +kernel

theorem cursor_skips_entry : ¬ ∀ (zone : ℤ → ℤ) (table : EntryTable) (accountCode : String)
    (options : PageOptions), ∃ fuel, followPages zone table accountCode options fuel none =
      .ok (accountEntries table accountCode options) := by
  intro law
  have complete := (follow_eq_rows_iff (accountEntries_descending _ _ _) (pageLimit_pos _)).1
    (complete_iff_follow.1 (law id closeTable "1100" onePerPage))
  have one : onePerPage.pageLimit = 1 := by decide +kernel
  rw [closeTable_entries, one] at complete
  obtain ⟨_, _, c, ⟨⟩, ⟨⟩, ⟨⟩, below, -⟩ := complete 1 Nat.one_pos (by decide)
  revert below
  decide +kernel

end MobileMoney.Ledger
