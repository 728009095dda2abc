import MobileMoney.Reconciliation.Partition
import MobileMoney.Reconciliation.Program

/-!
# The stream and the batch

The stream counts row by row what the batch counts on its maps, and it takes all rows without a
first match for orphans. The two agree exactly on statements in which every row has a reference and
no reference stands for two rows of a record or for two records of no row.
-/

namespace MobileMoney.Reconciliation

variable {text : Text} {config : StreamConfig} {dbByReference : DbByReference text}
  {rows parsed : List ProviderCSVRow} {dbRecords : List DbRecord}

structure Agrees (streamed : StreamingResult) (result : ReconciliationResult) : Prop where
  matched : streamed.matchedCount = result.matched.length
  discrepancies : streamed.discrepanciesCount = result.discrepancies.length
  orphanedProvider : streamed.orphanedProviderCount = result.orphanedProvider.length
  orphanedDb : streamed.orphanedDbCount = result.orphanedDb.length

variable (text) in
structure Unambiguous (providerRows : List ProviderCSVRow) (dbRecords : List DbRecord) : Prop where
  provider : ((providerRows.filter fun row => shared text providerRows dbRecords
    (row.reference text)).map (·.reference text)).Nodup
  database : ((dbRecords.filter fun record => carried (record.reference text) &&
    !shared text providerRows dbRecords (record.reference text)).map (·.reference text)).Nodup
  carried : ∀ row ∈ providerRows, carried (row.reference text) = true

/-! ## What the stream has counted -/

/-- A row whose record passes the test. -/
def examined (dbByReference : DbByReference text) (test : DbRecord → ProviderCSVRow → Bool)
    (row : ProviderCSVRow) : Bool :=
  (lookup dbByReference row).any (test · row)

namespace Stream

/-- The counts are those of the rows so far. -/
structure Counted (dbByReference : DbByReference text) (parsed : List ProviderCSVRow)
    (s : Stream) : Prop where
  rows : s.processedRows = parsed.length
  matched : s.matchedCount = parsed.countP (examined dbByReference (checkMatch text))
  discrepancies : s.discrepanciesCount =
    parsed.countP (examined dbByReference fun record row => !checkMatch text record row)
  nodup : s.matchedProviderRefs.Nodup
  refs : ∀ ref, ref ∈ s.matchedProviderRefs ↔
    ∃ row ∈ parsed, (lookup dbByReference row).isSome ∧ row.reference text = ref

theorem counted_init : Counted dbByReference [] .init :=
  ⟨rfl, rfl, rfl, List.nodup_nil, by simp [init]⟩

theorem Counted.of_counts {s t : Stream} (h : Counted dbByReference parsed s)
    (hrows : t.processedRows = s.processedRows) (hmatched : t.matchedCount = s.matchedCount)
    (hdiscrepancies : t.discrepanciesCount = s.discrepanciesCount)
    (hrefs : t.matchedProviderRefs = s.matchedProviderRefs) : Counted dbByReference parsed t :=
  ⟨hrows ▸ h.rows, hmatched ▸ h.matched, hdiscrepancies ▸ h.discrepancies, hrefs ▸ h.nodup,
    hrefs ▸ h.refs⟩

/-- Batches are no matter of the counts. -/
theorem Counted.push {s : Stream} (h : Counted dbByReference parsed s)
    (normalized : ProviderCSVRow) : Counted dbByReference parsed (push config normalized s) := by
  unfold Stream.push startBatch
  split_ifs <;> exact h.of_counts rfl rfl rfl rfl

theorem mem_refs_append {normalized : ProviderCSVRow} {ref : Option String} :
    (∃ row ∈ parsed ++ [normalized], (lookup dbByReference row).isSome ∧ row.reference text = ref) ↔
      (∃ row ∈ parsed, (lookup dbByReference row).isSome ∧ row.reference text = ref) ∨
        (lookup dbByReference normalized).isSome ∧ normalized.reference text = ref := by
  simp only [List.mem_append, List.mem_singleton, or_and_right, exists_or, exists_eq_left]

/-- A row for which there is no record. -/
theorem counted_unknown {normalized : ProviderCSVRow} {s : Stream}
    (h : Counted dbByReference parsed s) (hnone : lookup dbByReference normalized = none) :
    Counted dbByReference (parsed ++ [normalized])
      { s with processedRows := s.processedRows + 1 } := by
  have unexamined : ∀ test, examined dbByReference test normalized = false := by
    intro test
    simp [examined, hnone]
  obtain ⟨hrows, hmatched, hdiscrepancies, hnodup, hrefs⟩ := h
  refine ⟨?_, ?_, ?_, hnodup, ?_⟩
  · simp [hrows]
  · simp [hmatched, unexamined]
  · simp [hdiscrepancies, unexamined]
  · intro ref
    rw [mem_refs_append, ← hrefs ref]
    simp [hnone]

/-- A row with its record. -/
theorem counted_examine {normalized : ProviderCSVRow} {s : Stream} {record : DbRecord}
    (h : Counted dbByReference parsed s) (hsome : lookup dbByReference normalized = some record)
    (hfound : dbByReference.find? (normalized.reference text) = some record) :
    Counted dbByReference (parsed ++ [normalized])
      (examine dbByReference normalized { s with processedRows := s.processedRows + 1 }) := by
  have hexamined : ∀ test, examined dbByReference test normalized = test record normalized := by
    intro test
    simp [examined, hsome]
  obtain ⟨hrows, hmatched, hdiscrepancies, hnodup, hrefs⟩ := h
  have refs : ∀ ref, ref ∈ s.matchedProviderRefs.insert (normalized.reference text) ↔
      ∃ row ∈ parsed ++ [normalized], (lookup dbByReference row).isSome ∧
        row.reference text = ref := by
    intro ref
    rw [mem_refs_append, ← hrefs ref, List.mem_insert_iff, or_comm]
    simp [hsome, eq_comm]
  simp only [examine, hfound]
  by_cases hcheck : checkMatch text record normalized = true
  · rw [if_pos hcheck]
    exact ⟨by simp [hrows], by simp [hmatched, hexamined, hcheck],
      by simp [hdiscrepancies, hexamined, hcheck], hnodup.insert, refs⟩
  · rw [if_neg hcheck]
    exact ⟨by simp [hrows], by simp [hmatched, hexamined, hcheck],
      by simp [hdiscrepancies, hexamined, hcheck], hnodup.insert, refs⟩

theorem counted_transform {s : Stream} (h : Counted dbByReference parsed s)
    (row : ProviderCSVRow) :
    Counted dbByReference (parsed ++ [normalizeRow text row])
      (transform config dbByReference s row) := by
  unfold transform
  by_cases hcarried : carried ((normalizeRow text row).reference text)
  · have hlookup : lookup dbByReference (normalizeRow text row) =
        dbByReference.find? ((normalizeRow text row).reference text) := if_pos hcarried
    rw [if_pos hcarried]
    refine Counted.push ?_ _
    cases hfound : dbByReference.find? ((normalizeRow text row).reference text) with
    | none =>
      simp only [examine, hfound]
      exact counted_unknown h (hlookup.trans hfound)
    | some record => exact counted_examine h (hlookup.trans hfound) hfound
  · rw [if_neg hcarried]
    exact counted_unknown h (if_neg hcarried)

variable (config dbByReference) in
/-- After any rows, with any batches. -/
theorem counted_foldl (rows : List ProviderCSVRow) :
    Counted dbByReference (parseCSV text rows)
      (rows.foldl (transform config dbByReference) .init) := by
  induction rows using List.reverseRecOn with
  | nil => exact counted_init
  | append_singleton rows row ih =>
    rw [List.foldl_append, parseCSV, List.map_append]
    exact counted_transform ih row

/-- The result is determined by the rows. -/
theorem Counted.result_eq {s t : Stream} (hs : Counted dbByReference parsed s)
    (ht : Counted dbByReference parsed t) : s.result dbByReference = t.result dbByReference := by
  have refs : ∀ ref, ref ∈ s.matchedProviderRefs ↔ ref ∈ t.matchedProviderRefs :=
    fun ref => (hs.refs ref).trans (ht.refs ref).symm
  have perm := (List.perm_ext_iff_of_nodup hs.nodup ht.nodup).2 refs
  have seen : ∀ ref, s.matchedProviderRefs.contains ref = t.matchedProviderRefs.contains ref :=
    fun ref => by rw [Bool.eq_iff_iff, List.contains_iff_mem, List.contains_iff_mem, refs]
  simp only [result, hs.rows, ht.rows, hs.matched, ht.matched, hs.discrepancies, ht.discrepancies,
    perm.length_eq, seen]

end Stream

/-! ## What the batch has counted -/

theorem length_filter_compared (providerByReference : ProviderByReference text)
    (test : DbRecord → ProviderCSVRow → Bool) {p : ReconciliationMatch → Bool}
    (hp : ∀ record row, p (compare text record row) = test record row) :
    ((compared dbByReference providerByReference).filter p).length =
      providerByReference.rows.countP (examined dbByReference test) := by
  unfold compared
  induction providerByReference.rows with
  | nil => rfl
  | cons row rows ih =>
    rw [List.filterMap_cons, List.countP_cons, ← ih]
    cases hlookup : lookup dbByReference row with
    | none => simp [examined, hlookup]
    | some record =>
      cases htest : test record row <;> simp [examined, hlookup, hp, htest]

/-- A row with a record is a match or a discrepancy. -/
theorem countP_examined (dbByReference : DbByReference text) (rows : List ProviderCSVRow) :
    rows.countP (examined dbByReference (checkMatch text)) +
        rows.countP (examined dbByReference fun record row => !checkMatch text record row) =
      (rows.filter fun row => (lookup dbByReference row).isSome).length := by
  induction rows with
  | nil => rfl
  | cons row rows ih =>
    rw [List.countP_cons, List.countP_cons, List.filter_cons]
    cases hlookup : lookup dbByReference row with
    | none => simpa [examined, hlookup] using ih
    | some record =>
      cases hcheck : checkMatch text record row <;>
        simp [examined, hlookup, hcheck] <;> omega

variable (text dbRecords) in
/-- Records without a reference are never found. -/
theorem lookup_createDbLookupMap :
    lookup (createDbLookupMap text dbRecords) =
      lookup (.ofList dbRecords : DbByReference text) := by
  funext row
  unfold lookup
  split_ifs with hcarried
  · exact Keyed.find?_ofList_filter hcarried
  · rfl

theorem examined_createDbLookupMap (test : DbRecord → ProviderCSVRow → Bool) :
    examined (createDbLookupMap text dbRecords) test =
      examined (.ofList dbRecords : DbByReference text) test := by
  unfold examined
  rw [lookup_createDbLookupMap]

variable (text) in
theorem length_matched_filter (providerRows : List ProviderCSVRow)
    (dbRecords : List DbRecord) :
    (reconcile text providerRows dbRecords).matched.length =
        (.ofList providerRows : ProviderByReference text).rows.countP
          (examined (.ofList dbRecords : DbByReference text) (checkMatch text)) ∧
      (reconcile text providerRows dbRecords).discrepancies.length =
        (.ofList providerRows : ProviderByReference text).rows.countP
          (examined (.ofList dbRecords : DbByReference text)
            fun record row => !checkMatch text record row) :=
  ⟨length_filter_compared _ _ fun _ _ => rfl, length_filter_compared _ _ fun _ _ => rfl⟩

/-- A row of the statement with a record has a shared reference. -/
theorem filter_isSome_lookup :
    (parsed.filter fun row => (lookup (.ofList dbRecords : DbByReference text) row).isSome) =
      parsed.filter fun row => shared text parsed dbRecords (row.reference text) :=
  List.filter_congr fun _ hrow => isSome_lookup (List.mem_map_of_mem hrow)

/-- Only rows with a shared reference are counted as matches or discrepancies. -/
theorem countP_filter_shared {l : List ProviderCSVRow} (hl : ∀ row ∈ l, row ∈ parsed)
    (test : DbRecord → ProviderCSVRow → Bool) :
    (l.filter fun row => shared text parsed dbRecords (row.reference text)).countP
        (examined (.ofList dbRecords : DbByReference text) test) =
      l.countP (examined (.ofList dbRecords : DbByReference text) test) := by
  rw [List.countP_filter]
  apply List.countP_congr
  intro row hrow
  rw [← isSome_lookup (List.mem_map_of_mem (hl row hrow)), Bool.and_eq_true]
  constructor
  · exact And.left
  · intro hexamined
    refine ⟨hexamined, ?_⟩
    cases hlookup : lookup (.ofList dbRecords : DbByReference text) row with
    | none => simp [examined, hlookup] at hexamined
    | some record => rfl

variable (text parsed dbRecords) in
/-- The matches and the discrepancies are as many as those of the batch if and only if no row is
lost from its map. -/
theorem counts_iff :
    (parsed.countP (examined (.ofList dbRecords : DbByReference text) (checkMatch text)) =
        (reconcile text parsed dbRecords).matched.length ∧
      parsed.countP (examined (.ofList dbRecords : DbByReference text)
          fun record row => !checkMatch text record row) =
        (reconcile text parsed dbRecords).discrepancies.length) ↔
      ((parsed.filter fun row => shared text parsed dbRecords (row.reference text)).map
        (·.reference text)).Nodup := by
  have kept : ∀ row ∈ (.ofList parsed : ProviderByReference text).rows, row ∈ parsed :=
    fun _ hrow => Keyed.mem_of_mem_ofList hrow
  rw [(length_matched_filter _ _ _).1, (length_matched_filter _ _ _).2]
  constructor
  · rintro ⟨hmatched, hdiscrepancies⟩
    rw [← Keyed.length_filter_ofList_iff (ProviderCSVRow.reference text)
      (shared text parsed dbRecords), ← filter_lookup, ← filter_isSome_lookup,
      ← countP_examined, ← countP_examined, hmatched, hdiscrepancies]
  · intro nodup
    have perm := (Keyed.filter_ofList_perm_iff (ProviderCSVRow.reference text)
      (shared text parsed dbRecords)).2 nodup
    have same : ∀ test,
        parsed.countP (examined (.ofList dbRecords : DbByReference text) test) =
          (.ofList parsed : ProviderByReference text).rows.countP
            (examined (.ofList dbRecords : DbByReference text) test) := by
      intro test
      rw [← countP_filter_shared (fun _ hrow => hrow), ← countP_filter_shared kept]
      exact perm.symm.countP_eq _
    exact ⟨same _, same _⟩

/-! ## The orphans -/

theorem mem_matchedProviderRefs {s : Stream}
    (h : s.Counted (createDbLookupMap text dbRecords) parsed) {ref : Option String} :
    ref ∈ s.matchedProviderRefs ↔ shared text parsed dbRecords ref = true := by
  rw [h.refs, lookup_createDbLookupMap]
  constructor
  · rintro ⟨row, hrow, hsome, rfl⟩
    rwa [isSome_lookup (List.mem_map_of_mem hrow)] at hsome
  · intro hshared
    obtain ⟨row, hrow, rfl⟩ := List.mem_map.1 (shared_iff.1 hshared).2.1
    exact ⟨row, hrow, (isSome_lookup (List.mem_map_of_mem hrow)).trans hshared, rfl⟩

/-- The references that have been matched are those of the shared rows that the map keeps. -/
theorem length_matchedProviderRefs {s : Stream}
    (h : s.Counted (createDbLookupMap text dbRecords) parsed) :
    s.matchedProviderRefs.length = ((.ofList parsed : ProviderByReference text).rows.filter
      fun row => shared text parsed dbRecords (row.reference text)).length := by
  rw [← List.length_map (fun row : ProviderCSVRow => row.reference text)]
  refine ((List.perm_ext_iff_of_nodup h.nodup (Keyed.nodup_filter _ _)).2 fun ref => ?_).length_eq
  rw [mem_matchedProviderRefs h, mem_refs_filter_shared]

variable (text parsed dbRecords) in
/-- Rows are shared, orphans or without a reference. -/
theorem length_carried :
    (parsed.filter fun row => carried (row.reference text)).length =
      (parsed.filter fun row => shared text parsed dbRecords (row.reference text)).length +
        (reconcile text parsed dbRecords).orphanedProvider.length := by
  have split := (List.filter_append_perm
    (fun row : ProviderCSVRow => shared text parsed dbRecords (row.reference text))
    (parsed.filter fun row => carried (row.reference text))).length_eq
  rw [List.length_append, List.filter_filter, List.filter_filter] at split
  rw [orphanedProvider_eq, ← filter_shared (fun row : ProviderCSVRow => row.reference text),
    ← split]
  simp only [Bool.and_comm]

/-- What is left of the map of the database is as much as the orphaned records if and only if none
of them has been lost. -/
theorem orphanedDb_iff {s : Stream} (h : s.Counted (createDbLookupMap text dbRecords) parsed) :
    (s.result (createDbLookupMap text dbRecords)).orphanedDbCount =
        (reconcile text parsed dbRecords).orphanedDb.length ↔
      ((dbRecords.filter fun record => carried (record.reference text) &&
        !shared text parsed dbRecords (record.reference text)).map (·.reference text)).Nodup := by
  have matched : ∀ ref, s.matchedProviderRefs.contains ref = shared text parsed dbRecords ref := by
    intro ref
    rw [Bool.eq_iff_iff, List.contains_iff_mem, mem_matchedProviderRefs h]
  have lost := Keyed.length_filter_ofList_iff (DbRecord.reference text)
    (fun ref => !shared text parsed dbRecords ref)
    (dbRecords.filter fun record => carried (record.reference text))
  rw [List.filter_filter] at lost
  simp only [Bool.and_comm] at lost
  rw [orphanedDb_eq, ← lost]
  simp only [Stream.result, matched]
  rfl

/-- The rows without a match are as many as the orphans if and only if none is without a
reference. -/
theorem orphanedProvider_iff {s : Stream}
    (h : s.Counted (createDbLookupMap text dbRecords) parsed)
    (nodup : ((parsed.filter fun row => shared text parsed dbRecords (row.reference text)).map
      (·.reference text)).Nodup) :
    (s.result (createDbLookupMap text dbRecords)).orphanedProviderCount =
        (reconcile text parsed dbRecords).orphanedProvider.length ↔
      ∀ row ∈ parsed, carried (row.reference text) = true := by
  have hrefs := (length_matchedProviderRefs h).trans
    ((Keyed.length_filter_ofList_iff (ProviderCSVRow.reference text) _ _).2 nodup)
  have parts := length_carried text parsed dbRecords
  rw [← List.length_filter_eq_length_iff]
  simp only [Stream.result, h.rows, hrefs]
  omega

variable (text config) in
/-- The stream counts as the batch does if and only if every row has a reference, no reference with
a record is repeated in the statement and no reference without a row in the database. -/
theorem stream_agrees_iff (rows : List ProviderCSVRow) (dbRecords : List DbRecord) :
    Agrees (streamProcessCSV text config rows dbRecords)
        (reconcile text (parseCSV text rows) dbRecords) ↔
      Unambiguous text (parseCSV text rows) dbRecords := by
  have counted := Stream.counted_foldl config (createDbLookupMap text dbRecords) rows
  have matched := counted.matched
  have discrepancies := counted.discrepancies
  rw [examined_createDbLookupMap] at matched discrepancies
  have counts := counts_iff text (parseCSV text rows) dbRecords
  rw [← matched, ← discrepancies] at counts
  constructor
  · rintro ⟨hmatched, hdiscrepancies, hprovider, hdb⟩
    have nodup := counts.1 ⟨hmatched, hdiscrepancies⟩
    exact ⟨nodup, (orphanedDb_iff counted).1 hdb, (orphanedProvider_iff counted nodup).1 hprovider⟩
  · rintro ⟨nodup, hdb, hprovider⟩
    obtain ⟨hmatched, hdiscrepancies⟩ := counts.2 nodup
    exact ⟨hmatched, hdiscrepancies, (orphanedProvider_iff counted nodup).2 hprovider,
      (orphanedDb_iff counted).2 hdb⟩

section Instances

def chunks : StreamConfig := ⟨1000, 100, 5, by decide⟩

/-- A repeated row is a match and an orphan, and so is a row without a reference an orphan; two
records of no row are one orphan. -/
theorem repeated_rows_disagree :
    ¬Agrees (streamProcessCSV plain chunks [row "A" "5", row "A" "5"] [record "1" "A" "5"])
        (reconcile plain (parseCSV plain [row "A" "5", row "A" "5"]) [record "1" "A" "5"]) ∧
      ¬Agrees (streamProcessCSV plain chunks [row "" "5"] [])
        (reconcile plain (parseCSV plain [row "" "5"]) []) ∧
      ¬Agrees (streamProcessCSV plain chunks [] [record "1" "A" "5", record "2" "A" "5"])
        (reconcile plain (parseCSV plain []) [record "1" "A" "5", record "2" "A" "5"]) :=
  ⟨fun law => absurd law.matched (by decide +kernel),
    fun law => absurd law.orphanedProvider (by decide +kernel),
    fun law => absurd law.orphanedDb (by decide +kernel)⟩

end Instances

end MobileMoney.Reconciliation
