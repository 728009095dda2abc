import MobileMoney.Reconciliation.Program

/-!
# What a reconciliation counts

The maps keep the last row and the last record of a reference, and the others are counted nowhere
once the reference is matched; a record without a reference is counted nowhere at all. The result
partitions rows and records exactly when there is nothing of this kind.
-/

namespace MobileMoney.Reconciliation

variable (text : Text)

/-- The rows with a reference and the records, each of them counted once. -/
structure Partitioned (providerRows : List ProviderCSVRow) (dbRecords : List DbRecord)
    (result : ReconciliationResult) : Prop where
  provider : ((result.matched ++ result.discrepancies).map (·.providerRecord) ++
      result.orphanedProvider).Perm
    (providerRows.filter fun row => carried (row.reference text))
  database : ((result.matched ++ result.discrepancies).map (·.dbRecord) ++
      result.orphanedDb).Perm dbRecords

/-- The references that are on both sides. -/
def shared (providerRows : List ProviderCSVRow) (dbRecords : List DbRecord)
    (ref : Option String) : Bool :=
  carried ref && (providerRows.map (·.reference text)).contains ref &&
    (dbRecords.map (·.reference text)).contains ref

/-- No reference that is on both sides is repeated on one of them, and every record has one. -/
structure Distinct (providerRows : List ProviderCSVRow) (dbRecords : List DbRecord) : Prop where
  provider : ((providerRows.filter fun row => shared text providerRows dbRecords
    (row.reference text)).map (·.reference text)).Nodup
  database : ((dbRecords.filter fun record => shared text providerRows dbRecords
    (record.reference text)).map (·.reference text)).Nodup
  carried : ∀ record ∈ dbRecords, carried (record.reference text) = true

section Lists

variable {α : Type*} {p q : α → Bool}

/-- Where a part of a list is taken by what passes `p` among what passes `q`. -/
theorem perm_filter_append_iff (l part : List α) :
    (part ++ l.filter fun a => q a && !p a).Perm (l.filter q) ↔
      part.Perm (l.filter fun a => q a && p a) := by
  have split : (l.filter q).Perm
      ((l.filter fun a => q a && p a) ++ l.filter fun a => q a && !p a) := by
    have := (List.filter_append_perm p (l.filter q)).symm
    simpa only [List.filter_filter, Bool.and_comm] using this
  constructor
  · intro perm
    exact (List.perm_append_right_iff _).1 (perm.trans split)
  · intro perm
    exact ((List.perm_append_right_iff _).2 perm).trans split.symm

end Lists

variable {text} {providerRows : List ProviderCSVRow} {dbRecords : List DbRecord}

/-- The rows that are compared. -/
theorem compared_providers (dbByReference : DbByReference text)
    (providerByReference : ProviderByReference text) :
    (compared dbByReference providerByReference).map (·.providerRecord) =
      providerByReference.rows.filter fun row => (lookup dbByReference row).isSome := by
  unfold compared
  induction providerByReference.rows with
  | nil => rfl
  | cons row rows ih =>
    rw [List.filterMap_cons, List.filter_cons]
    cases hlookup : lookup dbByReference row with
    | none => simpa using ih
    | some record => simpa [compare] using ih

/-- The records that are compared. -/
theorem compared_records (dbByReference : DbByReference text)
    (providerByReference : ProviderByReference text) :
    (compared dbByReference providerByReference).map (·.dbRecord) =
      providerByReference.rows.filterMap (lookup dbByReference) := by
  unfold compared
  induction providerByReference.rows with
  | nil => rfl
  | cons row rows ih =>
    rw [List.filterMap_cons, List.filterMap_cons]
    cases hlookup : lookup dbByReference row with
    | none => simpa using ih
    | some record => simpa [compare] using ih

theorem shared_iff {ref : Option String} : shared text providerRows dbRecords ref = true ↔
    carried ref = true ∧ ref ∈ providerRows.map (·.reference text) ∧
      ref ∈ dbRecords.map (·.reference text) := by
  simp [shared, and_assoc]

/-- A row of the statement is looked up with success if its reference is shared. -/
theorem isSome_lookup {row : ProviderCSVRow}
    (href : row.reference text ∈ providerRows.map (·.reference text)) :
    (lookup (.ofList dbRecords : DbByReference text) row).isSome =
      shared text providerRows dbRecords (row.reference text) := by
  have hfound : (.ofList dbRecords : DbByReference text).find? (row.reference text) ≠ none ↔ _ :=
    Keyed.find?_ofList_ne_none (DbRecord.reference text)
  rw [Bool.eq_iff_iff, shared_iff, ← hfound, Option.isSome_iff_ne_none]
  unfold lookup
  split_ifs with hcarried <;> simp [hcarried, href]

theorem filter_lookup : ((.ofList providerRows : ProviderByReference text).rows.filter fun row =>
      (lookup (.ofList dbRecords : DbByReference text) row).isSome) =
    (.ofList providerRows : ProviderByReference text).rows.filter fun row =>
      shared text providerRows dbRecords (row.reference text) := by
  apply List.filter_congr
  intro row hrow
  exact isSome_lookup (List.mem_map_of_mem (Keyed.mem_of_mem_ofList hrow))

/-- What is compared is what is left of the shared references on the side of the provider. -/
theorem compared_providers_eq :
    (compared (.ofList dbRecords : DbByReference text) (.ofList providerRows)).map
        (·.providerRecord) =
      (.ofList providerRows : ProviderByReference text).rows.filter fun row =>
        shared text providerRows dbRecords (row.reference text) := by
  rw [compared_providers, filter_lookup]

/-- And what is left of them on the side of the database. -/
theorem compared_records_perm :
    ((compared (.ofList dbRecords : DbByReference text) (.ofList providerRows)).map
        (·.dbRecord)).Perm
      ((.ofList dbRecords : DbByReference text).rows.filter fun record =>
        shared text providerRows dbRecords (record.reference text)) := by
  rw [compared_records]
  refine Keyed.filterMap_find?_perm (.ofList providerRows : ProviderByReference text)
    (.ofList dbRecords : DbByReference text) carried fun record hrecord => ?_
  have href : record.reference text ∈ dbRecords.map (·.reference text) :=
    List.mem_map_of_mem (Keyed.mem_of_mem_ofList hrecord)
  rw [shared_iff, Keyed.mem_keys_ofList (ProviderCSVRow.reference text)]
  tauto

/-- The shared references are those that are left of them. -/
theorem mem_refs_filter_shared {ref : Option String} :
    ref ∈ ((.ofList providerRows : ProviderByReference text).rows.filter fun row =>
        shared text providerRows dbRecords (row.reference text)).map (·.reference text) ↔
      shared text providerRows dbRecords ref = true := by
  rw [List.mem_map]
  constructor
  · rintro ⟨row, hrow, rfl⟩
    exact (List.mem_filter.1 hrow).2
  · intro hshared
    have hkept := (Keyed.mem_keys_ofList _).2 (shared_iff.1 hshared).2.1
    obtain ⟨row, hrow, rfl⟩ := List.mem_map.1 hkept
    exact ⟨row, List.mem_filter.2 ⟨hrow, hshared⟩, rfl⟩

theorem mem_matchedRefs {ref : Option String} :
    ref ∈ (compared (.ofList dbRecords : DbByReference text) (.ofList providerRows)).map
        (·.providerRecord.reference text) ↔ shared text providerRows dbRecords ref = true := by
  have refs : (compared (.ofList dbRecords : DbByReference text) (.ofList providerRows)).map
      (·.providerRecord.reference text) =
      ((compared (.ofList dbRecords : DbByReference text) (.ofList providerRows)).map
        (·.providerRecord)).map (·.reference text) := by
    rw [List.map_map]
    rfl
  rw [refs, compared_providers_eq, mem_refs_filter_shared]

/-- The orphans are what carries a reference that is not shared. -/
theorem orphanedProvider_eq : (reconcile text providerRows dbRecords).orphanedProvider =
    providerRows.filter fun row => carried (row.reference text) &&
      !shared text providerRows dbRecords (row.reference text) := by
  apply List.filter_congr
  intro row _
  rw [Bool.eq_iff_iff]
  simp [mem_matchedRefs]

theorem orphanedDb_eq : (reconcile text providerRows dbRecords).orphanedDb =
    dbRecords.filter fun record => carried (record.reference text) &&
      !shared text providerRows dbRecords (record.reference text) := by
  apply List.filter_congr
  intro record _
  rw [Bool.eq_iff_iff]
  simp [mem_matchedRefs]

variable (text providerRows dbRecords) in
theorem matched_append_discrepancies {β : Type} (f : ReconciliationMatch → β) :
    (((reconcile text providerRows dbRecords).matched ++
      (reconcile text providerRows dbRecords).discrepancies).map f).Perm
    ((compared (.ofList dbRecords : DbByReference text) (.ofList providerRows)).map f) :=
  (List.filter_append_perm (fun entry : ReconciliationMatch => entry.matched) _).map f

/-! ## The partition -/

/-- A shared reference is one. -/
theorem filter_shared {α : Type} (reference : α → Option String) (rows : List α) :
    (rows.filter fun row => carried (reference row) &&
        shared text providerRows dbRecords (reference row)) =
      rows.filter fun row => shared text providerRows dbRecords (reference row) := by
  apply List.filter_congr
  intro row _
  rw [Bool.eq_iff_iff, Bool.and_eq_true]
  exact ⟨And.right, fun hshared => ⟨(shared_iff.1 hshared).1, hshared⟩⟩

theorem provider_iff :
    (((reconcile text providerRows dbRecords).matched ++
        (reconcile text providerRows dbRecords).discrepancies).map (·.providerRecord) ++
      (reconcile text providerRows dbRecords).orphanedProvider).Perm
        (providerRows.filter fun row => carried (row.reference text)) ↔
      ((providerRows.filter fun row => shared text providerRows dbRecords
        (row.reference text)).map (·.reference text)).Nodup := by
  have part := matched_append_discrepancies text providerRows dbRecords (·.providerRecord)
  rw [List.Perm.congr_left (part.append_right _), orphanedProvider_eq, perm_filter_append_iff,
    compared_providers_eq, filter_shared]
  exact Keyed.filter_ofList_perm_iff (ProviderCSVRow.reference text)
    (shared text providerRows dbRecords)

theorem database_iff (hcarried : ∀ record ∈ dbRecords, carried (record.reference text) = true) :
    (((reconcile text providerRows dbRecords).matched ++
        (reconcile text providerRows dbRecords).discrepancies).map (·.dbRecord) ++
      (reconcile text providerRows dbRecords).orphanedDb).Perm dbRecords ↔
      ((dbRecords.filter fun record => shared text providerRows dbRecords
        (record.reference text)).map (·.reference text)).Nodup := by
  have part := (matched_append_discrepancies text providerRows dbRecords (·.dbRecord)).trans
    compared_records_perm
  have all : dbRecords.filter (fun record => carried (record.reference text)) = dbRecords :=
    List.filter_eq_self.2 hcarried
  have pieces := perm_filter_append_iff (q := fun record => carried (record.reference text))
    (p := fun record => shared text providerRows dbRecords (record.reference text)) dbRecords
    ((.ofList dbRecords : DbByReference text).rows.filter fun record =>
      shared text providerRows dbRecords (record.reference text))
  rw [all, filter_shared] at pieces
  rw [List.Perm.congr_left (part.append_right _), orphanedDb_eq, pieces]
  exact Keyed.filter_ofList_perm_iff (DbRecord.reference text)
    (shared text providerRows dbRecords)

variable (text) in
/-- Every row with a reference and every record is counted once if and only if no reference that is
on both sides is repeated on one of them and every record has a reference. -/
theorem reconcile_partitions_iff (providerRows : List ProviderCSVRow) (dbRecords : List DbRecord) :
    Partitioned text providerRows dbRecords (reconcile text providerRows dbRecords) ↔
      Distinct text providerRows dbRecords := by
  constructor
  · rintro ⟨provider, database⟩
    have hcarried : ∀ record ∈ dbRecords, carried (record.reference text) = true := by
      intro record hrecord
      rcases List.mem_append.1 (database.mem_iff.2 hrecord) with hmem | hmem
      · have part := (matched_append_discrepancies text providerRows dbRecords (·.dbRecord)).trans
          compared_records_perm
        exact (shared_iff.1 (List.mem_filter.1 (part.mem_iff.1 hmem)).2).1
      · rw [orphanedDb_eq, List.mem_filter, Bool.and_eq_true] at hmem
        exact hmem.2.1
    exact ⟨provider_iff.1 provider, (database_iff hcarried).1 database, hcarried⟩
  · rintro ⟨provider, database, hcarried⟩
    exact ⟨provider_iff.2 provider, (database_iff hcarried).2 database⟩

section Instances

/-- For texts without spaces and capital letters. -/
def plain : Text := ⟨id, id, id⟩

def row (ref amount : String) : ProviderCSVRow := ⟨some ref, none, some amount, some "completed"⟩

def record (id ref amount : String) : DbRecord := ⟨id, ref, amount, "completed", "mtn", 0⟩

/-- Of two rows with the reference of a record the first one is counted nowhere, and so is the first
of two records with the reference of a row. -/
theorem repeated_references_collapse :
    ¬Partitioned plain [row "A" "5", row "A" "7"] [record "1" "A" "7"]
        (reconcile plain [row "A" "5", row "A" "7"] [record "1" "A" "7"]) ∧
      ¬Partitioned plain [row "A" "7"] [record "1" "A" "5", record "2" "A" "7"]
        (reconcile plain [row "A" "7"] [record "1" "A" "5", record "2" "A" "7"]) :=
  ⟨fun law => absurd law.provider.length_eq (by decide +kernel),
    fun law => absurd law.database.length_eq (by decide +kernel)⟩

end Instances

end MobileMoney.Reconciliation
