import MobileMoney.Reconciliation.Mpesa.Program

/-!
# What an M-Pesa reconciliation reports

The rows that are matched are those that pass every check. A row is marked as found before it looks
for its transaction, so that the summary never counts an orphan of the provider; two rows that find
one transaction by different keys are both matched with it; and of two statuses that differ only a
missing callback is noticed.
-/

namespace MobileMoney.Reconciliation.Mpesa

variable (toLowerCase : String → String) {statementRecords : List MpesaStatementRecord}
  {dbRecords : List DbRecord}

/-! ## The law -/

def SameAmount (statement : MpesaStatementRecord) (dbRecord : DbRecord) : Prop :=
  normalizeAmount (some dbRecord.amount) = normalizeAmount (some statement.amount)

instance (statement : MpesaStatementRecord) (dbRecord : DbRecord) :
    Decidable (SameAmount statement dbRecord) :=
  inferInstanceAs (Decidable (_ = _))

/-- The provider has two words for a success. -/
def normalizeStatus (status : String) : String :=
  if toLowerCase status = "success" then "completed" else toLowerCase status

def SameStatus (statement : MpesaStatementRecord) (dbRecord : DbRecord) : Prop :=
  normalizeStatus toLowerCase statement.status = normalizeStatus toLowerCase dbRecord.status

instance (statement : MpesaStatementRecord) (dbRecord : DbRecord) :
    Decidable (SameStatus toLowerCase statement dbRecord) :=
  inferInstanceAs (Decidable (_ = _))

/-- The number that the summary has for a list of discrepancies. -/
def MpesaReconciliationSummary.count (summary : MpesaReconciliationSummary) :
    DiscrepancyType → ℕ
  | .amountMismatch => summary.amountDiscrepancies
  | .orphanedDb => summary.orphanedDb
  | .orphanedProvider => summary.orphanedProvider
  | .missingCallback => summary.missingCallbacks
  | .duplicateDisbursement => summary.duplicateDisbursements

/-- The rows with one `conversationId` are never matched together, so that an entry of `matched` is
one row by it, as it is one transaction by its id. -/
structure Sound (statementRecords : List MpesaStatementRecord) (dbRecords : List DbRecord)
    (result : MpesaReconciliationResult) : Prop where
  transactions : (result.matched.map (·.transactionId)).Nodup
  rows : (result.matched.map (·.conversationId)).Nodup
  pairs : ∀ entry ∈ result.matched, ∃ statement ∈ statementRecords, ∃ dbRecord ∈ dbRecords,
    statement.conversationId = entry.conversationId ∧ dbRecord.id = entry.transactionId ∧
      SameAmount statement dbRecord ∧ SameStatus toLowerCase statement dbRecord
  matched : result.summary.totalMatched = result.matched.length
  discrepancies : result.summary.totalDiscrepancies = result.discrepancies.length
  counts : ∀ type, result.summary.count type =
    (result.discrepancies.filter fun discrepancy => discrepancy.type = type).length

/-! ## What a row finds -/

/-- Of the transactions with a key the last one of the answer. -/
def lastWith (dbRecords : List DbRecord) (key : String) : Option DbRecord :=
  (dbRecords.filter fun r => r.key = some key).getLast?

def transactionOf (dbRecords : List DbRecord) (statement : MpesaStatementRecord) :
    Option DbRecord :=
  lastWith dbRecords statement.conversationId <|>
    (truthy statement.originatorConversationId).bind (lastWith dbRecords)

/-- The maps after the first transactions. -/
structure Indexed (dbRecords : List DbRecord) (index : Index) : Prop where
  find : ∀ key, index.dbByConversationId.find? (some key) = lastWith dbRecords key
  seen : ∀ key, key ∈ index.dbSeenConversations ↔
    0 < dbRecords.countP fun r => r.key = some key
  duplicates : ∀ key, key ∈ index.dbDuplicateConversations ↔
    1 < dbRecords.countP fun r => r.key = some key

theorem indexed_add {index : Index} (h : Indexed dbRecords index) (r : DbRecord) :
    Indexed (dbRecords ++ [r]) (index.add r) := by
  cases hkey : r.key with
  | none =>
    have same : index.add r = index := by simp [Index.add, hkey]
    have filtered : ∀ key : String, ((dbRecords ++ [r]).filter fun r => r.key = some key) =
        dbRecords.filter fun r => r.key = some key := by
      intro key
      simp [List.filter_append, hkey]
    rw [same]
    constructor
    · intro key
      rw [h.find, lastWith, lastWith, filtered]
    · intro key
      rw [h.seen, List.countP_eq_length_filter, List.countP_eq_length_filter, filtered]
    · intro key
      rw [h.duplicates, List.countP_eq_length_filter, List.countP_eq_length_filter, filtered]
  | some k =>
    simp only [Index.add, hkey]
    constructor
    · intro key
      rw [Keyed.find?_put, h.find, lastWith, lastWith, List.filter_append]
      by_cases hk : k = key <;> simp [hkey, hk]
    · intro key
      rw [List.mem_cons, h.seen, List.countP_append]
      by_cases hk : k = key
      · simp [hkey, hk]
      · simp [hkey, hk, Ne.symm hk]
    · intro key
      have hseen := h.seen key
      have hduplicates := h.duplicates key
      rw [List.countP_append]
      by_cases hk : k = key
      · subst hk
        by_cases hmem : k ∈ index.dbSeenConversations
        · simp [hkey, hmem, hseen.1 hmem]
        · have hzero := mt hseen.2 hmem
          simp only [hmem, if_false, hduplicates, List.countP_singleton, hkey, decide_true, if_true]
          omega
      · have hother : key ≠ k := Ne.symm hk
        split_ifs <;> simp [hkey, hk, hother, hduplicates]

theorem indexed_ofRecords (dbRecords : List DbRecord) :
    Indexed dbRecords (.ofRecords dbRecords) := by
  induction dbRecords using List.reverseRecOn with
  | nil => exact ⟨fun _ => rfl, by simp [Index.ofRecords], by simp [Index.ofRecords]⟩
  | append_singleton dbRecords r ih =>
    rw [Index.ofRecords, List.foldl_append]
    exact indexed_add ih r

theorem find_ofRecords (statement : MpesaStatementRecord) :
    (Index.ofRecords dbRecords).find statement = transactionOf dbRecords statement := by
  have h := indexed_ofRecords dbRecords
  simp only [Index.find, transactionOf, h.find]

/-! ## The rows that are matched -/

/-- What a row and a transaction are matched for. -/
structure Passes (statementRecords : List MpesaStatementRecord) (dbRecords : List DbRecord)
    (statement : MpesaStatementRecord) (dbRecord : DbRecord) : Prop where
  found : transactionOf dbRecords statement = some dbRecord
  single : statementCount statementRecords statement.conversationId ≤ 1
  amount : SameAmount statement dbRecord
  called : ¬ (isStatementSuccess toLowerCase statement ∧ isPending toLowerCase dbRecord)
  alone : ∀ key ∈ dbRecord.key, dbRecords.countP (fun r => r.key = some key) ≤ 1

def Matched.of (statement : MpesaStatementRecord) (dbRecord : DbRecord) : Matched :=
  ⟨statement.conversationId, dbRecord.id, normalizeAmount (some dbRecord.amount), dbRecord.status⟩

/-- The counters of the loop; orphans have none. -/
def Progress.count (p : Progress) : DiscrepancyType → ℕ
  | .amountMismatch => p.amountDiscrepancies
  | .missingCallback => p.missingCallbacks
  | .duplicateDisbursement => p.duplicateDisbursements
  | .orphanedDb | .orphanedProvider => 0

/-- What a turn of the loop does with a row. -/
inductive Examined (statementRecords : List MpesaStatementRecord) (dbRecords : List DbRecord)
    (statement : MpesaStatementRecord) (p next : Progress) : Prop where
  | matched (dbRecord : DbRecord)
      (passes : Passes toLowerCase statementRecords dbRecords statement dbRecord)
      (added : next.matched = p.matched ++ [.of statement dbRecord])
      (kept : next.discrepancies = p.discrepancies) (counts : next.count = p.count)
  | refused (discrepancy : MpesaReconciliationDiscrepancy)
      (fails : ∀ dbRecord, ¬ Passes toLowerCase statementRecords dbRecords statement dbRecord)
      (kept : next.matched = p.matched)
      (added : next.discrepancies = p.discrepancies ++ [discrepancy])
      (orphan : discrepancy.type = .orphanedProvider ↔ transactionOf dbRecords statement = none)
      (counts : ∀ type ≠ .orphanedProvider,
        next.count type = p.count type + if discrepancy.type = type then 1 else 0)

theorem examine_cases (statementRecords : List MpesaStatementRecord) (dbRecords : List DbRecord)
    (statement : MpesaStatementRecord) (p : Progress) :
    Examined toLowerCase statementRecords dbRecords statement p
      (examine toLowerCase statementRecords (.ofRecords dbRecords) p statement) := by
  have duplicates := (indexed_ofRecords dbRecords).duplicates
  unfold examine
  rw [find_ofRecords]
  cases found : transactionOf dbRecords statement with
  | none =>
    refine .refused (orphanedProvider statement) ?_ rfl rfl (by simp [orphanedProvider, found]) ?_
    · intro dbRecord passes
      rw [passes.found] at found
      cases found
    · intro type htype
      cases type <;> first | rfl | exact absurd rfl htype
  | some dbRecord =>
    have same : ∀ other, Passes toLowerCase statementRecords dbRecords statement other →
        other = dbRecord := by
      intro other passes
      rw [passes.found] at found
      exact Option.some.inj found
    have refused : ∀ (discrepancy : MpesaReconciliationDiscrepancy) (next : Progress),
        ¬ Passes toLowerCase statementRecords dbRecords statement dbRecord →
        next.matched = p.matched → next.discrepancies = p.discrepancies ++ [discrepancy] →
        discrepancy.type ≠ .orphanedProvider →
        (∀ type, next.count type = p.count type + if discrepancy.type = type then 1 else 0) →
        Examined toLowerCase statementRecords dbRecords statement p next := by
      intro discrepancy next fails kept added htype counts
      refine .refused discrepancy ?_ kept added ?_ fun type _ => counts type
      · intro other passes
        exact fails (same other passes ▸ passes)
      · simp [htype, found]
    dsimp only
    split_ifs with hcount hamount hpending hduplicate
    · refine refused (duplicateInStatement statement _) _ ?_ rfl rfl nofun ?_
      · exact fun passes => absurd passes.single (by omega)
      · rintro (_ | _ | _ | _ | _) <;> rfl
    · refine refused (amountMismatch statement dbRecord) _ ?_ rfl rfl nofun ?_
      · exact fun passes => hamount passes.amount
      · rintro (_ | _ | _ | _ | _) <;> rfl
    · refine refused (missingCallback statement dbRecord) _ ?_ rfl rfl nofun ?_
      · exact fun passes => passes.called hpending
      · rintro (_ | _ | _ | _ | _) <;> rfl
    · refine refused (duplicateInDb statement dbRecord) _ ?_ rfl rfl nofun ?_
      · obtain ⟨key, hkey, hmem⟩ := hduplicate
        have many := (duplicates key).1 hmem
        exact fun passes => absurd (passes.alone key hkey) (by omega)
      · rintro (_ | _ | _ | _ | _) <;> rfl
    · refine .matched dbRecord ⟨found, by omega, not_not.1 hamount, hpending, ?_⟩ rfl rfl rfl
      intro key hkey
      by_contra hmany
      exact hduplicate ⟨key, hkey, (duplicates key).2 (by omega)⟩

theorem matchedStatementKeys_examine (index : Index) (statement : MpesaStatementRecord)
    (p : Progress) :
    (examine toLowerCase statementRecords index p statement).matchedStatementKeys =
      statement.conversationId :: p.matchedStatementKeys := by
  unfold examine
  cases index.find statement with
  | none => rfl
  | some dbRecord =>
    dsimp only
    split_ifs <;> rfl

/-! ## The loops -/

open Classical in
/-- The transaction that a row is matched with. -/
noncomputable def passing (statementRecords : List MpesaStatementRecord)
    (dbRecords : List DbRecord) (statement : MpesaStatementRecord) : Option DbRecord :=
  (transactionOf dbRecords statement).filter fun dbRecord =>
    Passes toLowerCase statementRecords dbRecords statement dbRecord

variable {toLowerCase}

theorem passing_eq_some {statement : MpesaStatementRecord} {dbRecord : DbRecord} :
    passing toLowerCase statementRecords dbRecords statement = some dbRecord ↔
      Passes toLowerCase statementRecords dbRecords statement dbRecord := by
  classical
  rw [passing, Option.filter_eq_some_iff, decide_eq_true_eq]
  exact ⟨And.right, fun passes => ⟨passes.found, passes⟩⟩

theorem passing_eq_none {statement : MpesaStatementRecord}
    (h : ∀ dbRecord, ¬ Passes toLowerCase statementRecords dbRecords statement dbRecord) :
    passing toLowerCase statementRecords dbRecords statement = none :=
  Option.eq_none_iff_forall_ne_some.2 fun dbRecord found => h dbRecord (passing_eq_some.1 found)

def ofType (type : DiscrepancyType) (discrepancies : List MpesaReconciliationDiscrepancy) :
    List MpesaReconciliationDiscrepancy :=
  discrepancies.filter fun discrepancy => discrepancy.type = type

theorem length_ofType_concat (type : DiscrepancyType)
    (discrepancies : List MpesaReconciliationDiscrepancy)
    (discrepancy : MpesaReconciliationDiscrepancy) :
    (ofType type (discrepancies ++ [discrepancy])).length =
      (ofType type discrepancies).length + if discrepancy.type = type then 1 else 0 := by
  rw [ofType, ofType, List.filter_append, List.length_append]
  split_ifs with htype <;> simp [htype]

variable (toLowerCase) in
/-- The state of the loop after the rows that have been examined. -/
structure Examining (statementRecords : List MpesaStatementRecord) (dbRecords : List DbRecord)
    (examined : List MpesaStatementRecord) (p : Progress) : Prop where
  matched : p.matched = examined.filterMap fun statement =>
    (passing toLowerCase statementRecords dbRecords statement).map (.of statement)
  orphans : (ofType .orphanedProvider p.discrepancies).length =
    (examined.filter fun statement => transactionOf dbRecords statement = none).length
  counts : ∀ type ≠ .orphanedProvider, p.count type = (ofType type p.discrepancies).length
  keys : ∀ statement ∈ examined, statement.conversationId ∈ p.matchedStatementKeys

theorem examining_step {examined : List MpesaStatementRecord} {p : Progress}
    (h : Examining toLowerCase statementRecords dbRecords examined p)
    (statement : MpesaStatementRecord) :
    Examining toLowerCase statementRecords dbRecords (examined ++ [statement])
      (examine toLowerCase statementRecords (.ofRecords dbRecords) p statement) := by
  have keys : ∀ other ∈ examined ++ [statement], other.conversationId ∈
      (examine toLowerCase statementRecords (.ofRecords dbRecords) p
        statement).matchedStatementKeys := by
    intro other hother
    rw [matchedStatementKeys_examine, List.mem_cons]
    rcases List.mem_append.1 hother with hbefore | hlast
    · exact .inr (h.keys other hbefore)
    · rw [List.mem_singleton.1 hlast]
      exact .inl rfl
  cases examine_cases toLowerCase statementRecords dbRecords statement p with
  | matched dbRecord passes added kept counts =>
    have found : transactionOf dbRecords statement ≠ none := by simp [passes.found]
    refine ⟨?_, ?_, ?_, keys⟩
    · rw [added, h.matched, List.filterMap_append]
      simp [passing_eq_some.2 passes]
    · rw [kept, h.orphans, List.filter_append]
      simp [found]
    · intro type htype
      rw [kept, counts, h.counts type htype]
  | refused discrepancy fails kept added orphan counts =>
    refine ⟨?_, ?_, ?_, keys⟩
    · rw [kept, h.matched, List.filterMap_append]
      simp [passing_eq_none fails]
    · rw [added, length_ofType_concat, h.orphans, List.filter_append, List.length_append]
      by_cases hnone : transactionOf dbRecords statement = none
      · simp [hnone, orphan.2 hnone]
      · simp [hnone, mt orphan.1 hnone]
    · intro type htype
      rw [added, length_ofType_concat, counts type htype, h.counts type htype]

variable (toLowerCase) in
theorem examining_all (statementRecords : List MpesaStatementRecord) (dbRecords : List DbRecord) :
    Examining toLowerCase statementRecords dbRecords statementRecords
      (examineAll toLowerCase statementRecords dbRecords) := by
  have prefixes : ∀ examined, Examining toLowerCase statementRecords dbRecords examined
      (examined.foldl (examine toLowerCase statementRecords (.ofRecords dbRecords))
        ⟨[], [], [], [], 0, 0, 0⟩) := by
    intro examined
    induction examined using List.reverseRecOn with
    | nil => exact ⟨rfl, rfl, by rintro (_ | _ | _ | _ | _) _ <;> rfl, nofun⟩
    | append_singleton examined statement ih =>
      rw [List.foldl_append]
      exact examining_step ih statement
  exact prefixes statementRecords

/-- The loop over the transactions adds orphans of the database, and counts them. -/
theorem examineDb_all (matchedDbKeys : List String) (dbRecords : List DbRecord)
    (orphans : ℕ × List MpesaReconciliationDiscrepancy)
    (h : orphans.1 = (ofType .orphanedDb orphans.2).length) :
    (dbRecords.foldl (examineDb matchedDbKeys) orphans).1 =
        (ofType .orphanedDb (dbRecords.foldl (examineDb matchedDbKeys) orphans).2).length ∧
      ∀ type ≠ .orphanedDb,
        (ofType type (dbRecords.foldl (examineDb matchedDbKeys) orphans).2).length =
          (ofType type orphans.2).length := by
  induction dbRecords generalizing orphans with
  | nil => exact ⟨h, fun _ _ => rfl⟩
  | cons dbRecord dbRecords ih =>
    rw [List.foldl_cons]
    have turn : (examineDb matchedDbKeys orphans dbRecord).1 =
          (ofType .orphanedDb (examineDb matchedDbKeys orphans dbRecord).2).length ∧
        ∀ type ≠ .orphanedDb,
          (ofType type (examineDb matchedDbKeys orphans dbRecord).2).length =
            (ofType type orphans.2).length := by
      unfold examineDb
      split
      · exact ⟨h, fun _ _ => rfl⟩
      · rename_i key hkey
        split_ifs
        · exact ⟨h, fun _ _ => rfl⟩
        · constructor
          · rw [length_ofType_concat, ← h]
            rfl
          · intro type htype
            have hother : (orphanedDb key dbRecord).type ≠ type := Ne.symm htype
            rw [length_ofType_concat, if_neg hother, Nat.add_zero]
    obtain ⟨counted, others⟩ := ih _ turn.1
    exact ⟨counted, fun type htype => (others type htype).trans (turn.2 type htype)⟩

/-! ## The report -/

variable (toLowerCase) in
/-- The rows that the summary should count as orphans, and does not. -/
theorem orphanedProvider_reported (statementRecords : List MpesaStatementRecord)
    (dbRecords : List DbRecord) :
    (reconcile toLowerCase statementRecords dbRecords).summary.orphanedProvider = 0 ∧
      (ofType .orphanedProvider
        (reconcile toLowerCase statementRecords dbRecords).discrepancies).length =
        (statementRecords.filter fun statement =>
          transactionOf dbRecords statement = none).length := by
  have loop := examining_all toLowerCase statementRecords dbRecords
  constructor
  · have marked : (statementRecords.filter fun statement => statement.conversationId ∉
        (examineAll toLowerCase statementRecords dbRecords).matchedStatementKeys) = [] := by
      rw [List.filter_eq_nil_iff]
      intro statement hmem
      simpa using loop.keys statement hmem
    exact congrArg List.length marked
  · have both := examineDb_all (examineAll toLowerCase statementRecords dbRecords).matchedDbKeys
      dbRecords (0, _) (loop.counts .orphanedDb nofun)
    exact (both.2 .orphanedProvider nofun).trans loop.orphans

/-- The other counts of the summary are those of the lists. -/
theorem counts_reported (statementRecords : List MpesaStatementRecord)
    (dbRecords : List DbRecord) {type : DiscrepancyType} (htype : type ≠ .orphanedProvider) :
    (reconcile toLowerCase statementRecords dbRecords).summary.count type =
      (ofType type (reconcile toLowerCase statementRecords dbRecords).discrepancies).length := by
  have loop := examining_all toLowerCase statementRecords dbRecords
  have both := examineDb_all (examineAll toLowerCase statementRecords dbRecords).matchedDbKeys
    dbRecords (0, _) (loop.counts .orphanedDb nofun)
  by_cases hdb : type = .orphanedDb
  · rw [hdb]
    exact both.1
  · have counted := (loop.counts type htype).trans (both.2 type hdb).symm
    cases type with
    | orphanedDb => exact absurd rfl hdb
    | orphanedProvider => exact absurd rfl htype
    | amountMismatch => exact counted
    | missingCallback => exact counted
    | duplicateDisbursement => exact counted

theorem counts_iff :
    (∀ type, (reconcile toLowerCase statementRecords dbRecords).summary.count type =
      (ofType type (reconcile toLowerCase statementRecords dbRecords).discrepancies).length) ↔
    ∀ statement ∈ statementRecords, transactionOf dbRecords statement ≠ none := by
  obtain ⟨hzero, hlength⟩ :=
    orphanedProvider_reported toLowerCase statementRecords dbRecords
  constructor
  · intro counts statement hmem hnone
    have hnil := (hlength.symm.trans (counts .orphanedProvider).symm).trans hzero
    rw [List.length_eq_zero_iff, List.filter_eq_nil_iff] at hnil
    exact hnil statement hmem (decide_eq_true hnone)
  · intro found type
    by_cases htype : type = .orphanedProvider
    · subst htype
      refine hzero.trans (hlength.trans ?_).symm
      rw [List.length_eq_zero_iff, List.filter_eq_nil_iff]
      exact fun statement hmem hnone => found statement hmem (of_decide_eq_true hnone)
    · exact counts_reported statementRecords dbRecords htype

theorem reconcile_matched (statementRecords : List MpesaStatementRecord)
    (dbRecords : List DbRecord) : (reconcile toLowerCase statementRecords dbRecords).matched =
      statementRecords.filterMap fun statement =>
        (passing toLowerCase statementRecords dbRecords statement).map (.of statement) :=
  (examining_all toLowerCase statementRecords dbRecords).matched

theorem mem_matched {entry : Matched} :
    entry ∈ (reconcile toLowerCase statementRecords dbRecords).matched ↔
      ∃ statement ∈ statementRecords, ∃ dbRecord,
        Passes toLowerCase statementRecords dbRecords statement dbRecord ∧
          .of statement dbRecord = entry := by
  simp only [reconcile_matched, List.mem_filterMap, Option.map_eq_some_iff, passing_eq_some]

/-- A row that is alone with its `conversationId`. -/
theorem eq_of_statementCount {statement other : MpesaStatementRecord}
    (single : statementCount statementRecords statement.conversationId ≤ 1)
    (hmem : statement ∈ statementRecords) (hother : other ∈ statementRecords)
    (same : other.conversationId = statement.conversationId) : other = statement := by
  rw [statementCount, List.countP_eq_length_filter] at single
  have hfirst : statement ∈ statementRecords.filter fun s =>
      s.conversationId = statement.conversationId := by simp [hmem]
  have hsecond : other ∈ statementRecords.filter fun s =>
      s.conversationId = statement.conversationId := by simp [hother, same]
  generalize statementRecords.filter (fun s => decide
    (s.conversationId = statement.conversationId)) = found at single hfirst hsecond
  match found with
  | [] => cases hfirst
  | [only] => rw [List.mem_singleton.1 hfirst, List.mem_singleton.1 hsecond]
  | _ :: _ :: _ => simp at single

theorem lastWith_mem {key : String} {dbRecord : DbRecord}
    (h : lastWith dbRecords key = some dbRecord) : dbRecord ∈ dbRecords :=
  (List.mem_filter.1 (List.mem_of_getLast? h)).1

theorem transactionOf_mem {statement : MpesaStatementRecord} {dbRecord : DbRecord}
    (h : transactionOf dbRecords statement = some dbRecord) : dbRecord ∈ dbRecords := by
  unfold transactionOf at h
  cases hown : lastWith dbRecords statement.conversationId with
  | some own =>
    rw [hown] at h
    exact Option.some.inj h ▸ lastWith_mem hown
  | none =>
    rw [hown] at h
    obtain ⟨key, -, hkey⟩ := Option.bind_eq_some_iff.1 h
    exact lastWith_mem hkey

/-- Of the rows with one `conversationId` at most one is matched. -/
theorem rows_nodup (statementRecords : List MpesaStatementRecord) (dbRecords : List DbRecord) :
    ((reconcile toLowerCase statementRecords dbRecords).matched.map (·.conversationId)).Nodup := by
  rw [reconcile_matched, List.Nodup, List.pairwise_map, List.pairwise_filterMap]
  refine List.pairwise_of_forall_sublist fun {statement other} hsublist => ?_
  intro entry hentry entry' hentry' same
  obtain ⟨dbRecord, hpassing, rfl⟩ := Option.map_eq_some_iff.1 hentry
  obtain ⟨dbRecord', hpassing', rfl⟩ := Option.map_eq_some_iff.1 hentry'
  have single := (passing_eq_some.1 hpassing).single
  have htwo : statementCount [statement, other] statement.conversationId = 2 := by
    have hother : other.conversationId = statement.conversationId := same.symm
    simp [statementCount, hother]
  have hle : statementCount [statement, other] statement.conversationId ≤
      statementCount statementRecords statement.conversationId := hsublist.countP_le
  omega

variable (toLowerCase) in
/-- Every row has a transaction, no two rows pass the checks with the same one, and the statuses
agree where they pass. -/
structure Clean (statementRecords : List MpesaStatementRecord) (dbRecords : List DbRecord) :
    Prop where
  found : ∀ statement ∈ statementRecords, transactionOf dbRecords statement ≠ none
  once : statementRecords.Pairwise fun statement other => ∀ dbRecord,
    Passes toLowerCase statementRecords dbRecords statement dbRecord →
      ¬ Passes toLowerCase statementRecords dbRecords other dbRecord
  status : ∀ statement ∈ statementRecords, ∀ dbRecord,
    Passes toLowerCase statementRecords dbRecords statement dbRecord →
      SameStatus toLowerCase statement dbRecord

theorem transactions_iff (nodup : (dbRecords.map DbRecord.id).Nodup) :
    ((reconcile toLowerCase statementRecords dbRecords).matched.map (·.transactionId)).Nodup ↔
      statementRecords.Pairwise fun statement other => ∀ dbRecord,
        Passes toLowerCase statementRecords dbRecords statement dbRecord →
          ¬ Passes toLowerCase statementRecords dbRecords other dbRecord := by
  rw [reconcile_matched, List.Nodup, List.pairwise_map, List.pairwise_filterMap]
  apply iff_of_eq
  congr 1
  funext statement other
  apply propext
  constructor
  · intro distinct dbRecord passes passes'
    exact distinct (.of statement dbRecord) (by rw [passing_eq_some.2 passes]; rfl)
      (.of other dbRecord) (by rw [passing_eq_some.2 passes']; rfl) rfl
  · intro once entry hentry entry' hentry' same
    obtain ⟨dbRecord, hpassing, rfl⟩ := Option.map_eq_some_iff.1 hentry
    obtain ⟨dbRecord', hpassing', rfl⟩ := Option.map_eq_some_iff.1 hentry'
    have passes := passing_eq_some.1 hpassing
    have passes' := passing_eq_some.1 hpassing'
    have hrecord : dbRecord = dbRecord' := List.inj_on_of_nodup_map nodup
      (transactionOf_mem passes.found) (transactionOf_mem passes'.found) same
    exact once dbRecord passes (hrecord ▸ passes')

/-- For every statement and every answer of the database: a transaction is matched with one row at
most, a row with one transaction, matched pairs agree in amount and status, and the counts are those
of the lists, if and only if every row has a transaction, no two rows pass the checks with the same
one, and rows that pass them have the status of their transaction. -/
theorem reconcile_sound_iff (toLowerCase : String → String)
    (statementRecords : List MpesaStatementRecord) (answer : Option Transactions) :
    Sound toLowerCase statementRecords (queryTransactions answer)
        (reconcile toLowerCase statementRecords (queryTransactions answer)) ↔
      Clean toLowerCase statementRecords (queryTransactions answer) := by
  have nodup : ((queryTransactions answer).map DbRecord.id).Nodup := by
    cases answer with
    | none => exact List.nodup_nil
    | some transactions => exact transactions.nodup
  generalize queryTransactions answer = dbRecords at nodup
  constructor
  · intro sound
    refine ⟨counts_iff.1 sound.counts, (transactions_iff nodup).1 sound.transactions, ?_⟩
    intro statement hmem dbRecord passes
    obtain ⟨other, hother, dbRecord', hmem', hrow, hid, -, status⟩ :=
      sound.pairs _ (mem_matched.2 ⟨statement, hmem, dbRecord, passes, rfl⟩)
    have sameRow := eq_of_statementCount passes.single hmem hother hrow
    have sameRecord : dbRecord' = dbRecord := List.inj_on_of_nodup_map nodup hmem'
      (transactionOf_mem passes.found) hid
    rwa [sameRow, sameRecord] at status
  · intro clean
    refine ⟨(transactions_iff nodup).2 clean.once, rows_nodup _ _, ?_, rfl, rfl,
      counts_iff.2 clean.found⟩
    intro entry hentry
    obtain ⟨statement, hmem, dbRecord, passes, rfl⟩ := mem_matched.1 hentry
    exact ⟨statement, hmem, dbRecord, transactionOf_mem passes.found, rfl, rfl, passes.amount,
      clean.status statement hmem dbRecord passes⟩

/-! ## Three statements that are not reported soundly -/

section Instances

/-- For the statuses that occur here. -/
def lower : String → String
  | "Completed" => "completed"
  | "Failed" => "failed"
  | text => text

def statementRow (conversationId : String) (originator : Option String) (status : String) :
    MpesaStatementRecord :=
  ⟨"QK1", status, "500.00", conversationId, originator⟩

def transaction : Transactions :=
  ⟨[⟨"txn-1", "REF-001", some "CONV-1", "500.0000000", "completed"⟩], by simp⟩

/-- A row without a transaction; two rows of one disbursement, the second of which has the key of
the transaction as its `OriginatorConversationID`; and a disbursement that has failed. -/
theorem unsound_reports :
    ¬ Sound lower [statementRow "CONV-9" none "Completed"] transaction.rows
        (reconcile lower [statementRow "CONV-9" none "Completed"] transaction.rows) ∧
      ¬ Sound lower
        [statementRow "CONV-1" none "Completed", statementRow "CONV-2" (some "CONV-1") "Completed"]
        transaction.rows
        (reconcile lower [statementRow "CONV-1" none "Completed",
          statementRow "CONV-2" (some "CONV-1") "Completed"] transaction.rows) ∧
      ¬ Sound lower [statementRow "CONV-1" none "Failed"] transaction.rows
        (reconcile lower [statementRow "CONV-1" none "Failed"] transaction.rows) := by
  refine ⟨fun sound => ?_, fun sound => ?_, fun sound => ?_⟩
  · exact absurd (sound.counts .orphanedProvider) (by decide +kernel)
  · exact absurd sound.transactions (by decide +kernel)
  · have pair := sound.pairs ⟨"CONV-1", "txn-1", "500.00", "completed"⟩ (by decide +kernel)
    exact absurd pair (by decide +kernel)

end Instances

end MobileMoney.Reconciliation.Mpesa
