import MobileMoney.Library.Answers
import MobileMoney.Reconciliation.Partition

/-!
# The day of a provider

`runProviderReconciliation` of `services/providerReconciliationService.ts`. The bounds of its range
are both the date of the report, so that of the day only the first moment is in it, and the records
are those of all providers. The download, a write that completes the run and one that adds its
alerts may fail; days are counted from the epoch, and `reportDate` is in milliseconds. Severities
are left out.
-/

namespace MobileMoney.Reconciliation

/-! ## Days -/

/-- A date that is compared with a timestamp. -/
def dayStart (day : ℤ) : ℤ := day * 86400000000

/-- `created_at::date` -/
def DbRecord.createdOn (record : DbRecord) : ℤ := record.createdAt / 86400000000

/-- `reportDate.toISOString().split("T")[0]` -/
def reportDay (reportDate : ℤ) : ℤ := reportDate / 86400000

def DateRange.ofDays (first last : ℤ) : DateRange := ⟨some (dayStart first), some (dayStart last)⟩

/-! ## The run -/

inductive DownloadMethod where
  | api
  | manual
  | unsupported (name : String)
  deriving DecidableEq, Repr

structure ProviderReportConfig where
  provider : String
  isEnabled : Bool
  downloadMethod : DownloadMethod
  apiEndpoint : Option String
  deriving DecidableEq, Repr

inductive RunStatus where
  | running
  | completed
  | failed
  deriving DecidableEq, Repr

structure RunCounts where
  totalProviderRows : ℕ
  totalDbRecords : ℕ
  matchedCount : ℕ
  discrepanciesCount : ℕ
  orphanedProviderCount : ℕ
  orphanedDbCount : ℕ
  deriving DecidableEq, Repr

structure ReconciliationRun where
  provider : String
  reportDay : ℤ
  status : RunStatus
  counts : Option RunCounts
  errorMessage : Option String
  deriving DecidableEq, Repr

inductive AlertType where
  | amountMismatch
  | statusMismatch
  | orphanedProvider
  | orphanedDb
  deriving DecidableEq, Repr

structure ReconciliationAlert where
  runId : ℕ
  alertType : AlertType
  transactionId : Option String
  referenceNumber : Option String
  deriving DecidableEq, Repr

/-- The id of a run is its place. -/
structure Tables where
  transactions : List DbRecord
  configs : List ProviderReportConfig
  runs : List ReconciliationRun
  alerts : List ReconciliationAlert
  deriving DecidableEq, Repr

def downloadProviderReport (config : ProviderReportConfig)
    (report : Except String (List ProviderCSVRow)) : Except String (List ProviderCSVRow) :=
  match config.downloadMethod with
  | .api =>
    if (truthy config.apiEndpoint).isSome then report
    else .error s!"API endpoint not configured for {config.provider}"
  | .manual =>
    .error s!"Manual download not supported for automated reconciliation: {config.provider}"
  | .unsupported name => .error s!"Unsupported download method: {name}"

namespace ReconciliationResult

def counts (result : ReconciliationResult) : RunCounts where
  totalProviderRows := result.totalProviderRows
  totalDbRecords := result.totalDbRecords
  matchedCount := result.matched.length
  discrepanciesCount := result.discrepancies.length
  orphanedProviderCount := result.orphanedProvider.length
  orphanedDbCount := result.orphanedDb.length

/-- `createReconciliationAlerts`: a discrepancy with an amount is one of the amount. -/
def alerts (runId : ℕ) (result : ReconciliationResult) : List ReconciliationAlert :=
  (result.discrepancies.map fun discrepancy =>
    ⟨runId, if discrepancy.amount ≠ "" then .amountMismatch else .statusMismatch,
      some discrepancy.dbRecord.id, some discrepancy.referenceNumber⟩) ++
  (result.orphanedProvider.map fun orphaned =>
    ⟨runId, .orphanedProvider, none, truthy orphaned.referenceNumber <|> orphaned.referenceId⟩) ++
  (result.orphanedDb.map fun orphaned =>
    ⟨runId, .orphanedDb, some orphaned.id, some orphaned.referenceNumber⟩)

end ReconciliationResult

/-- The report as it is downloaded, what becomes of the two writes, and the error of one that
fails. -/
structure RunAnswers where
  report : Except String (List ProviderCSVRow)
  completed : DbAnswer
  alerted : DbAnswer
  dbError : String

def dateRange (reportDate : ℤ) : DateRange :=
  .ofDays (reportDay reportDate) (reportDay reportDate)

/-- What the report is compared with. -/
def examinedOn (transactions : List DbRecord) (reportDate : ℤ) : List DbRecord :=
  queryTransactions (dateRange reportDate) transactions

/-- The run is marked, and the error is thrown again. -/
def failRun (s : Tables) (runId : ℕ) (message : String) :
    Tables × Except String ReconciliationRun :=
  ({ s with
      runs := s.runs.modify runId fun run =>
        { run with status := .failed, errorMessage := some message } },
    .error message)

def createReconciliationAlerts (s : Tables) (alerts : List ReconciliationAlert)
    (alerted : DbAnswer) : Tables × DbAnswer :=
  if alerts = [] then (s, .answered)
  else (if alerted.executed then { s with alerts := s.alerts ++ alerts } else s, alerted)

/-- From the result on. -/
def completeRun (s : Tables) (run : ReconciliationRun) (runId : ℕ) (result : ReconciliationResult)
    (answers : RunAnswers) : Tables × Except String ReconciliationRun :=
  let completed := { run with status := .completed, counts := some result.counts }
  let marked := if answers.completed.executed then { s with
    runs := s.runs.modify runId fun _ => completed } else s
  if answers.completed = .answered then
    let noticed := createReconciliationAlerts marked (result.alerts runId) answers.alerted
    if noticed.2 = .answered then (noticed.1, .ok completed)
    else failRun noticed.1 runId answers.dbError
  else failRun marked runId answers.dbError

variable (text : Text)

def runProviderReconciliation (s : Tables) (provider : String) (reportDate : ℤ)
    (answers : RunAnswers) : Tables × Except String ReconciliationRun :=
  match s.configs.find? fun config => config.provider = provider ∧ config.isEnabled with
  | none => (s, .error s!"No enabled configuration found for provider: {provider}")
  | some config =>
    let run := ⟨provider, reportDay reportDate, .running, none, none⟩
    let started := { s with runs := s.runs ++ [run] }
    match downloadProviderReport config answers.report with
    | .error message => failRun started s.runs.length message
    | .ok rows =>
      completeRun started run s.runs.length
        (reconcileTransactions text s.transactions (parseCSV text rows) (dateRange reportDate))
        answers

/-! ## The window -/

theorem mem_queryTransactions {range : DateRange} {transactions : List DbRecord}
    {record : DbRecord} : record ∈ queryTransactions range transactions ↔
      record ∈ transactions ∧ range.Contains record.createdAt := by
  rw [queryTransactions, (List.perm_insertionSort _ _).mem_iff, List.mem_filter, decide_eq_true_eq]

theorem contains_ofDays {first last time : ℤ} : (DateRange.ofDays first last).Contains time ↔
    first ≤ time / 86400000000 ∧ time ≤ dayStart last := by
  simp only [DateRange.Contains, DateRange.ofDays, Option.mem_some_iff, forall_eq', dayStart]
  omega

/-- The transactions of a provider on the days of a range. -/
def ofProvider (provider : String) (first last : ℤ) (transactions : List DbRecord) :
    List DbRecord :=
  transactions.filter fun record =>
    record.provider = provider ∧ first ≤ record.createdOn ∧ record.createdOn ≤ last

/-- Of the last day only the first moment is in a range, and no provider is asked for. -/
theorem queryTransactions_perm_iff (provider : String) (first last : ℤ)
    (transactions : List DbRecord) :
    (queryTransactions (.ofDays first last) transactions).Perm
        (ofProvider provider first last transactions) ↔
      ∀ record ∈ transactions, first ≤ record.createdOn → record.createdOn ≤ last →
        (record.provider = provider ↔ record.createdAt ≤ dayStart last) := by
  have midnight : ∀ record : DbRecord, record.createdAt ≤ dayStart last →
      record.createdOn ≤ last := by
    intro record hle
    unfold dayStart at hle
    unfold DbRecord.createdOn
    omega
  constructor
  · intro perm record hrecord hfirst hlast
    have same := perm.mem_iff (a := record)
    rw [mem_queryTransactions, contains_ofDays, ofProvider, List.mem_filter,
      decide_eq_true_eq] at same
    constructor
    · intro hprovider
      exact (same.2 ⟨hrecord, hprovider, hfirst, hlast⟩).2.2
    · intro hle
      exact (same.1 ⟨hrecord, hfirst, hle⟩).2.1
  · intro exact_
    refine (List.perm_insertionSort _ _).trans (List.Perm.of_eq (List.filter_congr ?_))
    intro record hrecord
    rw [decide_eq_decide, contains_ofDays]
    constructor
    · rintro ⟨hfirst, hle⟩
      have hlast := midnight record hle
      exact ⟨(exact_ record hrecord hfirst hlast).2 hle, hfirst, hlast⟩
    · rintro ⟨hprovider, hfirst, hlast⟩
      exact ⟨hfirst, (exact_ record hrecord hfirst hlast).1 hprovider⟩

/-- The report is compared with the transactions of its provider on its day if and only if on that
day these, and no others, were created in its first moment. -/
theorem examinedOn_exact_iff (provider : String) (reportDate : ℤ) (transactions : List DbRecord) :
    (examinedOn transactions reportDate).Perm
        (ofProvider provider (reportDay reportDate) (reportDay reportDate) transactions) ↔
      ∀ record ∈ transactions, record.createdOn = reportDay reportDate →
        (record.provider = provider ↔ record.createdAt = dayStart (reportDay reportDate)) := by
  rw [examinedOn, dateRange, queryTransactions_perm_iff]
  have first : ∀ record : DbRecord, record.createdOn = reportDay reportDate →
      (record.createdAt ≤ dayStart (reportDay reportDate) ↔
        record.createdAt = dayStart (reportDay reportDate)) := by
    intro record hday
    unfold DbRecord.createdOn at hday
    unfold dayStart
    omega
  constructor
  · intro exact_ record hrecord hday
    rw [← first record hday]
    exact exact_ record hrecord hday.ge hday.le
  · intro exact_ record hrecord hfirst hlast
    have hday := le_antisymm hlast hfirst
    rw [first record hday]
    exact exact_ record hrecord hday

section Instances

/-- A transaction of `mtn`, or of another provider, on the second day of the epoch. -/
def created (provider : String) (createdAt : ℤ) : DbRecord :=
  ⟨"1", "A", "5", "completed", provider, createdAt⟩

/-- A transaction at noon is not examined, and one of another provider at midnight is. -/
theorem noon_unexamined :
    ¬(examinedOn [created "mtn" 129600000000] 86400000).Perm
        (ofProvider "mtn" (reportDay 86400000) (reportDay 86400000)
          [created "mtn" 129600000000]) ∧
      ¬(examinedOn [created "airtel" 86400000000] 86400000).Perm
        (ofProvider "mtn" (reportDay 86400000) (reportDay 86400000)
          [created "airtel" 86400000000]) :=
  ⟨fun perm => absurd perm.length_eq (by decide +kernel),
    fun perm => absurd perm.length_eq (by decide +kernel)⟩

end Instances

/-! ## What a run makes of it -/

variable {text}

theorem alerts_createReconciliationAlerts (s : Tables) (alerts : List ReconciliationAlert)
    (alerted : DbAnswer) :
    (createReconciliationAlerts s alerts alerted).1.alerts = s.alerts ∨
      (createReconciliationAlerts s alerts alerted).1.alerts = s.alerts ++ alerts := by
  unfold createReconciliationAlerts
  split_ifs
  · exact .inl rfl
  · exact .inr rfl
  · exact .inl rfl

theorem alerts_completeRun (s : Tables) (run : ReconciliationRun) (runId : ℕ)
    (result : ReconciliationResult) (answers : RunAnswers) :
    (completeRun s run runId result answers).1.alerts = s.alerts ∨
      (completeRun s run runId result answers).1.alerts = s.alerts ++ result.alerts runId := by
  unfold completeRun
  cases hcompleted : answers.completed with
  | answered =>
    have alerts := alerts_createReconciliationAlerts { s with
      runs := s.runs.modify runId fun _ =>
        { run with status := .completed, counts := some result.counts } }
      (result.alerts runId) answers.alerted
    simp only [DbAnswer.executed_answered, if_true]
    split_ifs <;> exact alerts
  | failed executed => cases executed <;> exact .inl rfl

variable (text) in
/-- A run adds the alerts of its comparison, or none. -/
theorem alerts_runProviderReconciliation (s : Tables) (provider : String) (reportDate : ℤ)
    (answers : RunAnswers) :
    (runProviderReconciliation text s provider reportDate answers).1.alerts = s.alerts ∨
      ∃ rows, (runProviderReconciliation text s provider reportDate answers).1.alerts =
        s.alerts ++ (reconcile text rows (examinedOn s.transactions reportDate)).alerts
          s.runs.length := by
  unfold runProviderReconciliation
  cases s.configs.find? fun config => config.provider = provider ∧ config.isEnabled with
  | none => exact .inl rfl
  | some config =>
    cases hreport : downloadProviderReport config answers.report with
    | error message => simp only [hreport]; exact .inl rfl
    | ok rows =>
      simp only [hreport]
      refine (alerts_completeRun _ _ _ _ _).imp_right fun added => ?_
      exact ⟨parseCSV text rows, added⟩

theorem mem_alerts_orphanedDb {result : ReconciliationResult} {runId : ℕ}
    {alert : ReconciliationAlert} (h : alert ∈ result.alerts runId)
    (htype : alert.alertType = .orphanedDb) :
    ∃ record ∈ result.orphanedDb, alert.transactionId = some record.id := by
  unfold ReconciliationResult.alerts at h
  rcases List.mem_append.1 h with h | h
  · rcases List.mem_append.1 h with h | h
    · obtain ⟨discrepancy, -, rfl⟩ := List.mem_map.1 h
      split_ifs at htype
    · obtain ⟨orphaned, -, rfl⟩ := List.mem_map.1 h
      cases htype
  · obtain ⟨orphaned, horphaned, rfl⟩ := List.mem_map.1 h
    exact ⟨orphaned, horphaned, rfl⟩

/-- Then no transaction of another provider is reported as an orphan. -/
theorem orphans_own {s : Tables} {provider : String} {reportDate : ℤ}
    (exact_ : (examinedOn s.transactions reportDate).Perm
      (ofProvider provider (reportDay reportDate) (reportDay reportDate) s.transactions))
    (answers : RunAnswers) {alert : ReconciliationAlert}
    (h : alert ∈ (runProviderReconciliation text s provider reportDate answers).1.alerts)
    (hnew : alert ∉ s.alerts) (htype : alert.alertType = .orphanedDb) :
    ∃ record ∈ s.transactions, record.provider = provider ∧
      alert.transactionId = some record.id := by
  rcases alerts_runProviderReconciliation text s provider reportDate answers with
    same | ⟨rows, added⟩
  · rw [same] at h
    exact absurd h hnew
  · rw [added] at h
    obtain ⟨record, hrecord, hid⟩ :=
      mem_alerts_orphanedDb ((List.mem_append.1 h).resolve_left hnew) htype
    have hown := exact_.mem_iff.1 (List.mem_filter.1 hrecord).1
    rw [ofProvider, List.mem_filter, decide_eq_true_eq] at hown
    exact ⟨record, hown.1, hown.2.1, hid⟩

end MobileMoney.Reconciliation
