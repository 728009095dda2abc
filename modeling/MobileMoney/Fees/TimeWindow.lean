import Mathlib.Data.String.Basic
import MobileMoney.Fees.Strategies
import MobileMoney.Wallet.Program

/-!
# Rows of the fee tables

The rows of `fee_strategies` as node-postgres returns them, and what `rowToStrategy` of
`services/feeStrategyEngine.ts` makes of one: `NUMERIC` and `TIME` columns are texts, `JSONB`
columns are parsed.

The clock of `applyTimeBasedFee` has hours and minutes, the bounds of the window come from `TIME`
columns and have seconds. A text is smaller than every longer one it begins, so the minute in
which the window starts is left out and the one in which it ends is let in; and a window that
passes midnight has no minute between its bounds.
-/

namespace MobileMoney.Fees

open Binary64 (Number)
open Wallet (splitDigits digitsValue)

/-- The number in the text of a `NUMERIC` column, which is a decimal or `NaN`. -/
def unsignedNumeric (text : List Char) : Number :=
  let (whole, fraction) := splitDigits text
  let decimals := fraction.getD []
  if whole = [] then .nan else .ofRat (digitsValue (whole ++ decimals) / 10 ^ decimals.length)

/-- `parseFloat`, or the coercion to a number, of the text of a `NUMERIC` column. -/
def parseNumeric (text : String) : Number :=
  match text.toList with
  | '-' :: digits => (unsignedNumeric digits).neg
  | digits => unsignedNumeric digits

structure FeeStrategyRow where
  id : String
  name : String
  strategyType : FeeStrategyType
  scope : FeeStrategyScope
  userId : Option String
  provider : Option String
  priority : ℤ
  isActive : Bool
  flatAmount : Option String
  feePercentage : Option String
  feeMinimum : Option String
  feeMaximum : Option String
  daysOfWeek : Option (List ℕ)
  timeStart : Option String
  timeEnd : Option String
  overridePercentage : Option String
  overrideFlatAmount : Option String
  volumeTiers : Option (List VolumeTier)
  volatilityBaseCurrency : Option String
  volatilityQuoteCurrency : Option String
  volatilityMultiplier : Option String
  volatilityWindowHours : Option ℕ

def rowToStrategy (row : FeeStrategyRow) : FeeStrategy where
  id := row.id
  name := row.name
  strategyType := row.strategyType
  scope := row.scope
  userId := row.userId
  provider := row.provider
  priority := row.priority
  isActive := row.isActive
  flatAmount := row.flatAmount.map parseNumeric
  feePercentage := row.feePercentage.map parseNumeric
  feeMinimum := row.feeMinimum.map parseNumeric
  feeMaximum := row.feeMaximum.map parseNumeric
  daysOfWeek := row.daysOfWeek
  timeStart := row.timeStart
  timeEnd := row.timeEnd
  overridePercentage := row.overridePercentage.map parseNumeric
  overrideFlatAmount := row.overrideFlatAmount.map parseNumeric
  volumeTiers := row.volumeTiers
  volatilityBaseCurrency := row.volatilityBaseCurrency
  volatilityQuoteCurrency := row.volatilityQuoteCurrency
  volatilityMultiplier := row.volatilityMultiplier.map parseNumeric
  volatilityWindowHours := row.volatilityWindowHours

/-! ## The window of a time-based fee -/

/-! ### Times of day -/

/-- A time of a `TIME` column without a fraction of a second, up to 24:00:00. -/
structure TimeOfDay where
  seconds : ℕ
  within : seconds ≤ 86400

def TimeOfDay.hours (time : TimeOfDay) : ℕ := time.seconds / 3600

def TimeOfDay.minutes (time : TimeOfDay) : ℕ := time.seconds / 60 % 60

/-- `HH:MM:SS`. -/
def TimeOfDay.text (time : TimeOfDay) : String :=
  padStart time.hours ++ ":" ++ padStart time.minutes ++ ":" ++ padStart (time.seconds % 60)

/-- A `Date`: milliseconds since the epoch, which was a Thursday. -/
structure Instant where
  ms : ℤ

def Instant.utc (instant : Instant) : UtcTime where
  day := ((instant.ms / 86400000 + 4) % 7).toNat
  hours := (instant.ms / 3600000 % 24).toNat
  minutes := (instant.ms / 60000 % 60).toNat

/-- The time of day to the minute. -/
def UtcTime.minuteOfDay (time : UtcTime) : ℕ := 60 * time.hours + time.minutes

/-! ### Texts of two digits -/

def digit (n : ℕ) : Char := .ofNat (48 + n)

theorem digit_lt_digit : ∀ a < 10, ∀ b < 10, (digit a < digit b ↔ a < b) := by decide

theorem digit_inj : ∀ a < 10, ∀ b < 10, (digit a = digit b ↔ a = b) := by decide

theorem padStart_toList : ∀ n < 100, (padStart n).toList = [digit (n / 10), digit (n % 10)] := by
  decide

/-- Digits are compared from the left, like the numbers they stand for. -/
theorem padStart_append_lt {a b : ℕ} (ha : a < 100) (hb : b < 100) (s t : List Char) :
    (padStart a).toList ++ s < (padStart b).toList ++ t ↔ a < b ∨ a = b ∧ s < t := by
  rw [padStart_toList a ha, padStart_toList b hb]
  simp only [List.cons_append, List.nil_append, List.cons_lt_cons_iff,
    digit_lt_digit (a / 10) (by omega) (b / 10) (by omega),
    digit_inj (a / 10) (by omega) (b / 10) (by omega),
    digit_lt_digit (a % 10) (by omega) (b % 10) (by omega),
    digit_inj (a % 10) (by omega) (b % 10) (by omega)]
  constructor
  · rintro (h | ⟨h, h' | ⟨h', hst⟩⟩)
    · left; omega
    · left; omega
    · right
      exact ⟨by omega, hst⟩
  · rintro (h | ⟨rfl, hst⟩)
    · rcases Nat.lt_or_ge (a / 10) (b / 10) with h' | h'
      · exact .inl h'
      · exact .inr ⟨by omega, .inl (by omega)⟩
    · exact .inr ⟨rfl, .inr ⟨rfl, hst⟩⟩

theorem UtcTime.hhmm_toList (time : UtcTime) :
    time.hhmm.toList = (padStart time.hours).toList ++ ':' :: (padStart time.minutes).toList := by
  simp [UtcTime.hhmm, String.toList_append]

theorem TimeOfDay.text_toList (time : TimeOfDay) :
    time.text.toList = (padStart time.hours).toList ++ ':' :: ((padStart time.minutes).toList ++
      ':' :: (padStart (time.seconds % 60)).toList) := by
  simp [TimeOfDay.text, String.toList_append]

theorem TimeOfDay.hours_lt (time : TimeOfDay) : time.hours < 100 := by
  have := time.within
  unfold hours
  omega

theorem TimeOfDay.minutes_lt (time : TimeOfDay) : time.minutes < 60 := Nat.mod_lt _ (by omega)

theorem TimeOfDay.minute_eq (time : TimeOfDay) :
    60 * time.hours + time.minutes = time.seconds / 60 := by
  unfold hours minutes
  omega

theorem Instant.hours_lt (instant : Instant) : instant.utc.hours < 24 := by
  unfold utc
  dsimp only
  omega

theorem Instant.minutes_lt (instant : Instant) : instant.utc.minutes < 60 := by
  unfold utc
  dsimp only
  omega

/-- Of equal minutes the text without seconds is the smaller one. -/
theorem hhmm_lt_text_iff (instant : Instant) (bound : TimeOfDay) :
    instant.utc.hhmm < bound.text ↔ instant.utc.minuteOfDay ≤ bound.seconds / 60 := by
  have hours := instant.hours_lt
  have minutes := instant.minutes_lt
  have bminutes := bound.minutes_lt
  have shorter : ([] : List Char) < ':' :: (padStart (bound.seconds % 60)).toList :=
    List.nil_lt_cons _ _
  have last := padStart_append_lt (minutes.trans (by omega)) (bminutes.trans (by omega)) []
    (':' :: (padStart (bound.seconds % 60)).toList)
  rw [List.append_nil] at last
  rw [String.lt_iff_toList_lt, UtcTime.hhmm_toList, TimeOfDay.text_toList,
    padStart_append_lt (hours.trans (by omega)) bound.hours_lt, List.cons_lt_cons_iff, last,
    ← bound.minute_eq, UtcTime.minuteOfDay]
  simp only [lt_irrefl, false_or, shorter, and_true, true_and]
  omega

/-! ### The window -/

/-- The bounds of the row are these times. -/
structure Between (row : FeeStrategyRow) (start stop : TimeOfDay) : Prop where
  timeStart : row.timeStart = some start.text
  timeEnd : row.timeEnd = some stop.text

theorem TimeOfDay.text_ne_empty (time : TimeOfDay) : time.text ≠ "" := by
  intro h
  have := congrArg String.toList h
  rw [text_toList, padStart_toList _ time.hours_lt] at this
  cases this

theorem Between.window {row : FeeStrategyRow} {start stop : TimeOfDay}
    (h : Between row start stop) :
    (rowToStrategy row).window = some (start.text, stop.text) := by
  simp [FeeStrategy.window, rowToStrategy, h.timeStart, h.timeEnd, start.text_ne_empty,
    stop.text_ne_empty]

/-- The override is applied. -/
def Overridden (row : FeeStrategyRow) (amount : Number) (instant : Instant) : Prop :=
  ∃ result, applyTimeBasedFee (rowToStrategy row) amount instant.utc = some result

/-- On a day of the strategy it applies strictly after the minute of the start, up to and including
that of the end. -/
theorem overridden_iff {row : FeeStrategyRow} {start stop : TimeOfDay} (amount : Number)
    {instant : Instant} (bounds : Between row start stop)
    (day : instant.utc.isoDay ∈ row.daysOfWeek.getD []) :
    Overridden row amount instant ↔ start.seconds / 60 < instant.utc.minuteOfDay ∧
      instant.utc.minuteOfDay ≤ stop.seconds / 60 := by
  have inTime : (rowToStrategy row).InTime instant.utc ↔
      ¬ instant.utc.hhmm < start.text ∧ instant.utc.hhmm < stop.text := by
    simp only [FeeStrategy.InTime, bounds.window, Option.mem_some_iff, forall_eq']
    exact and_iff_right day
  rw [Overridden, applyTimeBasedFee]
  split_ifs with h
  · rw [inTime, hhmm_lt_text_iff, hhmm_lt_text_iff, not_le] at h
    exact iff_of_true ⟨_, rfl⟩ h
  · rw [inTime, hhmm_lt_text_iff, hhmm_lt_text_iff, not_le] at h
    exact iff_of_false (by simp) h

/-- The override is applied exactly in the half-open window, which crosses midnight where it ends
before it starts. -/
structure WindowKept (row : FeeStrategyRow) (amount : Number) (instant : Instant)
    (start stop : TimeOfDay) : Prop where
  within : start.seconds < stop.seconds →
    (Overridden row amount instant ↔ start.seconds ≤ 60 * instant.utc.minuteOfDay ∧
      60 * instant.utc.minuteOfDay < stop.seconds)
  across : stop.seconds < start.seconds →
    (Overridden row amount instant ↔ start.seconds ≤ 60 * instant.utc.minuteOfDay ∨
      60 * instant.utc.minuteOfDay < stop.seconds)

/-- The window is kept exactly at the minutes that are not a bound of it, and where it crosses
midnight at those outside of it. -/
theorem window_kept_iff {row : FeeStrategyRow} {start stop : TimeOfDay} (amount : Number)
    {instant : Instant} (bounds : Between row start stop)
    (day : instant.utc.isoDay ∈ row.daysOfWeek.getD []) :
    WindowKept row amount instant start stop ↔
      (start.seconds < stop.seconds → 60 * instant.utc.minuteOfDay ≠ start.seconds ∧
        60 * instant.utc.minuteOfDay ≠ stop.seconds) ∧
      (stop.seconds < start.seconds → stop.seconds ≤ 60 * instant.utc.minuteOfDay ∧
        60 * instant.utc.minuteOfDay < start.seconds) := by
  have applied := overridden_iff amount bounds day
  constructor
  · rintro ⟨within, across⟩
    refine ⟨fun h => ?_, fun h => ?_⟩
    · have := applied.symm.trans (within h)
      omega
    · have := applied.symm.trans (across h)
      omega
  · rintro ⟨within, across⟩
    refine ⟨fun h => applied.trans ?_, fun h => applied.trans ?_⟩
    · have := within h
      omega
    · have := across h
      omega

/-- A window without length is never met. -/
theorem not_overridden_of_eq {row : FeeStrategyRow} {time : TimeOfDay} (amount : Number)
    {instant : Instant} (bounds : Between row time time)
    (day : instant.utc.isoDay ∈ row.daysOfWeek.getD []) : ¬ Overridden row amount instant := by
  rw [overridden_iff amount bounds day]
  omega

/-! ### Office hours -/

def nine : TimeOfDay := ⟨32400, by omega⟩

def five : TimeOfDay := ⟨61200, by omega⟩

/-- Free of fees on Fridays from nine to five. -/
def officeHours : FeeStrategyRow where
  id := "1"
  name := "Fee-free office hours"
  strategyType := .timeBased
  scope := .global
  userId := none
  provider := none
  priority := 100
  isActive := true
  flatAmount := none
  feePercentage := none
  feeMinimum := none
  feeMaximum := none
  daysOfWeek := some [5]
  timeStart := some nine.text
  timeEnd := some five.text
  overridePercentage := none
  overrideFlatAmount := none
  volumeTiers := none
  volatilityBaseCurrency := none
  volatilityQuoteCurrency := none
  volatilityMultiplier := none
  volatilityWindowHours := none

theorem officeHours_between : Between officeHours nine five := ⟨rfl, rfl⟩

/-- The second of January 1970, a Friday. -/
def friday (hours : ℤ) : Instant := ⟨86400000 + 3600000 * hours⟩

theorem window_kept_at_noon : WindowKept officeHours (number 100) (friday 12) nine five :=
  (window_kept_iff (number 100) officeHours_between (by decide)).2 (by decide)

/-- At nine the override is not applied, at five it still is. -/
theorem window_shifted :
    Between officeHours nine five ∧ (friday 9).utc.isoDay ∈ officeHours.daysOfWeek.getD [] ∧
      ¬ WindowKept officeHours (number 100) (friday 9) nine five ∧
      ¬ WindowKept officeHours (number 100) (friday 17) nine five := by
  have applied := fun hours (day : (friday hours).utc.isoDay ∈ officeHours.daysOfWeek.getD []) =>
    overridden_iff (number 100) officeHours_between day
  refine ⟨officeHours_between, by decide, fun kept => ?_, fun kept => ?_⟩
  · have := (applied 9 (by decide)).1 ((kept.within (by decide)).2 (by decide))
    revert this
    decide
  · have := (kept.within (by decide)).1 ((applied 17 (by decide)).2 (by decide))
    revert this
    decide

end MobileMoney.Fees
