import Mathlib.Data.Rat.Floor
import MobileMoney.Library.Digits

/-!
# Texts of amounts

`_applyRounding` and `fallbackFormat` of `utils/currency/CurrencyFormatter.ts`, and
`parseFormattedCurrency` and `validatePrecisionPreservation` of
`utils/currency/PrecisionValidator.ts`. Amounts are exact; what is not a number is no value. A
number is written with an exponent if it is too small or too large, and a text with two exponents
is not read as a number.
-/

namespace MobileMoney.Currency

open Json

inductive RoundingMode where
  | round | floor | ceil
  deriving DecidableEq, Repr

/-- The fields of a rule that are used; the symbol of a configured currency is not empty. -/
structure CurrencyRule where
  code : String
  minorUnits : ℕ
  symbol : Text
  useGrouping : Bool
  roundingMode : RoundingMode
  symbol_ne_nil : symbol ≠ []

structure FormatOptions where
  useGrouping : Option Bool
  minimumFractionDigits : Option ℕ
  maximumFractionDigits : Option ℕ
  roundingMode : Option RoundingMode
  deriving DecidableEq, Repr

def XAF : CurrencyRule := ⟨"XAF", 0, text "FCFA", true, .round, by decide⟩

def GHS : CurrencyRule := ⟨"GHS", 2, text "₵", true, .round, by decide⟩

def NGN : CurrencyRule := ⟨"NGN", 2, text "₦", true, .round, by decide⟩

def USD : CurrencyRule := ⟨"USD", 2, text "$", true, .round, by decide⟩

def maxSafeAmount : ℚ := 99999999999999 / 100

/-- `validateAmount`, for finite numbers. -/
def validateAmount (amount : ℚ) : Except Text ℚ :=
  if amount < 0 then .error (text "Amount cannot be negative")
  else if maxSafeAmount < amount then
    .error (text "Amount exceeds maximum allowed value of 999999999999.99")
  else .ok amount

/-! ## Rounding -/

/-- The functions of `Math`. -/
def RoundingMode.apply (mode : RoundingMode) (x : ℚ) : ℤ :=
  match mode with
  | .floor => ⌊x⌋
  | .ceil => ⌈x⌉
  | .round => ⌊x + 1 / 2⌋

/-- The number read from a number with an exponent after it. -/
def withExponent (x : ℚ) (exponent : ℤ) : Option ℚ :=
  if x = 0 ∨ 1 / 10 ^ 6 ≤ |x| ∧ |x| < 10 ^ 21 then some (x * 10 ^ exponent) else none

def applyRounding (amount : ℚ) (decimals : ℕ) (roundingMode : RoundingMode) : Option ℚ :=
  if decimals = 0 then some (roundingMode.apply amount)
  else do
    let shifted ← withExponent amount decimals
    let result := roundingMode.apply shifted
    withExponent result (-decimals)

/-! ## Formatting -/

def comma : ℕ := ','.toNat

def period : ℕ := '.'.toNat

/-- Of a number that is not negative and is written without an exponent. -/
def toFixed (x : Option ℚ) (digits : ℕ) : Except Text Text :=
  if 100 < digits then .error (text "toFixed() digits argument must be between 0 and 100")
  else
    match x with
    | none => .ok (text "NaN")
    | some x =>
      let n := ⌊x * 10 ^ digits + 1 / 2⌋.toNat
      .ok (Digits.decimal (n / 10 ^ digits) ++
        if digits = 0 then [] else period :: Digits.padded digits n)

/-- A comma between any two characters of which the second has a multiple of three from itself
on. -/
def groupThousands : Text → Text
  | [] => []
  | c :: rest =>
    if rest ≠ [] ∧ rest.length % 3 = 0 then c :: comma :: groupThousands rest
    else c :: groupThousands rest

def FormatOptions.decimals (options : FormatOptions) (rule : CurrencyRule) : ℕ :=
  (options.minimumFractionDigits.or options.maximumFractionDigits).getD rule.minorUnits

def fallbackFormat (amount : ℚ) (rule : CurrencyRule) (options : FormatOptions) :
    Except Text Text := do
  let decimals := options.decimals rule
  let roundingMode := options.roundingMode.getD rule.roundingMode
  let rounded := applyRounding amount decimals roundingMode
  let numberStr ← toFixed rounded decimals
  let parts := numberStr.splitOn period
  let intWithGrouping := groupThousands (parts.headD [])
  let formattedNumber :=
    if options.useGrouping.getD rule.useGrouping then
      match parts[1]? with
      | some decPart => intWithGrouping ++ period :: decPart
      | none => intWithGrouping
    else numberStr
  return rule.symbol ++ formattedNumber

/-! ## Parsing -/

/-- `s.replace(pattern, "")`. -/
def removeFirst (pattern : Text) : Text → Text
  | [] => []
  | c :: rest =>
    if pattern <+: c :: rest then (c :: rest).drop pattern.length
    else c :: removeFirst pattern rest

/-- What follows the first of these characters, if there is one. -/
def afterFirst (c : ℕ) (s : Text) : Text := if c ∈ s then (s.dropWhile (· ≠ c)).tail else s

def removeKnownSymbol (code : String) (s : Text) : Text :=
  if code = "GHS" then afterFirst '₵'.toNat s
  else if code = "NGN" then afterFirst '₦'.toNat s
  else if code = "USD" then removeFirst (text "$") s
  else if code = "XAF" then removeFirst (text "FCFA") s
  else s

def isLetter (c : ℕ) : Bool :=
  'a'.toNat ≤ c && c ≤ 'z'.toNat || 'A'.toNat ≤ c && c ≤ 'Z'.toNat

/-- The place of the last of these characters. -/
def lastIndexOf (c : ℕ) (s : Text) : ℕ := s.length - 1 - s.reverse.idxOf c

def replaceFirst (c d : ℕ) : Text → Text
  | [] => []
  | e :: rest => if e = c then d :: rest else e :: replaceFirst c d rest

/-- Only the last of these characters is left. -/
def keepLast (c : ℕ) (s : Text) : Text :=
  (s.take (lastIndexOf c s)).filter (· ≠ c) ++ s.drop (lastIndexOf c s)

/-- The roles of commas and periods are guessed from their places. -/
def normalizeSeparators (s : Text) : Text :=
  let commaCount := s.count comma
  let periodCount := s.count period
  if 0 < commaCount ∧ periodCount = 0 then
    replaceFirst comma period (if 1 < commaCount then keepLast comma s else s)
  else if 0 < periodCount ∧ commaCount = 0 then
    if 1 < periodCount then keepLast period s else s
  else if 0 < commaCount ∧ 0 < periodCount then
    let lastCommaIndex := lastIndexOf comma s
    let lastPeriodIndex := lastIndexOf period s
    if lastPeriodIndex < lastCommaIndex then
      let s := s.filter (· ≠ period)
      let s := s.take lastCommaIndex ++ period :: s.drop (lastCommaIndex + 1)
      (s.take lastCommaIndex).filter (· ≠ comma) ++ s.drop lastCommaIndex
    else s.filter (· ≠ comma)
  else s

/-- Of a text without letters, so without an exponent. -/
def parseFloat (s : Text) : Option ℚ :=
  let s := s.dropWhile isTrimmed
  let sign : ℚ := if s.head? = some '-'.toNat then -1 else 1
  let s := if s.head? = some '-'.toNat ∨ s.head? = some '+'.toNat then s.tail else s
  let int := s.takeWhile isDigit
  let rest := s.dropWhile isDigit
  let frac := if rest.head? = some period then rest.tail.takeWhile isDigit else []
  if int = [] ∧ frac = [] then none
  else some (sign * ((Digits.value (int ++ frac) : ℚ) / 10 ^ frac.length))

def parseFormattedCurrency (formattedString : Text) (rule : CurrencyRule) : Except Text ℚ :=
  if formattedString = [] then .error (text "Formatted string must be a non-empty string")
  else
    let numericString := removeFirst rule.symbol formattedString
    let numericString := removeKnownSymbol rule.code numericString
    let numericString := numericString.filter fun c => !isLetter c
    let numericString := numericString.filter fun c => !isTrimmed c
    match parseFloat (normalizeSeparators numericString) with
    | none => .error (text "Could not parse numeric value from: " ++ formattedString)
    | some parsed => .ok parsed

/-! ## Validation -/

structure PrecisionValidationResult where
  preserved : Bool
  formattedString : Text
  parsedAmount : Option ℚ
  difference : Option ℚ
  error : Option Text
  deriving DecidableEq

/-- Why nothing was compared. -/
def PrecisionValidationResult.failed (error : Text) : PrecisionValidationResult :=
  ⟨false, [], none, none, some error⟩

/-- How the numbers in an error are written is a parameter. -/
def validatePrecisionPreservation (write : ℚ → Text)
    (format : ℚ → CurrencyRule → FormatOptions → Except Text Text) (amount : ℚ)
    (rule : CurrencyRule) (options : FormatOptions) : PrecisionValidationResult :=
  match validateAmount amount with
  | .error e => .failed (text "Invalid amount: " ++ e)
  | .ok sanitizedAmount =>
    let compared : Except Text PrecisionValidationResult := do
      let formattedString ← format sanitizedAmount rule options
      let parsedAmount ← parseFormattedCurrency formattedString rule
      let difference := |sanitizedAmount - parsedAmount|
      let tolerance : ℚ := 1 / 10 ^ rule.minorUnits / 2
      let preserved : Bool := difference ≤ tolerance
      return {
        preserved := preserved
        formattedString := formattedString
        parsedAmount := some parsedAmount
        difference := some difference
        error := if preserved then none else
          some (text "Precision not preserved. Difference: " ++ write difference ++
            text ", Tolerance: " ++ write tolerance) }
    match compared with
    | .ok result => result
    | .error e => .failed (text "Validation failed: " ++ e)

end MobileMoney.Currency
