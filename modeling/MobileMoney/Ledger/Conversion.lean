import MobileMoney.Ledger.Program

/-!
# Postings in other currencies

`postDepositWithCurrency` and `postWithdrawalWithCurrency` convert the amount and the fee
to the base currency separately and build one leg for each part.
-/

namespace MobileMoney.Ledger

open Binary64 Checked

inductive SupportedCurrency where
  | USD | XAF | NGN | KES | GHS | TZS | ZMW | RWF | GNF | MGA
  deriving DecidableEq, Repr

def SupportedCurrency.code : SupportedCurrency → String
  | .USD => "USD" | .XAF => "XAF" | .NGN => "NGN" | .KES => "KES" | .GHS => "GHS"
  | .TZS => "TZS" | .ZMW => "ZMW" | .RWF => "RWF" | .GNF => "GNF" | .MGA => "MGA"

def baseCurrency : SupportedCurrency := .USD

/-- Units per USD, where known. -/
abbrev ExchangeRates := SupportedCurrency → Option Number

def fallbackRates : ExchangeRates := fun currency => some <| .ofRat <|
  match currency with
  | .USD => 1 | .XAF => 600 | .NGN => 1550 | .KES => 130 | .GHS => 15
  | .TZS => 2600 | .ZMW => 27 | .RWF => 1320 | .GNF => 8500 | .MGA => 4500

/-- The service's cached rates, and whether they are older than an hour. -/
structure CurrencyService where
  cache : Option ExchangeRates
  isStale : Bool

def CurrencyService.getRates (service : CurrencyService) : ExchangeRates :=
  match service.cache with
  | some rates => if service.isStale then fallbackRates else rates
  | none => fallbackRates

inductive ConversionError where
  | negativeAmount
  | noSourceRate (currency : SupportedCurrency)
  | noDestinationRate (currency : SupportedCurrency)
  deriving DecidableEq, Repr

def ConversionError.message : ConversionError → String
  | .negativeAmount => "Amount must be non-negative"
  | .noSourceRate currency => "No exchange rate for source currency: " ++ currency.code
  | .noDestinationRate currency => "No exchange rate for destination currency: " ++ currency.code

structure ConversionResult where
  convertedAmount : Number
  rate : Number
  deriving DecidableEq

def CurrencyService.convert (service : CurrencyService) (amount : Number)
    (source target : SupportedCurrency) : Except ConversionError ConversionResult := do
  require (amount.lt .zero = false) .negativeAmount
  let rates := service.getRates
  let rateInUsd ← orFail (rates source) (.noSourceRate source)
  let rateOutUsd ← orFail (rates target) (.noDestinationRate target)
  let effectiveRate := rateOutUsd.div rateInUsd
  return ⟨amount.mul effectiveRate, effectiveRate⟩

def CurrencyService.convertToBase (service : CurrencyService) (amount : Number)
    (source : SupportedCurrency) : Except ConversionError ConversionResult :=
  service.convert amount source baseCurrency

def debitEntry (accountCode : String) (amount : Number) (description : String) : LedgerEntry :=
  ⟨accountCode, some amount, none, some description, none⟩

def creditEntry (accountCode : String) (amount : Number) (description : String) : LedgerEntry :=
  ⟨accountCode, none, some amount, some description, none⟩

/-- The entries of `postDepositWithCurrency`. -/
def depositEntries (service : CurrencyService) (amount fee : Number)
    (currency : SupportedCurrency) (settlementDate : String) :
    Except ConversionError (List LedgerEntry) := do
  let amountConversion ← service.convertToBase amount currency
  let feeConversion ← service.convertToBase fee currency
  let entries :=
    [debitEntry "1100" amountConversion.convertedAmount "Customer deposit received",
      { creditEntry "2000"
          (amountConversion.convertedAmount.sub feeConversion.convertedAmount)
          "Customer balance credited" with
        settlementDate := some settlementDate }]
  return if Number.zero.lt fee then
    entries ++ [creditEntry "4100" feeConversion.convertedAmount "Deposit fee earned"]
  else entries

/-- The entries of `postWithdrawalWithCurrency`. -/
def withdrawalEntries (service : CurrencyService) (amount fee : Number)
    (currency : SupportedCurrency) : Except ConversionError (List LedgerEntry) := do
  let amountConversion ← service.convertToBase amount currency
  let feeConversion ← service.convertToBase fee currency
  let entries :=
    [debitEntry "2000" (amountConversion.convertedAmount.add feeConversion.convertedAmount)
        "Customer balance debited",
      creditEntry "1100" amountConversion.convertedAmount "Withdrawal paid out"]
  return if Number.zero.lt fee then
    entries ++ [creditEntry "4200" feeConversion.convertedAmount "Withdrawal fee earned"]
  else entries

/-! ## Conversion at a known rate -/

/-- The base amount of `amount` at the rates of `source` and of the base currency. -/
def converted (rateIn rateOut amount : Number) : Number := amount.mul (rateOut.div rateIn)

theorem convertToBase_eq_ok {service : CurrencyService} {source : SupportedCurrency}
    {rateIn rateOut amount : Number} (hin : service.getRates source = some rateIn)
    (hout : service.getRates baseCurrency = some rateOut) (hamount : amount.lt .zero = false) :
    service.convertToBase amount source =
      .ok ⟨converted rateIn rateOut amount, rateOut.div rateIn⟩ := by
  unfold CurrencyService.convertToBase CurrencyService.convert
  simp only [bind_eq_ok, require_eq_ok, orFail_eq_ok, pure_eq_ok, exists_const]
  exact ⟨hamount, rateIn, hin, rateOut, hout, rfl⟩

end MobileMoney.Ledger
