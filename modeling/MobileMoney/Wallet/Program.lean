import MobileMoney.Ledger.Program
import MobileMoney.Library.Interleaving
import MobileMoney.Library.MachineInt

/-!
# Customer wallets

A wallet is a row of `customer_wallets`: a balance in `DECIMAL(20, 7)`, here an integer in
units of `10 ^ (-7)`, and a version. `applyWalletDelta` reads the row, decides on what it
has read, and writes under the condition that the version has not changed. Each query is
its own transaction on the pool, so a process can be interrupted between any two of them.
-/

namespace MobileMoney.Wallet

open Binary64 Checked MachineInt

/-! ## Amounts -/

/-- The caller passes a string or a number. -/
inductive Amount where
  | text (s : String)
  | number (x : Number)
  deriving DecidableEq

/-- `String(amount)`. -/
def Amount.toText : Amount → String
  | .text s => s
  | .number x => x.text

/-- The white space and line terminators that `trim` removes. -/
def isSpace (c : Char) : Bool :=
  c.toNat ∈ [0x9, 0xA, 0xB, 0xC, 0xD, 0x20, 0xA0, 0x1680, 0x2028, 0x2029, 0x202F, 0x205F,
    0x3000, 0xFEFF] || (0x2000 ≤ c.toNat && c.toNat ≤ 0x200A)

def trim (cs : List Char) : List Char :=
  ((cs.dropWhile isSpace).reverse.dropWhile isSpace).reverse

/-- The digits before the point, and those after it if there is one. -/
def splitDigits (cs : List Char) : List Char × Option (List Char) :=
  match cs.span Char.isDigit with
  | (whole, []) => (whole, none)
  | (whole, c :: fraction) => if c = '.' then (whole, some fraction) else ([], none)

/-- `/^\d{1,13}(\.\d{1,7})?$/`. -/
def decimalAmountPattern (cs : List Char) : Bool :=
  let (whole, fraction) := splitDigits cs
  1 ≤ whole.length && whole.length ≤ 13 &&
    fraction.all fun digits =>
      1 ≤ digits.length && digits.length ≤ 7 && digits.all Char.isDigit

/-- `/^0+(\.0+)?$/`, for a text that matches the pattern above. -/
def isZeroAmount (cs : List Char) : Bool :=
  let (whole, fraction) := splitDigits cs
  whole.all (· == '0') && (fraction.getD []).all (· == '0')

inductive WalletError where
  | invalidAmount (amount : String)
  | notFound (userId currency : String)
  | insufficientFunds (userId currency : String) (balance : ℤ) (requested : String)
  | concurrentModification (userId currency : String) (attempts : ℕ)
  | numericOverflow
  | integerOverflow
  | checkViolation
  | queryFailed
  deriving DecidableEq

def WalletError.message : WalletError → String
  | .invalidAmount amount => "Invalid wallet amount: " ++ amount
  | .notFound userId currency => "No " ++ currency ++ " wallet for user " ++ userId
  | .insufficientFunds userId currency balance requested =>
    "Insufficient funds in wallet " ++ userId ++ "/" ++ currency ++ ": balance " ++
      Ledger.decimalText balance ++ ", requested " ++ requested
  | .concurrentModification userId currency attempts =>
    "Wallet " ++ userId ++ "/" ++ currency ++ " was modified concurrently; gave up after " ++
      toString attempts ++ " attempt(s)"
  | .numericOverflow => "numeric field overflow"
  | .integerOverflow => "integer out of range"
  | .checkViolation => "violates check constraint"
  | .queryFailed => "query failed"

def toWalletAmount (amount : Amount) : Except WalletError String := do
  let text := match amount with
    | .number x => x.text
    | .text s => String.ofList (trim s.toList)
  require (decimalAmountPattern text.toList = true ∧ isZeroAmount text.toList = false)
    (.invalidAmount amount.toText)
  return text

def digitsValue (cs : List Char) : ℕ := cs.foldl (fun n c => 10 * n + (c.toNat - 48)) 0

/-- `$3::numeric` of a text with at most seven decimals, in units. -/
def numeric (text : String) : ℤ :=
  let (whole, fraction) := splitDigits text.toList
  let decimals := fraction.getD []
  digitsValue (whole ++ decimals ++ List.replicate (7 - decimals.length) '0')

example : toWalletAmount (.text " 10.50 ") = .ok "10.50" ∧ numeric "10.50" = 105000000 := by
  decide +kernel

/-! ## The row and the two queries -/

/-- The columns of a wallet, with its check constraint. -/
structure CustomerWallet where
  id : String
  balance : ℤ
  version : ℤ
  nonneg : 0 ≤ balance
  deriving DecidableEq

inductive Sign where
  | credit | debit
  deriving DecidableEq, Repr

def Sign.value : Sign → ℤ
  | .credit => 1
  | .debit => -1

/-- `creditWallet` and `debitWallet` on one wallet. -/
structure Call where
  amount : Amount
  sign : Sign
  deriving DecidableEq

/-- The owner and the currency that select the row. -/
structure Key where
  userId : String
  currency : String
  deriving DecidableEq, Repr

/-- The `SELECT` and the two checks on what it has found. -/
def read (key : Key) (row : Option CustomerWallet) (value : String) (sign : Sign) :
    Except WalletError CustomerWallet := do
  let wallet ← orFail row (.notFound key.userId key.currency)
  require (0 ≤ wallet.balance + numeric value * sign.value)
    (.insufficientFunds key.userId key.currency wallet.balance value)
  return wallet

/-- The `UPDATE`: the row it has written, if the condition matched. -/
def update (row : Option CustomerWallet) (value : String) (sign : Sign) (wallet : CustomerWallet) :
    Except WalletError (Option CustomerWallet) :=
  match row with
  | none => .ok none
  | some current =>
    if current.id = wallet.id ∧ current.version = wallet.version then do
      let balance ← orFail (Ledger.amountType.store (current.balance + numeric value * sign.value))
        .numericOverflow
      let version ← orFail (i32.checkedAdd current.version 1) .integerOverflow
      if h : 0 ≤ balance then
        return some { current with balance := balance, version := version, nonneg := h }
      else .error .checkViolation
    else .ok none

/-! ## One call among others -/

def walletUpdateMaxRetries : ℕ := 3

def maxAttempts : ℕ := walletUpdateMaxRetries + 1

/-- Where a call of `applyWalletDelta` stands. -/
inductive Phase where
  | called
  | reading (value : String) (attempt : ℕ)
  | updating (value : String) (attempt : ℕ) (wallet : CustomerWallet)
  | returned (wallet : CustomerWallet)
  | failed (e : WalletError)
  deriving DecidableEq

structure Process where
  call : Call
  phase : Phase
  deriving DecidableEq

/-- Whether the database answers the next query or fails it without any effect. -/
inductive Query where
  | answered | failed
  deriving DecidableEq, Repr

def validate (call : Call) : Phase :=
  match toWalletAmount call.amount with
  | .ok value => .reading value 1
  | .error e => .failed e

def afterRead (key : Key) (row : Option CustomerWallet) (call : Call) (value : String)
    (attempt : ℕ) : Phase :=
  match read key row value call.sign with
  | .ok wallet => .updating value attempt wallet
  | .error e => .failed e

/-- The row and the phase after the `UPDATE`. -/
def afterUpdate (key : Key) (row : Option CustomerWallet) (call : Call) (value : String)
    (attempt : ℕ) (wallet : CustomerWallet) : Option CustomerWallet × Phase :=
  match update row value call.sign wallet with
  | .error e => (row, .failed e)
  | .ok (some written) => (some written, .returned written)
  | .ok none =>
    if attempt < maxAttempts then (row, .reading value (attempt + 1))
    else (row, .failed (.concurrentModification key.userId key.currency maxAttempts))

/-- The next query of a call and what it makes of the answer. -/
def step (key : Key) (query : Query) (row : Option CustomerWallet) (p : Process) :
    Option CustomerWallet × Process :=
  match p.phase, query with
  | .called, _ => (row, { p with phase := validate p.call })
  | .reading value attempt, .answered =>
    (row, { p with phase := afterRead key row p.call value attempt })
  | .updating value attempt wallet, .answered =>
    let (row, phase) := afterUpdate key row p.call value attempt wallet
    (row, { p with phase := phase })
  | .reading _ _, .failed | .updating _ _ _, .failed =>
    (row, { p with phase := .failed .queryFailed })
  | .returned _, _ | .failed _, _ => (row, p)

end MobileMoney.Wallet
