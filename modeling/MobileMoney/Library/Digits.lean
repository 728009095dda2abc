import MobileMoney.Library.Json
import Mathlib.Tactic.Ring

/-!
# Decimal digits

Texts of digits and the numbers that they write: without leading zeros, or in a given number of
places.
-/

namespace Digits

open Json

/-- The number that digits write. -/
def value (s : Text) : ℕ := s.foldl (fun n c => 10 * n + (c - '0'.toNat)) 0

def decimal (n : ℕ) : Text := (Nat.toDigits 10 n).map Char.toNat

/-- The last places of a number. -/
def padded : ℕ → ℕ → Text
  | 0, _ => []
  | places + 1, n => padded places (n / 10) ++ ['0'.toNat + n % 10]

theorem text_toString (n : ℕ) : text (toString n) = decimal n := by
  simp [text, decimal]

/-! ## Digits -/

theorem isDigit_iff {c : ℕ} : isDigit c = true ↔ 48 ≤ c ∧ c ≤ 57 := by
  simp [isDigit]

theorem isTrimmed_of_isDigit {c : ℕ} (h : isDigit c = true) : isTrimmed c = false := by
  have : ∀ d ≤ 57, 48 ≤ d → isTrimmed d = false := by decide
  exact this c (isDigit_iff.1 h).2 (isDigit_iff.1 h).1

/-- A digit is no sign. -/
theorem head?_ne_of_isDigit {c d : ℕ} (h : isDigit c = true) (hd : isDigit d = false) :
    some c ≠ some d := by
  rintro ⟨⟩
  exact Bool.false_ne_true (hd.symm.trans h)

theorem isDigit_of_mem_decimal {n c : ℕ} (h : c ∈ decimal n) : isDigit c = true := by
  obtain ⟨d, hd, rfl⟩ := List.mem_map.1 h
  have := Nat.isDigit_of_mem_toDigits (by omega) (by omega) hd
  simpa [isDigit, Char.isDigit, UInt32.le_iff_toNat_le] using this

theorem isDigit_of_mem_padded {places n c : ℕ} (h : c ∈ padded places n) : isDigit c = true := by
  induction places generalizing n with
  | zero => cases h
  | succ places ih =>
    rcases List.mem_append.1 h with h | h
    · exact ih h
    · rw [List.mem_singleton.1 h, isDigit_iff]
      have : '0'.toNat = 48 := rfl
      omega

theorem length_decimal_le_iff {n k : ℕ} (hk : 0 < k) : (decimal n).length ≤ k ↔ n < 10 ^ k := by
  rw [decimal, List.length_map, Nat.length_toDigits_le_iff (by omega) hk]

theorem decimal_ne_nil (n : ℕ) : decimal n ≠ [] := by
  simp [decimal, Nat.toDigits_ne_nil]

@[simp] theorem length_padded (places n : ℕ) : (padded places n).length = places := by
  induction places generalizing n with
  | zero => rfl
  | succ places ih => rw [padded, List.length_append, ih, List.length_singleton]

/-! ## Values -/

theorem foldl_eq_value (s : Text) (n : ℕ) :
    s.foldl (fun n c => 10 * n + (c - '0'.toNat)) n = n * 10 ^ s.length + value s := by
  unfold value
  induction s generalizing n with
  | nil => simp
  | cons c s ih =>
    rw [List.foldl_cons, ih, List.foldl_cons, ih (10 * 0 + _), List.length_cons, Nat.pow_succ]
    ring

theorem value_append (s t : Text) : value (s ++ t) = value s * 10 ^ t.length + value t := by
  rw [value, List.foldl_append, foldl_eq_value]
  rfl

@[simp] theorem value_decimal (n : ℕ) : value (decimal n) = n := by
  have := Nat.ofDigitChars_toDigits (b := 10) (n := n) (by omega) (by omega)
  rw [value, decimal, List.foldl_map]
  simpa [Nat.ofDigitChars] using this

@[simp] theorem value_padded (places n : ℕ) : value (padded places n) = n % 10 ^ places := by
  induction places generalizing n with
  | zero => simp [padded, value, Nat.mod_one]
  | succ places ih =>
    have digit : value ['0'.toNat + n % 10] = n % 10 := by simp [value]
    rw [padded, value_append, ih, digit, List.length_singleton, pow_one, Nat.pow_succ,
      Nat.mul_comm (10 ^ places), Nat.mod_mul]
    omega

/-! ## Reading -/

/-- The digits at the start of a text that goes on with something else. -/
theorem takeWhile_digits {digits rest : Text} (h : ∀ c ∈ digits, isDigit c = true)
    (hrest : ∀ c ∈ rest.head?, isDigit c = false) :
    (digits ++ rest).takeWhile isDigit = digits := by
  rw [List.takeWhile_append_of_pos h]
  cases rest with
  | nil => simp
  | cons c rest => simp [hrest c rfl]

theorem dropWhile_digits {digits rest : Text} (h : ∀ c ∈ digits, isDigit c = true)
    (hrest : ∀ c ∈ rest.head?, isDigit c = false) :
    (digits ++ rest).dropWhile isDigit = rest := by
  rw [List.dropWhile_append_of_pos h]
  cases rest with
  | nil => rfl
  | cons c rest => simp [hrest c rfl]

end Digits
