import Mathlib.Data.List.DropRight
import Mathlib.Tactic.Common

/-!
# Base64

Bytes as text with six bits in a character, in the plain alphabet with padding or in the one for
URLs without. The reader takes both alphabets at once, and skips what is in neither.
-/

namespace Base64

def letter (n : ℕ) : Char :=
  if n < 26 then Char.ofNat ('A'.toNat + n)
  else if n < 52 then Char.ofNat ('a'.toNat + (n - 26))
  else if n < 62 then Char.ofNat ('0'.toNat + (n - 52))
  else if n = 62 then '+' else '/'

def digit? (c : Char) : Option ℕ :=
  if c.isUpper then some (c.toNat - 'A'.toNat)
  else if c.isLower then some (c.toNat - 'a'.toNat + 26)
  else if c.isDigit then some (c.toNat - '0'.toNat + 52)
  else if c = '+' ∨ c = '-' then some 62
  else if c = '/' ∨ c = '_' then some 63
  else none

def pad : Char := '='

def encode : List UInt8 → List Char
  | [] => []
  | [a] => [letter (a.toNat / 4), letter (a.toNat % 4 * 16), pad, pad]
  | [a, b] => [letter (a.toNat / 4), letter (a.toNat % 4 * 16 + b.toNat / 16),
    letter (b.toNat % 16 * 4), pad]
  | a :: b :: c :: rest => letter (a.toNat / 4) :: letter (a.toNat % 4 * 16 + b.toNat / 16) ::
    letter (b.toNat % 16 * 4 + c.toNat / 64) :: letter (c.toNat % 64) :: encode rest

/-- Three bytes for four digits; the bits that are left over at the end are dropped. -/
def bytes : List ℕ → List UInt8
  | a :: b :: c :: d :: rest =>
    .ofNat (a * 4 + b / 16) :: .ofNat (b % 16 * 16 + c / 4) :: .ofNat (c % 4 * 64 + d) :: bytes rest
  | [a, b, c] => [.ofNat (a * 4 + b / 16), .ofNat (b % 16 * 16 + c / 4)]
  | [a, b] => [.ofNat (a * 4 + b / 16)]
  | _ => []

def decode (text : List Char) : List UInt8 := bytes (text.filterMap digit?)

/-- The alphabet for URLs, without padding. -/
def urlSafe (text : List Char) : List Char :=
  ((text.map fun c => if c = '+' then '-' else c).map fun c => if c = '/' then '_' else c
    ).rdropWhile (· = pad)

/-- Back from the alphabet for URLs. -/
def padded (text : List Char) : List Char :=
  let plain := (text.map fun c => if c = '-' then '+' else c).map
    fun c => if c = '_' then '/' else c
  plain ++ List.replicate ((4 - plain.length % 4) % 4) pad

/-! ## Letters -/

theorem digit?_letter {n : ℕ} (h : n < 64) : digit? (letter n) = some n := by
  revert n
  decide

theorem digit?_pad : digit? pad = none := by decide

theorem ofNat_eq {b : UInt8} {n : ℕ} (h : n = b.toNat) : UInt8.ofNat n = b := by
  rw [h, UInt8.ofNat_toNat]

theorem decode_encode (text : List UInt8) : decode (encode text) = text := by
  induction text using encode.induct with
  | case1 => rfl
  | case2 a =>
    have ha := a.toNat_lt
    simp only [decode, encode, List.filterMap_cons, List.filterMap_nil, digit?_pad, bytes,
      digit?_letter (show a.toNat / 4 < 64 by omega),
      digit?_letter (show a.toNat % 4 * 16 < 64 by omega)]
    rw [ofNat_eq (b := a) (by omega)]
  | case3 a b =>
    have ha := a.toNat_lt
    have hb := b.toNat_lt
    simp only [decode, encode, List.filterMap_cons, List.filterMap_nil, digit?_pad, bytes,
      digit?_letter (show a.toNat / 4 < 64 by omega),
      digit?_letter (show a.toNat % 4 * 16 + b.toNat / 16 < 64 by omega),
      digit?_letter (show b.toNat % 16 * 4 < 64 by omega)]
    rw [ofNat_eq (b := a) (by omega), ofNat_eq (b := b) (by omega)]
  | case4 a b c rest ih =>
    have ha := a.toNat_lt
    have hb := b.toNat_lt
    have hc := c.toNat_lt
    simp only [decode] at ih
    simp only [decode, encode, List.filterMap_cons, bytes, ih,
      digit?_letter (show a.toNat / 4 < 64 by omega),
      digit?_letter (show a.toNat % 4 * 16 + b.toNat / 16 < 64 by omega),
      digit?_letter (show b.toNat % 16 * 4 + c.toNat / 64 < 64 by omega),
      digit?_letter (show c.toNat % 64 < 64 by omega)]
    rw [ofNat_eq (b := a) (by omega), ofNat_eq (b := b) (by omega), ofNat_eq (b := c) (by omega)]

/-! ## The two alphabets -/

theorem digits_map {f : Char → Char} (h : ∀ c, digit? (f c) = digit? c) (text : List Char) :
    (text.map f).filterMap digit? = text.filterMap digit? := by
  rw [List.filterMap_map]
  exact List.filterMap_congr fun c _ => h c

theorem digits_replace {c c' : Char} (h : digit? c = digit? c') (text : List Char) :
    (text.map fun x => if x = c then c' else x).filterMap digit? = text.filterMap digit? := by
  refine digits_map (fun x => ?_) text
  split_ifs with same
  · rw [same, h]
  · rfl

theorem digits_rdropWhile (text : List Char) :
    (text.rdropWhile (· = pad)).filterMap digit? = text.filterMap digit? := by
  have split := List.rdropWhile_append_rtakeWhile (p := (· = pad)) (l := text)
  have padding : (text.rtakeWhile (· = pad)).filterMap digit? = [] := by
    refine List.filterMap_eq_nil_iff.2 fun c hc => ?_
    have same : c = pad := by simpa using List.mem_rtakeWhile_imp hc
    rw [same, digit?_pad]
  calc (text.rdropWhile (· = pad)).filterMap digit?
      = (text.rdropWhile (· = pad) ++ text.rtakeWhile (· = pad)).filterMap digit? := by
        rw [List.filterMap_append, padding, List.append_nil]
    _ = text.filterMap digit? := by rw [split]

theorem decode_urlSafe (text : List UInt8) : decode (urlSafe (encode text)) = text := by
  rw [decode, urlSafe, digits_rdropWhile, digits_replace (by decide), digits_replace (by decide)]
  exact decode_encode text

theorem decode_padded (text : List Char) : decode (padded text) = decode text := by
  rw [decode, padded, List.filterMap_append, digits_replace (by decide),
    digits_replace (by decide), List.filterMap_replicate_of_none digit?_pad, List.append_nil]
  rfl

end Base64
