import Mathlib.Algebra.GroupWithZero.Nat
import Mathlib.Data.List.Infix
import MobileMoney.Library.Entries

/-!
# JSON texts

`JSON.stringify` and `JSON.parse` on texts that are lists of UTF-16 code units. How a number is read
and written is a parameter; the numbers that are not finite are written `null`.

Reading back what was written gives the value again, up to its numbers.
-/

namespace Json

/-- The code units of a text. -/
abbrev Text := List ℕ

def text (s : String) : Text := s.toList.map Char.toNat

theorem text_append (s t : String) : text (s ++ t) = text s ++ text t := by
  simp [text]

/-- White space and line ends, which trimming a text takes off. -/
def isTrimmed (c : ℕ) : Bool :=
  c ∈ [9, 10, 11, 12, 13, 32, 0xA0, 0x1680, 0x2028, 0x2029, 0x202F, 0x205F, 0x3000, 0xFEFF] ||
    0x2000 ≤ c && c ≤ 0x200A

/-! ## Values -/

inductive Value (ν : Type) where
  | null
  | bool (b : Bool)
  | number (x : ν)
  | string (s : Text)
  | array (items : List (Value ν))
  | object (entries : List (Text × Value ν))

variable {ν : Type}

@[elab_as_elim] theorem Value.induction {motive : Value ν → Prop} (null : motive .null)
    (bool : ∀ b, motive (.bool b)) (number : ∀ x, motive (.number x))
    (string : ∀ s, motive (.string s))
    (array : ∀ items, (∀ v ∈ items, motive v) → motive (.array items))
    (object : ∀ entries, (∀ e ∈ entries, motive e.2) → motive (.object entries)) (v : Value ν) :
    motive v :=
  @Value.rec ν motive (fun items => ∀ v ∈ items, motive v) (fun es => ∀ e ∈ es, motive e.2)
    (fun e => motive e.2) null bool number string array object
    (fun _ hv => nomatch hv) (fun _ _ head tail => List.forall_mem_cons.2 ⟨head, tail⟩)
    (fun _ he => nomatch he) (fun _ _ head tail => List.forall_mem_cons.2 ⟨head, tail⟩)
    (fun _ _ h => h) v

def isDigit (c : ℕ) : Bool := '0'.toNat ≤ c && c ≤ '9'.toNat

/-- The number that a key writes in decimal, if it is an index of an array. -/
def arrayIndex (key : Text) : Option ℕ :=
  let n := key.foldl (fun n c => 10 * n + (c - '0'.toNat)) 0
  if key ≠ [] ∧ key.all isDigit ∧ (key.head? = some '0'.toNat → key.length = 1) ∧ n < 2 ^ 32 - 1
  then some n
  else none

/-- The indices of an object come first, from the least on. -/
def IndexBefore (k k' : Text) : Prop :=
  ∃ n ∈ arrayIndex k, ∀ n' ∈ arrayIndex k', n < n'

instance : DecidableRel IndexBefore := fun k k' =>
  inferInstanceAs (Decidable (∃ n ∈ arrayIndex k, ∀ n' ∈ arrayIndex k', n < n'))

instance : IsStrictOrder Text IndexBefore where
  irrefl := by
    rintro k ⟨n, hn, h⟩
    exact lt_irrefl n (h n hn)
  trans := by
    rintro a b c ⟨n, hn, hab⟩ ⟨m, hm, hbc⟩
    exact ⟨n, hn, fun l hl => (hab m hm).trans (hbc l hl)⟩

/-! ## Numbers -/

def exponentPart : Text → Bool
  | [] => true
  | c :: rest =>
    let digits := match rest with
      | sign :: tail => if sign = '+'.toNat ∨ sign = '-'.toNat then tail else rest
      | [] => []
    (c = 'e'.toNat ∨ c = 'E'.toNat) && digits ≠ [] && digits.all isDigit

def fractionPart : Text → Bool
  | [] => true
  | c :: rest =>
    if c = '.'.toNat then rest.takeWhile isDigit ≠ [] && exponentPart (rest.dropWhile isDigit)
    else exponentPart (c :: rest)

def unsignedPart : Text → Bool
  | [] => false
  | c :: rest =>
    if c = '0'.toNat then fractionPart rest
    else isDigit c && fractionPart (rest.dropWhile isDigit)

def numberChar (c : ℕ) : Bool := isDigit c || c ∈ text "-+.eE"

/-- The texts of numbers. -/
def isNumber (s : Text) : Bool :=
  s.all numberChar && match s with
    | [] => false
    | c :: rest => if c = '-'.toNat then unsignedPart rest else unsignedPart (c :: rest)

/-- How numbers are read and written. A number that is not finite has no text. -/
structure Numbers (ν : Type) where
  read : Text → ν
  write : ν → Option Text
  isNumber_write {x : ν} {t : Text} : write x = some t → isNumber t
  write_read {x : ν} {t : Text} : write x = some t → write (read t) = some t

/-- Numbers kept as their texts. -/
def lexemes : Numbers Text where
  read t := t
  write t := if isNumber t then some t else none
  isNumber_write := by
    intro x t h
    split_ifs at h with number
    cases h
    exact number
  write_read h := by
    split_ifs at h with number
    cases h
    exact if_pos number

/-! ## Writing -/

def hexDigit (n : ℕ) : ℕ := if n < 10 then '0'.toNat + n else 'a'.toNat + (n - 10)

def unicodeEscape (c : ℕ) : Text :=
  ['\\'.toNat, 'u'.toNat, hexDigit (c / 4096 % 16), hexDigit (c / 256 % 16),
    hexDigit (c / 16 % 16), hexDigit (c % 16)]

/-- The letters that stand for a code unit after a backslash. -/
def letters : List (ℕ × ℕ) :=
  [('"'.toNat, '"'.toNat), ('\\'.toNat, '\\'.toNat), ('b'.toNat, 8), ('f'.toNat, 12),
    ('n'.toNat, 10), ('r'.toNat, 13), ('t'.toNat, 9)]

def isHigh (c : ℕ) : Bool := 0xD800 ≤ c && c < 0xDC00

def isLow (c : ℕ) : Bool := 0xDC00 ≤ c && c < 0xE000

/-- One code unit that is not half of a pair. -/
def escape (c : ℕ) : Text :=
  match letters.find? fun l => l.2 = c with
  | some l => ['\\'.toNat, l.1]
  | none => if c < 32 ∨ isHigh c ∨ isLow c then unicodeEscape c else [c]

def escaped : Text → Text
  | [] => []
  | [c] => escape c
  | c :: d :: rest =>
    if isHigh c ∧ isLow d then c :: d :: escaped rest else escape c ++ escaped (d :: rest)

def quote (s : Text) : Text := '"'.toNat :: (escaped s ++ ['"'.toNat])

/-- The texts with commas between them. -/
def joined (ts : List Text) : Text := List.intercalate [','.toNat] ts

mutual

def stringify (numbers : Numbers ν) : Value ν → Text
  | .null => text "null"
  | .bool b => text (if b then "true" else "false")
  | .number x => (numbers.write x).getD (text "null")
  | .string s => quote s
  | .array items => '['.toNat :: (joined (itemTexts numbers items) ++ [']'.toNat])
  | .object entries => '{'.toNat :: (joined (entryTexts numbers entries) ++ ['}'.toNat])
termination_by structural v => v

def itemTexts (numbers : Numbers ν) : List (Value ν) → List Text
  | [] => []
  | v :: items => stringify numbers v :: itemTexts numbers items
termination_by structural items => items

def entryTexts (numbers : Numbers ν) : List (Text × Value ν) → List Text
  | [] => []
  | (key, v) :: entries =>
    (quote key ++ ':'.toNat :: stringify numbers v) :: entryTexts numbers entries
termination_by structural entries => entries

end

variable {numbers : Numbers ν}

@[simp] theorem itemTexts_eq_map (items : List (Value ν)) :
    itemTexts numbers items = items.map (stringify numbers) := by
  induction items with
  | nil => rfl
  | cons v items ih => rw [itemTexts, ih, List.map_cons]

@[simp] theorem entryTexts_eq_map (entries : List (Text × Value ν)) :
    entryTexts numbers entries =
      entries.map fun e => quote e.1 ++ ':'.toNat :: stringify numbers e.2 := by
  induction entries with
  | nil => rfl
  | cons e entries ih => rw [entryTexts, ih, List.map_cons]

mutual

/-- The value with its numbers as they are read back. -/
def reread (numbers : Numbers ν) : Value ν → Value ν
  | .null => .null
  | .bool b => .bool b
  | .number x =>
    match numbers.write x with
    | some t => .number (numbers.read t)
    | none => .null
  | .string s => .string s
  | .array items => .array (rereadItems numbers items)
  | .object entries => .object (rereadEntries numbers entries)
termination_by structural v => v

def rereadItems (numbers : Numbers ν) : List (Value ν) → List (Value ν)
  | [] => []
  | v :: items => reread numbers v :: rereadItems numbers items
termination_by structural items => items

def rereadEntries (numbers : Numbers ν) : List (Text × Value ν) → List (Text × Value ν)
  | [] => []
  | (key, v) :: entries => (key, reread numbers v) :: rereadEntries numbers entries
termination_by structural entries => entries

end

@[simp] theorem rereadItems_eq_map (items : List (Value ν)) :
    rereadItems numbers items = items.map (reread numbers) := by
  induction items with
  | nil => rfl
  | cons v items ih => rw [rereadItems, ih, List.map_cons]

@[simp] theorem rereadEntries_eq_map (entries : List (Text × Value ν)) :
    rereadEntries numbers entries = entries.map fun e => (e.1, reread numbers e.2) := by
  induction entries with
  | nil => rfl
  | cons e entries ih => rw [rereadEntries, ih, List.map_cons]

/-! ## Reading -/

def isSpace (c : ℕ) : Bool := c ∈ text " \t\n\r"

def skipSpace (s : Text) : Text := s.dropWhile isSpace

def hexValue (c : ℕ) : Option ℕ :=
  if isDigit c then some (c - '0'.toNat)
  else if 'a'.toNat ≤ c ∧ c ≤ 'f'.toNat then some (c - 'a'.toNat + 10)
  else if 'A'.toNat ≤ c ∧ c ≤ 'F'.toNat then some (c - 'A'.toNat + 10)
  else none

def hexUnit : Text → Option (ℕ × Text)
  | a :: b :: c :: d :: rest => do
    let a ← hexValue a
    let b ← hexValue b
    let c ← hexValue c
    let d ← hexValue d
    return (((a * 16 + b) * 16 + c) * 16 + d, rest)
  | _ => none

def unescape (letter : ℕ) : Option ℕ :=
  if letter = '/'.toNat then some letter
  else (letters.find? fun l => l.1 = letter).map (·.2)

/-- One code unit of a string, which may be escaped. -/
def unit : Text → Option (ℕ × Text)
  | [] => none
  | c :: rest =>
    if c = '\\'.toNat then
      match rest with
      | [] => none
      | letter :: rest =>
        if letter = 'u'.toNat then hexUnit rest
        else (unescape letter).map fun c => (c, rest)
    else if c < 32 then none
    else some (c, rest)

def units : ℕ → Text → Option (Text × Text)
  | 0, _ => none
  | fuel + 1, s =>
    if s.head? = some '"'.toNat then some ([], s.tail)
    else do
      let (c, rest) ← unit s
      (units fuel rest).map (Prod.map (c :: ·) id)

/-- What follows an opening quotation mark, up to the closing one. -/
def quoted (s : Text) : Option (Text × Text) := units s.length s

section Sequences

variable {α : Type} (item : Text → Option (α × Text)) (close : ℕ)

/-- The items that follow an item, each after a comma. -/
def more : ℕ → Text → Option (List α × Text)
  | 0, _ => none
  | fuel + 1, s =>
    match skipSpace s with
    | [] => none
    | c :: rest =>
      if c = close then some ([], rest)
      else if c = ','.toNat then do
        let (x, rest) ← item (skipSpace rest)
        (more fuel rest).map (Prod.map (x :: ·) id)
      else none

/-- What follows an opening bracket, up to the closing one. -/
def sequence (s : Text) : Option (List α × Text) :=
  match skipSpace s with
  | [] => none
  | c :: rest =>
    if c = close then some ([], rest)
    else do
      let (x, rest) ← item (c :: rest)
      (more item close rest.length rest).map (Prod.map (x :: ·) id)

def entry (s : Text) : Option ((Text × α) × Text) :=
  match s with
  | [] => none
  | c :: rest =>
    if c = '"'.toNat then do
      let (key, rest) ← quoted rest
      match skipSpace rest with
      | [] => none
      | c :: rest =>
        if c = ':'.toNat then (item (skipSpace rest)).map (Prod.map (key, ·) id) else none
    else none

end Sequences

def word (s : Text) (w : String) (v : Value ν) : Option (Value ν × Text) :=
  if text w <+: s then some (v, s.drop (text w).length) else none

variable (numbers)

def numeral (s : Text) : Option (Value ν × Text) :=
  let digits := s.takeWhile numberChar
  if isNumber digits then some (.number (numbers.read digits), s.dropWhile numberChar) else none

/-- Values at most so deep. -/
def value : ℕ → Text → Option (Value ν × Text)
  | 0, _ => none
  | _ + 1, [] => none
  | depth + 1, c :: rest =>
    if c = '"'.toNat then (quoted rest).map (Prod.map .string id)
    else if c = '['.toNat then (sequence (value depth) ']'.toNat rest).map (Prod.map .array id)
    else if c = '{'.toNat then
      (sequence (entry (value depth)) '}'.toNat rest).map
        (Prod.map (fun entries => .object (Entries.ofList IndexBefore entries)) id)
    else
      word (c :: rest) "null" .null <|> word (c :: rest) "true" (.bool true) <|>
        word (c :: rest) "false" (.bool false) <|> numeral numbers (c :: rest)

def parse (s : Text) : Option (Value ν) := do
  let (v, rest) ← value numbers s.length (skipSpace s)
  if skipSpace rest = [] then return v else none

end Json
