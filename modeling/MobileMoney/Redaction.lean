import MobileMoney.Library.JsonReading
import MobileMoney.Library.Words

/-!
# Redaction of logs

`redact` of `utils/redact.ts` on JSON-like values: what stands under a sensitive key is replaced,
at any depth and also in strings that are themselves JSON texts of objects or arrays. Error
objects, which are walked as plain objects of their fields, are left out.

Values that differ only under sensitive keys are redacted to the same value, and a redacted value is
left as it is.
-/

namespace MobileMoney.Redaction

open Json

def REDACTED : Text := text "[REDACTED]"

def REDACT_KEYS : List String :=
  ["password", "passwd", "secret", "token", "apikey", "api-key", "api_key", "privatekey",
    "private-key", "private_key", "mnemonic", "seed", "authorization", "auth", "credential", "pin",
    "otp", "passphrase", "cookie", "x-api-key", "accesskey", "access-key", "access_key",
    "clientsecret", "client-secret", "client_secret", "refreshtoken", "refresh-token",
    "refresh_token", "idtoken", "id-token", "id_token", "bearer", "signature", "signingkey",
    "signing-key", "signing_key", "encryptionkey", "encryption-key", "encryption_key",
    "masterkey", "master-key", "master_key", "walletkey", "wallet-key", "wallet_key",
    "stellarsecret", "stellar-secret", "stellar_secret", "stellarseed", "stellar-seed",
    "stellar_seed", "ssn", "cvv", "cardnumber", "card-number", "card_number", "accountnumber",
    "account-number", "account_number"]

/-! ## Sensitive keys -/

/-- What the patterns are made of: a letter in either case, an optional `_` or `-`, and the
boundary of a word. -/
inductive Part where
  | letter (c : ℕ)
  | separator
  | boundary

def lower (c : ℕ) : ℕ := if 'A'.toNat ≤ c ∧ c ≤ 'Z'.toNat then c + 32 else c

def isSeparator (c : ℕ) : Bool := c = '_'.toNat || c = '-'.toNat

def isWordChar (c : ℕ) : Bool :=
  isDigit c || c = '_'.toNat || 'a'.toNat ≤ lower c && lower c ≤ 'z'.toNat

/-- The pattern matches here, after the code unit before. -/
def matchesAt : List Part → Option ℕ → Text → Bool
  | [], _, _ => true
  | .letter _ :: _, _, [] => false
  | .letter c :: parts, _, d :: rest => lower d = c && matchesAt parts (some d) rest
  | .separator :: parts, before, [] => matchesAt parts before []
  | .separator :: parts, before, d :: rest =>
    isSeparator d && matchesAt parts (some d) rest || matchesAt parts before (d :: rest)
  | .boundary :: parts, before, s =>
    before.any isWordChar != s.head?.any isWordChar && matchesAt parts before s

def test (parts : List Part) : Option ℕ → Text → Bool
  | before, [] => matchesAt parts before []
  | before, c :: rest => matchesAt parts before (c :: rest) || test parts (some c) rest

def lettersOf (key : String) : List Part :=
  (text key).map fun c => if isSeparator c then .separator else .letter c

def sensitivePattern (key : String) : List Part :=
  if key = "pin" then lettersOf key ++ [.boundary]
  else if key = "otp" then .boundary :: (lettersOf key ++ [.boundary])
  else lettersOf key

def isSensitiveKey (key : Text) : Bool :=
  REDACT_KEYS.any fun sensitive => test (sensitivePattern sensitive) none key

/-! ## Values -/

variable {ν : Type} (numbers : Numbers ν)

def tryParseJson (s : Text) : Option (Value ν) :=
  let trimmed := Words.trim isTrimmed s
  if trimmed.head? ≠ some '\x7b'.toNat ∧ trimmed.head? ≠ some '['.toNat then none
  else
    match parse numbers trimmed with
    | some (.array items) => some (.array items)
    | some (.object entries) => some (.object entries)
    | _ => none

mutual

/-- The walk over a value, given what becomes of a string. Assigning to `__proto__` makes no
entry. -/
@[grind =] def redactWith (onString : Text → Text) : Value ν → Value ν
  | .null => .null
  | .bool b => .bool b
  | .number x => .number x
  | .string s => .string (onString s)
  | .array items => .array (redactItems onString items)
  | .object entries =>
    .object (Entries.ofList IndexBefore
      ((redactEntries onString entries).filter fun e => e.1 ≠ text "__proto__"))
termination_by structural v => v

def redactItems (onString : Text → Text) : List (Value ν) → List (Value ν)
  | [] => []
  | v :: items => redactWith onString v :: redactItems onString items
termination_by structural items => items

def redactEntries (onString : Text → Text) : List (Text × Value ν) → List (Text × Value ν)
  | [] => []
  | (key, v) :: entries =>
    (key, if isSensitiveKey key then .string REDACTED else redactWith onString v) ::
      redactEntries onString entries
termination_by structural entries => entries

end

/-- Strings in strings, at most so deep. -/
def redactString : ℕ → Text → Text
  | 0, s => s
  | depth + 1, s =>
    match tryParseJson numbers s with
    | some parsed => stringify numbers (redactWith (redactString depth) parsed)
    | none => s

def redact (v : Value ν) : Value ν := redactWith (fun s => redactString numbers s.length s) v

/-! ## What redaction hides -/

variable {numbers}

@[simp] theorem redactItems_eq_map (onString : Text → Text) (items : List (Value ν)) :
    redactItems onString items = items.map (redactWith onString) := by
  induction items with
  | nil => rfl
  | cons v items ih => rw [redactItems, ih, List.map_cons]

@[simp] theorem redactEntries_eq_map (onString : Text → Text) (entries : List (Text × Value ν)) :
    redactEntries onString entries = entries.map fun e =>
      (e.1, if isSensitiveKey e.1 then .string REDACTED else redactWith onString e.2) := by
  induction entries with
  | nil => rfl
  | cons e entries ih => rw [redactEntries, ih, List.map_cons]

theorem trim_length_le (s : Text) : (Words.trim isTrimmed s).length ≤ s.length :=
  (List.rdropWhile_prefix isTrimmed _).length_le.trans (List.dropWhile_suffix _).length_le

/-- What a string holds has shorter strings, and is an object or array in order. -/
theorem tryParseJson_spec {s : Text} {v : Value ν} (h : tryParseJson numbers s = some v) :
    v.Below s.length ∧ parse numbers (Words.trim isTrimmed s) = some v ∧
      ((∃ items, v = .array items) ∨ ∃ entries, v = .object entries) := by
  simp only [tryParseJson] at h
  split_ifs at h
  split at h
  case h_1 items hparse =>
    cases h
    exact ⟨(parse_sound hparse).2.mono (trim_length_le s), hparse, .inl ⟨items, rfl⟩⟩
  case h_2 entries hparse =>
    cases h
    exact ⟨(parse_sound hparse).2.mono (trim_length_le s), hparse, .inr ⟨entries, rfl⟩⟩
  case h_3 => cases h

theorem redactWith_congr {f g : Text → Text} {n : ℕ} {v : Value ν} (below : v.Below n)
    (agree : ∀ s : Text, s.length < n → f s = g s) : redactWith f v = redactWith g v := by
  induction below with
  | null => rfl
  | bool b => rfl
  | number x => rfl
  | string length => rw [redactWith, redactWith, agree _ length]
  | array _ ih =>
    rw [redactWith, redactWith, redactItems_eq_map, redactItems_eq_map, List.map_congr_left ih]
  | object _ ih =>
    rw [redactWith, redactWith, redactEntries_eq_map, redactEntries_eq_map]
    congr 3
    refine List.map_congr_left fun e he => ?_
    rw [ih e he]

/-- The length of a string is depth enough. -/
theorem redactString_depth {depth depth' : ℕ} {s : Text} (h : s.length ≤ depth)
    (h' : s.length ≤ depth') : redactString numbers depth s = redactString numbers depth' s := by
  induction depth generalizing depth' s with
  | zero =>
    rw [List.length_eq_zero_iff.1 (Nat.le_zero.1 h)]
    cases depth' <;> rfl
  | succ depth ih =>
    cases depth' with
    | zero =>
      rw [List.length_eq_zero_iff.1 (Nat.le_zero.1 h')]
      rfl
    | succ depth' =>
      rw [redactString, redactString]
      cases parsed : tryParseJson numbers s with
      | none => rfl
      | some v =>
        obtain ⟨below, -, -⟩ := tryParseJson_spec parsed
        exact congrArg (stringify numbers) (redactWith_congr below fun t ht =>
          ih (by omega) (by omega))

/-! ### The walk -/

theorem redact_array (items : List (Value ν)) :
    redact numbers (.array items) = .array (items.map (redact numbers)) := by
  rw [redact, redactWith, redactItems_eq_map]
  rfl

/-- An entry after the walk. -/
def redactEntry (numbers : Numbers ν) (e : Text × Value ν) : Value ν :=
  if isSensitiveKey e.1 then .string REDACTED else redact numbers e.2

theorem redact_object (entries : List (Text × Value ν)) :
    redact numbers (.object entries) = .object (Entries.ofList IndexBefore
      ((entries.map fun e => (e.1, redactEntry numbers e)).filter
        fun e => e.1 ≠ text "__proto__")) := by
  rw [redact, redactWith, redactEntries_eq_map]
  rfl

theorem redact_string (s : Text) : redact numbers (.string s) =
    .string (((tryParseJson numbers s).map fun v =>
      stringify numbers (redact numbers v)).getD s) := by
  rw [redact, redactWith]
  congr 1
  rw [redactString_depth le_rfl (Nat.le_succ _), redactString]
  cases parsed : tryParseJson numbers s with
  | none => rfl
  | some v =>
    obtain ⟨below, -, -⟩ := tryParseJson_spec parsed
    exact congrArg (stringify numbers) (redactWith_congr below fun t ht =>
      redactString_depth ht.le le_rfl)

/-! ### Two runs -/

/-- The two differ only in what stands under sensitive keys, here or in strings that hold JSON. -/
inductive Alike (numbers : Numbers ν) : Value ν → Value ν → Prop
  | null : Alike numbers .null .null
  | bool (b : Bool) : Alike numbers (.bool b) (.bool b)
  | number (x : ν) : Alike numbers (.number x) (.number x)
  | string (s : Text) : Alike numbers (.string s) (.string s)
  | embedded {s t : Text} {v w : Value ν} (hs : tryParseJson numbers s = some v)
    (ht : tryParseJson numbers t = some w) (h : Alike numbers v w) :
    Alike numbers (.string s) (.string t)
  | array {items items' : List (Value ν)} (length : items.length = items'.length)
    (each : ∀ p ∈ items.zip items', Alike numbers p.1 p.2) :
    Alike numbers (.array items) (.array items')
  | object {entries entries' : List (Text × Value ν)}
    (length : entries.length = entries'.length)
    (keys : ∀ p ∈ entries.zip entries', p.1.1 = p.2.1)
    (each : ∀ p ∈ entries.zip entries', isSensitiveKey p.1.1 = false →
      Alike numbers p.1.2 p.2.2) :
    Alike numbers (.object entries) (.object entries')

theorem map_eq_of_zip {α β γ : Type} {f : α → γ} {g : β → γ} {xs : List α} {ys : List β}
    (length : xs.length = ys.length) (each : ∀ p ∈ xs.zip ys, f p.1 = g p.2) :
    xs.map f = ys.map g := by
  calc xs.map f = (xs.zip ys).map fun p => f p.1 := by
        conv_lhs => rw [← List.map_fst_zip length.le, List.map_map]
        rfl
    _ = (xs.zip ys).map fun p => g p.2 := List.map_congr_left each
    _ = ys.map g := by
        conv_rhs => rw [← List.map_snd_zip length.ge, List.map_map]
        rfl

/-- Values that differ only under sensitive keys are redacted to the same value. -/
theorem redact_eq_of_alike {v w : Value ν} (h : Alike numbers v w) :
    redact numbers v = redact numbers w := by
  induction h with
  | null => rfl
  | bool b => rfl
  | number x => rfl
  | string s => rfl
  | embedded hs ht _ ih =>
    rw [redact_string, redact_string, hs, ht, Option.map_some, Option.map_some, ih]
    rfl
  | array length _ ih => rw [redact_array, redact_array, map_eq_of_zip length ih]
  | object length keys _ ih =>
    have entries := map_eq_of_zip (f := fun e => (e.1, redactEntry numbers e))
      (g := fun e => (e.1, redactEntry numbers e)) length fun p hp => by
        rw [redactEntry, redactEntry, ← keys p hp]
        split_ifs with sensitive
        · rfl
        · rw [ih p hp (Bool.not_eq_true _ ▸ sensitive)]
    rw [redact_object, redact_object, entries]

/-! ### Twice -/

theorem redact_ordered (v : Value ν) : (redact numbers v).Ordered := by
  induction v using Value.induction with
  | null => exact .null
  | bool b => exact .bool b
  | number x => exact .number x
  | string s =>
    rw [redact_string]
    exact .string _
  | array items ih =>
    rw [redact_array]
    exact .array (List.forall_mem_map.2 ih)
  | object entries ih =>
    rw [redact_object]
    refine .object (Entries.ordered_ofList _) fun e he => ?_
    have hmem := List.mem_of_mem_filter (Entries.mem_of_mem_ofList he)
    obtain ⟨e', he', rfl⟩ := List.mem_map.1 hmem
    simp only [redactEntry]
    split_ifs
    · exact .string _
    · exact ih e' he'

/-- How the numbers are read back makes no difference to the walk. -/
theorem redact_reread (v : Value ν) :
    redact numbers (reread numbers v) = reread numbers (redact numbers v) := by
  induction v using Value.induction with
  | null => rfl
  | bool b => rfl
  | number x =>
    have walk : redact numbers (.number x) = .number x := rfl
    rw [walk, reread]
    split <;> rfl
  | string s =>
    rw [redact_string, reread, redact_string]
    rfl
  | array items ih =>
    rw [redact_array, reread, reread, rereadItems_eq_map, rereadItems_eq_map, redact_array,
      List.map_map, List.map_map]
    congr 1
    exact List.map_congr_left ih
  | object entries ih =>
    rw [redact_object, reread, reread, rereadEntries_eq_map, rereadEntries_eq_map, redact_object,
      Entries.ofList_map, List.map_map, List.filter_map, List.filter_map, List.map_map]
    congr 2
    refine List.map_congr_left fun e he => ?_
    have same := ih e (List.mem_of_mem_filter he)
    simp only [Function.comp_apply, redactEntry]
    split_ifs
    · rfl
    · rw [same]

theorem trim_of_ends {first last : ℕ} (hfirst : isTrimmed first = false)
    (hlast : isTrimmed last = false) (s : Text) :
    Words.trim isTrimmed (first :: (s ++ [last])) = first :: (s ++ [last]) := by
  rw [Words.trim, List.dropWhile_cons, hfirst, if_neg Bool.false_ne_true, ← List.cons_append,
    List.rdropWhile_concat, hlast, if_neg Bool.false_ne_true]

theorem tryParseJson_stringify {v : Value ν} (ordered : v.Ordered)
    (container : (∃ items, v = .array items) ∨ ∃ entries, v = .object entries) :
    tryParseJson numbers (stringify numbers v) = some (reread numbers v) := by
  have back : parse numbers (stringify numbers v) = some (reread numbers v) :=
    parse_stringify ordered
  rcases container with ⟨items, rfl⟩ | ⟨entries, rfl⟩
  · rw [stringify] at back ⊢
    simp only [tryParseJson, trim_of_ends (show isTrimmed '['.toNat = false by decide)
      (show isTrimmed ']'.toNat = false by decide), back, reread]
    simp
  · rw [stringify] at back ⊢
    simp only [tryParseJson, trim_of_ends (show isTrimmed '\x7b'.toNat = false by decide)
      (show isTrimmed '\x7d'.toNat = false by decide), back, reread]
    simp

/-- The walk keeps objects objects and arrays arrays. -/
theorem redact_container {v : Value ν}
    (h : (∃ items, v = .array items) ∨ ∃ entries, v = .object entries) :
    (∃ items, redact numbers v = .array items) ∨ ∃ entries, redact numbers v = .object entries := by
  rcases h with ⟨items, rfl⟩ | ⟨entries, rfl⟩
  · exact .inl ⟨_, redact_array items⟩
  · exact .inr ⟨_, redact_object entries⟩

theorem redact_redact_of_below {n : ℕ} {v : Value ν} (below : v.Below n) :
    redact numbers (redact numbers v) = redact numbers v := by
  induction n using Nat.strong_induction_on generalizing v with
  | _ n ihn =>
  induction below with
  | null => rfl
  | bool b => rfl
  | number x => rfl
  | @string s length =>
    rw [redact_string]
    cases parsed : tryParseJson numbers s with
    | none =>
      rw [Option.map_none, Option.getD_none, redact_string, parsed]
      rfl
    | some v =>
      obtain ⟨below, -, container⟩ := tryParseJson_spec parsed
      have again : tryParseJson numbers (stringify numbers (redact numbers v)) =
          some (reread numbers (redact numbers v)) :=
        tryParseJson_stringify (redact_ordered v) (redact_container container)
      rw [Option.map_some, Option.getD_some, redact_string, again, Option.map_some,
        Option.getD_some, redact_reread, stringify_reread, ihn _ length below]
  | @array items _ ih =>
    rw [redact_array, redact_array, List.map_map]
    congr 1
    exact List.map_congr_left ih
  | @object entries _ ih =>
    rw [redact_object, redact_object, Entries.ofList_map]
    congr 1
    set kept := (entries.map fun e => (e.1, redactEntry numbers e)).filter
      fun e => e.1 ≠ text "__proto__" with hkept
    have same : kept.map (fun e => (e.1, redactEntry numbers e)) = kept := by
      refine (List.map_congr_left fun e he => ?_).trans (List.map_id kept)
      obtain ⟨e, hmem, rfl⟩ := List.mem_map.1 (List.mem_of_mem_filter he)
      simp only [redactEntry, id]
      split_ifs with sensitive
      · rfl
      · rw [ih e hmem]
    have all : (Entries.ofList IndexBefore kept).filter (fun e => e.1 ≠ text "__proto__") =
        Entries.ofList IndexBefore kept := by
      rw [List.filter_eq_self]
      exact fun e he => (List.mem_filter.1 (Entries.mem_of_mem_ofList he)).2
    rw [same, all, Entries.ofList_of_ordered (Entries.ordered_ofList _)]

theorem redact_redact (v : Value ν) : redact numbers (redact numbers v) = redact numbers v := by
  obtain ⟨n, below⟩ := v.exists_below
  exact redact_redact_of_below below

/-- Nothing that stands under a sensitive key shows in what is logged, and a second redaction
changes nothing. -/
theorem redact_noninterference (numbers : Numbers ν) :
    (∀ v w : Value ν, Alike numbers v w → redact numbers v = redact numbers w) ∧
      ∀ v : Value ν, redact numbers (redact numbers v) = redact numbers v :=
  ⟨fun _ _ h => redact_eq_of_alike h, redact_redact⟩

/-- A message with a token, and a body that holds JSON. -/
def message (token pin : String) : Value Text :=
  .object [(text "accessToken", .string (text token)),
    (text "body", .string (text ("[\x7b\"pin\":" ++ pin ++ ",\"id\":7\x7d]")))]

theorem redact_noninterference_of_message :
    redact lexemes (message "a" "12") = redact lexemes (message "b" "[34]") ∧
      redact lexemes (redact lexemes (message "a" "12")) = redact lexemes (message "a" "12") := by
  obtain ⟨same, twice⟩ := redact_noninterference lexemes
  have parsed : Alike lexemes
      (.array [.object [(text "pin", .number (text "12")), (text "id", .number (text "7"))]])
      (.array [.object [(text "pin", .array [.number (text "34")]),
        (text "id", .number (text "7"))]]) := by
    refine .array rfl (List.forall_mem_cons.2 ⟨.object rfl ?_ ?_, fun _ h => nomatch h⟩)
    · exact List.forall_mem_cons.2 ⟨rfl, List.forall_mem_cons.2 ⟨rfl, fun _ h => nomatch h⟩⟩
    · exact List.forall_mem_cons.2 ⟨fun h => absurd h (by decide),
        List.forall_mem_cons.2 ⟨fun _ => .number _, fun _ h => nomatch h⟩⟩
  have alike : Alike lexemes (message "a" "12") (message "b" "[34]") := by
    refine .object rfl ?_ ?_
    · exact List.forall_mem_cons.2 ⟨rfl, List.forall_mem_cons.2 ⟨rfl, fun _ h => nomatch h⟩⟩
    · exact List.forall_mem_cons.2 ⟨fun h => absurd h (by decide),
        List.forall_mem_cons.2 ⟨fun _ => .embedded rfl rfl parsed, fun _ h => nomatch h⟩⟩
  exact ⟨same _ _ alike, twice _⟩

end MobileMoney.Redaction
