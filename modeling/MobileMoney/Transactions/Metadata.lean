import MobileMoney.Library.Json

/-!
# Patching the metadata of a transaction

`patchMetadata` of `models/transaction.ts`. The patch is merged in one statement, and taken out
again in another one when the metadata has become too large. Each statement may fail, and so may the
decryption of the row that the first one returns. The order in which the database keeps keys is a
parameter.
-/

namespace MobileMoney.Transactions

open Json

def MAX_METADATA_BYTES : ℕ := 10240

/-- The bytes of a code unit that is not half of a pair. -/
def unitBytes (c : ℕ) : ℕ := if c < 0x80 then 1 else if c < 0x800 then 2 else 3

/-- The length of a text in UTF-8. -/
def byteLength : Text → ℕ
  | [] => 0
  | [c] => unitBytes c
  | c :: d :: rest =>
    if isHigh c ∧ isLow d then 4 + byteLength rest else unitBytes c + byteLength (d :: rest)

/-- The entries of an object in the database. -/
abbrev Metadata (ν : Type) := List (Text × Value ν)

/-- A row as far as its metadata goes. -/
structure TransactionRow (ν : Type) where
  metadata : Option (Metadata ν)

/-- A patch is an object. A value may be undefined, which has no JSON text. -/
structure Patch (ν : Type) where
  entries : List (Text × Option (Value ν))
  nodup : (entries.map (·.1)).Nodup

variable {ν : Type} (numbers : Numbers ν) (before : Text → Text → Prop) [DecidableRel before]

/-- `Object.keys` of the patch. -/
def Patch.keys (patch : Patch ν) : List Text := patch.entries.map (·.1)

def Patch.defined (patch : Patch ν) : List (Text × Value ν) :=
  patch.entries.filterMap fun e => e.2.map (e.1, ·)

/-- The patch as the database reads its JSON text. -/
def Patch.sent (patch : Patch ν) : Metadata ν :=
  patch.defined.map fun e => (e.1, reread numbers e.2)

/-- What goes wrong in one call. -/
structure Failures where
  merge : Option String
  mapping : Option String
  removal : Option String

def validateMetadata (patch : Patch ν) : Except String Unit :=
  if MAX_METADATA_BYTES < byteLength (stringify numbers (.object patch.defined)) then
    .error "Metadata exceeds 10 KB"
  else .ok ()

/-- `COALESCE(metadata, '{}') || patch`. -/
def TransactionRow.merge (row : TransactionRow ν) (patch : Metadata ν) : TransactionRow ν where
  metadata := some (patch.foldl (fun es e => Entries.assign before e.1 e.2 es)
    (row.metadata.getD []))

/-- `metadata - keys`. -/
def TransactionRow.remove (row : TransactionRow ν) (keys : List Text) : TransactionRow ν where
  metadata := row.metadata.map fun metadata => metadata.filter fun e => e.1 ∉ keys

/-- `JSON.stringify(row.metadata)`, of the object that the driver makes. -/
def combinedSize (metadata : Metadata ν) : ℕ :=
  byteLength (stringify numbers (.object (Entries.ofList IndexBefore metadata)))

/-- What follows the merge. -/
def checkSize (failures : Failures) (merged : TransactionRow ν) (patch : Patch ν) :
    Except String (Option (Metadata ν)) × Option (TransactionRow ν) :=
  match failures.mapping with
  | some error => (.error error, some merged)
  | none =>
    let metadata := merged.metadata.getD []
    if MAX_METADATA_BYTES < combinedSize numbers metadata then
      match failures.removal with
      | some error => (.error error, some merged)
      | none => (.error "Metadata exceeds maximum size of 10 KB", some (merged.remove patch.keys))
    else (.ok (some metadata), some merged)

/-- The metadata returned and the row afterwards, if there is one. -/
def patchMetadata (failures : Failures) (row : Option (TransactionRow ν)) (patch : Patch ν) :
    Except String (Option (Metadata ν)) × Option (TransactionRow ν) :=
  match validateMetadata numbers patch, failures.merge, row with
  | .error error, _, _ => (.error error, row)
  | .ok _, some error, _ => (.error error, row)
  | .ok _, none, none => (.ok none, none)
  | .ok _, none, some row =>
    checkSize numbers failures (row.merge before (patch.sent numbers)) patch

/-! ## All or nothing -/

variable {numbers before}

/-- What the caller is told agrees with what became of the metadata. -/
def Atomic (old patch : Metadata ν)
    (outcome : Except String (Option (Metadata ν)) × Option (TransactionRow ν)) : Prop :=
  match outcome with
  | (.error _, row) => row = some ⟨some old⟩
  | (.ok result, row) => ∃ metadata, result = some metadata ∧ row = some ⟨some metadata⟩ ∧
    ∀ key, Entries.get? key metadata = (Entries.get? key patch).or (Entries.get? key old)

/-- The metadata after the merge. -/
def merged (before : Text → Text → Prop) [DecidableRel before] (old patch : Metadata ν) :
    Metadata ν :=
  patch.foldl (fun es e => Entries.assign before e.1 e.2 es) old

theorem nodup_sent (patch : Patch ν) : ((patch.sent numbers).map (·.1)).Nodup := by
  have keys (es : List (Text × Option (Value ν))) :
      ((es.filterMap fun e => e.2.map (e.1, ·)).map (·.1)).Sublist (es.map (·.1)) := by
    induction es with
    | nil => exact List.Sublist.slnil
    | cons e es ih =>
      obtain ⟨key, _ | v⟩ := e
      · exact ih.cons key
      · exact ih.cons_cons key
  rw [Patch.sent, List.map_map]
  exact patch.nodup.sublist (keys patch.entries)

theorem mem_keys_of_mem_sent {patch : Patch ν} {e : Text × Value ν}
    (h : e ∈ patch.sent numbers) : e.1 ∈ patch.keys := by
  obtain ⟨e, he, rfl⟩ := List.mem_map.1 h
  obtain ⟨e', he', heq⟩ := List.mem_filterMap.1 he
  obtain ⟨v, -, rfl⟩ := Option.map_eq_some_iff.1 heq
  exact List.mem_map_of_mem he'

/-- Nothing that can happen in the call loses a part of the old metadata. -/
def Safe (numbers : Numbers ν) (before : Text → Text → Prop) [DecidableRel before]
    (failures : Failures) (old : Metadata ν) (patch : Patch ν) : Prop :=
  let new := merged before old (patch.sent numbers)
  let tooLarge := MAX_METADATA_BYTES < combinedSize numbers new
  validateMetadata numbers patch = .ok () → failures.merge = none →
    (failures.mapping ≠ none ∨ tooLarge ∧ failures.removal ≠ none → new = old) ∧
    (failures.mapping = none → tooLarge → failures.removal = none →
      ∀ key ∈ patch.keys, key ∉ old.map (·.1))

/-- The merge is visible to a caller that is told of a failure, unless it changed nothing. -/
theorem atomic_error_iff (old patch : Metadata ν) (error : String) :
    Atomic old patch (.error error, some ((⟨some old⟩ : TransactionRow ν).merge before patch)) ↔
      merged before old patch = old := by
  simp [Atomic, TransactionRow.merge, merged]

theorem atomic_remove_iff (old : Metadata ν) (patch : Patch ν) (error : String) :
    Atomic old (patch.sent numbers) (.error error, some (TransactionRow.remove
        ((⟨some old⟩ : TransactionRow ν).merge before (patch.sent numbers)) patch.keys)) ↔
      ∀ key ∈ patch.keys, key ∉ old.map (·.1) := by
  have rest : (merged before old (patch.sent numbers)).filter (fun e => e.1 ∉ patch.keys) =
      old.filter fun e => e.1 ∉ patch.keys :=
    Entries.filter_foldl_assign (fun key => key ∉ patch.keys) fun e he => by
      simpa using mem_keys_of_mem_sent he
  rw [merged] at rest
  simp only [Atomic, TransactionRow.merge, TransactionRow.remove, Option.getD_some,
    Option.map_some, rest, Option.some.injEq, TransactionRow.mk.injEq, List.filter_eq_self,
    decide_eq_true_eq]
  constructor
  · rintro h key hkey hold
    obtain ⟨e, he, rfl⟩ := List.mem_map.1 hold
    exact h e he hkey
  · exact fun h e he hkey => h e.1 hkey (List.mem_map_of_mem he)

theorem atomic_ok (old : Metadata ν) (patch : Patch ν) :
    Atomic old (patch.sent numbers) (.ok (some (merged before old (patch.sent numbers))),
      some ((⟨some old⟩ : TransactionRow ν).merge before (patch.sent numbers))) :=
  ⟨_, rfl, rfl, Entries.get?_foldl_assign (nodup_sent patch)⟩

/-- The metadata is what it was whenever the call fails, and the old one overridden by the patch
whenever it succeeds, exactly in the safe cases. -/
theorem patchMetadata_atomic_iff (numbers : Numbers ν) (before : Text → Text → Prop)
    [DecidableRel before] (failures : Failures) (old : Metadata ν) (patch : Patch ν) :
    Atomic old (patch.sent numbers)
        (patchMetadata numbers before failures (some ⟨some old⟩) patch) ↔
      Safe numbers before failures old patch := by
  obtain ⟨merge, mapping, removal⟩ := failures
  simp only [Safe, patchMetadata]
  cases validated : validateMetadata numbers patch with
  | error error => simp [Atomic]
  | ok _ =>
    cases merge with
    | some error => simp [Atomic]
    | none =>
      simp only [checkSize, forall_const]
      cases mapping with
      | some error => simp [atomic_error_iff]
      | none =>
        have same : ((⟨some old⟩ : TransactionRow ν).merge before
            (patch.sent numbers)).metadata.getD [] = merged before old (patch.sent numbers) := rfl
        simp only [same]
        by_cases tooLarge : MAX_METADATA_BYTES <
            combinedSize numbers (merged before old (patch.sent numbers))
        · rw [if_pos tooLarge]
          cases removal with
          | some error => simp [atomic_error_iff, tooLarge]
          | none =>
            rw [atomic_remove_iff]
            simp [tooLarge]
        · rw [if_neg tooLarge]
          exact iff_of_true (atomic_ok old patch)
            ⟨by simp [tooLarge], fun _ large => absurd large tooLarge⟩

/-! ## A value that is lost -/

theorem escape_of_plain {c : ℕ} (h : 'a'.toNat ≤ c ∧ c ≤ 'z'.toNat) : escape c = [c] := by
  have absent : ∀ l ∈ letters, l.2 < 'a'.toNat := by decide
  have none : (letters.find? fun l => l.2 = c) = none := by
    rw [List.find?_eq_none]
    intro l hl heq
    have := absent l hl
    rw [of_decide_eq_true heq] at this
    omega
  have bounds : 32 < c ∧ c < 0xD800 :=
    ⟨lt_of_lt_of_le (by decide) h.1, lt_of_le_of_lt h.2 (by decide)⟩
  rw [escape, none]
  exact if_neg (by simp [isHigh, isLow]; omega)

theorem escaped_replicate {c : ℕ} (h : 'a'.toNat ≤ c ∧ c ≤ 'z'.toNat) (n : ℕ) :
    escaped (List.replicate n c) = List.replicate n c := by
  have single : isHigh c = false := by
    have bound : c < 0xD800 := lt_of_le_of_lt h.2 (by decide)
    simp [isHigh]
    omega
  induction n with
  | zero => rfl
  | succ n ih =>
    cases n with
    | zero => exact escape_of_plain h
    | succ n =>
      rw [List.replicate_succ, List.replicate_succ, escaped, single, if_neg (by simp),
        escape_of_plain h, ← List.replicate_succ, ih]
      rfl

theorem byteLength_of_ascii {s : Text} (h : ∀ c ∈ s, c < 128) : byteLength s = s.length := by
  have unit {c : ℕ} (hc : c < 128) : unitBytes c = 1 := if_pos hc
  fun_induction byteLength s with
  | case1 => rfl
  | case2 c => exact unit (h c List.mem_cons_self)
  | case3 c d s pair ih =>
    have hc := h c List.mem_cons_self
    simp only [isHigh, Bool.and_eq_true, decide_eq_true_eq] at pair
    omega
  | case4 c d s single ih =>
    rw [unit (h c List.mem_cons_self), ih fun e he => h e (List.mem_cons_of_mem _ he),
      List.length_cons (a := c)]
    omega

/-- A call in which nothing goes wrong but the size. -/
theorem patchMetadata_of_tooLarge {old : Metadata ν} {patch : Patch ν}
    (validated : validateMetadata numbers patch = .ok ())
    (tooLarge : MAX_METADATA_BYTES <
      combinedSize numbers (merged before old (patch.sent numbers))) :
    patchMetadata numbers before ⟨none, none, none⟩ (some ⟨some old⟩) patch =
      (.error "Metadata exceeds maximum size of 10 KB", some (TransactionRow.remove
        ((⟨some old⟩ : TransactionRow ν).merge before (patch.sent numbers)) patch.keys)) := by
  simp only [patchMetadata, validated, checkSize]
  exact if_pos tooLarge

/-- Shorter keys come first. -/
def Shorter (k k' : Text) : Prop := k.length < k'.length

instance : DecidableRel Shorter := fun k k' => inferInstanceAs (Decidable (k.length < k'.length))

/-- A note and a short value. -/
def noted (note : Text) : Metadata Text :=
  [(text "note", .string note), (text "progress", .number (text "1"))]

/-- The short value is replaced. -/
def progressPatch (progress : Text) : Patch Text where
  entries := [(text "progress", some (.string progress))]
  nodup := List.nodup_cons.2 ⟨List.not_mem_nil, List.nodup_nil⟩

theorem quote_progress : quote (text "progress") = text "\"progress\"" := by decide

theorem stringify_progressPatch (progress : Text) :
    stringify lexemes (.object (progressPatch progress).defined) =
      text "\x7b\"progress\":" ++ (quote progress ++ text "\x7d") := by
  have object : (progressPatch progress).defined = [(text "progress", .string progress)] := rfl
  rw [object, stringify, entryTexts_eq_map]
  simp only [List.map_cons, List.map_nil, quote_progress, stringify]
  simp [joined, text]

theorem stringify_noted (note progress : Text) :
    stringify lexemes (.object (Entries.ofList IndexBefore
        (merged Shorter (noted note) ((progressPatch progress).sent lexemes)))) =
      text "\x7b\"note\":" ++ (quote note ++
        (text ",\"progress\":" ++ (quote progress ++ text "\x7d"))) := by
  have object : Entries.ofList IndexBefore
      (merged Shorter (noted note) ((progressPatch progress).sent lexemes)) =
        [(text "note", .string note), (text "progress", .string progress)] := rfl
  have key : quote (text "note") = text "\"note\"" := by decide
  rw [object, stringify, entryTexts_eq_map]
  simp only [List.map_cons, List.map_nil, key, quote_progress, stringify]
  simp [joined, List.intercalate, text]

theorem quote_replicate {c : ℕ} (h : 'a'.toNat ≤ c ∧ c ≤ 'z'.toNat) (n : ℕ) :
    quote (List.replicate n c) = text "\"" ++ (List.replicate n c ++ text "\"") := by
  rw [quote, escaped_replicate h]
  rfl

theorem size_progressPatch (n : ℕ) :
    byteLength (stringify lexemes (.object (progressPatch (List.replicate n 'p'.toNat)).defined)) =
      n + 15 := by
  rw [stringify_progressPatch, quote_replicate (by decide), byteLength_of_ascii]
  · simp [text]
  · simp [text]
    omega

theorem combinedSize_noted (m n : ℕ) :
    combinedSize lexemes (merged Shorter (noted (List.replicate m 'n'.toNat))
      ((progressPatch (List.replicate n 'p'.toNat)).sent lexemes)) = m + n + 25 := by
  rw [combinedSize, stringify_noted, quote_replicate (by decide), quote_replicate (by decide),
    byteLength_of_ascii]
  · simp [text]
    omega
  · simp [text]
    omega

/-- The old value is gone although the call failed. -/
theorem progress_lost :
    let old := noted (List.replicate 6000 'n'.toNat)
    let patch := progressPatch (List.replicate 6000 'p'.toNat)
    ¬ Atomic old (patch.sent lexemes)
      (patchMetadata lexemes Shorter ⟨none, none, none⟩ (some ⟨some old⟩) patch) := by
  intro old patch
  have validated : validateMetadata lexemes patch = .ok () := by
    rw [validateMetadata, size_progressPatch]
    rfl
  have tooLarge : MAX_METADATA_BYTES <
      combinedSize lexemes (merged Shorter old (patch.sent lexemes)) := by
    rw [combinedSize_noted]
    decide
  rw [patchMetadata_of_tooLarge validated tooLarge, atomic_remove_iff]
  intro h
  exact h (text "progress") List.mem_cons_self (List.mem_cons_of_mem _ List.mem_cons_self)

end MobileMoney.Transactions
