import Mathlib.Data.List.Forall2
import Mathlib.Data.List.TakeWhile
import MobileMoney.Library.Json

/-!
# Reading JSON back

What was written is read as the same value, with its numbers as they are read back. Whatever is read
has its objects in order, and strings shorter than the text.
-/

namespace Json

variable {ν : Type} {numbers : Numbers ν}

/-! ## Reading strings back -/

theorem hexValue_hexDigit {n : ℕ} (h : n < 16) : hexValue (hexDigit n) = some n := by
  have all : ∀ n < 16, hexValue (hexDigit n) = some n := by decide
  exact all n h

theorem unit_plain {c : ℕ} (low : 32 ≤ c) (hne : c ≠ '\\'.toNat) (rest : Text) :
    unit (c :: rest) = some (c, rest) := by
  simp only [unit, if_neg hne, if_neg (not_lt.2 low)]

theorem unit_unicodeEscape {c : ℕ} (h : c < 2 ^ 16) (rest : Text) :
    unit (unicodeEscape c ++ rest) = some (c, rest) := by
  have digits (n : ℕ) : hexValue (hexDigit (n % 16)) = some (n % 16) :=
    hexValue_hexDigit (Nat.mod_lt _ (by omega))
  have whole : ((c / 4096 % 16 * 16 + c / 256 % 16) * 16 + c / 16 % 16) * 16 + c % 16 = c := by
    omega
  simp [unicodeEscape, unit, hexUnit, digits, whole]

theorem unit_escape (c : ℕ) (rest : Text) : unit (escape c ++ rest) = some (c, rest) := by
  unfold escape
  split
  case h_1 l found =>
    have known : ∀ l ∈ letters, l.1 ≠ 'u'.toNat ∧ unescape l.1 = some l.2 := by decide
    obtain ⟨hne, hletter⟩ := known l (List.mem_of_find?_eq_some found)
    obtain rfl : l.2 = c := by simpa using List.find?_some found
    rw [List.cons_append, List.cons_append, List.nil_append, unit, if_pos rfl]
    simp only [if_neg hne, hletter, Option.map_some]
  case h_2 absent =>
    rw [List.find?_eq_none] at absent
    split_ifs with special
    · refine unit_unicodeEscape ?_ rest
      simp only [isHigh, isLow, Bool.and_eq_true, decide_eq_true_eq] at special
      omega
    · have backslash := absent ('\\'.toNat, '\\'.toNat) (by decide)
      rw [decide_eq_true_eq] at backslash
      exact unit_plain (by omega) (Ne.symm backslash) rest

/-- An escaped code unit does not start with a quotation mark. -/
theorem head?_escape_append (c : ℕ) (rest : Text) :
    0 < (escape c).length ∧ (escape c ++ rest).head? ≠ some '"'.toNat := by
  unfold escape
  split
  case h_1 l found => exact ⟨by simp, by simp⟩
  case h_2 absent =>
    have mark := List.find?_eq_none.1 absent ('"'.toNat, '"'.toNat) (by decide)
    rw [decide_eq_true_eq] at mark
    split_ifs with special
    · exact ⟨by simp [unicodeEscape], by simp [unicodeEscape]⟩
    · exact ⟨by simp, by simpa using Ne.symm mark⟩

/-- A string is read by one code unit after the other. -/
theorem units_cons {fuel c : ℕ} {s text rest rest' : Text} (head : s.head? ≠ some '"'.toNat)
    (first : unit s = some (c, rest)) (later : units fuel rest = some (text, rest')) :
    units (fuel + 1) s = some (c :: text, rest') := by
  rw [units, if_neg head, first]
  exact congrArg (Option.map (Prod.map (c :: ·) id)) later

theorem units_escaped {s : Text} {fuel : ℕ} (h : (escaped s).length < fuel) (rest : Text) :
    units fuel (escaped s ++ '"'.toNat :: rest) = some (s, rest) := by
  obtain ⟨fuel, rfl⟩ := Nat.exists_eq_succ_of_ne_zero (Nat.ne_zero_of_lt h)
  fun_induction escaped s generalizing fuel with
  | case1 => rfl
  | case2 c =>
    obtain ⟨length, head⟩ := head?_escape_append c ('"'.toNat :: rest)
    obtain ⟨fuel, rfl⟩ := Nat.exists_eq_succ_of_ne_zero (show fuel ≠ 0 by omega)
    exact units_cons head (unit_escape c _) rfl
  | case3 c d s pair ih =>
    simp only [List.length_cons] at h
    obtain ⟨fuel, rfl⟩ := Nat.exists_eq_succ_of_ne_zero (show fuel ≠ 0 by omega)
    obtain ⟨fuel, rfl⟩ := Nat.exists_eq_succ_of_ne_zero (show fuel ≠ 0 by omega)
    have plain {c : ℕ} (hc : 0xD800 ≤ c) (rest : Text) :
        unit (c :: rest) = some (c, rest) ∧ (c :: rest).head? ≠ some '"'.toNat := by
      have bound : 'z'.toNat < c := lt_of_lt_of_le (by decide) hc
      refine ⟨unit_plain (by omega) ?_ rest, ?_⟩
      · rintro rfl
        exact absurd bound (by decide)
      · rw [List.head?_cons, ne_eq, Option.some_inj]
        rintro rfl
        exact absurd bound (by decide)
    simp only [isHigh, isLow, Bool.and_eq_true, decide_eq_true_eq] at pair
    obtain ⟨hc, headc⟩ := plain (show 0xD800 ≤ c by omega) (d :: (escaped s ++ '"'.toNat :: rest))
    obtain ⟨hd, headd⟩ := plain (show 0xD800 ≤ d by omega) (escaped s ++ '"'.toNat :: rest)
    exact units_cons headc hc (units_cons headd hd (ih fuel (by omega)))
  | case4 c d s single ih =>
    rw [List.length_append] at h
    obtain ⟨length, head⟩ := head?_escape_append c (escaped (d :: s) ++ '"'.toNat :: rest)
    obtain ⟨fuel, rfl⟩ := Nat.exists_eq_succ_of_ne_zero (show fuel ≠ 0 by omega)
    rw [List.append_assoc]
    exact units_cons head (unit_escape c _) (ih fuel (by omega))

theorem quoted_escaped (s rest : Text) :
    quoted (escaped s ++ '"'.toNat :: rest) = some (s, rest) := by
  refine units_escaped ?_ rest
  rw [List.length_append, List.length_cons]
  omega

/-! ## Reading sequences back -/

/-- No number goes on in this text. -/
def Stops (s : Text) : Prop := ∀ c ∈ s.head?, numberChar c = false

/-- The text is read as the item, whatever stands after it. -/
structure Reads {α : Type} (item : Text → Option (α × Text)) (s : Text) (x : α) : Prop where
  starts : ∃ c ∈ s.head?, isSpace c = false ∧ c ≠ ']'.toNat ∧ c ≠ '\x7d'.toNat
  reads : ∀ rest, Stops rest → item (s ++ rest) = some (x, rest)

theorem skipSpace_cons {c : ℕ} (h : isSpace c = false) (rest : Text) :
    skipSpace (c :: rest) = c :: rest := by
  rw [skipSpace, List.dropWhile_cons, h, if_neg Bool.false_ne_true]

theorem stops_cons {c : ℕ} (h : numberChar c = false) (rest : Text) : Stops (c :: rest) := by
  rintro _ ⟨⟩
  exact h

section Sequences

variable {α : Type} {item : Text → Option (α × Text)} {s : Text} {x : α}

theorem Reads.skipSpace (h : Reads item s x) (rest : Text) : skipSpace (s ++ rest) = s ++ rest := by
  obtain ⟨c, hc, space, -, -⟩ := h.starts
  cases s with
  | nil => cases hc
  | cons d s =>
    cases hc
    exact skipSpace_cons space _

/-- A closing bracket. -/
def Closes (close : ℕ) : Prop := close = ']'.toNat ∨ close = '\x7d'.toNat

theorem Closes.spec {close : ℕ} (h : Closes close) :
    isSpace close = false ∧ numberChar close = false ∧ close ≠ ','.toNat := by
  rcases h with rfl | rfl <;> decide

theorem more_close {close : ℕ} (closes : Closes close) (fuel : ℕ) (rest : Text) :
    more item close (fuel + 1) (close :: rest) = some ([], rest) := by
  obtain ⟨space, -, -⟩ := closes.spec
  rw [more, skipSpace_cons space]
  exact if_pos rfl

theorem more_comma {close : ℕ} (closes : Closes close) (first : Reads item s x) {rest : Text}
    (stops : Stops rest) (fuel : ℕ) : more item close (fuel + 1) (','.toNat :: (s ++ rest)) =
      (more item close fuel rest).map (Prod.map (x :: ·) id) := by
  obtain ⟨-, -, comma⟩ := closes.spec
  rw [more, skipSpace_cons (by decide)]
  simp only [if_neg comma.symm, if_pos, first.skipSpace, first.reads _ stops]
  rfl

/-- What stands between the items and after them ends every number. -/
theorem stops_later {close : ℕ} (closes : Closes close) (ts : List Text) (rest : Text) :
    Stops ((ts.flatMap fun t => ','.toNat :: t) ++ close :: rest) := by
  cases ts with
  | nil => exact stops_cons closes.spec.2.1 rest
  | cons t ts => exact stops_cons (by decide) _

theorem more_reads {close : ℕ} (closes : Closes close) {ts : List Text} {xs : List α}
    (h : List.Forall₂ (Reads item) ts xs) {fuel : ℕ} (enough : ts.length < fuel) (rest : Text) :
    more item close fuel ((ts.flatMap fun t => ','.toNat :: t) ++ close :: rest) =
      some (xs, rest) := by
  induction h generalizing fuel with
  | nil =>
    obtain ⟨fuel, rfl⟩ := Nat.exists_eq_succ_of_ne_zero (Nat.ne_zero_of_lt enough)
    exact more_close closes fuel rest
  | @cons t x ts xs first later ih =>
    obtain ⟨fuel, rfl⟩ := Nat.exists_eq_succ_of_ne_zero (Nat.ne_zero_of_lt enough)
    rw [List.flatMap_cons, List.append_assoc, List.cons_append,
      more_comma closes first (stops_later closes ts rest), ih (Nat.lt_of_succ_lt_succ enough)]
    rfl

theorem joined_cons (t : Text) (ts : List Text) :
    joined (t :: ts) = t ++ ts.flatMap fun t => ','.toNat :: t := by
  induction ts generalizing t with
  | nil => simp [joined]
  | cons t' ts ih =>
    rw [List.flatMap_cons, List.cons_append, ← ih]
    simp [joined, List.intercalate]

theorem length_le_later (ts : List Text) :
    ts.length ≤ (ts.flatMap fun t => ','.toNat :: t).length := by
  induction ts with
  | nil => exact le_rfl
  | cons t ts ih =>
    rw [List.flatMap_cons, List.length_append, List.length_cons, List.length_cons]
    omega

theorem sequence_reads {close : ℕ} (closes : Closes close) {ts : List Text} {xs : List α}
    (h : List.Forall₂ (Reads item) ts xs) (rest : Text) :
    sequence item close (joined ts ++ close :: rest) = some (xs, rest) := by
  obtain ⟨space, -, -⟩ := closes.spec
  cases h with
  | nil =>
    rw [show joined [] = [] from rfl, List.nil_append]
    simp only [sequence, skipSpace_cons space, if_pos]
  | @cons t x ts xs first later =>
    obtain ⟨c, hc, hspace, hbracket, hbrace⟩ := first.starts
    have hne : c ≠ close := by
      rcases closes with rfl | rfl
      · exact hbracket
      · exact hbrace
    obtain ⟨s, rfl⟩ : ∃ s, t = c :: s := by
      cases t with
      | nil => cases hc
      | cons d s => exact ⟨s, by cases hc; rfl⟩
    have enough : ts.length < ((ts.flatMap fun t => ','.toNat :: t) ++ close :: rest).length := by
      have length := length_le_later ts
      rw [List.length_append, List.length_cons]
      omega
    have head := first.reads _ (stops_later closes ts rest)
    rw [List.cons_append] at head
    rw [joined_cons, List.append_assoc, List.cons_append]
    simp only [sequence, skipSpace_cons hspace, if_neg hne, head]
    exact congrArg (Option.map (Prod.map (x :: ·) id)) (more_reads closes later enough rest)

theorem entry_reads {key : Text} (h : Reads item s x) :
    Reads (entry item) (quote key ++ ':'.toNat :: s) (key, x) where
  starts := ⟨'"'.toNat, rfl, by decide⟩
  reads rest stops := by
    simp only [quote, entry, List.cons_append, List.append_assoc, List.nil_append, if_pos,
      quoted_escaped, bind, Option.bind, skipSpace_cons (show isSpace ':'.toNat = false by decide),
      h.skipSpace, h.reads rest stops]
    rfl

end Sequences

/-! ## Reading values back -/

theorem stringify_reread (v : Value ν) :
    stringify numbers (reread numbers v) = stringify numbers v := by
  induction v using Value.induction with
  | null => rfl
  | bool b => rfl
  | number x =>
    rw [reread]
    split
    case h_1 t ht => rw [stringify, stringify, numbers.write_read ht, ht]
    case h_2 ht => rw [stringify, stringify, ht, Option.getD_none]
  | string s => rfl
  | array items ih =>
    rw [reread, stringify, stringify, itemTexts_eq_map, itemTexts_eq_map, rereadItems_eq_map,
      List.map_map]
    congr 3
    exact List.map_congr_left ih
  | object entries ih =>
    rw [reread, stringify, stringify, entryTexts_eq_map, entryTexts_eq_map, rereadEntries_eq_map,
      List.map_map]
    congr 3
    refine List.map_congr_left fun e he => ?_
    rw [Function.comp_apply, ih e he]

/-- No object of the value has two entries with one key, or an index out of place. -/
inductive Value.Ordered : Value ν → Prop
  | null : Ordered .null
  | bool (b : Bool) : Ordered (.bool b)
  | number (x : ν) : Ordered (.number x)
  | string (s : Text) : Ordered (.string s)
  | array {items : List (Value ν)} (each : ∀ v ∈ items, Ordered v) : Ordered (.array items)
  | object {entries : List (Text × Value ν)} (order : Entries.Ordered IndexBefore entries)
    (each : ∀ e ∈ entries, Ordered e.2) : Ordered (.object entries)

theorem numberChar_of_isNumber {t : Text} (h : isNumber t = true) :
    ∀ c ∈ t, numberChar c = true := by
  rw [isNumber.eq_def, Bool.and_eq_true] at h
  exact List.all_eq_true.1 h.1

theorem numeral_append {t : Text} (h : isNumber t = true) {rest : Text} (stops : Stops rest) :
    numeral numbers (t ++ rest) = some (.number (numbers.read t), rest) := by
  have all := numberChar_of_isNumber h
  have none : rest.takeWhile numberChar = [] ∧ rest.dropWhile numberChar = rest := by
    cases rest with
    | nil => exact ⟨rfl, rfl⟩
    | cons c rest =>
      have hc : numberChar c = false := stops c rfl
      simp [hc]
  simp only [numeral, List.takeWhile_append_of_pos all, List.dropWhile_append_of_pos all, none.1,
    none.2, List.append_nil, h, if_pos]

/-- A text that starts like a number is none of the three words, and no string or bracket. -/
theorem value_of_numberChar {c : ℕ} (h : numberChar c = true) (depth : ℕ) (rest : Text) :
    value numbers (depth + 1) (c :: rest) = numeral numbers (c :: rest) := by
  have other (d : ℕ) (hd : numberChar d = false) : c ≠ d := by
    rintro rfl
    rw [h] at hd
    cases hd
  have noWord (w : String) (v : Value ν) (hw : ∃ d s, text w = d :: s ∧ numberChar d = false) :
      word (c :: rest) w v = none := by
    obtain ⟨d, s, hs, hd⟩ := hw
    have no : ¬ text w <+: c :: rest := by
      rw [hs, List.cons_prefix_cons]
      exact fun h => other d hd h.1.symm
    exact if_neg no
  rw [value, if_neg (other _ (by decide)), if_neg (other _ (by decide)),
    if_neg (other _ (by decide)), noWord "null" _ ⟨_, _, rfl, by decide⟩,
    noWord "true" _ ⟨_, _, rfl, by decide⟩, noWord "false" _ ⟨_, _, rfl, by decide⟩]
  rfl

theorem number_reads {t : Text} (h : isNumber t = true) (depth : ℕ) :
    Reads (value numbers (depth + 1)) t (.number (numbers.read t)) := by
  obtain ⟨c, s, rfl⟩ : ∃ c s, t = c :: s := by
    cases t with
    | nil => cases h
    | cons c s => exact ⟨c, s, rfl⟩
  have hc := numberChar_of_isNumber h c List.mem_cons_self
  refine ⟨⟨c, rfl, ?_, ?_, ?_⟩, fun rest stops => ?_⟩
  · cases space : isSpace c with
    | false => rfl
    | true =>
      have all : ∀ d ∈ text " \t\n\r", numberChar d = false := by decide
      have := all c (by simpa [isSpace] using space)
      rw [hc] at this
      cases this
  · rintro rfl
    cases hc
  · rintro rfl
    cases hc
  · rw [List.cons_append, value_of_numberChar hc, ← List.cons_append, numeral_append h stops]

theorem word_reads {w : String} {v : Value ν} (depth : ℕ)
    (known : (w, v) ∈ [("null", .null), ("true", .bool true), ("false", .bool false)]) :
    Reads (value numbers (depth + 1)) (text w) v := by
  simp only [List.mem_cons, Prod.mk.injEq, List.not_mem_nil, or_false] at known
  rcases known with ⟨rfl, rfl⟩ | ⟨rfl, rfl⟩ | ⟨rfl, rfl⟩
  · refine ⟨⟨_, rfl, by decide⟩, fun rest _ => ?_⟩
    simp [text, value, word]
  · refine ⟨⟨_, rfl, by decide⟩, fun rest _ => ?_⟩
    simp [text, value, word]
  · refine ⟨⟨_, rfl, by decide⟩, fun rest _ => ?_⟩
    simp [text, value, word]

theorem length_le_joined {t : Text} {ts : List Text} (h : t ∈ ts) :
    t.length ≤ (joined ts).length := by
  cases ts with
  | nil => cases h
  | cons t' ts =>
    rw [joined_cons, List.length_append]
    rcases List.mem_cons.1 h with rfl | h
    · exact Nat.le_add_right _ _
    · have sub : (','.toNat :: t).Sublist (ts.flatMap fun t => ','.toNat :: t) :=
        List.sublist_flatten_of_mem (List.mem_map_of_mem h)
      have length := sub.length_le
      rw [List.length_cons] at length
      omega

theorem stringify_length_pos (v : Value ν) : 0 < (stringify numbers v).length := by
  cases v with
  | null => exact Nat.succ_pos _
  | bool b => cases b <;> exact Nat.succ_pos _
  | number x =>
    rw [stringify]
    cases written : numbers.write x with
    | none => exact Nat.succ_pos _
    | some t =>
      cases t with
      | nil => cases numbers.isNumber_write written
      | cons c t => exact Nat.succ_pos _
  | string s => exact Nat.succ_pos _
  | array items => exact Nat.succ_pos _
  | object entries => exact Nat.succ_pos _

/-- What is written is read as the value with its numbers reread. -/
theorem stringify_reads {v : Value ν} (ordered : v.Ordered) {depth : ℕ}
    (enough : (stringify numbers v).length ≤ depth) :
    Reads (value numbers depth) (stringify numbers v) (reread numbers v) := by
  induction ordered generalizing depth with
  | null =>
    obtain ⟨depth, rfl⟩ := Nat.exists_eq_succ_of_ne_zero (Nat.ne_zero_of_lt enough)
    exact word_reads depth (List.mem_cons_self)
  | bool b =>
    obtain ⟨depth, rfl⟩ := Nat.exists_eq_succ_of_ne_zero
      ((stringify_length_pos (.bool b)).trans_le enough).ne'
    cases b with
    | true => exact word_reads depth (List.mem_cons_of_mem _ List.mem_cons_self)
    | false =>
      exact word_reads depth (List.mem_cons_of_mem _ (List.mem_cons_of_mem _ List.mem_cons_self))
  | number x =>
    obtain ⟨depth, rfl⟩ := Nat.exists_eq_succ_of_ne_zero
      ((stringify_length_pos (.number x)).trans_le enough).ne'
    cases written : numbers.write x with
    | some t =>
      rw [stringify, reread, written]
      exact number_reads (numbers.isNumber_write written) depth
    | none =>
      rw [stringify, reread, written]
      exact word_reads depth List.mem_cons_self
  | string s =>
    obtain ⟨depth, rfl⟩ := Nat.exists_eq_succ_of_ne_zero
      ((stringify_length_pos (.string s)).trans_le enough).ne'
    refine ⟨⟨_, rfl, by decide⟩, fun rest _ => ?_⟩
    rw [stringify, reread, quote, List.cons_append, List.append_assoc, value, if_pos rfl]
    exact congrArg (Option.map (Prod.map Value.string id)) (quoted_escaped s rest)
  | @array items each ih =>
    obtain ⟨depth, rfl⟩ := Nat.exists_eq_succ_of_ne_zero
      ((stringify_length_pos (.array items)).trans_le enough).ne'
    rw [stringify, itemTexts_eq_map, List.length_cons, List.length_append] at enough
    have reads : List.Forall₂ (Reads (value numbers depth)) (items.map (stringify numbers))
        (items.map (reread numbers)) := by
      rw [List.forall₂_map_left_iff, List.forall₂_map_right_iff, List.forall₂_same]
      intro v hv
      have length := length_le_joined (List.mem_map_of_mem (f := stringify numbers) hv)
      exact ih v hv (by omega)
    refine ⟨⟨_, rfl, by decide⟩, fun rest _ => ?_⟩
    rw [stringify, reread, itemTexts_eq_map, rereadItems_eq_map, List.cons_append,
      List.append_assoc, value, if_neg (by decide), if_pos rfl]
    exact congrArg (Option.map (Prod.map Value.array id)) (sequence_reads (.inl rfl) reads rest)
  | @object entries order each ih =>
    obtain ⟨depth, rfl⟩ := Nat.exists_eq_succ_of_ne_zero
      ((stringify_length_pos (.object entries)).trans_le enough).ne'
    rw [stringify, entryTexts_eq_map, List.length_cons, List.length_append] at enough
    have reads : List.Forall₂ (Reads (entry (value numbers depth)))
        (entries.map fun e => quote e.1 ++ ':'.toNat :: stringify numbers e.2)
        (entries.map fun e => (e.1, reread numbers e.2)) := by
      rw [List.forall₂_map_left_iff, List.forall₂_map_right_iff, List.forall₂_same]
      intro e he
      have length := length_le_joined (List.mem_map_of_mem
        (f := fun e : Text × Value ν => quote e.1 ++ ':'.toNat :: stringify numbers e.2) he)
      rw [List.length_append, List.length_cons] at length
      exact entry_reads (ih e he (by omega))
    refine ⟨⟨_, rfl, by decide⟩, fun rest _ => ?_⟩
    rw [stringify, reread, entryTexts_eq_map, rereadEntries_eq_map, List.cons_append,
      List.append_assoc, value, if_neg (by decide), if_neg (by decide), if_pos rfl]
    refine (congrArg (Option.map _) (sequence_reads (.inr rfl) reads rest)).trans ?_
    rw [Option.map_some, Prod.map_apply, Entries.ofList_of_ordered (order.map _)]
    rfl

theorem parse_stringify {v : Value ν} (ordered : v.Ordered) :
    parse numbers (stringify numbers v) = some (reread numbers v) := by
  have reads := stringify_reads ordered (le_refl (stringify numbers v).length)
  have skip := reads.skipSpace []
  have whole := reads.reads [] (by rintro _ ⟨⟩)
  rw [List.append_nil] at skip whole
  simp only [parse, skip, whole]
  rfl

/-! ## What is read -/

/-- All strings of the value, its keys apart, are shorter. -/
inductive Value.Below (n : ℕ) : Value ν → Prop
  | null : Below n .null
  | bool (b : Bool) : Below n (.bool b)
  | number (x : ν) : Below n (.number x)
  | string {s : Text} (length : s.length < n) : Below n (.string s)
  | array {items : List (Value ν)} (each : ∀ v ∈ items, Below n v) : Below n (.array items)
  | object {entries : List (Text × Value ν)} (each : ∀ e ∈ entries, Below n e.2) :
    Below n (.object entries)

theorem Value.Below.mono {m n : ℕ} (hmn : m ≤ n) {v : Value ν} (h : v.Below m) : v.Below n := by
  induction h with
  | null => exact .null
  | bool b => exact .bool b
  | number x => exact .number x
  | string length => exact .string (lt_of_lt_of_le length hmn)
  | array _ ih => exact .array ih
  | object _ ih => exact .object ih

theorem exists_bound {α : Type} {P : ℕ → α → Prop} (mono : ∀ m n x, m ≤ n → P m x → P n x)
    {xs : List α} (h : ∀ x ∈ xs, ∃ n, P n x) : ∃ n, ∀ x ∈ xs, P n x := by
  induction xs with
  | nil => exact ⟨0, fun _ hx => nomatch hx⟩
  | cons x xs ih =>
    obtain ⟨⟨m, hm⟩, hxs⟩ := List.forall_mem_cons.1 h
    obtain ⟨n, hn⟩ := ih hxs
    exact ⟨max m n, List.forall_mem_cons.2 ⟨mono _ _ _ (Nat.le_max_left m n) hm,
      fun y hy => mono _ _ _ (Nat.le_max_right m n) (hn y hy)⟩⟩

theorem Value.exists_below (v : Value ν) : ∃ n, v.Below n := by
  induction v using Value.induction with
  | null => exact ⟨0, .null⟩
  | bool b => exact ⟨0, .bool b⟩
  | number x => exact ⟨0, .number x⟩
  | string s => exact ⟨_, .string (Nat.lt_succ_self s.length)⟩
  | array items ih =>
    obtain ⟨n, hn⟩ := exists_bound (fun _ _ _ hmn h => h.mono hmn) ih
    exact ⟨n, .array hn⟩
  | object entries ih =>
    obtain ⟨n, hn⟩ := exists_bound (fun _ _ _ hmn h => h.mono hmn) ih
    exact ⟨n, .object hn⟩

theorem skipSpace_length_le (s : Text) : (skipSpace s).length ≤ s.length :=
  (List.dropWhile_suffix _).length_le

theorem length_of_unit {s rest : Text} {c : ℕ} (h : unit s = some (c, rest)) :
    rest.length < s.length := by
  unfold unit at h
  split at h
  · cases h
  · split_ifs at h
    · split at h
      · cases h
      · split_ifs at h
        · unfold hexUnit at h
          split at h
          · simp only [bind, Option.bind_eq_some_iff, pure, Option.some.injEq, Prod.mk.injEq] at h
            obtain ⟨_, -, _, -, _, -, _, -, -, rfl⟩ := h
            simp only [List.length_cons]
            omega
          · cases h
        · obtain ⟨_, -, heq⟩ := Option.map_eq_some_iff.1 h
          cases heq
          simp only [List.length_cons]
          omega
    · cases h
      exact Nat.lt_succ_self _

theorem map_fst_eq_some {α β : Type} {read : Option (α × Text)} {f : α → β} {y : β} {rest : Text}
    (h : read.map (Prod.map f id) = some (y, rest)) : ∃ x, read = some (x, rest) ∧ y = f x := by
  obtain ⟨⟨x, rest'⟩, hread, heq⟩ := Option.map_eq_some_iff.1 h
  cases heq
  exact ⟨x, hread, rfl⟩

/-- One is read, and then the others. -/
theorem cons_eq_some {α : Type} (others : Text → Option (List α × Text))
    {first : Option (α × Text)} {xs : List α} {rest : Text}
    (h : (do let (x, later) ← first; (others later).map (Prod.map (x :: ·) id)) =
      some (xs, rest)) :
    ∃ x later xs', first = some (x, later) ∧ others later = some (xs', rest) ∧ xs = x :: xs' := by
  obtain ⟨⟨x, later⟩, hfirst, h⟩ := Option.bind_eq_some_iff.1 h
  obtain ⟨xs', hothers, rfl⟩ := map_fst_eq_some h
  exact ⟨x, later, xs', hfirst, hothers, rfl⟩

theorem length_of_units {fuel : ℕ} {s t rest : Text} (h : units fuel s = some (t, rest)) :
    t.length + rest.length < s.length := by
  induction fuel generalizing s t with
  | zero => cases h
  | succ fuel ih =>
    rw [units] at h
    split_ifs at h with mark
    · cases h
      cases s with
      | nil => cases mark
      | cons c s => simp
    · obtain ⟨c, later, t, hunit, hlater, rfl⟩ := cons_eq_some (units fuel) h
      have first := length_of_unit hunit
      have others := ih hlater
      rw [List.length_cons]
      omega

section Sequences

variable {α : Type} {item item' : Text → Option (α × Text)} {P : ℕ → α → Prop} {close : ℕ}

/-- The reader takes something from each text, and what it makes of it has the property. -/
def Sound (item : Text → Option (α × Text)) (P : ℕ → α → Prop) : Prop :=
  ∀ s x rest, item s = some (x, rest) → rest.length < s.length ∧ P s.length x

theorem more_sound (mono : ∀ m n x, m ≤ n → P m x → P n x) (sound : Sound item P) {fuel : ℕ}
    {s rest : Text} {xs : List α} (h : more item close fuel s = some (xs, rest)) :
    rest.length < s.length ∧ ∀ x ∈ xs, P s.length x := by
  induction fuel generalizing s xs with
  | zero => cases h
  | succ fuel ih =>
    have length := skipSpace_length_le s
    rw [more] at h
    split at h
    · cases h
    · rename_i c tail hs
      rw [hs, List.length_cons] at length
      split_ifs at h
      · cases h
        exact ⟨by omega, fun _ hx => nomatch hx⟩
      · obtain ⟨x, later, xs, hitem, hmore, rfl⟩ := cons_eq_some (more item close fuel) h
        have space := skipSpace_length_le tail
        obtain ⟨hlater, hx⟩ := sound _ _ _ hitem
        obtain ⟨hrest, hxs⟩ := ih hmore
        refine ⟨by omega, List.forall_mem_cons.2 ⟨mono _ _ _ (by omega) hx, ?_⟩⟩
        exact fun y hy => mono _ _ _ (by omega) (hxs y hy)

theorem sequence_sound (mono : ∀ m n x, m ≤ n → P m x → P n x) (sound : Sound item P)
    {s rest : Text} {xs : List α} (h : sequence item close s = some (xs, rest)) :
    rest.length < s.length ∧ ∀ x ∈ xs, P s.length x := by
  have length := skipSpace_length_le s
  rw [sequence] at h
  split at h
  · cases h
  · rename_i c tail hs
    rw [hs] at length
    have longer : tail.length < (c :: tail).length := Nat.lt_succ_self _
    split_ifs at h
    · cases h
      exact ⟨by omega, fun _ hx => nomatch hx⟩
    · obtain ⟨x, later, xs, hitem, hmore, rfl⟩ :=
        cons_eq_some (fun later => more item close later.length later) h
      obtain ⟨hlater, hx⟩ := sound _ _ _ hitem
      obtain ⟨hrest, hxs⟩ := more_sound mono sound hmore
      refine ⟨by omega, List.forall_mem_cons.2 ⟨mono _ _ _ length hx, ?_⟩⟩
      exact fun y hy => mono _ _ _ (by omega) (hxs y hy)

theorem entry_sound (mono : ∀ m n x, m ≤ n → P m x → P n x) (sound : Sound item P) :
    Sound (entry item) fun n e => P n e.2 := by
  intro s e rest h
  unfold entry at h
  split at h
  · cases h
  · split_ifs at h
    simp only [bind, Option.bind_eq_some_iff] at h
    obtain ⟨⟨key, later⟩, hkey, h⟩ := h
    split at h
    · cases h
    · rename_i c' tail hs
      split_ifs at h
      obtain ⟨x, hitem, rfl⟩ := map_fst_eq_some h
      have quotedLength := length_of_units hkey
      have length := skipSpace_length_le later
      have space := skipSpace_length_le tail
      obtain ⟨hrest, hx⟩ := sound _ _ _ hitem
      rw [hs, List.length_cons] at length
      rw [List.length_cons]
      exact ⟨by omega, mono _ _ _ (by omega) hx⟩

end Sequences

theorem word_sound {s rest : Text} {w : String} {v v' : Value ν} (hw : text w ≠ [])
    (h : word s w v = some (v', rest)) : rest.length < s.length ∧ v' = v := by
  unfold word at h
  split_ifs at h with starts
  cases h
  have length := starts.length_le
  have pos := List.length_pos_iff.2 hw
  rw [List.length_drop]
  exact ⟨by omega, rfl⟩

theorem numeral_sound {s rest : Text} {v : Value ν} (h : numeral numbers s = some (v, rest)) :
    rest.length < s.length ∧ ∃ x, v = .number x := by
  simp only [numeral] at h
  split_ifs at h with digits
  cases h
  have pos : (s.takeWhile numberChar).length ≠ 0 := by
    intro hzero
    rw [List.length_eq_zero_iff.1 hzero] at digits
    cases digits
  have length := congrArg List.length (List.takeWhile_append_dropWhile (p := numberChar) (l := s))
  rw [List.length_append] at length
  exact ⟨by omega, _, rfl⟩

theorem value_sound (depth : ℕ) :
    Sound (value numbers depth) fun n v => v.Ordered ∧ v.Below n := by
  have mono (m n : ℕ) (v : Value ν) (hmn : m ≤ n) (h : v.Ordered ∧ v.Below m) :
      v.Ordered ∧ v.Below n := ⟨h.1, h.2.mono hmn⟩
  induction depth with
  | zero =>
    intro s v rest h
    cases h
  | succ depth ih =>
    intro s v rest h
    cases s with
    | nil => cases h
    | cons c s =>
      rw [value] at h
      rw [List.length_cons]
      split_ifs at h
      · obtain ⟨t, hquoted, rfl⟩ := map_fst_eq_some h
        have length := length_of_units hquoted
        exact ⟨by omega, .string t, .string (by omega)⟩
      · obtain ⟨items, hitems, rfl⟩ := map_fst_eq_some h
        obtain ⟨length, each⟩ := sequence_sound mono ih hitems
        exact ⟨by omega, .array fun v hv => (each v hv).1,
          .array fun v hv => (each v hv).2.mono (Nat.le_succ _)⟩
      · obtain ⟨entries, hentries, rfl⟩ := map_fst_eq_some h
        obtain ⟨length, each⟩ := sequence_sound (fun m n e => mono m n e.2)
          (entry_sound mono ih) hentries
        refine ⟨by omega, .object (Entries.ordered_ofList _) fun e he => ?_,
          .object fun e he => ?_⟩
        · exact (each e (Entries.mem_of_mem_ofList he)).1
        · exact (each e (Entries.mem_of_mem_ofList he)).2.mono (Nat.le_succ _)
      · simp only [Option.orElse_eq_orElse, Option.orElse_eq_or, Option.or_eq_some_iff] at h
        rcases h with h | ⟨-, h | ⟨-, h | ⟨-, h⟩⟩⟩
        · obtain ⟨length, rfl⟩ := word_sound (by decide) h
          exact ⟨length, .null, .null⟩
        · obtain ⟨length, rfl⟩ := word_sound (by decide) h
          exact ⟨length, .bool true, .bool true⟩
        · obtain ⟨length, rfl⟩ := word_sound (by decide) h
          exact ⟨length, .bool false, .bool false⟩
        · obtain ⟨length, x, rfl⟩ := numeral_sound h
          exact ⟨length, .number x, .number x⟩

/-! ## The depth is no bound -/

section Sequences

variable {α : Type} {item item' : Text → Option (α × Text)} {n : ℕ}

theorem more_congr (close : ℕ)
    (consumes : ∀ s x rest, item s = some (x, rest) → rest.length < s.length)
    (agree : ∀ s, s.length < n → item s = item' s) {fuel : ℕ} {s : Text} (h : s.length ≤ n) :
    more item close fuel s = more item' close fuel s := by
  induction fuel generalizing s with
  | zero => rfl
  | succ fuel ih =>
    rw [more, more]
    have length := skipSpace_length_le s
    cases hs : skipSpace s with
    | nil => rfl
    | cons c tail =>
      rw [hs, List.length_cons] at length
      have space := skipSpace_length_le tail
      simp only [← agree (skipSpace tail) (by omega)]
      cases hitem : item (skipSpace tail) with
      | none => rfl
      | some read =>
        have later := consumes _ _ _ hitem
        simp only [bind, Option.bind, ih (show read.2.length ≤ n by omega)]

theorem sequence_congr (close : ℕ)
    (consumes : ∀ s x rest, item s = some (x, rest) → rest.length < s.length)
    (agree : ∀ s, s.length ≤ n → item s = item' s) {s : Text} (h : s.length ≤ n) :
    sequence item close s = sequence item' close s := by
  rw [sequence, sequence]
  have length := skipSpace_length_le s
  cases hs : skipSpace s with
  | nil => rfl
  | cons c tail =>
    rw [hs] at length
    simp only [← agree (c :: tail) (by omega)]
    cases hitem : item (c :: tail) with
    | none => rfl
    | some read =>
      have later := consumes _ _ _ hitem
      simp only [bind, Option.bind, more_congr close consumes
        (fun s hs => agree s hs.le) (show read.2.length ≤ n by omega)]

theorem entry_congr (agree : ∀ s, s.length ≤ n → item s = item' s) {s : Text} (h : s.length ≤ n) :
    entry item s = entry item' s := by
  cases s with
  | nil => rfl
  | cons c s =>
    simp only [entry]
    split_ifs
    · cases hkey : quoted s with
      | none => rfl
      | some read =>
        have later := length_of_units hkey
        have length := skipSpace_length_le read.2
        simp only [bind, Option.bind]
        cases hs : skipSpace read.2 with
        | nil => rfl
        | cons c' tail =>
          have space := skipSpace_length_le tail
          rw [hs, List.length_cons] at length
          rw [List.length_cons] at h
          simp only [agree (skipSpace tail) (by omega)]
    · rfl

end Sequences

theorem value_depth {depth depth' : ℕ} {s : Text} (h : s.length ≤ depth) (h' : s.length ≤ depth') :
    value numbers depth s = value numbers depth' s := by
  induction depth generalizing depth' s with
  | zero =>
    rw [List.length_eq_zero_iff.1 (Nat.le_zero.1 h)]
    cases depth' <;> rfl
  | succ depth ih =>
    cases s with
    | nil => cases depth' <;> rfl
    | cons c s =>
      obtain ⟨depth', rfl⟩ := Nat.exists_eq_succ_of_ne_zero
        (Nat.ne_zero_of_lt (lt_of_lt_of_le (Nat.succ_pos s.length) h'))
      have length := Nat.le_of_succ_le_succ h
      have length' := Nat.le_of_succ_le_succ h'
      have agree (t : Text) (ht : t.length ≤ s.length) :
          value numbers depth t = value numbers depth' t := ih (ht.trans length) (ht.trans length')
      have items := sequence_congr ']'.toNat
        (fun t x rest ht => (value_sound depth t x rest ht).1) agree le_rfl
      have entries := sequence_congr '\x7d'.toNat
        (fun t e rest ht => (entry_sound (P := fun n v => v.Ordered ∧ v.Below n)
          (fun m n v hmn hv => ⟨hv.1, hv.2.mono hmn⟩) (value_sound depth) t e rest ht).1)
        (fun t ht => entry_congr agree ht) le_rfl
      rw [value, value, items, entries]

/-- Objects that are read are in order, and strings that are read are shorter than the text. -/
theorem parse_sound {s : Text} {v : Value ν} (h : parse numbers s = some v) :
    v.Ordered ∧ v.Below s.length := by
  simp only [parse, bind, Option.bind_eq_some_iff] at h
  obtain ⟨⟨v', rest⟩, hvalue, h⟩ := h
  split_ifs at h
  cases h
  obtain ⟨-, ordered, below⟩ := value_sound _ _ _ _ hvalue
  exact ⟨ordered, below.mono (skipSpace_length_le s)⟩

end Json
