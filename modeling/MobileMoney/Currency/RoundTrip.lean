import Mathlib.Tactic.FieldSimp
import Mathlib.Tactic.Linarith
import Mathlib.Tactic.NormNum
import Mathlib.Tactic.Positivity
import MobileMoney.Currency.Program

/-!
# Reading amounts back

A text of `fallbackFormat` is read back as the rounded amount, unless it has commas and no period,
or the amount was lost between numbers and texts on the way.
-/

namespace MobileMoney.Currency

open Json

/-! ## Grouping -/

theorem groupThousands_of_short {s : Text} (h : s.length ≤ 3) : groupThousands s = s := by
  induction s with
  | nil => rfl
  | cons c rest ih =>
    have hrest : rest.length ≤ 2 := by
      rw [List.length_cons] at h
      omega
    have : ¬ (rest ≠ [] ∧ rest.length % 3 = 0) := by
      rintro ⟨hne, hmod⟩
      have := List.length_pos_of_ne_nil hne
      omega
    rw [groupThousands, if_neg this, ih (by omega)]

theorem groupThousands_append {s t : Text} (hs : s ≠ []) (ht : t.length = 3) :
    groupThousands (s ++ t) = groupThousands s ++ comma :: t := by
  induction s with
  | nil => exact absurd rfl hs
  | cons c rest ih =>
    cases rest with
    | nil =>
      have hne : t ≠ [] := List.ne_nil_of_length_pos (by omega)
      simp [groupThousands, hne, ht, groupThousands_of_short ht.le]
    | cons d rest =>
      have same : ((d :: rest) ++ t).length % 3 = (d :: rest).length % 3 := by
        rw [List.length_append, ht]
        omega
      have step (s : Text) : groupThousands (c :: d :: s) =
          if (d :: s).length % 3 = 0 then c :: comma :: groupThousands (d :: s)
          else c :: groupThousands (d :: s) := by
        rw [groupThousands]
        simp
      rw [List.cons_append, List.cons_append, step, step, ← List.cons_append, same,
        ih (List.cons_ne_nil _ _)]
      split_ifs <;> rfl

theorem filter_groupThousands {s : Text} (h : comma ∉ s) :
    (groupThousands s).filter (· ≠ comma) = s := by
  induction s with
  | nil => rfl
  | cons c rest ih =>
    obtain ⟨hc, hrest⟩ := not_or.1 (List.mem_cons.not.1 h)
    have kept (s : Text) : (c :: s).filter (· ≠ comma) = c :: s.filter (· ≠ comma) :=
      List.filter_cons_of_pos (by simpa using Ne.symm hc)
    rw [groupThousands]
    split_ifs
    · rw [kept, List.filter_cons_of_neg (by simp), ih hrest]
    · rw [kept, ih hrest]

theorem mem_groupThousands {s : Text} {c : ℕ} (h : c ∈ groupThousands s) : c = comma ∨ c ∈ s := by
  induction s with
  | nil => cases h
  | cons d rest ih =>
    rw [groupThousands] at h
    split_ifs at h <;> grind

/-- A longer text ends with a comma and three characters. -/
theorem exists_groupThousands {s : Text} (h : 3 < s.length) :
    ∃ start last, s = start ++ last ∧ start ≠ [] ∧ last.length = 3 ∧
      groupThousands s = groupThousands start ++ comma :: last := by
  have start : s.take (s.length - 3) ≠ [] := by
    rw [← List.length_pos_iff_ne_nil, List.length_take]
    omega
  have last : (s.drop (s.length - 3)).length = 3 := by
    rw [List.length_drop]
    omega
  refine ⟨_, _, (List.take_append_drop _ s).symm, start, last, ?_⟩
  rw [← groupThousands_append start last, List.take_append_drop]

/-! ## Symbols -/

theorem removeFirst_append {pattern : Text} (h : pattern ≠ []) (s : Text) :
    removeFirst pattern (pattern ++ s) = s := by
  obtain ⟨c, rest, rfl⟩ := List.exists_cons_of_ne_nil h
  rw [List.cons_append, removeFirst, ← List.cons_append, if_pos (List.prefix_append _ _),
    List.drop_left]

theorem removeFirst_of_not_mem {pattern s : Text} {c : ℕ} (hc : c ∈ pattern) (hs : c ∉ s) :
    removeFirst pattern s = s := by
  induction s with
  | nil => rfl
  | cons d rest ih =>
    have : ¬ pattern <+: d :: rest := fun h => hs (h.subset hc)
    rw [removeFirst, if_neg this, ih (List.not_mem_of_not_mem_cons hs)]

/-- The characters of the texts of numbers. -/
def isNumberChar (c : ℕ) : Bool := isDigit c || c = comma || c = period || c ∈ text "NaN"

theorem removeKnownSymbol_of_number {s : Text} (h : ∀ c ∈ s, isNumberChar c = true)
    (code : String) : removeKnownSymbol code s = s := by
  have absent {c : ℕ} (hc : isNumberChar c = false) : c ∉ s := fun hmem =>
    Bool.false_ne_true (hc.symm.trans (h c hmem))
  have cedi : '₵'.toNat ∉ s := absent (by decide)
  have naira : '₦'.toNat ∉ s := absent (by decide)
  have dollar : '$'.toNat ∉ s := absent (by decide)
  have franc : 'F'.toNat ∉ s := absent (by decide)
  unfold removeKnownSymbol
  split_ifs
  · rw [afterFirst, if_neg cedi]
  · rw [afterFirst, if_neg naira]
  · exact removeFirst_of_not_mem (by decide) dollar
  · exact removeFirst_of_not_mem (by decide) franc
  · rfl

theorem not_isTrimmed_of_number {c : ℕ} (h : isNumberChar c = true) : isTrimmed c = false := by
  simp only [isNumberChar, Bool.or_eq_true, decide_eq_true_eq] at h
  rcases h with ((h | rfl) | rfl) | h
  · exact Digits.isTrimmed_of_isDigit h
  · decide
  · decide
  · have : ∀ c ∈ text "NaN", isTrimmed c = false := by decide
    exact this c h

/-- Only the letters of a number are removed with the symbol. -/
theorem parse_symbol_append (rule : CurrencyRule) {s : Text} (h : ∀ c ∈ s, isNumberChar c = true) :
    parseFormattedCurrency (rule.symbol ++ s) rule =
      match parseFloat (normalizeSeparators (s.filter fun c => !isLetter c)) with
      | none => .error (text "Could not parse numeric value from: " ++ (rule.symbol ++ s))
      | some parsed => .ok parsed := by
  have kept : ((s.filter fun c => !isLetter c).filter fun c => !isTrimmed c) =
      s.filter fun c => !isLetter c :=
    List.filter_eq_self.2 fun c hc => by
      rw [not_isTrimmed_of_number (h c (List.mem_of_mem_filter hc))]
      rfl
  have nonempty : rule.symbol ++ s ≠ [] := List.append_ne_nil_of_left_ne_nil rule.symbol_ne_nil s
  rw [parseFormattedCurrency, if_neg nonempty, removeFirst_append rule.symbol_ne_nil]
  change (match parseFloat (normalizeSeparators
      (((removeKnownSymbol rule.code s).filter fun c => !isLetter c).filter
        fun c => !isTrimmed c)) with
    | none => _
    | some parsed => _) = _
  rw [removeKnownSymbol_of_number h, kept]

/-! ## Separators -/

theorem lastIndexOf_append {c : ℕ} {t : Text} (h : c ∉ t) (s : Text) :
    lastIndexOf c (s ++ c :: t) = s.length := by
  rw [lastIndexOf, List.reverse_append, List.reverse_cons, List.append_assoc,
    List.idxOf_append_of_notMem (by simpa using h), List.singleton_append, List.idxOf_cons_self]
  simp only [List.length_append, List.length_cons, List.length_reverse]
  omega

theorem keepLast_append {c : ℕ} {t : Text} (h : c ∉ t) (s : Text) :
    keepLast c (s ++ c :: t) = s.filter (· ≠ c) ++ c :: t := by
  rw [keepLast, lastIndexOf_append h, List.take_left, List.drop_left]

theorem replaceFirst_append {c d : ℕ} {s : Text} (h : c ∉ s) (t : Text) :
    replaceFirst c d (s ++ c :: t) = s ++ d :: t := by
  induction s with
  | nil => simp [replaceFirst]
  | cons e rest ih =>
    obtain ⟨he, hrest⟩ := not_or.1 (List.mem_cons.not.1 h)
    rw [List.cons_append, replaceFirst, if_neg (Ne.symm he), ih hrest, List.cons_append]

theorem not_mem_filter_ne (c : ℕ) (s : Text) : c ∉ s.filter (· ≠ c) := by
  simp [List.mem_filter]

theorem normalizeSeparators_of_no_comma {s : Text} (hcomma : comma ∉ s)
    (hperiod : s.count period ≤ 1) : normalizeSeparators s = s := by
  have commas : s.count comma = 0 := List.count_eq_zero.2 hcomma
  have periods : ¬ 1 < s.count period := by omega
  simp [normalizeSeparators, commas, periods]

/-- The last comma of a text without periods is read as a decimal point. -/
theorem normalizeSeparators_of_no_period {s t : Text} (hs : period ∉ s) (ht : period ∉ t)
    (hcomma : comma ∉ t) :
    normalizeSeparators (s ++ comma :: t) = s.filter (· ≠ comma) ++ period :: t := by
  have periods : (s ++ comma :: t).count period = 0 := by
    have : period ≠ comma := by decide
    simp [List.count_eq_zero, hs, ht, this]
  have commas : (s ++ comma :: t).count comma = s.count comma + 1 := by
    simp [List.count_append, List.count_eq_zero.2 hcomma]
  simp only [normalizeSeparators, periods, commas, Nat.succ_pos, and_self, if_true]
  split_ifs with more
  · rw [keepLast_append hcomma, replaceFirst_append (not_mem_filter_ne _ _)]
  · have single : comma ∉ s := List.count_eq_zero.1 (by omega)
    have kept : s.filter (· ≠ comma) = s := List.filter_eq_self.2 fun c hc => by
      simpa using fun h : c = comma => single (h ▸ hc)
    rw [replaceFirst_append single, kept]

/-- Commas before the only period are not decimal points. -/
theorem normalizeSeparators_of_period {a b t : Text} (hcomma : comma ∉ b) (tperiod : period ∉ t)
    (tcomma : comma ∉ t) :
    normalizeSeparators ((a ++ comma :: b) ++ period :: t) =
      (a ++ comma :: b).filter (· ≠ comma) ++ period :: t := by
  have ne : period ≠ comma := by decide
  have after : comma ∉ b ++ period :: t := by simp [hcomma, tcomma, ne.symm]
  have lastComma : lastIndexOf comma ((a ++ comma :: b) ++ period :: t) = a.length := by
    rw [List.append_assoc, List.cons_append, lastIndexOf_append after]
  have lastPeriod := lastIndexOf_append tperiod (a ++ comma :: b)
  have commas : 0 < ((a ++ comma :: b) ++ period :: t).count comma :=
    List.count_pos_iff.2 (by simp)
  have periods : 0 < ((a ++ comma :: b) ++ period :: t).count period :=
    List.count_pos_iff.2 (by simp)
  have order : ¬ (a ++ comma :: b).length < a.length := by simp
  simp only [normalizeSeparators, commas, periods, commas.ne', periods.ne', lastComma, lastPeriod,
    order, and_false, if_false, and_self, if_true]
  rw [List.filter_append, List.filter_cons_of_pos (by simp [ne])]
  congr 2
  exact List.filter_eq_self.2 fun c hc => by simpa using fun h : c = comma => tcomma (h ▸ hc)

/-! ## Digits -/

theorem parseFloat_append {int rest : Text} (hne : int ≠ [])
    (hint : ∀ c ∈ int, isDigit c = true) (hrest : ∀ c ∈ rest.head?, isDigit c = false) :
    parseFloat (int ++ rest) =
      let frac := if rest.head? = some period then rest.tail.takeWhile isDigit else []
      some ((Digits.value (int ++ frac) : ℚ) / 10 ^ frac.length) := by
  obtain ⟨c, int, rfl⟩ := List.exists_cons_of_ne_nil hne
  have hc : isDigit c = true := hint c List.mem_cons_self
  have start : ((c :: int) ++ rest).dropWhile isTrimmed = (c :: int) ++ rest := by
    rw [List.cons_append, List.dropWhile_cons_of_neg (by simp [Digits.isTrimmed_of_isDigit hc])]
  have head : ((c :: int) ++ rest).head? = some c := rfl
  rw [parseFloat]
  simp only [start, head, Digits.head?_ne_of_isDigit hc (d := '-'.toNat) (by decide),
    Digits.head?_ne_of_isDigit hc (d := '+'.toNat) (by decide), or_self, if_false,
    Digits.takeWhile_digits hint hrest, Digits.dropWhile_digits hint hrest, reduceCtorEq,
    false_and, one_mul]

theorem parseFloat_digits {int : Text} (hne : int ≠ []) (hint : ∀ c ∈ int, isDigit c = true) :
    parseFloat int = some (Digits.value int : ℚ) := by
  have := @parseFloat_append int [] hne hint (by simp)
  simpa using this

theorem parseFloat_point {int frac : Text} (hne : int ≠ []) (hint : ∀ c ∈ int, isDigit c = true)
    (hfrac : ∀ c ∈ frac, isDigit c = true) :
    parseFloat (int ++ period :: frac) =
      some ((Digits.value (int ++ frac) : ℚ) / 10 ^ frac.length) := by
  have point : ∀ c ∈ (period :: frac).head?, isDigit c = false := by
    rintro c ⟨⟩
    decide
  have digits : frac.takeWhile isDigit = frac := by
    simpa using @Digits.takeWhile_digits frac [] hfrac (by simp)
  rw [parseFloat_append hne hint point]
  simp only [List.head?_cons, if_true, List.tail_cons, digits]

/-! ## Numbers -/

/-- A number of digits after the period, in which all digits make up a whole number. -/
def numberText (useGrouping : Bool) (decimals n : ℕ) : Text :=
  (if useGrouping then groupThousands (Digits.decimal (n / 10 ^ decimals))
    else Digits.decimal (n / 10 ^ decimals)) ++
    if decimals = 0 then [] else period :: Digits.padded decimals n

theorem comma_not_mem_of_digits {s : Text} (h : ∀ c ∈ s, isDigit c = true) : comma ∉ s :=
  fun hmem => absurd (h _ hmem) (by decide)

theorem period_not_mem_of_digits {s : Text} (h : ∀ c ∈ s, isDigit c = true) : period ∉ s :=
  fun hmem => absurd (h _ hmem) (by decide)

theorem mem_numberText {useGrouping : Bool} {decimals n c : ℕ}
    (h : c ∈ numberText useGrouping decimals n) : isDigit c = true ∨ c = comma ∨ c = period := by
  rcases List.mem_append.1 h with h | h
  · cases useGrouping with
    | false => exact .inl (Digits.isDigit_of_mem_decimal h)
    | true =>
      rcases mem_groupThousands h with rfl | h
      · exact .inr (.inl rfl)
      · exact .inl (Digits.isDigit_of_mem_decimal h)
  · split_ifs at h
    · cases h
    · rcases List.mem_cons.1 h with rfl | h
      · exact .inr (.inr rfl)
      · exact .inl (Digits.isDigit_of_mem_padded h)

theorem parseFloat_whole (n : ℕ) : parseFloat (Digits.decimal n) = some (n : ℚ) := by
  rw [parseFloat_digits (Digits.decimal_ne_nil n) fun _ => Digits.isDigit_of_mem_decimal,
    Digits.value_decimal]

theorem parseFloat_places (decimals n : ℕ) :
    parseFloat (Digits.decimal (n / 10 ^ decimals) ++ period :: Digits.padded decimals n) =
      some ((n : ℚ) / 10 ^ decimals) := by
  have value : n / 10 ^ decimals * 10 ^ decimals + n % 10 ^ decimals = n := by
    rw [Nat.mul_comm]
    exact Nat.div_add_mod n _
  rw [parseFloat_point (Digits.decimal_ne_nil _) (fun _ => Digits.isDigit_of_mem_decimal)
    fun _ => Digits.isDigit_of_mem_padded, Digits.value_append, Digits.value_decimal,
    Digits.length_padded, Digits.value_padded, value]

theorem parse_ungrouped (decimals n : ℕ) :
    parseFloat (normalizeSeparators (numberText false decimals n)) =
      some ((n : ℚ) / 10 ^ decimals) := by
  have int : ∀ c ∈ Digits.decimal (n / 10 ^ decimals), isDigit c = true :=
    fun _ => Digits.isDigit_of_mem_decimal
  have frac : ∀ c ∈ Digits.padded decimals n, isDigit c = true :=
    fun _ => Digits.isDigit_of_mem_padded
  have point : comma ≠ period := by decide
  unfold numberText
  by_cases hd : decimals = 0
  · subst hd
    have noPeriod : (Digits.decimal n).count period = 0 :=
      List.count_eq_zero.2 (period_not_mem_of_digits fun _ => Digits.isDigit_of_mem_decimal)
    rw [normalizeSeparators_of_no_comma]
    · simpa using parseFloat_whole n
    · simpa using comma_not_mem_of_digits int
    · simp [noPeriod]
  · simp only [hd, if_false, Bool.false_eq_true]
    rw [normalizeSeparators_of_no_comma, parseFloat_places]
    · simp [comma_not_mem_of_digits int, comma_not_mem_of_digits frac, point]
    · simp [List.count_append, List.count_eq_zero.2 (period_not_mem_of_digits int),
        List.count_eq_zero.2 (period_not_mem_of_digits frac)]

/-- Without decimals the last group is read as decimals. -/
theorem parse_grouped_whole {n : ℕ} (h : 1000 ≤ n) :
    parseFloat (normalizeSeparators (numberText true 0 n)) = some ((n : ℚ) / 1000) := by
  have digits : ∀ c ∈ Digits.decimal n, isDigit c = true := fun _ => Digits.isDigit_of_mem_decimal
  have long : 3 < (Digits.decimal n).length := by
    by_contra short
    have := (Digits.length_decimal_le_iff (by omega)).1 (not_lt.1 short)
    omega
  obtain ⟨start, last, split, hstart, hlast, grouped⟩ := exists_groupThousands long
  rw [split] at digits
  have startDigits : ∀ c ∈ start, isDigit c = true :=
    fun c hc => digits c (List.mem_append_left _ hc)
  have lastDigits : ∀ c ∈ last, isDigit c = true :=
    fun c hc => digits c (List.mem_append_right _ hc)
  have noPeriod : period ∉ groupThousands start := fun hmem =>
    (mem_groupThousands hmem).elim (by decide) (period_not_mem_of_digits startDigits)
  have number : numberText true 0 n = groupThousands start ++ comma :: last := by
    simp [numberText, grouped]
  rw [number, normalizeSeparators_of_no_period noPeriod (period_not_mem_of_digits lastDigits)
    (comma_not_mem_of_digits lastDigits),
    filter_groupThousands (comma_not_mem_of_digits startDigits),
    parseFloat_point hstart startDigits lastDigits, ← split, Digits.value_decimal, hlast]
  norm_num

theorem parse_grouped_places {decimals : ℕ} (hd : decimals ≠ 0) (n : ℕ) :
    parseFloat (normalizeSeparators (numberText true decimals n)) =
      some ((n : ℚ) / 10 ^ decimals) := by
  have frac : ∀ c ∈ Digits.padded decimals n, isDigit c = true :=
    fun _ => Digits.isDigit_of_mem_padded
  have int : ∀ c ∈ Digits.decimal (n / 10 ^ decimals), isDigit c = true :=
    fun _ => Digits.isDigit_of_mem_decimal
  by_cases long : 3 < (Digits.decimal (n / 10 ^ decimals)).length
  · obtain ⟨start, last, split, -, -, grouped⟩ := exists_groupThousands long
    have lastDigits : ∀ c ∈ last, isDigit c = true :=
      fun c hc => int c (split ▸ List.mem_append_right _ hc)
    have number : numberText true decimals n =
        (groupThousands start ++ comma :: last) ++ period :: Digits.padded decimals n := by
      simp [numberText, grouped, hd]
    rw [number, normalizeSeparators_of_period (comma_not_mem_of_digits lastDigits)
      (period_not_mem_of_digits frac) (comma_not_mem_of_digits frac), ← grouped,
      filter_groupThousands (comma_not_mem_of_digits int), parseFloat_places]
  · have same : numberText true decimals n = numberText false decimals n := by
      simp [numberText, groupThousands_of_short (not_lt.1 long)]
    rw [same, parse_ungrouped]

theorem parse_numberText (rule : CurrencyRule) (useGrouping : Bool) (decimals n : ℕ) :
    parseFormattedCurrency (rule.symbol ++ numberText useGrouping decimals n) rule =
      .ok (if decimals = 0 ∧ useGrouping ∧ 1000 ≤ n then (n : ℚ) / 1000
        else (n : ℚ) / 10 ^ decimals) := by
  have chars : ∀ c ∈ numberText useGrouping decimals n, isNumberChar c = true := fun c hc => by
    rcases mem_numberText hc with h | rfl | rfl
    · simp [isNumberChar, h]
    · decide
    · decide
  have noLetters : (numberText useGrouping decimals n).filter (fun c => !isLetter c) =
      numberText useGrouping decimals n :=
    List.filter_eq_self.2 fun c hc => by
      rcases mem_numberText hc with h | rfl | rfl
      · have : ∀ d ≤ 57, 48 ≤ d → (!isLetter d) = true := by decide
        exact this c (Digits.isDigit_iff.1 h).2 (Digits.isDigit_iff.1 h).1
      · decide
      · decide
  rw [parse_symbol_append rule chars, noLetters]
  cases useGrouping with
  | false => simp [parse_ungrouped]
  | true =>
    by_cases hd : decimals = 0
    · subst hd
      by_cases hn : 1000 ≤ n
      · simp [parse_grouped_whole hn, hn]
      · have same : numberText true 0 n = numberText false 0 n := by
          have := (Digits.length_decimal_le_iff (n := n) (k := 3) (by omega)).2 (by omega)
          simp [numberText, groupThousands_of_short this]
        simp [same, parse_ungrouped, hn]
    · simp [parse_grouped_places hd, hd]

/-! ## Rounded amounts -/

/-- The digits of a rounded amount, as a whole number. -/
def unitsOf (mode : RoundingMode) (decimals : ℕ) (amount : ℚ) : ℕ :=
  (mode.apply (amount * 10 ^ decimals)).toNat

/-- The amount rounded to a number of fraction digits. -/
def roundTo (mode : RoundingMode) (decimals : ℕ) (amount : ℚ) : ℚ :=
  mode.apply (amount * 10 ^ decimals) / 10 ^ decimals

theorem RoundingMode.apply_nonneg (mode : RoundingMode) {x : ℚ} (h : 0 ≤ x) : 0 ≤ mode.apply x := by
  cases mode with
  | round => exact Int.floor_nonneg.2 (by positivity)
  | floor => exact Int.floor_nonneg.2 h
  | ceil => exact Int.ceil_nonneg h

/-- Rounding moves a number by less than one. -/
theorem RoundingMode.abs_sub_apply_lt (mode : RoundingMode) (x : ℚ) : |x - mode.apply x| < 1 := by
  rw [abs_lt]
  cases mode with
  | round =>
    have := Int.floor_le (x + 1 / 2)
    have := Int.lt_floor_add_one (x + 1 / 2)
    constructor <;> simp only [RoundingMode.apply] <;> linarith
  | floor =>
    have := Int.floor_le x
    have := Int.lt_floor_add_one x
    constructor <;> simp only [RoundingMode.apply] <;> linarith
  | ceil =>
    have := Int.le_ceil x
    have := Int.ceil_lt_add_one x
    constructor <;> simp only [RoundingMode.apply] <;> linarith

theorem withExponent_int {n : ℤ} (h : 0 ≤ n) (exponent : ℤ) :
    withExponent n exponent = if n < 10 ^ 21 then some ((n : ℚ) * 10 ^ exponent) else none := by
  have abs : |(n : ℚ)| = n := abs_of_nonneg (by exact_mod_cast h)
  have readable : ((n : ℚ) = 0 ∨ 1 / 10 ^ 6 ≤ |(n : ℚ)| ∧ |(n : ℚ)| < 10 ^ 21) ↔ n < 10 ^ 21 := by
    rw [abs]
    constructor
    · rintro (hn | ⟨-, hn⟩)
      · rw [Int.cast_eq_zero.1 hn]
        norm_num
      · exact_mod_cast hn
    · intro hn
      by_cases zero : n = 0
      · exact .inl (by exact_mod_cast zero)
      · have : (1 : ℚ) ≤ n := by exact_mod_cast (by omega : 1 ≤ n)
        exact .inr ⟨by linarith, by exact_mod_cast hn⟩
  simp only [withExponent, readable]

theorem withExponent_amount {amount : ℚ} (h : 0 ≤ amount) (hmax : amount ≤ maxSafeAmount)
    (exponent : ℤ) : withExponent amount exponent =
      if amount = 0 ∨ 1 / 10 ^ 6 ≤ amount then some (amount * 10 ^ exponent) else none := by
  have small : amount < 10 ^ 21 := lt_of_le_of_lt hmax (by norm_num [maxSafeAmount])
  simp only [withExponent, abs_of_nonneg h, small, and_true]

/-- The amount is still a number when it is rounded. -/
def RoundsToNumber (mode : RoundingMode) (decimals : ℕ) (amount : ℚ) : Prop :=
  0 < decimals →
    (amount = 0 ∨ 1 / 10 ^ 6 ≤ amount) ∧ mode.apply (amount * 10 ^ decimals) < 10 ^ 21

instance (mode : RoundingMode) (decimals : ℕ) (amount : ℚ) :
    Decidable (RoundsToNumber mode decimals amount) :=
  inferInstanceAs (Decidable (_ → _))

section Rounded

variable {amount : ℚ} (h : 0 ≤ amount) (mode : RoundingMode) (decimals : ℕ)
include h

theorem cast_unitsOf : ((unitsOf mode decimals amount : ℕ) : ℚ) =
    mode.apply (amount * 10 ^ decimals) := by
  have := Int.toNat_of_nonneg (mode.apply_nonneg (x := amount * 10 ^ decimals) (by positivity))
  rw [unitsOf, ← Int.cast_natCast, this]

theorem roundTo_eq : roundTo mode decimals amount =
    (unitsOf mode decimals amount : ℚ) / 10 ^ decimals := by
  rw [roundTo, cast_unitsOf h]

theorem applyRounding_eq (hmax : amount ≤ maxSafeAmount) :
    applyRounding amount decimals mode =
      if RoundsToNumber mode decimals amount then some (roundTo mode decimals amount)
      else none := by
  by_cases hd : decimals = 0
  · subst hd
    simp [applyRounding, RoundsToNumber, roundTo]
  · have nonneg : 0 ≤ mode.apply (amount * 10 ^ decimals) := mode.apply_nonneg (by positivity)
    rw [applyRounding, if_neg hd, withExponent_amount h hmax]
    simp only [RoundsToNumber, Nat.pos_of_ne_zero hd, forall_const]
    by_cases small : amount = 0 ∨ 1 / 10 ^ 6 ≤ amount
    · simp only [small, if_true, true_and, zpow_natCast, Option.bind_eq_bind, Option.bind_some,
        withExponent_int nonneg, zpow_neg, roundTo]
      rfl
    · simp only [small, if_false, false_and, Option.bind_eq_bind, Option.bind_none]

end Rounded

/-! ## Formatted amounts -/

theorem toFixed_of_units {decimals : ℕ} (hd : decimals ≤ 100) (n : ℕ) :
    toFixed (some ((n : ℚ) / 10 ^ decimals)) decimals = .ok (numberText false decimals n) := by
  have units : ⌊(n : ℚ) / 10 ^ decimals * 10 ^ decimals + 1 / 2⌋.toNat = n := by
    have floor : ⌊(n : ℚ) + 1 / 2⌋ = n := Int.floor_eq_iff.2 ⟨by simp, by norm_num⟩
    rw [div_mul_cancel₀ _ (by positivity), floor, Int.toNat_natCast]
  rw [toFixed, if_neg (by omega)]
  simp only [units]
  rfl

theorem splitOn_numberText (decimals n : ℕ) :
    (numberText false decimals n).splitOn period =
      Digits.decimal (n / 10 ^ decimals) ::
        if decimals = 0 then [] else [Digits.padded decimals n] := by
  have int : period ∉ Digits.decimal (n / 10 ^ decimals) :=
    period_not_mem_of_digits fun _ => Digits.isDigit_of_mem_decimal
  have frac : period ∉ Digits.padded decimals n :=
    period_not_mem_of_digits fun _ => Digits.isDigit_of_mem_padded
  by_cases hd : decimals = 0
  · simp only [numberText, hd, if_true, Bool.false_eq_true, if_false, List.append_nil]
    rw [hd] at int
    exact List.splitOn_eq_singleton int
  · simp only [numberText, hd, Bool.false_eq_true, if_false]
    rw [List.splitOn_append_cons_self_of_not_mem int, List.splitOn_eq_singleton frac]

/-- What the options and the rule ask for. -/
def FormatOptions.grouping (options : FormatOptions) (rule : CurrencyRule) : Bool :=
  options.useGrouping.getD rule.useGrouping

def FormatOptions.mode (options : FormatOptions) (rule : CurrencyRule) : RoundingMode :=
  options.roundingMode.getD rule.roundingMode

theorem fallbackFormat_of_units {amount : ℚ} {rule : CurrencyRule} {options : FormatOptions}
    {n : ℕ} (hd : options.decimals rule ≤ 100)
    (h : applyRounding amount (options.decimals rule) (options.mode rule) =
      some ((n : ℚ) / 10 ^ options.decimals rule)) :
    fallbackFormat amount rule options =
      .ok (rule.symbol ++ numberText (options.grouping rule) (options.decimals rule) n) := by
  unfold FormatOptions.mode at h
  have grouping : options.useGrouping.getD rule.useGrouping = options.grouping rule := rfl
  rw [fallbackFormat]
  simp only [h, toFixed_of_units hd, bind, Except.bind, pure, Except.pure, splitOn_numberText]
  rw [grouping]
  cases options.grouping rule with
  | false => rfl
  | true => by_cases whole : options.decimals rule = 0 <;> simp [numberText, whole]

theorem fallbackFormat_of_not_number {amount : ℚ} {rule : CurrencyRule} {options : FormatOptions}
    (hd : options.decimals rule ≤ 100)
    (h : applyRounding amount (options.decimals rule) (options.mode rule) = none) :
    fallbackFormat amount rule options = .ok (rule.symbol ++ text "NaN") := by
  unfold FormatOptions.mode at h
  have fixed : toFixed none (options.decimals rule) = .ok (text "NaN") := by
    rw [toFixed, if_neg (by omega)]
  have parts : (text "NaN").splitOn period = [text "NaN"] := by decide
  have grouped : groupThousands (text "NaN") = text "NaN" := by decide
  rw [fallbackFormat]
  simp only [h, fixed, bind, Except.bind, parts]
  split_ifs
  · exact congrArg (fun s => Except.ok (rule.symbol ++ s)) grouped
  · rfl

theorem parse_not_number (rule : CurrencyRule) :
    parseFormattedCurrency (rule.symbol ++ text "NaN") rule =
      .error (text "Could not parse numeric value from: " ++ (rule.symbol ++ text "NaN")) := by
  have unreadable : parseFloat (normalizeSeparators
      ((text "NaN").filter fun c => !isLetter c)) = none := by decide
  rw [parse_symbol_append rule (by decide), unreadable]

theorem validateAmount_eq_ok_iff {amount sanitized : ℚ} :
    validateAmount amount = .ok sanitized ↔
      sanitized = amount ∧ 0 ≤ amount ∧ amount ≤ maxSafeAmount := by
  unfold validateAmount
  split_ifs with negative large
  · simp [negative]
  · simp [large]
  · simp [not_lt.1 negative, not_lt.1 large, eq_comm]

theorem decimals_le_of_fallbackFormat {amount : ℚ} {rule : CurrencyRule} {options : FormatOptions}
    {formatted : Text} (h : fallbackFormat amount rule options = .ok formatted) :
    options.decimals rule ≤ 100 := by
  by_contra large
  have refused (x : Option ℚ) : toFixed x (options.decimals rule) =
      .error (text "toFixed() digits argument must be between 0 and 100") := by
    unfold toFixed
    rw [if_pos (not_le.1 large)]
  rw [fallbackFormat, refused] at h
  cases h

section Formatted

variable {rule : CurrencyRule} {options : FormatOptions} {amount : ℚ} {formatted : Text}

/-- What is read from the text of an amount. -/
theorem parse_fallbackFormat (h : 0 ≤ amount) (hmax : amount ≤ maxSafeAmount)
    (hformat : fallbackFormat amount rule options = .ok formatted) :
    parseFormattedCurrency formatted rule =
      if RoundsToNumber (options.mode rule) (options.decimals rule) amount then
        .ok (if options.decimals rule = 0 ∧ options.grouping rule = true ∧
            1000 ≤ (options.mode rule).apply amount
          then (options.mode rule).apply amount / 1000
          else roundTo (options.mode rule) (options.decimals rule) amount)
      else .error (text "Could not parse numeric value from: " ++ formatted) := by
  have hd := decimals_le_of_fallbackFormat hformat
  have rounded := applyRounding_eq h (options.mode rule) (options.decimals rule) hmax
  by_cases number : RoundsToNumber (options.mode rule) (options.decimals rule) amount
  · rw [if_pos number, roundTo_eq h] at rounded
    rw [fallbackFormat_of_units hd rounded] at hformat
    cases hformat
    rw [parse_numberText, if_pos number, roundTo_eq h]
    by_cases whole : options.decimals rule = 0
    · have units := cast_unitsOf h (options.mode rule) 0
      rw [pow_zero, mul_one] at units
      have large : 1000 ≤ unitsOf (options.mode rule) 0 amount ↔
          1000 ≤ (options.mode rule).apply amount := by
        rw [← Int.cast_le (R := ℚ), ← Nat.cast_le (α := ℚ), units]
        norm_num
      simp only [whole, large, units]
    · simp only [whole, false_and, if_false]
  · rw [if_neg number] at rounded
    rw [fallbackFormat_of_not_number hd rounded] at hformat
    cases hformat
    rw [parse_not_number, if_neg number]

end Formatted

/-! ## Round trips -/

/-- The amount is still a number when it is rounded, and groups are not taken for decimals. -/
def ReadsBack (mode : RoundingMode) (decimals : ℕ) (useGrouping : Bool) (amount : ℚ) : Prop :=
  RoundsToNumber mode decimals amount ∧
    (decimals = 0 → useGrouping = true → mode.apply amount < 1000)

instance (mode : RoundingMode) (decimals : ℕ) (useGrouping : Bool) (amount : ℚ) :
    Decidable (ReadsBack mode decimals useGrouping amount) :=
  inferInstanceAs (Decidable (_ ∧ _))

theorem preserved_iff (write : ℚ → Text)
    (format : ℚ → CurrencyRule → FormatOptions → Except Text Text) (amount : ℚ)
    (rule : CurrencyRule) (options : FormatOptions) :
    (validatePrecisionPreservation write format amount rule options).preserved = true ↔
      ∃ sanitized formatted parsed, validateAmount amount = .ok sanitized ∧
        format sanitized rule options = .ok formatted ∧
        parseFormattedCurrency formatted rule = .ok parsed ∧
        |sanitized - parsed| ≤ 1 / 10 ^ rule.minorUnits / 2 := by
  unfold validatePrecisionPreservation
  cases validateAmount amount with
  | error e => simp [PrecisionValidationResult.failed]
  | ok sanitized =>
    cases hformat : format sanitized rule options with
    | error e => simp [PrecisionValidationResult.failed, hformat, bind, Except.bind]
    | ok formatted =>
      cases hparse : parseFormattedCurrency formatted rule with
      | error e => simp [PrecisionValidationResult.failed, hformat, hparse, bind, Except.bind]
      | ok parsed => simp [hformat, hparse, bind, Except.bind, pure, Except.pure]

/-- Decimals made of the last group are far from the amount. -/
theorem not_close_of_thousandth (mode : RoundingMode) {amount : ℚ} (minorUnits : ℕ)
    (large : 1000 ≤ mode.apply amount) :
    ¬ |amount - mode.apply amount / 1000| ≤ 1 / 10 ^ minorUnits / 2 := by
  have near := (abs_lt.1 (mode.abs_sub_apply_lt amount)).1
  have large : (1000 : ℚ) ≤ mode.apply amount := by exact_mod_cast large
  have tolerance : (1 : ℚ) / 10 ^ minorUnits ≤ 1 :=
    div_le_one_of_le₀ (one_le_pow₀ (by norm_num)) (by positivity)
  intro close
  have := (abs_le.1 close).2
  linarith

/-- The text of an amount is read back as the rounded amount, and no loss is reported if the
amount was not rounded by more than half of a minor unit, exactly if the amount stays a number and
no group is taken for decimals. -/
theorem currency_text_round_trip_iff (write : ℚ → Text) {rule : CurrencyRule}
    {options : FormatOptions} {amount : ℚ} {formatted : Text}
    (hamount : validateAmount amount = .ok amount)
    (hformat : fallbackFormat amount rule options = .ok formatted) :
    let decimals := options.decimals rule
    let mode := options.mode rule
    let rounded := roundTo mode decimals amount
    let readsBack := ReadsBack mode decimals (options.grouping rule) amount
    (parseFormattedCurrency formatted rule = .ok rounded ↔ readsBack) ∧
      ((validatePrecisionPreservation write fallbackFormat amount rule options).preserved = true ↔
        readsBack ∧ |amount - rounded| ≤ 1 / 10 ^ rule.minorUnits / 2) := by
  intro decimals mode rounded readsBack
  obtain ⟨-, nonneg, small⟩ := validateAmount_eq_ok_iff.1 hamount
  have parsed := parse_fallbackFormat nonneg small hformat
  have preserved :
      (∃ sanitized text x, validateAmount amount = .ok sanitized ∧
        fallbackFormat sanitized rule options = .ok text ∧
        parseFormattedCurrency text rule = .ok x ∧
        |sanitized - x| ≤ 1 / 10 ^ rule.minorUnits / 2) ↔
      ∃ x, parseFormattedCurrency formatted rule = .ok x ∧
        |amount - x| ≤ 1 / 10 ^ rule.minorUnits / 2 := by
    simp [hamount, hformat]
  rw [preserved_iff, preserved]
  by_cases number : RoundsToNumber mode decimals amount
  · rw [if_pos number] at parsed
    by_cases taken : decimals = 0 ∧ options.grouping rule = true ∧ 1000 ≤ mode.apply amount
    · obtain ⟨zero, grouped, large⟩ := taken
      have taken : ¬ readsBack := fun h => absurd (h.2 zero grouped) (not_lt.2 large)
      have differs : (mode.apply amount : ℚ) / 1000 ≠ rounded := by
        have : rounded = mode.apply amount := by simp [rounded, zero, roundTo]
        have large : (1000 : ℚ) ≤ mode.apply amount := by exact_mod_cast large
        rw [this]
        intro same
        linarith
      have far := not_close_of_thousandth mode rule.minorUnits large
      rw [if_pos ⟨zero, grouped, large⟩] at parsed
      simp only [parsed, Except.ok.injEq, taken, false_and, exists_eq_left']
      exact ⟨iff_of_false differs id, iff_of_false far id⟩
    · have readsBack : readsBack :=
        ⟨number, fun zero grouped => not_le.1 fun large => taken ⟨zero, grouped, large⟩⟩
      rw [if_neg taken] at parsed
      simp [parsed, readsBack, rounded, mode, decimals]
  · rw [if_neg number] at parsed
    have : ¬ readsBack := fun h => number h.1
    simp [parsed, this]

theorem cents_read_back :
    parseFormattedCurrency (text "$1,234.56") USD = .ok (roundTo .round 2 (30864 / 25)) ∧
      (validatePrecisionPreservation (fun _ => []) fallbackFormat (30864 / 25) USD
        ⟨none, none, none, none⟩).preserved = true :=
  have trip := @currency_text_round_trip_iff (fun _ => []) USD ⟨none, none, none, none⟩ (30864 / 25)
    (text "$1,234.56") (by decide +kernel) (by decide +kernel)
  ⟨trip.1.2 (by decide +kernel), trip.2.2 (by decide +kernel)⟩

/-- Francs from a thousand on are read as thousandths, and a loss is reported. -/
theorem francs_read_as_thousandths :
    validateAmount 1234 = .ok 1234 ∧
      fallbackFormat 1234 XAF ⟨none, none, none, none⟩ = .ok (text "FCFA1,234") ∧
      roundTo .round 0 1234 = 1234 ∧
      parseFormattedCurrency (text "FCFA1,234") XAF = .ok (1234 / 1000) ∧
      (validatePrecisionPreservation (fun _ => []) fallbackFormat 1234 XAF
        ⟨none, none, none, none⟩).preserved = false := by
  decide +kernel

end MobileMoney.Currency
