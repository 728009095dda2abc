import Mathlib.Data.Finset.Dedup
import MobileMoney.Library.Binary64
import MobileMoney.Library.Words

/-!
# Matching names

The scores of `services/sanctionService.ts`. Strings are lists of UTF-16 code units, and what
`toLowerCase` does to them is a parameter. Lengths and sizes are exact, so a quotient of two of
them is rounded once.
-/

namespace MobileMoney.Sanctions

open Binary64

abbrev JsString := List UInt16

/-- `\s`, which is what `trim` takes off, too. -/
def isSpace (c : UInt16) : Bool :=
  9 ≤ c && c ≤ 13 || c = 32 || c = 0xa0 || c = 0x1680 || 0x2000 ≤ c && c ≤ 0x200a ||
    c = 0x2028 || c = 0x2029 || c = 0x202f || c = 0x205f || c = 0x3000 || c = 0xfeff

/-- `\w`. -/
def isWord (c : UInt16) : Bool :=
  48 ≤ c && c ≤ 57 || 65 ≤ c && c ≤ 90 || c = 95 || 97 ≤ c && c ≤ 122

/-! ## Edit distance -/

/-- The cells of a row to the right of `left`, with the row above from its diagonal on. -/
def nextCells (c : UInt16) : JsString → List ℕ → ℕ → List ℕ
  | d :: s2, diagonal :: above :: previous, left =>
    let cell := min (above + 1) (min (left + 1) (diagonal + if c = d then 0 else 1))
    cell :: nextCells c s2 (above :: previous) cell
  | _, _, _ => []

/-- The rows of the table, one for each unit of `s1`. -/
def lastRow (s2 : JsString) : JsString → ℕ → List ℕ → List ℕ
  | [], _, previous => previous
  | c :: s1, i, previous => lastRow s2 s1 (i + 1) (i :: nextCells c s2 previous i)

def levenshteinDistance (s1 s2 : JsString) : ℕ :=
  if s1.length = 0 then s2.length
  else if s2.length = 0 then s1.length
  else if s1 = s2 then 0
  else (lastRow s2 s1 1 (List.range (s2.length + 1))).getLastD 0

def one : Number := Number.ofRat 1

def levenshteinSimilarity (s1 s2 : JsString) : Number :=
  let maxLen := max s1.length s2.length
  if maxLen = 0 then one else one.sub (Number.ofRat (levenshteinDistance s1 s2 / maxLen))

/-! ## Names -/

variable (toLowerCase : JsString → JsString)

def normalizeName (name : JsString) : JsString := Words.trim isSpace (toLowerCase name)

/-- The set of the words that are left of the name. -/
def tokenize (name : JsString) : List JsString :=
  (Words.words isSpace
    ((toLowerCase name).filter fun c => isWord c || isSpace c)).dedup

structure SanctionEntity where
  name : JsString
  country : Option String
  source : String
  category : Option String
  externalId : Option String
  deriving DecidableEq

/-- An entry is made from an entity, with what the search needs of its name. -/
structure CachedSanctionEntry where
  entity : SanctionEntity
  normalizedName : JsString
  tokens : List JsString
  normalized : normalizedName = normalizeName toLowerCase entity.name
  tokenized : tokens = tokenize toLowerCase entity.name

def cachedEntry (entity : SanctionEntity) : CachedSanctionEntry toLowerCase where
  entity
  normalizedName := normalizeName toLowerCase entity.name
  tokens := tokenize toLowerCase entity.name
  normalized := rfl
  tokenized := rfl

/-! ## Scores -/

/-- The intersection over the union of two sets. -/
def jaccardScore (targetTokens tokens : List JsString) : Number :=
  let intersection := targetTokens.filter fun t => t ∈ tokens
  let union := (targetTokens ++ tokens).dedup
  if 0 < union.length then Number.ofRat (intersection.length / union.length) else Number.zero

def best (scores : List Number) : Number :=
  scores.foldl (fun bestScore score => if bestScore.lt score then score else bestScore) Number.zero

def bestTokenScore (targetTokens tokens : List JsString) : Number :=
  best (targetTokens.flatMap fun targetToken => tokens.map (levenshteinSimilarity targetToken))

def compositeScore (levenshteinScore jaccardScore bestTokenScore : Number) : Number :=
  let score := ((levenshteinScore.mul (Number.ofRat (6 / 10))).add
    (jaccardScore.mul (Number.ofRat (25 / 100)))).add
      (bestTokenScore.mul (Number.ofRat (15 / 100)))
  if one.lt score then one else score

variable {toLowerCase} in
def calculateMatchScore (targetName : JsString) (cached : CachedSanctionEntry toLowerCase) :
    Number :=
  let targetTokens := tokenize toLowerCase targetName
  compositeScore (levenshteinSimilarity (normalizeName toLowerCase targetName)
    cached.normalizedName) (jaccardScore targetTokens cached.tokens)
      (bestTokenScore targetTokens cached.tokens)

/-- The default of the search. -/
def threshold : Number := Number.ofRat (85 / 100)

/-! ## Names that differ in case and surrounding spaces only -/

theorem ofRat_zero : Number.ofRat 0 = Number.zero :=
  Number.ofRat_of_isDouble isDouble_zero

@[simp] theorem levenshteinDistance_self (s : JsString) : levenshteinDistance s s = 0 := by
  unfold levenshteinDistance
  by_cases hempty : s.length = 0
  · rw [if_pos hempty]
    exact hempty
  · rw [if_neg hempty, if_neg hempty, if_pos rfl]

theorem levenshteinSimilarity_self (s : JsString) : levenshteinSimilarity s s = one := by
  unfold levenshteinSimilarity
  simp only [levenshteinDistance_self, Nat.cast_zero, zero_div, ofRat_zero, Number.sub_zero,
    ite_self]

theorem isDouble_one : IsDouble 1 := by decide +kernel

theorem one_eq : one = .finite ⟨1, isDouble_one⟩ := Number.ofRat_of_isDouble isDouble_one

/-- A similarity is not above one, though it may be infinite below. -/
def AtMostOne (score : Number) : Prop :=
  score = .infinite true ∨ ∃ x : Double, score = .finite x ∧ x.1 ≤ 1

theorem atMostOne_one_sub {x : ℚ} (hx : 0 ≤ x) : AtMostOne (one.sub (Number.ofRat x)) := by
  rw [one_eq]
  cases hquot : Number.ofRat x with
  | nan =>
    unfold Number.ofRat at hquot
    split_ifs at hquot
  | infinite negative =>
    unfold Number.ofRat at hquot
    split_ifs at hquot
    rw [Number.infinite.injEq, decide_eq_false (not_lt.2 hx)] at hquot
    rw [← hquot]
    exact Or.inl rfl
  | finite y =>
    have hy := Number.ofRat_eq_finite hquot
    have hnonneg : 0 ≤ y.1 := hy ▸ round_nonneg hx
    rw [Number.sub_finite]
    cases hdiff : Number.ofRat (1 - y.1) with
    | nan =>
      unfold Number.ofRat at hdiff
      split_ifs at hdiff
    | infinite negative =>
      unfold Number.ofRat at hdiff
      split_ifs at hdiff with hfinite
      rw [Number.infinite.injEq] at hdiff
      by_cases hneg : 1 - y.1 < 0
      · rw [← hdiff, decide_eq_true hneg]
        exact Or.inl rfl
      · have hhigh := round_le_one (x := 1 - y.1) (by linarith)
        have hlow := round_nonneg (not_lt.1 hneg)
        refine absurd ?_ hfinite
        rw [abs_of_nonneg hlow]
        exact hhigh.trans_lt (one_lt_pow₀ (by norm_num) (by norm_num))
    | finite z =>
      refine Or.inr ⟨z, rfl, ?_⟩
      rw [Number.ofRat_eq_finite hdiff]
      exact round_le_one (by linarith)

theorem levenshteinSimilarity_atMostOne (s1 s2 : JsString) :
    AtMostOne (levenshteinSimilarity s1 s2) := by
  unfold levenshteinSimilarity
  by_cases hempty : max s1.length s2.length = 0
  · simp only [if_pos hempty]
    exact Or.inr ⟨_, one_eq, le_rfl⟩
  · simp only [if_neg hempty]
    exact atMostOne_one_sub (by positivity)

theorem AtMostOne.better {score : Number} (h : AtMostOne score) :
    (if score.lt one then one else score) = one := by
  rw [one_eq]
  rcases h with rfl | ⟨x, rfl, hx⟩
  · rfl
  · rw [Number.lt_finite]
    by_cases hlt : x.1 < 1
    · rw [decide_eq_true hlt, if_pos rfl]
    · rw [decide_eq_false hlt, if_neg Bool.false_ne_true]
      exact congrArg _ (Subtype.ext (le_antisymm hx (not_lt.1 hlt)))

theorem AtMostOne.not_better {score : Number} (h : AtMostOne score) :
    (if one.lt score then score else one) = one := by
  rw [one_eq]
  rcases h with rfl | ⟨x, rfl, hx⟩
  · rfl
  · rw [Number.lt_finite, decide_eq_false (not_lt.2 hx), if_neg Bool.false_ne_true]

/-- The best of the scores is one, if it is among them. -/
theorem best_eq_one {scores : List Number} (atMostOne : ∀ score ∈ scores, AtMostOne score)
    (hone : one ∈ scores) : best scores = one := by
  have fold : ∀ {start : Number}, AtMostOne start → start = one ∨ one ∈ scores →
      scores.foldl (fun bestScore score => if bestScore.lt score then score else bestScore) start =
        one := by
    clear hone
    induction scores with
    | nil =>
      intro start _ hstart
      simpa using hstart
    | cons score scores ih =>
      intro start hstart hone
      obtain ⟨hscore, hscores⟩ := List.forall_mem_cons.1 atMostOne
      refine ih hscores ?_ ?_
      · dsimp only
        split_ifs
        · exact hscore
        · exact hstart
      · rcases hone with rfl | hmem
        · exact Or.inl hscore.not_better
        · rcases List.mem_cons.1 hmem with rfl | hmem
          · exact Or.inl hstart.better
          · exact Or.inr hmem
  exact fold (Or.inr ⟨_, rfl, zero_le_one⟩) (Or.inr hone)

theorem jaccardScore_self {tokens : List JsString} (nodup : tokens.Nodup) (h : tokens ≠ []) :
    jaccardScore tokens tokens = one := by
  have both : (tokens ++ tokens).dedup.length = tokens.length := by
    rw [← List.card_toFinset, List.toFinset_append, Finset.union_idempotent,
      List.toFinset_card_of_nodup nodup]
  have all : tokens.filter (fun t => t ∈ tokens) = tokens :=
    List.filter_eq_self.2 fun t ht => decide_eq_true ht
  have some_ : tokens.length ≠ 0 := fun hlength => h (List.length_eq_zero_iff.1 hlength)
  unfold jaccardScore
  simp only [both, all]
  rw [if_pos (Nat.pos_of_ne_zero some_), div_self (by exact_mod_cast some_)]
  rfl

theorem bestTokenScore_self {tokens : List JsString} (h : tokens ≠ []) :
    bestTokenScore tokens tokens = one := by
  obtain ⟨token, htoken⟩ := List.exists_mem_of_ne_nil tokens h
  apply best_eq_one
  · intro score hscore
    obtain ⟨token', -, hscore⟩ := List.mem_flatMap.1 hscore
    obtain ⟨token'', -, rfl⟩ := List.mem_map.1 hscore
    exact levenshteinSimilarity_atMostOne _ _
  · refine List.mem_flatMap.2 ⟨token, htoken, List.mem_map.2 ⟨token, htoken, ?_⟩⟩
    exact levenshteinSimilarity_self token

theorem tokenize_eq {toLowerCase : JsString → JsString} {name name' : JsString}
    (h : normalizeName toLowerCase name = normalizeName toLowerCase name') :
    tokenize toLowerCase name = tokenize toLowerCase name' := by
  unfold tokenize
  rw [← Words.words_filter_trim, ← Words.words_filter_trim _ (toLowerCase name')]
  unfold normalizeName at h
  rw [h]

section Scores

variable {toLowerCase : JsString → JsString} {name : JsString}
  {cached : CachedSanctionEntry toLowerCase}

theorem tokens_eq (h : cached.normalizedName = normalizeName toLowerCase name) :
    cached.tokens = tokenize toLowerCase name := by
  rw [cached.tokenized]
  apply tokenize_eq
  rw [← cached.normalized, h]

/-- A name with a word meets the threshold of an entry under that name. -/
theorem matches_of_tokens (h : cached.normalizedName = normalizeName toLowerCase name)
    (words : tokenize toLowerCase name ≠ []) :
    threshold.le (calculateMatchScore name cached) = true := by
  unfold calculateMatchScore
  have jaccard : jaccardScore (tokenize toLowerCase name) (tokenize toLowerCase name) = one :=
    jaccardScore_self (List.nodup_dedup _) words
  simp only [h, tokens_eq h, levenshteinSimilarity_self, jaccard, bestTokenScore_self words]
  decide +kernel

/-- Without a word there are only the six tenths of the whole name. -/
theorem not_matches_of_no_tokens (h : cached.normalizedName = normalizeName toLowerCase name)
    (none_ : tokenize toLowerCase name = []) :
    threshold.le (calculateMatchScore name cached) = false := by
  unfold calculateMatchScore
  simp only [h, tokens_eq h, none_, levenshteinSimilarity_self]
  decide +kernel

theorem not_isSpace_of_isWord {c : UInt16} (h : isWord c = true) : isSpace c = false := by
  simp only [isWord, Bool.or_eq_true, Bool.and_eq_true, decide_eq_true_eq,
    UInt16.le_iff_toNat_le, ← UInt16.toNat_inj, UInt16.reduceToNat] at h
  simp only [isSpace, Bool.or_eq_false_iff, Bool.and_eq_false_iff, decide_eq_false_iff_not,
    UInt16.le_iff_toNat_le, ← UInt16.toNat_inj, UInt16.reduceToNat]
  omega

/-- What counts as a word is written in ASCII letters, digits and underscores. -/
theorem tokenize_eq_nil_iff :
    tokenize toLowerCase name = [] ↔ ∀ c ∈ toLowerCase name, isWord c = false := by
  unfold tokenize
  rw [List.dedup_eq_nil, Words.words_eq_nil_iff]
  simp only [List.mem_filter, Bool.or_eq_true]
  constructor
  · intro h c hc
    by_contra hword
    rw [Bool.not_eq_false] at hword
    have hspace := h c ⟨hc, Or.inl hword⟩
    rw [not_isSpace_of_isWord hword] at hspace
    cases hspace
  · rintro h c ⟨hc, hword | hspace⟩
    · rw [h c hc] at hword
      cases hword
    · exact hspace

end Scores

end MobileMoney.Sanctions
