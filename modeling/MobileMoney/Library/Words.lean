import Mathlib.Data.List.DropRight
import Mathlib.Tactic.Common

/-!
# Words between separators

The words of a text are its maximal runs without separators. Separators at either end of a text,
which trimming takes off, are not seen in its words.
-/

namespace Words

variable {α : Type*} (p : α → Bool)

/-- The words of a text after the letters of a word that has begun. -/
@[grind =] def wordsFrom (word : List α) : List α → List (List α)
  | [] => if word.isEmpty then [] else [word]
  | c :: text =>
    if p c then if word.isEmpty then wordsFrom [] text else word :: wordsFrom [] text
    else wordsFrom (word ++ [c]) text

def words (text : List α) : List (List α) := wordsFrom p [] text

def trim (text : List α) : List α := (text.dropWhile p).rdropWhile p

variable {p}

theorem words_append_left {before : List α} (h : ∀ c ∈ before, p c) (text : List α) :
    words p (before ++ text) = words p text := by
  unfold words
  induction before with
  | nil => rfl
  | cons c before ih => grind [wordsFrom]

theorem wordsFrom_separators {word after : List α} (h : ∀ c ∈ after, p c) :
    wordsFrom p word after = wordsFrom p word [] := by
  induction after generalizing word with
  | nil => rfl
  | cons c after ih => grind [wordsFrom]

theorem words_append_right {after : List α} (h : ∀ c ∈ after, p c) (text : List α) :
    words p (text ++ after) = words p text := by
  unfold words
  generalize ([] : List α) = word
  induction text generalizing word with
  | nil => exact wordsFrom_separators h
  | cons c text ih => grind [wordsFrom]

theorem wordsFrom_eq_nil_iff (word text : List α) :
    wordsFrom p word text = [] ↔ word = [] ∧ ∀ c ∈ text, p c := by
  induction text generalizing word with
  | nil => grind [wordsFrom]
  | cons c text ih =>
    by_cases hc : p c = true
    · cases word with
      | nil => simp [wordsFrom, hc, ih]
      | cons d word => simp [wordsFrom, hc]
    · simp [wordsFrom, hc, ih]

theorem words_eq_nil_iff (text : List α) : words p text = [] ↔ ∀ c ∈ text, p c := by
  simp [words, wordsFrom_eq_nil_iff]

/-- What trimming takes off are separators. -/
theorem exists_trim (text : List α) : ∃ before after,
    text = before ++ trim p text ++ after ∧ (∀ c ∈ before, p c) ∧ ∀ c ∈ after, p c := by
  refine ⟨text.takeWhile p, (text.dropWhile p).rtakeWhile p, ?_, ?_, ?_⟩
  · rw [trim, List.append_assoc, List.rdropWhile_append_rtakeWhile, List.takeWhile_append_dropWhile]
  · exact fun c hc => List.mem_takeWhile_imp hc
  · exact fun c hc => List.mem_rtakeWhile_imp hc

theorem head_of_trim {text : List α} {c : α} {rest : List α} (h : trim p text = c :: rest) :
    ¬ p c ∧ c ∈ text := by
  obtain ⟨after, hafter⟩ : c :: rest <+: text.dropWhile p := h ▸ List.rdropWhile_prefix p _
  rw [List.cons_append] at hafter
  have hne : text.dropWhile p ≠ [] := hafter ▸ List.cons_ne_nil _ _
  have head := List.head_dropWhile_not p hne
  have mem := (List.dropWhile_suffix p).subset (hafter ▸ List.mem_cons_self)
  simp only [← hafter, List.head_cons] at head
  exact ⟨Bool.eq_false_iff.1 head, mem⟩

theorem trim_eq_nil_iff (text : List α) : trim p text = [] ↔ ∀ c ∈ text, p c := by
  constructor
  · intro h
    obtain ⟨before, after, htext, hbefore, hafter⟩ := exists_trim (p := p) text
    rw [htext, h, List.append_nil]
    exact List.forall_mem_append.2 ⟨hbefore, hafter⟩
  · intro h
    rw [trim, List.dropWhile_eq_nil_iff.2 h, List.rdropWhile_nil]

/-- Trimming a text does not change its words, nor those of what is left of it. -/
theorem words_filter_trim (keep : α → Bool) (text : List α) :
    words p ((trim p text).filter keep) = words p (text.filter keep) := by
  obtain ⟨before, after, htext, hbefore, hafter⟩ := exists_trim (p := p) text
  have kept : ∀ {part : List α}, (∀ c ∈ part, p c) → ∀ c ∈ part.filter keep, p c :=
    fun h c hc => h c (List.mem_of_mem_filter hc)
  have parts : text.filter keep =
      before.filter keep ++ (trim p text).filter keep ++ after.filter keep := by
    rw [← List.filter_append, ← List.filter_append, ← htext]
  rw [parts, words_append_right (kept hafter), words_append_left (kept hbefore)]

end Words
