import MobileMoney.Library.Utf8
import MobileMoney.Library.Words

/-!
# Streams of sanctions

`streamSanctionUpdates` of `services/sanctionService.ts`, on the bytes after decompression. Each
chunk is read as UTF-8 on its own, so a character that a boundary cuts is replaced, and the entity
of its line is another one or none.
-/

namespace MobileMoney.Sanctions

open Json (Text Value Numbers isTrimmed lexemes text)
open Utf8

variable {ν : Type} (numbers : Numbers ν)

def newline : ℕ := '\n'.toNat

/-! ## Program -/

/-- What was yielded, and the batch that is being filled. -/
structure Stream (ν : Type) where
  yielded : List (List (Value ν))
  batch : List (Value ν)

/-- A line that is not empty, in the loop; a malformed one is skipped. -/
def pushLine (batchSize : ℕ) (s : Stream ν) (line : Text) : Stream ν :=
  let trimmed := Words.trim isTrimmed line
  if trimmed = [] then s
  else
    match Json.parse numbers trimmed with
    | none => s
    | some entity =>
      let batch := s.batch ++ [entity]
      if batchSize ≤ batch.length then ⟨s.yielded ++ [batch], []⟩ else ⟨s.yielded, batch⟩

/-- The state of the stream, with the line buffer. -/
def pushChunk (batchSize : ℕ) (s : Stream ν × Text) (chunk : List UInt8) : Stream ν × Text :=
  let lines := (s.2 ++ decode chunk).splitOn newline
  (lines.dropLast.foldl (pushLine numbers batchSize) s.1, lines.getLastD [])

/-- The line that is left, and the batch that was not yielded. -/
def flush (s : Stream ν × Text) : List (List (Value ν)) :=
  let trimmed := Words.trim isTrimmed s.2
  let batch :=
    if trimmed = [] then s.1.batch
    else
      match Json.parse numbers trimmed with
      | none => s.1.batch
      | some entity => s.1.batch ++ [entity]
  if batch = [] then s.1.yielded else s.1.yielded ++ [batch]

def streamSanctionUpdates (batchSize : ℕ) (chunks : List (List UInt8)) : List (List (Value ν)) :=
  flush numbers (chunks.foldl (pushChunk numbers batchSize) (⟨[], []⟩, []))

/-! ## Lines -/

theorem splitOn_append (x : ℕ) (a b : Text) :
    (a ++ b).splitOn x = (a.splitOn x).dropLast ++ ((a.splitOn x).getLastD [] ++ b).splitOn x := by
  by_cases h : x ∈ a
  · obtain ⟨v, u, hv, hx⟩ := List.eq_append_cons_of_mem (List.mem_reverse.2 h)
    obtain rfl : a = u.reverse ++ x :: v.reverse := by simpa using congrArg List.reverse hv
    have last : v.reverse.splitOn x = [v.reverse] := List.splitOn_eq_singleton (by simpa using hx)
    rw [List.splitOn_append_cons_self, last, List.append_assoc, List.cons_append,
      List.splitOn_append_cons_self]
    simp
  · rw [List.splitOn_eq_singleton h]
    rfl

theorem splitOn_append_of_not_mem {x : ℕ} {a : Text} (h : x ∉ a) (b : Text) :
    (a ++ b).splitOn x = (b.splitOn x).modifyHead (a ++ ·) := by
  obtain ⟨first, rest, hb⟩ := List.exists_cons_of_ne_nil (List.splitOn_ne_nil x b)
  induction a with
  | nil =>
    rw [List.nil_append, hb]
    rfl
  | cons c a ih =>
    obtain ⟨hc, ha⟩ := not_or.1 (List.mem_cons.not.1 h)
    rw [List.cons_append, List.splitOn_cons_eq_if_modifyHead, if_neg (by simpa using Ne.symm hc),
      ih ha, hb]
    rfl

/-- A text is split as what it is made of. -/
theorem splitOn_flatMap {α : Type} {f : α → Text} {x : ℕ} {p : α → Bool} {parts : List α}
    (hsep : ∀ a ∈ parts, p a = true → f a = [x]) (hother : ∀ a ∈ parts, p a = false → x ∉ f a) :
    (parts.flatMap f).splitOn x = (parts.splitOnP p).map (·.flatMap f) := by
  induction parts with
  | nil => simp
  | cons a parts ih =>
    obtain ⟨ha, hparts⟩ := List.forall_mem_cons.1 hsep
    obtain ⟨ha', hparts'⟩ := List.forall_mem_cons.1 hother
    rw [List.flatMap_cons, List.splitOnP_cons_eq_if_modifyHead]
    cases hp : p a with
    | true =>
      rw [ha hp, if_pos rfl, List.map_cons, ← ih hparts hparts']
      exact List.splitOn_append_cons_self [] _
    | false =>
      obtain ⟨first, rest, hsplit⟩ := List.exists_cons_of_ne_nil (List.splitOnP_ne_nil p parts)
      rw [splitOn_append_of_not_mem (ha' hp), ih hparts hparts', hsplit]
      rfl

theorem subset_of_mem_splitOnP {α : Type} {p : α → Bool} {parts part : List α}
    (h : part ∈ parts.splitOnP p) : part ⊆ parts := by
  induction parts generalizing part with
  | nil =>
    rw [List.splitOnP_nil, List.mem_singleton] at h
    exact h ▸ List.Subset.refl _
  | cons a parts ih =>
    obtain ⟨first, rest, hsplit⟩ := List.exists_cons_of_ne_nil (List.splitOnP_ne_nil p parts)
    rw [List.splitOnP_cons_eq_if_modifyHead, hsplit] at h
    rw [hsplit] at ih
    split_ifs at h
    · rcases List.mem_cons.1 h with rfl | h
      · exact List.nil_subset _
      · exact List.Subset.trans (ih h) (List.subset_cons_self a parts)
    · rcases List.mem_cons.1 h with rfl | h
      · exact List.cons_subset_cons a (ih List.mem_cons_self)
      · exact List.Subset.trans (ih (List.mem_cons_of_mem first h)) (List.subset_cons_self a parts)

/-! ## Entries -/

/-- The entity of a line, if it is not malformed. -/
def entityOf (line : Text) : Option (Value ν) := Json.parse numbers (Words.trim isTrimmed line)

def Stream.entries (s : Stream ν) : List (Value ν) := s.yielded.flatten ++ s.batch

variable {numbers} {batchSize : ℕ}

/-- An empty line and a malformed one are skipped. -/
theorem skip_eq {α : Type} (line : Text) (skipped : α) (push : Value ν → α) :
    (if Words.trim isTrimmed line = [] then skipped
      else
        match Json.parse numbers (Words.trim isTrimmed line) with
        | none => skipped
        | some entity => push entity) = (entityOf numbers line).elim skipped push := by
  unfold entityOf
  by_cases empty : Words.trim isTrimmed line = []
  · rw [if_pos empty, empty]
    rfl
  · rw [if_neg empty]
    cases Json.parse numbers (Words.trim isTrimmed line) <;> rfl

theorem entries_pushLine (s : Stream ν) (line : Text) :
    (pushLine numbers batchSize s line).entries = s.entries ++ (entityOf numbers line).toList := by
  simp only [pushLine, skip_eq]
  cases entityOf numbers line with
  | none => exact (List.append_nil _).symm
  | some entity =>
    simp only [Option.elim_some]
    split_ifs <;> simp [Stream.entries]

theorem entries_foldl (s : Stream ν) (lines : List Text) :
    (lines.foldl (pushLine numbers batchSize) s).entries =
      s.entries ++ lines.filterMap (entityOf numbers) := by
  induction lines generalizing s with
  | nil => simp
  | cons line lines ih =>
    rw [List.foldl_cons, ih, entries_pushLine, List.append_assoc]
    cases h : entityOf numbers line <;> simp [h]

/-- The whole lines of what was read, and the line that has begun. -/
structure Buffered (numbers : Numbers ν) (s : Stream ν × Text) (read : Text) : Prop where
  entries : s.1.entries = (read.splitOn newline).dropLast.filterMap (entityOf numbers)
  lineBuffer : s.2 = (read.splitOn newline).getLastD []

theorem Buffered.pushChunk {s : Stream ν × Text} {read : Text} (h : Buffered numbers s read)
    (chunk : List UInt8) :
    Buffered numbers (pushChunk numbers batchSize s chunk) (read ++ decode chunk) := by
  have lines := splitOn_append newline read (decode chunk)
  rw [← h.lineBuffer] at lines
  have some_line := List.splitOn_ne_nil newline (s.2 ++ decode chunk)
  constructor
  · rw [Sanctions.pushChunk, entries_foldl, h.entries, ← List.filterMap_append, lines,
      List.dropLast_append_of_ne_nil some_line]
  · rw [Sanctions.pushChunk, lines]
    obtain ⟨first, rest, hsplit⟩ := List.exists_cons_of_ne_nil some_line
    simp [hsplit, List.getLast?_cons]

theorem Buffered.foldl {s : Stream ν × Text} {read : Text} (h : Buffered numbers s read)
    (chunks : List (List UInt8)) :
    Buffered numbers (chunks.foldl (Sanctions.pushChunk numbers batchSize) s)
      (read ++ chunks.flatMap decode) := by
  induction chunks generalizing s read with
  | nil => simpa using h
  | cons chunk chunks ih =>
    rw [List.foldl_cons, List.flatMap_cons, ← List.append_assoc]
    exact ih (h.pushChunk chunk)

theorem flatten_flush (s : Stream ν × Text) :
    (flush numbers s).flatten = s.1.entries ++ (entityOf numbers s.2).toList := by
  have batch : (entityOf numbers s.2).elim s.1.batch (fun entity => s.1.batch ++ [entity]) =
      s.1.batch ++ (entityOf numbers s.2).toList := by
    cases entityOf numbers s.2 with
    | none => exact (List.append_nil _).symm
    | some entity => rfl
  simp only [flush, skip_eq, batch, Stream.entries, List.append_assoc]
  split_ifs with none_left
  · rw [none_left, List.append_nil]
  · simp

theorem Buffered.flush {s : Stream ν × Text} {read : Text} (h : Buffered numbers s read) :
    (flush numbers s).flatten = (read.splitOn newline).filterMap (entityOf numbers) := by
  have whole : read.splitOn newline = (read.splitOn newline).dropLast ++ [s.2] := by
    have last := List.getLast?_eq_some_getLast (List.splitOn_ne_nil newline read)
    rw [h.lineBuffer, List.getLastD_eq_getLast?, last, Option.getD_some,
      List.dropLast_append_getLast]
  rw [flatten_flush, h.entries, whole, List.dropLast_concat, List.filterMap_append]
  cases hlast : entityOf numbers s.2 <;> simp [hlast]

/-- The entities of all lines are yielded. -/
theorem flatten_streamSanctionUpdates (chunks : List (List UInt8)) :
    (streamSanctionUpdates numbers batchSize chunks).flatten =
      ((chunks.flatMap decode).splitOn newline).filterMap (entityOf numbers) := by
  have begun : Buffered numbers (⟨[], []⟩, []) [] := ⟨rfl, rfl⟩
  exact (begun.foldl chunks).flush

/-! ## What is read of a line -/

theorem newline_not_mem_units {c : Char} (h : c ≠ '\n') : newline ∉ units c := by
  have : c.toNat ≠ newline := fun same => h (Char.ext (UInt32.toNat_inj.1 same))
  unfold units codeUnits
  split_ifs
  · simpa using Ne.symm this
  · have : newline = 10 := rfl
    simp
    omega

/-- The lines of a text, as they are and as they are read. -/
def linesOf (parts : List (Char × Text)) : List (List (Char × Text)) :=
  parts.splitOnP fun p => p.1 = '\n'

def sentLine (line : List (Char × Text)) : Text :=
  Words.trim isTrimmed (line.flatMap fun p => units p.1)

def readLine (line : List (Char × Text)) : Text := Words.trim isTrimmed (line.flatMap Prod.snd)

/-- The lines that are not empty. -/
def nonEmptyLines (s : Text) : List Text :=
  ((s.splitOn newline).map (Words.trim isTrimmed)).filter (· ≠ [])

theorem splitOn_sent (places : List ℕ) (s : List Char) :
    (s.flatMap units).splitOn newline =
      (linesOf (readParts places s)).map (·.flatMap fun p => units p.1) := by
  have whole : s.flatMap units = (readParts places s).flatMap fun p => units p.1 := by
    conv_lhs => rw [← map_fst_readParts places s, List.flatMap_map]
  rw [whole, linesOf]
  refine splitOn_flatMap (fun p _ hp => ?_) fun p _ hp => newline_not_mem_units (by simpa using hp)
  rw [of_decide_eq_true hp]
  rfl

theorem splitOn_read (places : List ℕ) (s : List Char) :
    ((readParts places s).flatMap Prod.snd).splitOn newline =
      (linesOf (readParts places s)).map (·.flatMap Prod.snd) := by
  refine splitOn_flatMap (fun p hmem hp => ?_) fun p hmem hp => ?_
  · have hchar : p.1 = '\n' := of_decide_eq_true hp
    rcases mem_readParts hmem with whole | ⟨wide, -⟩
    · rw [whole, hchar]
      rfl
    · rw [hchar] at wide
      exact absurd wide (by decide)
  · rcases mem_readParts hmem with whole | ⟨-, replaced⟩
    · rw [whole]
      exact newline_not_mem_units (by simpa using hp)
    · exact fun hnewline => absurd (replaced _ hnewline) (by decide)

/-- An empty line may be read as characters that were cut, which are no entity. -/
theorem parse_replaced {s : Text} (h : ∀ c ∈ s, isTrimmed c = true ∨ c = replacement) :
    Json.parse numbers (Words.trim isTrimmed s) = none := by
  cases htrim : Words.trim isTrimmed s with
  | nil => rfl
  | cons c rest =>
    obtain ⟨first, mem⟩ := Words.head_of_trim htrim
    obtain rfl : c = replacement := (h c mem).resolve_left first
    rfl

theorem entityOf_of_empty {places : List ℕ} {s : List Char} {line : List (Char × Text)}
    (hline : ∀ p ∈ line, p ∈ readParts places s) (empty : sentLine line = []) :
    entityOf numbers (line.flatMap Prod.snd) = none := by
  have trimmed := (Words.trim_eq_nil_iff _).1 empty
  refine parse_replaced fun c hc => ?_
  obtain ⟨p, hp, hmem⟩ := List.mem_flatMap.1 hc
  rcases mem_readParts (hline p hp) with whole | ⟨-, replaced⟩
  · exact .inl (trimmed c (List.mem_flatMap.2 ⟨p, hp, whole ▸ hmem⟩))
  · exact .inr (replaced c hmem)

/-! ## One entity per line -/

/-- The entities of the lines that are not empty, of which none is malformed. -/
def OneEntityPerLine (numbers : Numbers ν) (s : Text) (entities : List (Value ν)) : Prop :=
  entities.map some = (nonEmptyLines s).map (Json.parse numbers)

theorem map_some_filterMap_iff {α β : Type} {f g : α → Option β} {l : List α} :
    (l.filterMap g).map some = l.map f ↔ ∀ a ∈ l, g a = f a ∧ (f a).isSome = true := by
  have kept (h : ∀ a ∈ l, (g a).isSome = true) : (l.filterMap g).map some = l.map g := by
    induction l with
    | nil => rfl
    | cons a l ih =>
      obtain ⟨ha, hl⟩ := List.forall_mem_cons.1 h
      obtain ⟨b, hb⟩ := Option.isSome_iff_exists.1 ha
      rw [List.filterMap_cons_some hb, List.map_cons, List.map_cons, ih hl, hb]
  constructor
  · intro same
    have all : ∀ a ∈ l, (g a).isSome = true := by
      have := congrArg List.length same
      rw [List.length_map, List.length_map] at this
      exact List.filterMap_length_eq_length.1 this
    have equal := List.map_inj_left.1 ((kept all).symm.trans same)
    exact fun a ha => ⟨equal a ha, equal a ha ▸ all a ha⟩
  · intro same
    rw [kept fun a ha => by rw [(same a ha).1]; exact (same a ha).2]
    exact List.map_congr_left fun a ha => (same a ha).1

/-- There is one entity for each line exactly if every line that is not empty is an entity, and
the same one with the characters replaced that boundaries cut. -/
theorem one_entity_per_line_iff (numbers : Numbers ν) (batchSize : ℕ) {file : List Char}
    {chunks : List (List UInt8)} (hchunks : chunks.flatten = encode file) :
    let lines := (linesOf (readParts (boundaries chunks) file)).filter (sentLine · ≠ [])
    let entities := (streamSanctionUpdates numbers batchSize chunks).flatten
    (OneEntityPerLine numbers (file.flatMap units) entities ↔
      ∀ line ∈ lines, Json.parse numbers (readLine line) = Json.parse numbers (sentLine line) ∧
        (Json.parse numbers (sentLine line)).isSome = true) ∧
    ((∀ line ∈ lines, ∀ p ∈ line, p.2 = units p.1) →
      (OneEntityPerLine numbers (file.flatMap units) entities ↔
        ∀ line ∈ nonEmptyLines (file.flatMap units), (Json.parse numbers line).isSome = true)) := by
  intro lines entities
  have sent : nonEmptyLines (file.flatMap units) = lines.map sentLine := by
    rw [nonEmptyLines, splitOn_sent (boundaries chunks), List.map_map, List.filter_map]
    rfl
  have yielded : entities = lines.filterMap fun line => Json.parse numbers (readLine line) := by
    rw [List.filterMap_filter]
    refine (flatten_streamSanctionUpdates chunks).trans ?_
    rw [flatMap_decode hchunks, splitOn_read, List.filterMap_map]
    refine List.filterMap_congr fun line hline => ?_
    by_cases empty : sentLine line = []
    · simpa [empty] using entityOf_of_empty (subset_of_mem_splitOnP hline) empty
    · simp [empty, entityOf, readLine]
  have one : OneEntityPerLine numbers (file.flatMap units) entities ↔
      ∀ line ∈ lines, Json.parse numbers (readLine line) = Json.parse numbers (sentLine line) ∧
        (Json.parse numbers (sentLine line)).isSome = true := by
    rw [OneEntityPerLine, sent, yielded, List.map_map]
    exact map_some_filterMap_iff
  refine ⟨one, fun whole => one.trans ?_⟩
  rw [sent, List.forall_mem_map]
  refine forall₂_congr fun line hline => and_iff_right ?_
  have : readLine line = sentLine line :=
    congrArg (Words.trim isTrimmed) (List.flatMap_congr (whole line hline))
  rw [this]

/-- A line with a character of two bytes, the tenth and the eleventh of the file. -/
def accentedFile : List Char := "\x7b\"name\":\"é\"\x7d\r\n".toList

def cutAt (place : ℕ) : List (List UInt8) :=
  [(encode accentedFile).take place, (encode accentedFile).drop place]

theorem flatten_cutAt (place : ℕ) : (cutAt place).flatten = encode accentedFile := by
  simp [cutAt]

/-- A boundary between the two characters of a line end. -/
theorem cut_line_end_one_entity :
    OneEntityPerLine lexemes (accentedFile.flatMap units)
      (streamSanctionUpdates lexemes 500 (cutAt 14)).flatten :=
  ((one_entity_per_line_iff lexemes 500 (flatten_cutAt 14)).2 (by decide +kernel)).2
    (by decide +kernel)

theorem cut_character_changes_entity :
    (cutAt 10).flatten = encode accentedFile ∧
      (streamSanctionUpdates lexemes 500 (cutAt 10)).flatten =
        [.object [(text "name", .string [replacement, replacement])]] ∧
      ¬ OneEntityPerLine lexemes (accentedFile.flatMap units)
        (streamSanctionUpdates lexemes 500 (cutAt 10)).flatten := by
  refine ⟨flatten_cutAt 10, rfl, fun h => ?_⟩
  have same : ([some (.object [(text "name", .string [replacement, replacement])])] :
      List (Option (Value Text))) = [some (.object [(text "name", .string ['é'.toNat])])] := h
  simp at same

end MobileMoney.Sanctions
