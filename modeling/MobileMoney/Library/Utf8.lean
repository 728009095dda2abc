import MobileMoney.Library.Json

/-!
# UTF-8

Reading bytes as UTF-8, where what is no character is replaced, and what is read of a text whose
bytes come in chunks that are read one by one: a character that a boundary cuts is replaced.
-/

namespace Utf8

open Json (Text)

def replacement : ℕ := 0xFFFD

/-- The code units of a code point. -/
def codeUnits (v : ℕ) : Text :=
  if v < 0x10000 then [v] else [0xD800 + (v - 0x10000) / 0x400, 0xDC00 + (v - 0x10000) % 0x400]

def units (c : Char) : Text := codeUnits c.toNat

def encode (s : List Char) : List UInt8 := s.flatMap String.utf8EncodeChar

/-! ## Decoding -/

/-- What is missing of a character, the bounds of its next byte, and the bits that were read. -/
structure Pending where
  needed : ℕ
  lower : ℕ
  upper : ℕ
  bits : ℕ

/-- The first byte of a character. -/
def start (b : ℕ) : Text × Option Pending :=
  if b < 0x80 then ([b], none)
  else if 0xC2 ≤ b ∧ b ≤ 0xDF then ([], some ⟨1, 0x80, 0xBF, b - 0xC0⟩)
  else if 0xE0 ≤ b ∧ b ≤ 0xEF then
    ([], some ⟨2, if b = 0xE0 then 0xA0 else 0x80, if b = 0xED then 0x9F else 0xBF, b - 0xE0⟩)
  else if 0xF0 ≤ b ∧ b ≤ 0xF4 then
    ([], some ⟨3, if b = 0xF0 then 0x90 else 0x80, if b = 0xF4 then 0x8F else 0xBF, b - 0xF0⟩)
  else ([replacement], none)

/-- A byte that does not continue a character may start another one. -/
def advance : Option Pending → ℕ → Text × Option Pending
  | none, b => start b
  | some p, b =>
    if p.lower ≤ b ∧ b ≤ p.upper then
      if p.needed = 1 then (codeUnits (p.bits * 64 + (b - 0x80)), none)
      else ([], some ⟨p.needed - 1, 0x80, 0xBF, p.bits * 64 + (b - 0x80)⟩)
    else (replacement :: (start b).1, (start b).2)

def decodeFrom : Option Pending → List ℕ → Text
  | none, [] => []
  | some _, [] => [replacement]
  | state, b :: bytes => (advance state b).1 ++ decodeFrom (advance state b).2 bytes

def decode (bytes : List UInt8) : Text := decodeFrom none (bytes.map UInt8.toNat)

/-! ## Characters -/

/-- The last bytes of a character. -/
def continuation : ℕ → ℕ → List ℕ
  | 0, _ => []
  | n + 1, v => (0x80 + v / 64 ^ n % 64) :: continuation n v

@[simp] theorem length_continuation (n v : ℕ) : (continuation n v).length = n := by
  induction n with
  | zero => rfl
  | succ n ih => rw [continuation, List.length_cons, ih]

theorem mem_continuation {n v b : ℕ} (h : b ∈ continuation n v) : 0x80 ≤ b ∧ b ≤ 0xBF := by
  induction n with
  | zero => cases h
  | succ n ih =>
    rcases List.mem_cons.1 h with rfl | h
    · omega
    · exact ih h

theorem bits_step (n v : ℕ) : v / 64 ^ (n + 1) * 64 + v / 64 ^ n % 64 = v / 64 ^ n := by
  rw [Nat.pow_succ, ← Nat.div_div_eq_div_mul, Nat.mul_comm]
  exact Nat.div_add_mod _ 64

section Continuation

variable {n v lower upper : ℕ} (hlower : lower ≤ 0x80 + v / 64 ^ n % 64)
  (hupper : 0x80 + v / 64 ^ n % 64 ≤ upper)
include hlower hupper

theorem advance_continuation : advance (some ⟨n + 1, lower, upper, v / 64 ^ (n + 1)⟩)
      (0x80 + v / 64 ^ n % 64) =
    if n = 0 then (codeUnits v, none) else ([], some ⟨n, 0x80, 0xBF, v / 64 ^ n⟩) := by
  have step := bits_step n v
  rw [advance, if_pos ⟨hlower, hupper⟩]
  simp only [Nat.add_sub_cancel_left, Nat.add_eq_right, Nat.add_sub_cancel, step]
  split_ifs with hn
  · simp [hn]
  · rfl

theorem decodeFrom_continuation (rest : List ℕ) :
    decodeFrom (some ⟨n + 1, lower, upper, v / 64 ^ (n + 1)⟩) (continuation (n + 1) v ++ rest) =
      codeUnits v ++ decodeFrom none rest := by
  induction n generalizing lower upper with
  | zero =>
    rw [continuation, List.cons_append, decodeFrom, advance_continuation hlower hupper]
    rfl
  | succ n ih =>
    rw [continuation, List.cons_append, decodeFrom, advance_continuation hlower hupper]
    exact ih (by omega) (by omega)

theorem decodeFrom_take {k : ℕ} (hk : k ≤ n) :
    decodeFrom (some ⟨n + 1, lower, upper, v / 64 ^ (n + 1)⟩) ((continuation (n + 1) v).take k) =
      [replacement] := by
  induction n generalizing lower upper k with
  | zero =>
    rw [Nat.le_zero.1 hk]
    rfl
  | succ n ih =>
    cases k with
    | zero => rfl
    | succ k =>
      rw [continuation, List.take_succ_cons, decodeFrom, advance_continuation hlower hupper]
      exact ih (by omega) (by omega) (by omega)

end Continuation

def bytes (c : Char) : List ℕ := (String.utf8EncodeChar c).map UInt8.toNat

theorem length_bytes (c : Char) : (bytes c).length = c.utf8Size := by
  rw [bytes, List.length_map, String.length_utf8EncodeChar]

theorem toNat_bounds (c : Char) : c.toNat < 0xD800 ∨ 0xDFFF < c.toNat ∧ c.toNat < 0x110000 :=
  c.valid

/-- A character is a byte of its own, or a first byte and others that fit to it. -/
theorem bytes_cases (c : Char) :
    bytes c = [c.toNat] ∧ c.toNat < 0x80 ∨
      ∃ n first lower upper, bytes c = first :: continuation (n + 1) c.toNat ∧
        start first = ([], some ⟨n + 1, lower, upper, c.toNat / 64 ^ (n + 1)⟩) ∧
        lower ≤ 0x80 + c.toNat / 64 ^ n % 64 ∧ 0x80 + c.toNat / 64 ^ n % 64 ≤ upper := by
  have bounds := toNat_bounds c
  have hv : c.val.toNat = c.toNat := rfl
  unfold bytes String.utf8EncodeChar
  rw [hv]
  generalize c.toNat = v at bounds
  simp only
  split_ifs with one two three
  · left
    simp
    omega
  · right
    refine ⟨0, 0xC0 + v / 64, 0x80, 0xBF, ?_, ?_, by omega, by omega⟩
    · simp [continuation]
      omega
    · rw [start, if_neg (by omega), if_pos (by omega)]
      simp
  · right
    have lead : (v / 4096 % 16 + 0xE0) % 256 = 0xE0 + v / 4096 := by omega
    refine ⟨1, 0xE0 + v / 4096, if 0xE0 + v / 4096 = 0xE0 then 0xA0 else 0x80,
      if 0xE0 + v / 4096 = 0xED then 0x9F else 0xBF, ?_, ?_, ?_, ?_⟩
    · simp [continuation, lead]
      omega
    · rw [start, if_neg (by omega), if_neg (by omega), if_pos (by omega)]
      simp
    · split_ifs <;> omega
    · split_ifs <;> omega
  · right
    have lead : (v / 262144 % 8 + 0xF0) % 256 = 0xF0 + v / 262144 := by omega
    refine ⟨2, 0xF0 + v / 262144, if 0xF0 + v / 262144 = 0xF0 then 0x90 else 0x80,
      if 0xF0 + v / 262144 = 0xF4 then 0x8F else 0xBF, ?_, ?_, ?_, ?_⟩
    · simp [continuation, lead]
      omega
    · rw [start, if_neg (by omega), if_neg (by omega), if_neg (by omega), if_pos (by omega)]
      simp
    · split_ifs <;> omega
    · split_ifs <;> omega

theorem bytes_ne_nil (c : Char) : bytes c ≠ [] := by
  obtain ⟨h, -⟩ | ⟨_, _, _, _, h, -⟩ := bytes_cases c <;> simp [h]

theorem mem_tail_bytes {c : Char} {b : ℕ} (h : b ∈ (bytes c).tail) : 0x80 ≤ b ∧ b ≤ 0xBF := by
  obtain ⟨hbytes, -⟩ | ⟨_, _, _, _, hbytes, -⟩ := bytes_cases c
  · simp [hbytes] at h
  · rw [hbytes] at h
    exact mem_continuation h

theorem decodeFrom_bytes (c : Char) (rest : List ℕ) :
    decodeFrom none (bytes c ++ rest) = units c ++ decodeFrom none rest := by
  obtain ⟨hbytes, small⟩ | ⟨n, first, lower, upper, hbytes, hstart, hlower, hupper⟩ := bytes_cases c
  · have single : units c = [c.toNat] := by rw [units, codeUnits, if_pos (by omega)]
    rw [hbytes, List.singleton_append, decodeFrom, advance, start, if_pos small, single]
  · rw [hbytes, List.cons_append, decodeFrom, advance, hstart]
    exact decodeFrom_continuation hlower hupper rest

theorem decode_encode (s : List Char) : decode (encode s) = s.flatMap units := by
  rw [decode, encode, List.map_flatMap]
  induction s with
  | nil => rfl
  | cons c s ih =>
    rw [List.flatMap_cons, List.flatMap_cons, ← ih]
    exact decodeFrom_bytes c _

/-- The start of a character alone is replaced. -/
theorem decodeFrom_take_bytes {c : Char} {k : ℕ} (hpos : 0 < k) (hk : k < c.utf8Size) :
    decodeFrom none ((bytes c).take k) = [replacement] := by
  have size := length_bytes c
  obtain ⟨hbytes, -⟩ | ⟨n, first, lower, upper, hbytes, hstart, hlower, hupper⟩ := bytes_cases c
  · rw [hbytes, List.length_singleton] at size
    omega
  · rw [hbytes, List.length_cons, length_continuation] at size
    obtain ⟨k, rfl⟩ := Nat.exists_eq_add_one_of_ne_zero hpos.ne'
    rw [hbytes, List.take_succ_cons, decodeFrom, advance, hstart]
    exact decodeFrom_take hlower hupper (by omega)

/-- The end of a character alone is replaced byte by byte. -/
theorem decodeFrom_append_of_tail {ends : List ℕ} (h : ∀ b ∈ ends, 0x80 ≤ b ∧ b ≤ 0xBF)
    (rest : List ℕ) :
    decodeFrom none (ends ++ rest) =
      List.replicate ends.length replacement ++ decodeFrom none rest := by
  induction ends with
  | nil => rfl
  | cons b ends ih =>
    obtain ⟨hb, hends⟩ := List.forall_mem_cons.1 h
    rw [List.cons_append, decodeFrom, advance, start, if_neg (by omega), if_neg (by omega),
      if_neg (by omega), if_neg (by omega), ih hends]
    rfl

/-! ## Chunks -/

/-- The places at which chunks end. -/
def boundaries {α : Type} : List (List α) → List ℕ
  | [] => []
  | chunk :: chunks => chunk.length :: (boundaries chunks).map (chunk.length + ·)

/-- What is read of a character if the first boundary inside of it is after so many bytes: the
bytes before it are replaced together, and each of the others on its own. -/
def readOf (c : Char) : Option ℕ → Text
  | none => units c
  | some k => List.replicate (1 + (c.utf8Size - k)) replacement

/-- Each character of a text, with what is read of it. -/
def readParts : List ℕ → List Char → List (Char × Text)
  | _, [] => []
  | places, c :: s =>
    (c, readOf c (places.find? fun k => 0 < k && k < c.utf8Size)) ::
      readParts (places.map (· - c.utf8Size)) s

theorem readParts_zero (places : List ℕ) (s : List Char) :
    readParts (0 :: places) s = readParts places s := by
  induction s generalizing places with
  | nil => rfl
  | cons c s ih =>
    rw [readParts, readParts, List.find?_cons_of_neg (by simp), List.map_cons, Nat.zero_sub, ih]

theorem map_fst_readParts (places : List ℕ) (s : List Char) :
    (readParts places s).map Prod.fst = s := by
  induction s generalizing places with
  | nil => rfl
  | cons c s ih => rw [readParts, List.map_cons, ih]

/-- A character that was not cut is read as it is, and one of a byte cannot be cut. -/
theorem mem_readParts {places : List ℕ} {s : List Char} {p : Char × Text}
    (h : p ∈ readParts places s) :
    p.2 = units p.1 ∨ 1 < p.1.utf8Size ∧ ∀ c ∈ p.2, c = replacement := by
  induction s generalizing places with
  | nil => cases h
  | cons c s ih =>
    rcases List.mem_cons.1 h with rfl | h
    · cases hfirst : places.find? (fun k => 0 < k && k < c.utf8Size) with
      | none => exact .inl rfl
      | some k =>
        have inside := List.find?_some hfirst
        simp only [Bool.and_eq_true, decide_eq_true_eq] at inside
        have wide : 1 < c.utf8Size := by omega
        exact .inr ⟨wide, fun u hu => List.eq_of_mem_replicate hu⟩
    · exact ih h

theorem map_boundaries_append {α : Type} (start rest : List α) (chunks : List (List α)) :
    (boundaries ((start ++ rest) :: chunks)).map (· - start.length) =
      boundaries (rest :: chunks) := by
  simp only [boundaries, List.map_cons, List.map_map, List.length_append,
    Nat.add_sub_cancel_left, List.cons.injEq, true_and]
  refine List.map_congr_left fun k _ => ?_
  simp only [Function.comp_apply]
  omega

/-- The boundaries after a character that is begun by a chunk and that lacks so many bytes. -/
theorem map_boundaries_sub {α : Type} {chunk : List α} {size missing : ℕ}
    (h : size = chunk.length + missing) (chunks : List (List α)) :
    (boundaries (chunk :: chunks)).map (· - size) =
      0 :: (boundaries chunks).map (· - missing) := by
  simp only [boundaries, List.map_cons, List.map_map, List.cons.injEq]
  refine ⟨by omega, List.map_congr_left fun k _ => ?_⟩
  simp only [Function.comp_apply]
  omega

theorem le_of_mem_boundaries {α : Type} {chunk : List α} {chunks : List (List α)} {k : ℕ}
    (h : k ∈ boundaries (chunk :: chunks)) : chunk.length ≤ k := by
  rcases List.mem_cons.1 h with rfl | h
  · exact le_rfl
  · obtain ⟨_, -, rfl⟩ := List.mem_map.1 h
    exact Nat.le_add_right _ _

theorem boundaries_map {α β : Type} (f : α → β) (chunks : List (List α)) :
    boundaries (chunks.map (List.map f)) = boundaries chunks := by
  induction chunks with
  | nil => rfl
  | cons chunk chunks ih => rw [List.map_cons, boundaries, boundaries, ih, List.length_map]

/-- What is read of chunks that begin with the end of a character. -/
def ReadsOn (chunks : List (List ℕ)) : Prop :=
  ∀ (ends : List ℕ) (s : List Char), (∀ b ∈ ends, 0x80 ≤ b ∧ b ≤ 0xBF) →
    chunks.flatten = ends ++ s.flatMap bytes →
    chunks.flatMap (decodeFrom none) = List.replicate ends.length replacement ++
      (readParts ((boundaries chunks).map (· - ends.length)) s).flatMap Prod.snd

theorem decodeFrom_chunk {chunks : List (List ℕ)} (reads : ReadsOn chunks) {chunk : List ℕ}
    {s : List Char} (h : chunk ++ chunks.flatten = s.flatMap bytes) :
    decodeFrom none chunk ++ chunks.flatMap (decodeFrom none) =
      (readParts (boundaries (chunk :: chunks)) s).flatMap Prod.snd := by
  induction s generalizing chunk with
  | nil =>
    obtain ⟨rfl, hchunks⟩ := List.append_eq_nil_iff.1 h
    rw [reads [] [] (by simp) hchunks]
    rfl
  | cons c s ih =>
    rw [List.flatMap_cons] at h
    have size := length_bytes c
    by_cases empty : chunk = []
    · -- Nothing was read, and the boundary is not inside of the character.
      subst empty
      rw [reads [] (c :: s) (by simp) (by simpa using h), boundaries, List.length_nil,
        readParts_zero]
      simp [decodeFrom]
    rcases le_or_gt c.utf8Size chunk.length with whole | cut
    · obtain ⟨rest, rfl⟩ : bytes c <+: chunk :=
        List.prefix_of_prefix_length_le (List.prefix_append _ _) (h ▸ List.prefix_append _ _)
          (size ▸ whole)
      rw [List.append_assoc] at h
      have outside : (boundaries ((bytes c ++ rest) :: chunks)).find?
          (fun k => 0 < k && k < c.utf8Size) = none := by
        refine List.find?_eq_none.2 fun k hk => ?_
        have := le_of_mem_boundaries hk
        simp only [Bool.and_eq_true, decide_eq_true_eq]
        omega
      rw [decodeFrom_bytes, List.append_assoc, ih (List.append_cancel_left h), readParts, outside,
        ← size, map_boundaries_append]
      rfl
    · have hpos : 0 < chunk.length := List.length_pos_of_ne_nil empty
      obtain ⟨ends, hends⟩ : chunk <+: bytes c :=
        List.prefix_of_prefix_length_le (h ▸ List.prefix_append _ _) (List.prefix_append _ _)
          (size ▸ cut.le)
      have read : decodeFrom none chunk = [replacement] := by
        have := decodeFrom_take_bytes hpos cut
        rwa [← hends, List.take_left] at this
      have tails : ∀ b ∈ ends, 0x80 ≤ b ∧ b ≤ 0xBF := fun b hb => by
        have tail : (chunk ++ ends).tail = chunk.tail ++ ends := List.tail_append_of_ne_nil empty
        exact mem_tail_bytes (hends ▸ tail ▸ List.mem_append_right _ hb)
      rw [← hends, List.append_assoc] at h
      have sizes : c.utf8Size = chunk.length + ends.length := by
        rw [← size, ← hends, List.length_append]
      have inside : (boundaries (chunk :: chunks)).find? (fun k => 0 < k && k < c.utf8Size) =
          some chunk.length := List.find?_cons_of_pos (by simp [hpos, cut])
      rw [reads ends s tails (List.append_cancel_left h), readParts, inside,
        map_boundaries_sub sizes, readParts_zero, read, readOf, sizes, Nat.add_sub_cancel_left,
        List.replicate_add, List.flatMap_cons, List.append_assoc]
      rfl

theorem readsOn (chunks : List (List ℕ)) : ReadsOn chunks := by
  induction chunks with
  | nil =>
    intro ends s _ h
    obtain ⟨rfl, hs⟩ := List.append_eq_nil_iff.1 h.symm
    cases s with
    | nil => rfl
    | cons c s => exact absurd (List.append_eq_nil_iff.1 hs).1 (bytes_ne_nil c)
  | cons chunk chunks ih =>
    intro ends s hends h
    rw [List.flatten_cons] at h
    rcases le_or_gt chunk.length ends.length with within | beyond
    · obtain ⟨rest, rfl⟩ : chunk <+: ends :=
        List.prefix_of_prefix_length_le (h ▸ List.prefix_append _ _) (List.prefix_append _ _) within
      obtain ⟨hchunk, hrest⟩ := List.forall_mem_append.1 hends
      rw [List.append_assoc] at h
      have read : decodeFrom none chunk = List.replicate chunk.length replacement := by
        simpa [decodeFrom] using decodeFrom_append_of_tail hchunk []
      rw [List.flatMap_cons, read, ih rest s hrest (List.append_cancel_left h),
        map_boundaries_sub List.length_append, readParts_zero, List.length_append,
        List.replicate_add, List.append_assoc]
    · obtain ⟨rest, rfl⟩ : ends <+: chunk :=
        List.prefix_of_prefix_length_le (List.prefix_append _ _) (h ▸ List.prefix_append _ _)
          beyond.le
      rw [List.append_assoc] at h
      rw [List.flatMap_cons, decodeFrom_append_of_tail hends, List.append_assoc,
        decodeFrom_chunk ih (List.append_cancel_left h), map_boundaries_append]

/-- What is read of a text in chunks. -/
theorem flatMap_decode {chunks : List (List UInt8)} {s : List Char}
    (h : chunks.flatten = encode s) :
    chunks.flatMap decode = (readParts (boundaries chunks) s).flatMap Prod.snd := by
  have flat : (chunks.map (List.map UInt8.toNat)).flatten = s.flatMap bytes := by
    rw [← List.map_flatten, h, encode, List.map_flatMap]
    rfl
  have reads := readsOn _ [] s (by simp) flat
  rw [boundaries_map, List.flatMap_map] at reads
  simp only [List.length_nil, List.replicate_zero, List.nil_append, Nat.sub_zero,
    List.map_id'] at reads
  exact reads

end Utf8
