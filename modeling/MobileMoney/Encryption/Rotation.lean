import MobileMoney.Encryption.Program
import MobileMoney.Library.JsonReading
import MobileMoney.Library.Runs

/-!
# Fields under key rotation

The environment changes between writes. A value can be read back as long as the key it was written
with is registered, unless the name of the version contains a colon or the value is not the text
that UTF-8 keeps of it.
-/

namespace MobileMoney.Encryption

open Json

variable {cipher : Cipher} {letters : Letters}

/-! ## What UTF-8 keeps -/

theorem wellFormed_cons_of_not_high {c : ℕ} (h : isHigh c = false) (rest : Text) :
    wellFormed (c :: rest) = (if isLow c then 0xFFFD else c) :: wellFormed rest := by
  cases rest with
  | nil => cases low : isLow c <;> simp [wellFormed, h, low]
  | cons d rest => simp [wellFormed, h]

/-- A character that is no surrogate separates what comes before and after it. -/
theorem wellFormed_append_cons {c : ℕ} (high : isHigh c = false) (low : isLow c = false)
    (s t : Text) : wellFormed (s ++ c :: t) = wellFormed s ++ c :: wellFormed t := by
  have after : wellFormed (c :: t) = c :: wellFormed t := by
    simp [wellFormed_cons_of_not_high high, low]
  fun_induction wellFormed s with
  | case1 => simpa using after
  | case2 d lone => simp [wellFormed, low, lone, after]
  | case3 d single => simp [wellFormed, low, single, after]
  | case4 d e rest pair ih => simp [wellFormed, pair, ih]
  | case5 d e rest apart ih =>
    rw [List.cons_append, List.cons_append, wellFormed, if_neg apart, ← List.cons_append, ih]
    rfl

/-- A text in which UTF-8 leaves no replacement is kept. -/
theorem wellFormed_eq_self {s : Text} (h : 0xFFFD ∉ wellFormed s) : wellFormed s = s := by
  fun_induction wellFormed s with
  | case1 => rfl
  | case2 c lone => simp at h
  | case3 c single => rfl
  | case4 c d rest pair ih => rw [ih (by grind)]
  | case5 c d rest apart ih => rw [ih (by grind), if_neg (by grind)]

theorem length_wellFormed (s : Text) : (wellFormed s).length = s.length := by
  fun_induction wellFormed s <;> simp_all

theorem wellFormed_of_small {s : Text} (h : ∀ c ∈ s, c < 0xD800) : wellFormed s = s := by
  induction s with
  | nil => rfl
  | cons c s ih =>
    obtain ⟨hc, hs⟩ := List.forall_mem_cons.1 h
    have high : isHigh c = false := by simp [isHigh]; omega
    have low : isLow c = false := by simp [isLow]; omega
    rw [wellFormed_cons_of_not_high high, ih hs, low]
    rfl

theorem wellFormed_wellFormed (s : Text) : wellFormed (wellFormed s) = wellFormed s := by
  fun_induction wellFormed s with
  | case1 => rfl
  | case2 c lone => decide
  | case3 c single => simp [wellFormed, single]
  | case4 c d rest pair ih => rw [wellFormed, if_pos pair, ih]
  | case5 c d rest apart ih =>
    split_ifs with lone
    · rw [wellFormed_cons_of_not_high (by decide), ih]
      rfl
    · obtain ⟨high, low⟩ := not_or.1 lone
      rw [wellFormed_cons_of_not_high (by simpa using high), ih, if_neg low]

/-! ## Payloads -/

theorem unhex_hex (bytes : List UInt8) : unhex (hex bytes) = bytes := by
  induction bytes with
  | nil => rfl
  | cons byte bytes ih =>
    have high : hexValue (hexDigit (byte.toNat / 16)) = some (byte.toNat / 16) :=
      hexValue_hexDigit (by have := byte.toNat_lt; omega)
    have low : hexValue (hexDigit (byte.toNat % 16)) = some (byte.toNat % 16) :=
      hexValue_hexDigit (Nat.mod_lt _ (by omega))
    have whole : byte.toNat / 16 * 16 + byte.toNat % 16 = byte.toNat := Nat.div_add_mod' _ _
    rw [hex, List.flatMap_cons, List.cons_append, List.cons_append, List.nil_append, unhex, high,
      low, ← hex]
    simp only [ih, whole, UInt8.ofNat_toNat]

theorem colon_not_mem_hex (bytes : List UInt8) : colon ∉ hex bytes := by
  have digit : ∀ n < 16, hexDigit n ≠ colon := by decide
  simp only [hex, List.mem_flatMap, List.mem_cons, List.not_mem_nil, or_false, not_exists, not_and,
    not_or]
  intro byte _
  have := byte.toNat_lt
  exact ⟨(digit _ (by omega)).symm, (digit _ (by omega)).symm⟩

theorem splitOn_serializePayload {payload : EncryptedPayload} (iv : colon ∉ payload.iv)
    (authTag : colon ∉ payload.authTag) (ciphertext : colon ∉ payload.ciphertext) :
    (serializePayload payload).splitOn colon =
      [payload.iv, payload.authTag, payload.ciphertext] := by
  rw [serializePayload, List.splitOn_append_cons_self_of_not_mem iv,
    List.splitOn_append_cons_self_of_not_mem authTag, List.splitOn_eq_singleton ciphertext]

section Payload

variable (value : Text) (key : cipher.Key) (iv : List UInt8)

theorem splitOn_encryptAES : (serializePayload (encryptAES cipher value key iv)).splitOn colon =
    [(encryptAES cipher value key iv).iv, (encryptAES cipher value key iv).authTag,
      (encryptAES cipher value key iv).ciphertext] :=
  splitOn_serializePayload (colon_not_mem_hex _) (colon_not_mem_hex _) (colon_not_mem_hex _)

theorem deserialize_encryptAES :
    deserializePayload (serializePayload (encryptAES cipher value key iv)) =
      .ok (encryptAES cipher value key iv) := by
  rw [deserializePayload, splitOn_encryptAES]

theorem decryptAES_encryptAES :
    decryptAES cipher (encryptAES cipher value key iv) key = .ok (wellFormed value) := by
  simp only [decryptAES, encryptAES, unhex_hex, cipher.decrypt_encrypt]

theorem decryptAES_of_ne {key' : cipher.Key} (h : key' ≠ key) :
    ∃ e, decryptAES cipher (encryptAES cipher value key iv) key' = .error e := by
  simp only [decryptAES, encryptAES, unhex_hex, cipher.decrypt_of_ne iv _ h]
  exact ⟨_, rfl⟩

/-- The right key is among those that are tried, and no other decrypts. -/
theorem tryKeys_encryptAES {keys : List cipher.Key} (h : key ∈ keys) :
    tryKeys cipher (serializePayload (encryptAES cipher value key iv)) keys =
      .ok (wellFormed value) := by
  induction keys with
  | nil => cases h
  | cons key' keys ih =>
    rw [tryKeys, deserialize_encryptAES]
    by_cases same : key' = key
    · subst same
      have right := decryptAES_encryptAES value key' iv
      simp only [bind, Except.bind, right]
    · obtain ⟨e, wrong⟩ := decryptAES_of_ne value key iv same
      have later : key ∈ keys := (List.mem_cons.1 h).resolve_left (Ne.symm same)
      have more : ¬ (keys = [] ∧ colon ∈ serializePayload (encryptAES cipher value key iv)) :=
        fun hnil => List.ne_nil_of_mem later hnil.1
      simp only [bind, Except.bind, wrong, if_neg more]
      exact ih later

end Payload

theorem tryKeys_of_error {raw : Text} (hraw : colon ∈ raw) {e : String}
    (h : deserializePayload raw = .error e) {keys : List cipher.Key} (hkeys : keys ≠ []) :
    tryKeys cipher raw keys = .error e := by
  induction keys with
  | nil => exact absurd rfl hkeys
  | cons key keys ih =>
    rw [tryKeys, h]
    simp only [bind, Except.bind]
    split_ifs with last
    · rfl
    · exact ih fun hnil => last ⟨hnil, hraw⟩

/-! ## Records -/

/-- A version and its key, or the key of a value without a version. -/
def keyUsed (letters : Letters) (env : Environment) : Option Text × Text :=
  match activeKey letters env with
  | some (version, key) => (some version, key)
  | none => (none, legacyKey letters env)

/-- The key is registered, under its version if it has one. -/
def Registered (letters : Letters) (env : Environment) : Option Text × Text → Prop
  | (some version, key) => Entries.get? version (getEncryptionKeys letters env) = some key
  | (none, key) => ∃ name, Entries.get? name (getEncryptionKeys letters env) = some key

/-- A value, what was stored for it and the key that was used. -/
structure Record where
  value : Option Text
  stored : Option Text
  used : Option Text × Text

def write (cipher : Cipher) (letters : Letters) (env : Environment) (value : Option Text)
    (iv : List UInt8) : Record :=
  ⟨value, encryptField cipher letters env value iv, keyUsed letters env⟩

/-- UTF-8 keeps the value, and the name of its version has no colon. -/
def Readable (record : Record) : Prop :=
  ∀ plaintext ∈ record.value, wellFormed plaintext = plaintext ∧
    (plaintext = [] ∨ ∀ version ∈ record.used.1, colon ∉ version)

theorem decryptField_of_ne_nil (env : Environment) {raw : Text} (h : raw ≠ []) :
    decryptField cipher letters env (some raw) =
      match (if 4 ≤ (raw.splitOn colon).length then
        Entries.get? (letters.toLowerCase ((raw.splitOn colon).headD []))
          (getEncryptionKeys letters env) else none) with
      | some keyMaterial => do
        let payload ← deserializePayload (List.intercalate [colon] (raw.splitOn colon).tail)
        let plaintext ← decryptAES cipher payload (cipher.deriveKey keyMaterial)
        return some plaintext
      | none => (tryKeys cipher raw ((getEncryptionKeys letters env).map fun key =>
          cipher.deriveKey key.2)).map some := by
  cases raw with
  | nil => exact absurd rfl h
  | cons c raw => rfl

theorem decryptField_unversioned (env : Environment) (value : Text) {key : Text} (iv : List UInt8)
    (registered : Registered letters env (none, key)) :
    decryptField cipher letters env
        (some (serializePayload (encryptAES cipher value (cipher.deriveKey key) iv))) =
      .ok (some (wellFormed value)) := by
  obtain ⟨name, hname⟩ := registered
  obtain ⟨e, he, rfl⟩ := Entries.mem_of_get? hname
  have tried := tryKeys_encryptAES value (cipher.deriveKey e.2) iv
    (List.mem_map.2 ⟨e, he, rfl⟩ : cipher.deriveKey e.2 ∈
      (getEncryptionKeys letters env).map fun key => cipher.deriveKey key.2)
  rw [decryptField_of_ne_nil env (by simp [serializePayload]), splitOn_encryptAES,
    if_neg (by simp)]
  simp only [tried]
  rfl

section Versioned

variable (cipher) (env : Environment) (value : Text) {version key : Text} (iv : List UInt8)

theorem decryptField_versioned (lower : letters.toLowerCase version = version)
    (noColon : colon ∉ version) (registered : Registered letters env (some version, key)) :
    decryptField cipher letters env (some (version ++ colon ::
        serializePayload (encryptAES cipher value (cipher.deriveKey key) iv))) =
      .ok (some (wellFormed value)) := by
  set payload := encryptAES cipher value (cipher.deriveKey key) iv with hpayload
  have back : List.intercalate [colon] ((serializePayload payload).splitOn colon) =
      serializePayload payload := List.intercalate_splitOn colon
  have found : Entries.get? version (getEncryptionKeys letters env) = some key := registered
  rw [decryptField_of_ne_nil env (by simp), List.splitOn_append_cons_self_of_not_mem noColon,
    List.headD_cons, lower, List.tail_cons, back, found, splitOn_encryptAES, if_pos (by simp)]
  simp only [hpayload, deserialize_encryptAES, bind, Except.bind, decryptAES_encryptAES]
  rfl

theorem deserializePayload_of_long {raw : Text} (h : 4 ≤ (raw.splitOn colon).length) :
    ∃ e, deserializePayload raw = .error e := by
  unfold deserializePayload
  split
  case h_1 parts =>
    rw [parts] at h
    simp at h
  case h_2 => exact ⟨_, rfl⟩

/-- Nothing with a colon in the name of its version is read back. -/
theorem decryptField_of_colon (hasColon : colon ∈ version)
    (registered : Registered letters env (some version, key)) :
    ∃ e, decryptField cipher letters env (some (version ++ colon ::
      serializePayload (encryptAES cipher value (cipher.deriveKey key) iv))) = .error e := by
  set payload := encryptAES cipher value (cipher.deriveKey key) iv with hpayload
  obtain ⟨first, rest, rfl, hfirst⟩ := List.eq_append_cons_of_mem hasColon
  set inner := rest ++ colon :: serializePayload payload with hinner
  have whole : first ++ colon :: rest ++ colon :: serializePayload payload =
      first ++ colon :: inner := by
    rw [List.append_assoc, List.cons_append]
  have long : 4 ≤ (inner.splitOn colon).length := by
    have pos := List.length_pos_iff.2 (List.splitOn_ne_nil colon rest)
    rw [hinner, List.splitOn_append_cons_self, hpayload, splitOn_encryptAES, List.length_append]
    simp only [List.length_cons, List.length_nil]
    omega
  have parts := List.splitOn_append_cons_self_of_not_mem hfirst inner
  obtain ⟨e, malformed⟩ := deserializePayload_of_long long
  obtain ⟨e', malformed'⟩ : ∃ e, deserializePayload (first ++ colon :: inner) = .error e :=
    deserializePayload_of_long (by rw [parts, List.length_cons]; omega)
  have keys : (getEncryptionKeys letters env).map (fun key => cipher.deriveKey key.2) ≠ [] := by
    obtain ⟨k, hk, -⟩ := Entries.mem_of_get? registered
    exact List.ne_nil_of_mem (List.mem_map.2 ⟨k, hk, rfl⟩)
  rw [whole, decryptField_of_ne_nil env (by simp), parts, List.headD_cons, List.tail_cons,
    List.intercalate_splitOn, if_pos (by rw [List.length_cons]; omega), malformed]
  split
  · exact ⟨e, rfl⟩
  · rw [tryKeys_of_error (by simp) malformed' keys]
    exact ⟨e', rfl⟩

end Versioned

/-- The version that is used is written in small letters. -/
theorem toLowerCase_of_used {env : Environment} {version : Text} {key : Text}
    (h : keyUsed letters env = (some version, key)) : letters.toLowerCase version = version := by
  unfold keyUsed at h
  split at h
  case h_1 version' key' active =>
    cases h
    simp only [activeKey] at active
    split_ifs at active
    obtain ⟨_, -, heq⟩ := Option.map_eq_some_iff.1 active
    cases heq
    exact letters.idempotent _
  case h_2 => cases h

theorem decryptField_write_iff {env env' : Environment} (value : Option Text) (iv : List UInt8)
    (registered : Registered letters env' (keyUsed letters env)) :
    decryptField cipher letters env' (write cipher letters env value iv).stored = .ok value ↔
      Readable (write cipher letters env value iv) := by
  match value with
  | none => exact iff_of_true rfl (by simp [Readable, write])
  | some [] =>
    refine iff_of_true rfl fun plaintext h => ?_
    cases h
    exact ⟨rfl, .inl rfl⟩
  | some (c :: value) =>
    have readable : Readable (write cipher letters env (some (c :: value)) iv) ↔
        wellFormed (c :: value) = c :: value ∧
          ∀ version ∈ (keyUsed letters env).1, colon ∉ version := by
      simp [Readable, write]
    rw [readable]
    simp only [write, encryptField]
    cases active : activeKey letters env with
    | none =>
      have used : keyUsed letters env = (none, legacyKey letters env) := by rw [keyUsed, active]
      rw [used] at registered ⊢
      simp [decryptField_unversioned env' (c :: value) iv registered]
    | some versioned =>
      obtain ⟨version, key⟩ := versioned
      have used : keyUsed letters env = (some version, key) := by rw [keyUsed, active]
      have lower := toLowerCase_of_used used
      rw [used] at registered ⊢
      by_cases hasColon : colon ∈ version
      · obtain ⟨e, error⟩ := decryptField_of_colon cipher env' (c :: value) iv hasColon registered
        simp [error, hasColon]
      · have back := decryptField_versioned cipher env' (c :: value) iv lower hasColon registered
        simp [back, hasColon]

/-! ## Runs -/

structure State where
  env : Environment
  records : List Record

inductive Event where
  | rotate (env : Environment)
  | write (value : Option Text) (iv : List UInt8)

def step (cipher : Cipher) (letters : Letters) (s : State) : Event → State
  | .rotate env => { s with env := env }
  | .write value iv => { s with records := s.records ++ [write cipher letters s.env value iv] }

theorem written_of_run (env : Environment) (es : List Event) :
    ∀ record ∈ (es.foldl (step cipher letters) ⟨env, []⟩).records,
      ∃ env value iv, record = write cipher letters env value iv := by
  refine Runs.inv_foldl (fun s : State => ∀ record ∈ s.records,
    ∃ env value iv, record = write cipher letters env value iv) ?_ (by simp) es
  intro s e written record hrecord
  cases e with
  | rotate env => exact written record hrecord
  | write value iv =>
    rcases List.mem_append.1 hrecord with hold | hnew
    · exact written record hold
    · exact ⟨s.env, value, iv, List.mem_singleton.1 hnew⟩

/-- After every sequence of rotations and writes, a value whose key is still registered is read back
exactly if it is readable. -/
theorem decryptField_encryptField_iff (cipher : Cipher) (letters : Letters) (env : Environment)
    (es : List Event) :
    let final := es.foldl (step cipher letters) ⟨env, []⟩
    ∀ record ∈ final.records, Registered letters final.env record.used →
      (decryptField cipher letters final.env record.stored = .ok record.value ↔
        Readable record) := by
  intro final record hrecord registered
  obtain ⟨env, value, iv, rfl⟩ := written_of_run env es record hrecord
  exact decryptField_write_iff value iv registered

/-! ## Examples -/

def asciiLetters : Letters where
  toLowerCase s := s.map fun c => if 'A'.toNat ≤ c ∧ c ≤ 'Z'.toNat then c + 32 else c
  idempotent s := by
    rw [List.map_map]
    refine List.map_congr_left fun c _ => ?_
    have range : 'A'.toNat = 65 ∧ 'Z'.toNat = 90 := ⟨rfl, rfl⟩
    simp only [Function.comp_apply]
    split_ifs <;> omega

/-- A text with each code unit as so many ones. -/
def unary (s : Text) : List UInt8 := s.flatMap fun c => List.replicate c 1 ++ [0]

def ofUnary (n : ℕ) : List UInt8 → Text
  | [] => []
  | byte :: bytes => if byte = 0 then n :: ofUnary 0 bytes else ofUnary (n + 1) bytes

theorem ofUnary_unary (s : Text) : ofUnary 0 (unary s) = s := by
  have one (m n : ℕ) (bytes : List UInt8) :
      ofUnary m (List.replicate n 1 ++ 0 :: bytes) = (m + n) :: ofUnary 0 bytes := by
    induction n generalizing m with
    | zero => rfl
    | succ n ih =>
      rw [List.replicate_succ, List.cons_append, ofUnary, if_neg (by decide), ih]
      congr 1
      omega
  induction s with
  | nil => rfl
  | cons c s ih =>
    rw [unary, List.flatMap_cons, List.append_assoc, List.singleton_append, one, Nat.zero_add,
      ← unary, ih]

/-- A ciphertext that is bound to its key by a tag, and hides nothing. -/
def taggedCipher : Cipher where
  Key := Text
  deriveKey material := material
  encrypt key _ plaintext := (unary key, unary plaintext)
  decrypt key _ authTag ciphertext :=
    if ofUnary 0 authTag = key then some (ofUnary 0 ciphertext) else none
  decrypt_encrypt key iv plaintext := by
    rw [ofUnary_unary, ofUnary_unary, if_pos rfl]
  decrypt_of_ne {key key'} iv plaintext h := by
    rw [ofUnary_unary, if_neg (Ne.symm h)]

def environment (active : String) (versions : List (String × String)) : Environment where
  processEnv := [(text "DB_ENCRYPTION_KEY", text "master"),
    (text "ACTIVE_ENCRYPTION_KEY_VERSION", text active)]
  DB_ENCRYPTION_KEY := text "development"
  DB_ENCRYPTION_KEYS := some (versions.map fun version => (text version.1, text version.2))

/-- One value from before there were versions, and one of the first version. -/
def rotations : List Event :=
  [.write (some (text "alice")) [1], .rotate (environment "V1" [("v1", "first")]),
    .write (some (text "bob")) [2],
    .rotate (environment "v2" [("v1", "first"), ("v2", "second")])]

theorem decryptField_after_rotations :
    let final := rotations.foldl (step taggedCipher asciiLetters) ⟨environment "" [], []⟩
    ∀ record ∈ final.records,
      decryptField taggedCipher asciiLetters final.env record.stored = .ok record.value := by
  intro final record hrecord
  have legacy : keyUsed asciiLetters (environment "" []) = (none, text "master") := by decide
  have first : keyUsed asciiLetters (environment "V1" [("v1", "first")]) =
      (some (text "v1"), text "first") := by decide
  have facts : Registered asciiLetters final.env record.used ∧ Readable record := by
    rcases List.mem_cons.1 hrecord with rfl | hrecord
    · refine ⟨?_, ?_⟩
      · rw [write, legacy]
        exact ⟨text "legacy", by decide⟩
      · rintro plaintext ⟨⟩
        refine ⟨by decide, .inr ?_⟩
        rw [write, legacy]
        exact fun version h => absurd h (by simp)
    · obtain rfl := List.mem_singleton.1 hrecord
      refine ⟨?_, ?_⟩
      · show Registered asciiLetters _ (keyUsed asciiLetters (environment "V1" [("v1", "first")]))
        rw [first]
        exact (by decide : Entries.get? (text "v1") (getEncryptionKeys asciiLetters
          (environment "v2" [("v1", "first"), ("v2", "second")])) = some (text "first"))
      · rintro plaintext ⟨⟩
        refine ⟨by decide, .inr ?_⟩
        show ∀ version ∈ (keyUsed asciiLetters (environment "V1" [("v1", "first")])).1,
          colon ∉ version
        rw [first]
        rintro version ⟨⟩
        decide
  exact (decryptField_encryptField_iff taggedCipher asciiLetters (environment "" []) rotations
    record hrecord facts.1).2 facts.2

/-- The key of a version with a colon in its name stays registered, and cannot be found. -/
theorem decryptField_colon_lost :
    let env := environment "eu:1" [("eu:1", "k")]
    let record := write taggedCipher asciiLetters env (some (text "bob")) [1]
    Registered asciiLetters env record.used ∧
      decryptField taggedCipher asciiLetters env record.stored ≠ .ok record.value := by
  intro env record
  have used : keyUsed asciiLetters env = (some (text "eu:1"), text "k") := by decide
  have registered : Registered asciiLetters env (keyUsed asciiLetters env) := by
    rw [used]
    exact (by decide : Entries.get? (text "eu:1") (getEncryptionKeys asciiLetters env) =
      some (text "k"))
  refine ⟨registered, fun back => ?_⟩
  have readable := (decryptField_write_iff (some (text "bob")) [1] registered).1 back
  have colonFree := ((readable (text "bob") rfl).2.resolve_left (by decide)) (text "eu:1")
    (show text "eu:1" ∈ (keyUsed asciiLetters env).1 by rw [used]; rfl)
  exact colonFree (by decide)

end MobileMoney.Encryption
