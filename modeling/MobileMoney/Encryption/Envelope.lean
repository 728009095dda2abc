import Mathlib.Data.List.DropRight
import MobileMoney.Encryption.Rotation
import MobileMoney.Library.Answers
import MobileMoney.Library.Checked

/-!
# Secrets in envelopes

The envelope encryption of `utils/encryption.ts` and the credentials of
`models/providerCredential.ts` that are kept in it. A secret is encrypted with a key of its own,
which is encrypted with a master key of the environment. Both layers are bound to the version of
the master key and to the context of the record.

The cipher is ideal: what it has encrypted opens under the same key and the same additional data,
to what was encrypted, and under no others. Base64 is a parameter, and so is UTF-8, except that it
keeps the well-formed part of a text. Reads may be answered by a replica that lags behind. A
statement that fails is one that is not executed, or the same as one that is. Zeroing keys, and who
wrote a row and when, are left out.
-/

namespace MobileMoney.Encryption.Envelope

open Json
open Checked (bind_eq_ok bind_eq_error pure_eq_ok)

abbrev Bytes := List UInt8

def dekLength : ℕ := 32
def ivLength : ℕ := 12
def authTagLength : ℕ := 16

/-- A key that AES-256 takes. -/
abbrev AesKey := { bytes : Bytes // bytes.length = dekLength }

abbrev Iv := { bytes : Bytes // bytes.length = ivLength }

/-- AES-256-GCM and the text encoding. -/
structure Gcm where
  Ciphertext : Type
  /-- The ciphertext and the authentication tag of a plaintext. -/
  encrypt (key : AesKey) (iv aad plaintext : Bytes) : Ciphertext × Bytes
  decrypt (key : AesKey) (iv aad : Bytes) (ciphertext : Ciphertext) (authTag : Bytes) :
    Option Bytes
  utf8 : Text → Bytes
  ofUtf8 : Bytes → Text
  ofUtf8_utf8 (s : Text) : ofUtf8 (utf8 s) = wellFormed s
  length_authTag (key : AesKey) (iv aad plaintext : Bytes) :
    (encrypt key iv aad plaintext).2.length = authTagLength
  decrypt_encrypt (key : AesKey) (iv aad plaintext : Bytes) :
    decrypt key iv aad (encrypt key iv aad plaintext).1 (encrypt key iv aad plaintext).2 =
      some plaintext
  binding {key key' : AesKey} {iv iv' aad aad' plaintext opened : Bytes} :
    decrypt key' iv' aad' (encrypt key iv aad plaintext).1 (encrypt key iv aad plaintext).2 =
      some opened → key' = key ∧ aad' = aad ∧ opened = plaintext

variable (gcm : Gcm)

structure EnvelopeEncryptedSecret where
  ciphertext : gcm.Ciphertext
  iv : Bytes
  authTag : Bytes
  encryptedDek : gcm.Ciphertext
  dekIv : Bytes
  dekAuthTag : Bytes
  keyVersion : Text

structure SecretsMasterKey where
  version : Text
  key : AesKey

/-! ## Master keys -/

variable (base64 : Text → Bytes)

def parseMasterKey (raw name : Text) : Except Text AesKey :=
  let value := Words.trim isTrimmed raw
  let key :=
    if value.length = 64 ∧ value.all fun c => (hexValue c).isSome then unhex value
    else base64 value
  if h : key.length = dekLength then .ok ⟨key, h⟩
  else .error (name ++
    text " must be a 32-byte key encoded as 64 hex characters or base64")

def getSecretsMasterKey (env : Environment) : Except Text SecretsMasterKey :=
  match env.given "PROVIDER_SECRETS_MASTER_KEY" with
  | none => .error
    (text "PROVIDER_SECRETS_MASTER_KEY is not set; cannot encrypt or decrypt provider secrets")
  | some raw => do
    let key ← parseMasterKey base64 raw (text "PROVIDER_SECRETS_MASTER_KEY")
    return ⟨(env.given "PROVIDER_SECRETS_MASTER_KEY_VERSION").getD (text "v1"), key⟩

-- The engine words these errors.
def typeError : Text := text "TypeError"

/-- `Object.entries`. -/
def objectEntries : Value Text → Except Text (List (Text × Value Text))
  | .null => .error typeError
  | .object entries => .ok entries
  | .array items => .ok (items.zipIdx.map fun (item, i) => (text (toString i), item))
  | .string s => .ok (s.zipIdx.map fun (c, i) => (text (toString i), .string [c]))
  | .bool _ | .number _ => .ok []

def previousKey (entry : Text × Value Text) : Except Text (Text × AesKey) :=
  match entry.2 with
  | .string raw => do
    let key ← parseMasterKey base64 raw (text "PROVIDER_SECRETS_PREVIOUS_KEYS." ++ entry.1)
    return (entry.1, key)
  | _ => .error typeError

def previousKeys (env : Environment) : Except Text (List (Text × AesKey)) :=
  match env.given "PROVIDER_SECRETS_PREVIOUS_KEYS" with
  | none => .ok []
  | some raw =>
    match Json.parse lexemes raw with
    | none => .error (text "PROVIDER_SECRETS_PREVIOUS_KEYS must be a JSON object")
    | some previous => do
      let entries ← objectEntries previous
      entries.mapM (previousKey base64)

/-- The current key takes the place of a previous one of its version. -/
def getSecretsKeyring (env : Environment) : Except Text (List (Text × AesKey)) := do
  let previous ← previousKeys base64 env
  let current ← getSecretsMasterKey base64 env
  return Entries.ofList (fun _ _ => False) (previous ++ [(current.version, current.key)])

/-! ## Envelopes -/

def gcmDecrypt (ciphertext : gcm.Ciphertext) (key : AesKey) (iv authTag aad : Bytes) :
    Option Bytes :=
  if iv.length ≠ ivLength ∨ authTag.length ≠ authTagLength then none
  else gcm.decrypt key iv aad ciphertext authTag

def bar : ℕ := '|'.toNat

def envelopeAad (context keyVersion : Text) (layer : String) : Bytes :=
  gcm.utf8 (text layer ++ bar :: (keyVersion ++ bar :: context))

/-- The random bytes of an encryption. -/
structure Randomness where
  dek : AesKey
  iv : Iv
  dekIv : Iv

def encryptSecret (plaintext context : Text) (masterKey : SecretsMasterKey)
    (random : Randomness) : EnvelopeEncryptedSecret gcm :=
  let data := gcm.encrypt random.dek random.iv.1 (envelopeAad gcm context masterKey.version "data")
    (gcm.utf8 plaintext)
  let wrapped := gcm.encrypt masterKey.key random.dekIv.1
    (envelopeAad gcm context masterKey.version "dek") random.dek.1
  { ciphertext := data.1
    iv := random.iv.1
    authTag := data.2
    encryptedDek := wrapped.1
    dekIv := random.dekIv.1
    dekAuthTag := wrapped.2
    keyVersion := masterKey.version }

/-- The two layers, one after the other. -/
def openEnvelope (payload : EnvelopeEncryptedSecret gcm) (context : Text) (kek : AesKey) :
    Option Text := do
  let dek ← gcmDecrypt gcm payload.encryptedDek kek payload.dekIv payload.dekAuthTag
    (envelopeAad gcm context payload.keyVersion "dek")
  if h : dek.length = dekLength then
    let plaintext ← gcmDecrypt gcm payload.ciphertext ⟨dek, h⟩ payload.iv payload.authTag
      (envelopeAad gcm context payload.keyVersion "data")
    return gcm.ofUtf8 plaintext
  else none

def decryptSecret (payload : EnvelopeEncryptedSecret gcm) (context : Text)
    (keyring : List (Text × AesKey)) : Except Text Text :=
  match Entries.get? payload.keyVersion keyring with
  | none => .error (text "No provider secrets master key configured for version \"" ++
    payload.keyVersion ++ text "\"")
  | some kek =>
    match openEnvelope gcm payload context kek with
    | some value => .ok value
    | none => .error
      (text "Provider secret decryption failed: wrong master key or tampered data")

/-! ## Credentials -/

variable (letters : Letters)

def normalizeProvider (provider : Text) : Text :=
  letters.toLowerCase (Words.trim isTrimmed provider)

def credentialContext (provider credentialName : Text) : Text :=
  text "provider_credentials:" ++ normalizeProvider letters provider ++ colon :: credentialName

/-- The characters that the database counts in a text: a pair of surrogates is one. -/
def characters (s : Text) : ℕ := (wellFormed s).countP fun c => !isLow c

/-- What a `VARCHAR(n)` makes of a text that is too long: it is refused, unless it is too long by
spaces. -/
def varchar (n : ℕ) (s : Text) : Option Text :=
  let excess := characters s - n
  if (s.rtake excess).all (· = ' '.toNat) then some (s.rdrop excess) else none

/-- The table by provider and name of the credential. -/
abbrev Credentials := Text × Text → Option (EnvelopeEncryptedSecret gcm)

/-- Where a credential is stored, if the columns take its provider and its name. -/
def place (normalized credentialName : Text) : Option (Text × Text) := do
  let provider ← varchar 50 normalized
  let name ← varchar 100 credentialName
  return (provider, name)

-- The driver words this error.
def databaseError : Text := text "error"

def upsert (env : Environment) (provider credentialName value : Text) (random : Randomness)
    (table : Credentials gcm) : Except Text (Credentials gcm) :=
  if value = [] then .error (text "Credential value must not be empty")
  else do
    let normalized := normalizeProvider letters provider
    let masterKey ← getSecretsMasterKey base64 env
    let enc := encryptSecret gcm value (credentialContext letters normalized credentialName)
      masterKey random
    match place normalized credentialName, varchar 32 enc.keyVersion with
    | some key, some keyVersion =>
      return Function.update table key (some { enc with keyVersion := keyVersion })
    | _, _ => .error databaseError

/-- What is read from one version of the table. -/
def get (env : Environment) (provider credentialName : Text) (table : Credentials gcm) :
    Except Text (Option Text) :=
  let normalized := normalizeProvider letters provider
  match table (normalized, credentialName) with
  | none => .ok none
  | some row => do
    let keyring ← getSecretsKeyring base64 env
    let value ← decryptSecret gcm row (credentialContext letters normalized credentialName) keyring
    return some value

def delete (provider credentialName : Text) (table : Credentials gcm) : Credentials gcm :=
  Function.update table (normalizeProvider letters provider, credentialName) none

/-! ## Runs -/

/-- A credential that was written, and what it was encrypted with. -/
structure Written where
  provider : Text
  credentialName : Text
  value : Text
  masterKey : SecretsMasterKey
  dek : AesKey

structure State where
  env : Environment
  table : Replicated (Credentials gcm)
  /-- History: what was written so far. -/
  written : List Written

inductive Event where
  | upsert (provider credentialName value : Text) (random : Randomness)
  | delete (provider credentialName : Text)
  | rotate (env : Environment)
  /-- Somebody who has the database overwrites a row. -/
  | tamper (provider credentialName : Text) (row : Option (EnvelopeEncryptedSecret gcm))

def step (s : State gcm) : Event gcm → State gcm
  | .upsert provider credentialName value random =>
    match upsert gcm base64 letters s.env provider credentialName value random s.table.current,
      getSecretsMasterKey base64 s.env with
    | .ok table, .ok masterKey => { s with
        table := s.table.write table
        written := s.written ++ [⟨normalizeProvider letters provider, credentialName, value,
          masterKey, random.dek⟩] }
    | _, _ => s
  | .delete provider credentialName =>
    { s with table := s.table.write (delete gcm letters provider credentialName s.table.current) }
  | .rotate env => { s with env := env }
  | .tamper provider credentialName row =>
    { s with
      table := s.table.write (Function.update s.table.current (provider, credentialName) row) }

variable {gcm base64 letters}

/-! ## Opening -/

theorem gcmDecrypt_eq_some {ciphertext : gcm.Ciphertext} {key : AesKey}
    {iv authTag aad plaintext : Bytes}
    (h : gcmDecrypt gcm ciphertext key iv authTag aad = some plaintext) :
    gcm.decrypt key iv aad ciphertext authTag = some plaintext := by
  unfold gcmDecrypt at h
  split_ifs at h
  exact h

theorem gcmDecrypt_encrypt (key : AesKey) (iv : Iv) (aad plaintext : Bytes) :
    gcmDecrypt gcm (gcm.encrypt key iv.1 aad plaintext).1 key iv.1
      (gcm.encrypt key iv.1 aad plaintext).2 aad = some plaintext := by
  rw [gcmDecrypt, if_neg (by simp [iv.2, gcm.length_authTag]), gcm.decrypt_encrypt]

theorem openEnvelope_eq_some {payload : EnvelopeEncryptedSecret gcm} {context value : Text}
    {kek : AesKey} (h : openEnvelope gcm payload context kek = some value) :
    ∃ dek plaintext, gcm.decrypt kek payload.dekIv
        (envelopeAad gcm context payload.keyVersion "dek") payload.encryptedDek
        payload.dekAuthTag = some dek.1 ∧
      gcm.decrypt dek payload.iv (envelopeAad gcm context payload.keyVersion "data")
        payload.ciphertext payload.authTag = some plaintext ∧ gcm.ofUtf8 plaintext = value := by
  obtain ⟨dek, wrapped, h⟩ := Option.bind_eq_some_iff.1 h
  split_ifs at h with hlen
  obtain ⟨plaintext, data, result⟩ := Option.bind_eq_some_iff.1 h
  exact ⟨⟨dek, hlen⟩, plaintext, gcmDecrypt_eq_some wrapped, gcmDecrypt_eq_some data,
    Option.some.inj result⟩

theorem openEnvelope_encryptSecret (plaintext context : Text) (masterKey : SecretsMasterKey)
    (random : Randomness) (kek : AesKey) (value : Text) :
    openEnvelope gcm (encryptSecret gcm plaintext context masterKey random) context kek =
      some value ↔ kek = masterKey.key ∧ wellFormed plaintext = value := by
  constructor
  · intro h
    obtain ⟨dek, opened, wrapped, data, rfl⟩ := openEnvelope_eq_some h
    obtain ⟨same, -, -⟩ := gcm.binding wrapped
    obtain ⟨-, -, rfl⟩ := gcm.binding data
    exact ⟨same, (gcm.ofUtf8_utf8 plaintext).symm⟩
  · rintro ⟨rfl, rfl⟩
    simp only [openEnvelope, encryptSecret, gcmDecrypt_encrypt, Option.bind_eq_bind,
      Option.bind_some, random.dek.2, dite_true, gcm.ofUtf8_utf8]
    rfl

theorem decryptSecret_eq_ok {row : EnvelopeEncryptedSecret gcm} {context value : Text}
    {keyring : List (Text × AesKey)} : decryptSecret gcm row context keyring = .ok value ↔
      ∃ kek, Entries.get? row.keyVersion keyring = some kek ∧
        openEnvelope gcm row context kek = some value := by
  unfold decryptSecret
  cases Entries.get? row.keyVersion keyring with
  | none => simp
  | some kek => cases opened : openEnvelope gcm row context kek <;> simp [opened]

theorem get_eq_some {env : Environment} {provider credentialName value : Text}
    {table : Credentials gcm} :
    get gcm base64 letters env provider credentialName table = .ok (some value) ↔
      ∃ row keyring kek, table (normalizeProvider letters provider, credentialName) = some row ∧
        getSecretsKeyring base64 env = .ok keyring ∧
        Entries.get? row.keyVersion keyring = some kek ∧
        openEnvelope gcm row (credentialContext letters (normalizeProvider letters provider)
          credentialName) kek = some value := by
  unfold get
  cases hrow : table (normalizeProvider letters provider, credentialName) with
  | none => simp [hrow]
  | some row =>
    simp only [hrow, bind_eq_ok, pure_eq_ok, decryptSecret_eq_ok, Option.some.injEq]
    constructor
    · rintro ⟨keyring, hkeyring, _, ⟨kek, hkek, opened⟩, rfl⟩
      exact ⟨row, keyring, kek, rfl, hkeyring, hkek, opened⟩
    · rintro ⟨_, keyring, kek, rfl, hkeyring, hkek, opened⟩
      exact ⟨keyring, hkeyring, value, ⟨kek, hkek, opened⟩, rfl⟩

/-- A row is read with the key that it was written with, if the environment has it. -/
theorem get_of_encryptSecret {env : Environment} {provider credentialName value : Text}
    {table : Credentials gcm} {masterKey : SecretsMasterKey} {random : Randomness}
    (row : table (normalizeProvider letters provider, credentialName) =
      some (encryptSecret gcm value (credentialContext letters
        (normalizeProvider letters provider) credentialName) masterKey random)) (found : Text) :
    get gcm base64 letters env provider credentialName table = .ok (some found) ↔
      wellFormed value = found ∧ ∃ keyring, getSecretsKeyring base64 env = .ok keyring ∧
        Entries.get? masterKey.version keyring = some masterKey.key := by
  rw [get_eq_some]
  simp only [row, Option.some.injEq]
  constructor
  · rintro ⟨_, keyring, kek, rfl, hkeyring, hkek, opened⟩
    obtain ⟨rfl, rfl⟩ := (openEnvelope_encryptSecret _ _ _ _ _ _).1 opened
    exact ⟨rfl, keyring, hkeyring, hkek⟩
  · rintro ⟨rfl, keyring, hkeyring, hkek⟩
    exact ⟨_, keyring, masterKey.key, rfl, hkeyring, hkek,
      (openEnvelope_encryptSecret _ _ _ _ _ _).2 ⟨rfl, rfl⟩⟩

theorem get_ne_none {env : Environment} {provider credentialName : Text} {table : Credentials gcm}
    {row : EnvelopeEncryptedSecret gcm}
    (h : table (normalizeProvider letters provider, credentialName) = some row) :
    get gcm base64 letters env provider credentialName table ≠ .ok none := by
  simp only [get, h, ne_eq, bind_eq_ok, pure_eq_ok]
  rintro ⟨_, _, _, _, ⟨⟩⟩

/-! ## Additional data -/

theorem utf8_eq {s t : Text} (h : gcm.utf8 s = gcm.utf8 t) : wellFormed s = wellFormed t := by
  rw [← gcm.ofUtf8_utf8 s, h, gcm.ofUtf8_utf8]

theorem mem_wellFormed {c : ℕ} {s : Text} (h : c ∈ wellFormed s) : c = 0xFFFD ∨ c ∈ s := by
  fun_induction wellFormed s with
  | case1 => cases h
  | case2 d lone => exact .inl (List.mem_singleton.1 h)
  | case3 d single => exact .inr h
  | case4 d e rest pair ih =>
    rcases List.mem_cons.1 h with rfl | h
    · simp
    · rcases List.mem_cons.1 h with rfl | h
      · simp
      · rcases ih h with h | h <;> simp [h]
  | case5 d e rest apart ih =>
    rcases List.mem_cons.1 h with rfl | h
    · split_ifs <;> simp
    · rcases ih h with h | h
      · exact .inl h
      · exact .inr (List.mem_cons_of_mem _ h)

theorem eq_of_append_cons {c : ℕ} {s s' t t' : Text} (hs : c ∉ s) (hs' : c ∉ s')
    (h : s ++ c :: t = s' ++ c :: t') : s = s' ∧ t = t' := by
  induction s generalizing s' with
  | nil =>
    cases s' with
    | nil => simpa using h
    | cons d s' =>
      rw [List.nil_append, List.cons_append, List.cons.injEq] at h
      exact absurd List.mem_cons_self (h.1 ▸ hs')
  | cons d s ih =>
    cases s' with
    | nil =>
      rw [List.nil_append, List.cons_append, List.cons.injEq] at h
      exact absurd List.mem_cons_self (h.1 ▸ hs)
    | cons d' s' =>
      rw [List.cons_append, List.cons_append, List.cons.injEq] at h
      obtain ⟨rfl, rfl⟩ := ih (fun h => hs (List.mem_cons_of_mem _ h))
        (fun h => hs' (List.mem_cons_of_mem _ h)) h.2
      exact ⟨by rw [h.1], rfl⟩

/-- A separator that UTF-8 keeps, and that the first parts do not have. -/
theorem wellFormed_separated {c : ℕ} (ascii : c < 0x80) {s s' t t' : Text} (hs : c ∉ s)
    (hs' : c ∉ s') (h : wellFormed (s ++ c :: t) = wellFormed (s' ++ c :: t')) :
    wellFormed s = wellFormed s' ∧ wellFormed t = wellFormed t' := by
  have high : isHigh c = false := by simp [isHigh]; omega
  have low : isLow c = false := by simp [isLow]; omega
  rw [wellFormed_append_cons high low, wellFormed_append_cons high low] at h
  refine eq_of_append_cons ?_ ?_ h
  · intro hc
    rcases mem_wellFormed hc with rfl | hc
    · omega
    · exact hs hc
  · intro hc
    rcases mem_wellFormed hc with rfl | hc
    · omega
    · exact hs' hc

theorem envelopeAad_eq {context context' version version' : Text} {layer layer' : String}
    (hlayer : bar ∉ text layer) (hlayer' : bar ∉ text layer') (hversion : bar ∉ version)
    (hversion' : bar ∉ version')
    (h : envelopeAad gcm context version layer = envelopeAad gcm context' version' layer') :
    wellFormed (text layer) = wellFormed (text layer') ∧
      wellFormed context = wellFormed context' := by
  obtain ⟨layers, rest⟩ := wellFormed_separated (by decide) hlayer hlayer' (utf8_eq h)
  exact ⟨layers, (wellFormed_separated (by decide) hversion hversion' rest).2⟩

/-- A provider without a colon is told by the context, and the credential with it. -/
theorem credentialContext_eq {provider provider' credentialName credentialName' : Text}
    (h : wellFormed (credentialContext letters provider credentialName) =
      wellFormed (credentialContext letters provider' credentialName'))
    (hprovider : colon ∉ normalizeProvider letters provider)
    (hprovider' : colon ∉ normalizeProvider letters provider') :
    wellFormed (normalizeProvider letters provider) =
        wellFormed (normalizeProvider letters provider') ∧
      wellFormed credentialName = wellFormed credentialName' := by
  have start : text "provider_credentials:" = text "provider_credentials" ++ [colon] := by decide
  have noColon : colon ∉ text "provider_credentials" := by decide
  simp only [credentialContext, start, List.append_assoc, List.singleton_append] at h
  exact wellFormed_separated (by decide) hprovider hprovider'
    (wellFormed_separated (by decide) noColon noColon h).2

/-! ## What is read was written -/

variable (gcm letters) in
def aadOf (w : Written) (layer : String) : Bytes :=
  envelopeAad gcm (credentialContext letters w.provider w.credentialName) w.masterKey.version layer

variable (letters) in
/-- Opened, it gives what was encrypted in a layer of an envelope, as additional data says. -/
def Genuine (written : List Written) (ciphertext : gcm.Ciphertext) (iv authTag : Bytes) : Prop :=
  ∀ key aad plaintext, gcm.decrypt key iv aad ciphertext authTag = some plaintext →
    ∃ w ∈ written, aad = aadOf gcm letters w "data" ∧ plaintext = gcm.utf8 w.value ∨
      aad = aadOf gcm letters w "dek" ∧ plaintext = w.dek.1

variable (base64) in
/-- No version of a master key has a bar in its name. -/
def PlainVersions (env : Environment) : Prop :=
  (∀ masterKey, getSecretsMasterKey base64 env = .ok masterKey → bar ∉ masterKey.version) ∧
    ∀ keyring, getSecretsKeyring base64 env = .ok keyring →
      ∀ version kek, Entries.get? version keyring = some kek → bar ∉ version

variable (base64 letters) in
/-- Who overwrites a row has no ciphertext but those that the application has made, of this row or
another, or such as open under no key. -/
def Unforged (s : State gcm) : Event gcm → Prop
  | .tamper _ _ (some row) => Genuine letters s.written row.ciphertext row.iv row.authTag
  | .rotate env => PlainVersions base64 env
  | _ => True

theorem Genuine.mono {written more : List Written} {ciphertext : gcm.Ciphertext}
    {iv authTag : Bytes} (h : Genuine letters written ciphertext iv authTag)
    (hsub : written ⊆ more) : Genuine letters more ciphertext iv authTag := by
  intro key aad plaintext opened
  obtain ⟨w, hw, made⟩ := h key aad plaintext opened
  exact ⟨w, hsub hw, made⟩

theorem genuine_encryptSecret {written : List Written} {w : Written} (hw : w ∈ written)
    (random : Randomness) :
    let secret := encryptSecret gcm w.value
      (credentialContext letters w.provider w.credentialName) w.masterKey random
    Genuine letters written secret.ciphertext secret.iv secret.authTag := by
  intro secret key aad plaintext opened
  obtain ⟨-, haad, hplain⟩ := gcm.binding opened
  exact ⟨w, hw, .inl ⟨haad, hplain⟩⟩

variable (base64 letters) in
structure Sound (s : State gcm) : Prop where
  plain : PlainVersions base64 s.env
  versions : ∀ w ∈ s.written, bar ∉ w.masterKey.version
  genuine : s.table.All fun version => ∀ key row, version key = some row →
    Genuine letters s.written row.ciphertext row.iv row.authTag

variable (gcm letters) in
/-- The row that an upsert makes. -/
def rowOf (provider credentialName value keyVersion : Text) (masterKey : SecretsMasterKey)
    (random : Randomness) : EnvelopeEncryptedSecret gcm :=
  { encryptSecret gcm value (credentialContext letters (normalizeProvider letters provider)
      credentialName) masterKey random with keyVersion := keyVersion }

theorem upsert_eq_ok {env : Environment} {provider credentialName value : Text}
    {random : Randomness} {table table' : Credentials gcm} :
    upsert gcm base64 letters env provider credentialName value random table = .ok table' ↔
      value ≠ [] ∧ ∃ masterKey, getSecretsMasterKey base64 env = .ok masterKey ∧
        ∃ key ∈ place (normalizeProvider letters provider) credentialName,
          ∃ keyVersion ∈ varchar 32 masterKey.version, Function.update table key
            (some (rowOf gcm letters provider credentialName value keyVersion masterKey random)) =
              table' := by
  unfold upsert
  split_ifs with empty
  · simp [empty]
  · simp only [bind_eq_ok, ne_eq, empty, not_false_eq_true, true_and]
    refine exists_congr fun masterKey => and_congr_right fun _ => ?_
    have version : (encryptSecret gcm value (credentialContext letters
      (normalizeProvider letters provider) credentialName) masterKey random).keyVersion =
        masterKey.version := rfl
    rw [version]
    cases place (normalizeProvider letters provider) credentialName with
    | none => simp
    | some key => cases varchar 32 masterKey.version <;> simp [rowOf]

/-- A write that fails leaves everything as it was. -/
theorem step_upsert_cases (s : State gcm) (provider credentialName value : Text)
    (random : Randomness) :
    step gcm base64 letters s (.upsert provider credentialName value random) = s ∨
      ∃ masterKey, getSecretsMasterKey base64 s.env = .ok masterKey ∧
        ∃ key ∈ place (normalizeProvider letters provider) credentialName, ∃ keyVersion,
          step gcm base64 letters s (.upsert provider credentialName value random) = { s with
            table := s.table.write (Function.update s.table.current key
              (some (rowOf gcm letters provider credentialName value keyVersion masterKey random)))
            written := s.written ++ [⟨normalizeProvider letters provider, credentialName, value,
              masterKey, random.dek⟩] } := by
  cases result : upsert gcm base64 letters s.env provider credentialName value random
      s.table.current with
  | error e => exact .inl (by simp only [step, result])
  | ok table =>
    obtain ⟨-, masterKey, current, key, hkey, keyVersion, -, rfl⟩ := upsert_eq_ok.1 result
    exact .inr ⟨masterKey, current, key, hkey, keyVersion, by simp only [step, result, current]⟩

/-- A text that is short enough is taken as it is. -/
theorem varchar_of_le {n : ℕ} {s : Text} (h : characters s ≤ n) : varchar n s = some s := by
  simp [varchar, Nat.sub_eq_zero_of_le h]

/-- The columns take the texts of a credential as they are. -/
structure Fits (normalized credentialName version : Text) : Prop where
  provider : characters normalized ≤ 50
  credentialName : characters credentialName ≤ 100
  version : characters version ≤ 32

theorem Fits.place {normalized credentialName version : Text}
    (h : Fits normalized credentialName version) :
    place normalized credentialName = some (normalized, credentialName) := by
  simp [Envelope.place, varchar_of_le h.provider, varchar_of_le h.credentialName]

theorem step_upsert (s : State gcm) (provider credentialName : Text) {value : Text}
    (random : Randomness) {masterKey : SecretsMasterKey} (nonempty : value ≠ [])
    (current : getSecretsMasterKey base64 s.env = .ok masterKey)
    (fits : Fits (normalizeProvider letters provider) credentialName masterKey.version) :
    step gcm base64 letters s (.upsert provider credentialName value random) = { s with
      table := s.table.write (Function.update s.table.current
        (normalizeProvider letters provider, credentialName)
        (some (encryptSecret gcm value (credentialContext letters
          (normalizeProvider letters provider) credentialName) masterKey random)))
      written := s.written ++ [⟨normalizeProvider letters provider, credentialName, value,
        masterKey, random.dek⟩] } := by
  have result : upsert gcm base64 letters s.env provider credentialName value random
      s.table.current = .ok _ :=
    upsert_eq_ok.2 ⟨nonempty, masterKey, current, _, fits.place, _, varchar_of_le fits.version, rfl⟩
  simp only [step, result, current]
  rfl

theorem Sound.step {s : State gcm} (h : Sound base64 letters s) {e : Event gcm}
    (unforged : Unforged base64 letters s e) :
    Sound base64 letters (step gcm base64 letters s e) := by
  have overwrite {written : List Written} (hsub : s.written ⊆ written) (key : Text × Text)
      (new : Option (EnvelopeEncryptedSecret gcm))
      (hnew : ∀ row ∈ new, Genuine letters written row.ciphertext row.iv row.authTag) :
      (s.table.write (Function.update s.table.current key new)).All fun version =>
        ∀ key row, version key = some row →
          Genuine letters written row.ciphertext row.iv row.authTag := by
    have older := h.genuine.mono fun _ genuine key row hrow => (genuine key row hrow).mono hsub
    refine older.write fun key' row hrow => ?_
    by_cases same : key' = key
    · rw [same, Function.update_self] at hrow
      exact hnew row hrow
    · rw [Function.update_of_ne same] at hrow
      exact older.1 key' row hrow
  cases e with
  | upsert provider credentialName value random =>
    rcases step_upsert_cases s provider credentialName value random with
      same | ⟨masterKey, current, key, -, keyVersion, next⟩
    · rwa [same]
    · rw [next]
      refine ⟨h.plain, ?_, overwrite (List.subset_append_left _ _) _ _ ?_⟩
      · intro w hw
        rcases List.mem_append.1 hw with hw | hw
        · exact h.versions w hw
        · rw [List.mem_singleton.1 hw]
          exact h.plain.1 masterKey current
      · rintro row ⟨⟩
        have hw := List.mem_append_right s.written (List.mem_singleton_self
          (⟨normalizeProvider letters provider, credentialName, value, masterKey,
            random.dek⟩ : Written))
        exact genuine_encryptSecret hw random
  | delete provider credentialName =>
    exact ⟨h.plain, h.versions, overwrite (List.Subset.refl _) _ none fun _ hrow => nomatch hrow⟩
  | rotate env => exact ⟨unforged, h.versions, h.genuine⟩
  | tamper provider credentialName row =>
    refine ⟨h.plain, h.versions, overwrite (List.Subset.refl _) _ row fun row' hrow => ?_⟩
    obtain rfl : row = some row' := hrow
    exact unforged

/-- Whatever is done to the rows with the ciphertexts that exist, a read gives only what was once
written in the same context, which is the same credential if the providers have no colon. -/
theorem get_genuine (env : Environment) (plain : PlainVersions base64 env) (es : List (Event gcm))
    (unforged : Runs.Every (step gcm base64 letters) (Unforged base64 letters)
      ⟨env, ⟨fun _ => none, []⟩, []⟩ es) (provider credentialName value : Text)
    (source : Replicated.Source) :
    let final := es.foldl (step gcm base64 letters) ⟨env, ⟨fun _ => none, []⟩, []⟩
    get gcm base64 letters final.env provider credentialName (final.table.read source) =
        .ok (some value) →
      ∃ w ∈ final.written, wellFormed w.value = value ∧
        wellFormed (credentialContext letters w.provider w.credentialName) = wellFormed
          (credentialContext letters (normalizeProvider letters provider) credentialName) ∧
        (colon ∉ normalizeProvider letters w.provider →
          colon ∉ normalizeProvider letters (normalizeProvider letters provider) →
          wellFormed (normalizeProvider letters w.provider) =
              wellFormed (normalizeProvider letters (normalizeProvider letters provider)) ∧
            wellFormed w.credentialName = wellFormed credentialName) := by
  intro final found
  have sound : Sound base64 letters final :=
    Runs.inv_foldl_of_every (Sound base64 letters) (fun _ _ h hC => h.step hC)
      ⟨plain, by simp, by simp, by simp⟩ es unforged
  obtain ⟨row, keyring, kek, hrow, hkeyring, hkek, opened⟩ := get_eq_some.1 found
  obtain ⟨dek, plaintext, -, data, rfl⟩ := openEnvelope_eq_some opened
  obtain ⟨w, hw, ⟨haad, rfl⟩ | ⟨haad, -⟩⟩ := sound.genuine.read source _ _ hrow _ _ _ data
  · have same := (envelopeAad_eq (by decide) (by decide)
      (sound.plain.2 keyring hkeyring row.keyVersion kek hkek) (sound.versions w hw) haad).2
    exact ⟨w, hw, (gcm.ofUtf8_utf8 w.value).symm, same.symm, credentialContext_eq same.symm⟩
  · -- A wrapped key cannot pass for a secret, since the layers are told apart.
    have layers := (envelopeAad_eq (by decide) (by decide)
      (sound.plain.2 keyring hkeyring row.keyVersion kek hkek) (sound.versions w hw) haad).1
    exact absurd layers (by decide)

/-! ## What is written can be read -/

variable (letters) in
/-- The event is about the row of this credential. -/
def Touches (provider credentialName : Text) : Event gcm → Prop
  | .upsert provider' credentialName' _ _ =>
    place (normalizeProvider letters provider') credentialName' = some (provider, credentialName)
  | .delete provider' credentialName' =>
    (normalizeProvider letters provider', credentialName') = (provider, credentialName)
  | .tamper provider' credentialName' _ => (provider', credentialName') = (provider, credentialName)
  | .rotate _ => False

/-- The versions of the table since some moment all have the row. -/
def Since (old : List (Credentials gcm)) (key : Text × Text) (row : EnvelopeEncryptedSecret gcm)
    (table : Replicated (Credentials gcm)) : Prop :=
  table.current key = some row ∧
    ∃ newer, table.past = newer ++ old ∧ ∀ version ∈ newer, version key = some row

section Since

variable {old : List (Credentials gcm)} {key : Text × Text} {row : EnvelopeEncryptedSecret gcm}
  {table : Replicated (Credentials gcm)}

theorem Since.write (h : Since old key row table) {key' : Text × Text} (other : key' ≠ key)
    (new : Option (EnvelopeEncryptedSecret gcm)) :
    Since old key row (table.write (Function.update table.current key' new)) := by
  obtain ⟨now, newer, past, hnewer⟩ := h
  refine ⟨?_, table.current :: newer, ?_, ?_⟩
  · rw [Replicated.write_current, Function.update_of_ne (Ne.symm other)]
    exact now
  · exact congrArg (table.current :: ·) past
  · exact List.forall_mem_cons.2 ⟨now, hnewer⟩

/-- A replica that has not seen the row shows a version from before it. -/
theorem Since.read (h : Since old key row table) (source : Replicated.Source) :
    table.read source ∈ old ∨ table.read source key = some row := by
  obtain ⟨now, newer, past, hnewer⟩ := h
  rcases List.mem_cons.1 (table.read_mem_versions source) with hread | hread
  · rw [hread]
    exact .inr now
  · rw [past] at hread
    rcases List.mem_append.1 hread with hread | hread
    · exact .inr (hnewer _ hread)
    · exact .inl hread

theorem Since.step {provider credentialName : Text} {s : State gcm}
    (h : Since old (provider, credentialName) row s.table) {e : Event gcm}
    (other : ¬ Touches letters provider credentialName e) :
    Since old (provider, credentialName) row (step gcm base64 letters s e).table := by
  cases e with
  | upsert provider' credentialName' value random =>
    rcases step_upsert_cases s provider' credentialName' value random with
      same | ⟨masterKey, current, key, hkey, keyVersion, next⟩
    · rwa [same]
    · rw [next]
      refine h.write ?_ _
      rintro rfl
      exact other hkey
  | delete provider' credentialName' => exact h.write other none
  | rotate env => exact h
  | tamper provider' credentialName' row => exact h.write other row

theorem Since.run {provider credentialName : Text} {s : State gcm}
    (h : Since old (provider, credentialName) row s.table) {es : List (Event gcm)}
    (others : ∀ e ∈ es, ¬ Touches letters provider credentialName e) :
    Since old (provider, credentialName) row
      (es.foldl (Envelope.step gcm base64 letters) s).table := by
  induction es generalizing s with
  | nil => exact h
  | cons e es ih =>
    obtain ⟨other, others⟩ := List.forall_mem_cons.1 others
    exact ih (h.step other) others

end Since

variable (base64 letters) in
/-- The credential reads as the value exactly as long as the environment has the key that it was
written with under the version of then, and it does not read as missing. -/
structure ReadsAs (env : Environment) (provider credentialName value : Text)
    (masterKey : SecretsMasterKey) (table : Credentials gcm) : Prop where
  value : ∀ found, get gcm base64 letters env provider credentialName table = .ok (some found) ↔
    wellFormed value = found ∧ ∃ keyring, getSecretsKeyring base64 env = .ok keyring ∧
      Entries.get? masterKey.version keyring = some masterKey.key
  present : get gcm base64 letters env provider credentialName table ≠ .ok none

/-- A credential that is written stays readable through rotations, and whatever happens to other
rows. A replica may show the table as it was before. -/
theorem get_after_upsert (s : State gcm) {provider credentialName value : Text}
    (random : Randomness) {masterKey : SecretsMasterKey} (nonempty : value ≠ [])
    (current : getSecretsMasterKey base64 s.env = .ok masterKey)
    (fits : Fits (normalizeProvider letters provider) credentialName masterKey.version)
    (es : List (Event gcm))
    (others : ∀ e ∈ es, ¬ Touches letters (normalizeProvider letters provider) credentialName e) :
    let final := es.foldl (step gcm base64 letters)
      (step gcm base64 letters s (.upsert provider credentialName value random))
    ReadsAs base64 letters final.env provider credentialName value masterKey
        (final.table.read .primary) ∧
      ∀ source, final.table.read source ∈ s.table.versions ∨
        ReadsAs base64 letters final.env provider credentialName value masterKey
          (final.table.read source) := by
  intro final
  have since : Since s.table.versions (normalizeProvider letters provider, credentialName)
      (encryptSecret gcm value (credentialContext letters (normalizeProvider letters provider)
        credentialName) masterKey random) final.table := by
    refine Since.run ?_ others
    rw [step_upsert s provider credentialName random nonempty current fits]
    exact ⟨Function.update_self _ _ _, [], rfl, nofun⟩
  have reads : ∀ version : Credentials gcm,
      version (normalizeProvider letters provider, credentialName) = some (encryptSecret gcm value
        (credentialContext letters (normalizeProvider letters provider) credentialName) masterKey
        random) →
      ReadsAs base64 letters final.env provider credentialName value masterKey version :=
    fun _ row => ⟨get_of_encryptSecret row, get_ne_none row⟩
  exact ⟨reads _ since.1, fun source => (since.read source).imp_right (reads _)⟩

/-! ## Examples -/

/-- A ciphertext that shows what it was made of. -/
def openGcm : Gcm where
  Ciphertext := AesKey × Bytes × Bytes
  encrypt key _ aad plaintext := ((key, aad, plaintext), List.replicate authTagLength 0)
  decrypt key _ aad ciphertext _ :=
    if ciphertext.1 = key ∧ ciphertext.2.1 = aad then some ciphertext.2.2 else none
  utf8 s := unary (wellFormed s)
  ofUtf8 := ofUnary 0
  ofUtf8_utf8 s := ofUnary_unary _
  length_authTag _ _ _ _ := List.length_replicate
  decrypt_encrypt _ _ _ _ := if_pos ⟨rfl, rfl⟩
  binding h := by
    split_ifs at h with same
    exact ⟨same.1.symm, same.2.symm, (Option.some.inj h).symm⟩

/-- The bytes of the first key below, and the only text that is given in Base64. -/
def zeros : Text → Bytes := fun _ => List.replicate 32 0

def zeroKey : AesKey := ⟨List.replicate 32 0, rfl⟩

def firstEnvironment : Environment where
  processEnv := [(text "PROVIDER_SECRETS_MASTER_KEY",
    List.replicate 43 'A'.toNat ++ ['='.toNat])]
  DB_ENCRYPTION_KEY := []
  DB_ENCRYPTION_KEYS := none

/-- The first key is now a previous one. -/
def secondEnvironment : Environment where
  processEnv := [(text "PROVIDER_SECRETS_MASTER_KEY", List.replicate 64 '1'.toNat),
    (text "PROVIDER_SECRETS_MASTER_KEY_VERSION", text "v2"),
    (text "PROVIDER_SECRETS_PREVIOUS_KEYS", text "\x7b\"v1\":\"" ++
      List.replicate 43 'A'.toNat ++ text "=\"\x7d")]
  DB_ENCRYPTION_KEY := []
  DB_ENCRYPTION_KEYS := none

def zeroRandomness : Randomness := ⟨zeroKey, ⟨List.replicate 12 0, rfl⟩, ⟨List.replicate 12 0, rfl⟩⟩

theorem getSecretsMasterKey_first :
    getSecretsMasterKey zeros firstEnvironment = .ok ⟨text "v1", zeroKey⟩ := rfl

theorem getSecretsKeyring_first :
    getSecretsKeyring zeros firstEnvironment = .ok [(text "v1", zeroKey)] := rfl

theorem getSecretsKeyring_second : getSecretsKeyring zeros secondEnvironment =
    .ok [(text "v1", zeroKey), (text "v2", ⟨List.replicate 32 17, rfl⟩)] := rfl

theorem plainVersions_first : PlainVersions zeros firstEnvironment := by
  refine ⟨fun masterKey current => ?_, fun keyring hkeyring version kek hkek => ?_⟩
  · rw [getSecretsMasterKey_first] at current
    cases current
    decide
  · rw [getSecretsKeyring_first] at hkeyring
    cases hkeyring
    rw [Entries.get?_cons] at hkek
    split_ifs at hkek with same
    · rw [← same]
      decide
    · cases hkek

/-- The state before anything is written. -/
def emptyState : State openGcm := ⟨firstEnvironment, ⟨fun _ => none, []⟩, []⟩

/-- The state after a first credential is written. -/
def afterFirst : State openGcm :=
  step openGcm zeros asciiLetters emptyState
    (.upsert (text "mtn") (text "api_key") (text "secret") zeroRandomness)

def firstSecret : EnvelopeEncryptedSecret openGcm :=
  encryptSecret openGcm (text "secret") (credentialContext asciiLetters (text "mtn")
    (text "api_key")) ⟨text "v1", zeroKey⟩ zeroRandomness

def firstWritten : Written :=
  ⟨text "mtn", text "api_key", text "secret", ⟨text "v1", zeroKey⟩, zeroKey⟩

theorem genuine_firstSecret : Genuine asciiLetters [firstWritten] firstSecret.ciphertext
    firstSecret.iv firstSecret.authTag :=
  genuine_encryptSecret (w := firstWritten) (List.mem_singleton_self _) zeroRandomness

theorem fits_first :
    Fits (normalizeProvider asciiLetters (text "mtn")) (text "api_key") (text "v1") :=
  ⟨by decide, by decide, by decide⟩

theorem afterFirst_eq : afterFirst = ⟨firstEnvironment,
    ⟨Function.update (fun _ => none) (text "mtn", text "api_key") (some firstSecret),
      [fun _ => none]⟩, [firstWritten]⟩ :=
  step_upsert emptyState (text "mtn") (text "api_key") zeroRandomness (by decide)
    getSecretsMasterKey_first fits_first

/-- The first key has become a previous one. -/
theorem get_after_upsert_rotated :
    let final := step openGcm zeros asciiLetters afterFirst (.rotate secondEnvironment)
    get openGcm zeros asciiLetters final.env (text "mtn") (text "api_key")
      (final.table.read .primary) = .ok (some (text "secret")) :=
  ((@get_after_upsert openGcm zeros asciiLetters emptyState (text "mtn") (text "api_key")
    (text "secret") zeroRandomness _ (by decide) getSecretsMasterKey_first fits_first
    [.rotate secondEnvironment] (by simp [Touches])).1.value _).2
      ⟨by decide, _, getSecretsKeyring_second, rfl⟩

/-- The row is copied to another provider. -/
def afterCopy : State openGcm :=
  step openGcm zeros asciiLetters afterFirst
    (.tamper (text "airtel") (text "api_key") (some firstSecret))

/-- The copy is refused, and the original reads as what was written. -/
theorem get_genuine_copied :
    get openGcm zeros asciiLetters afterCopy.env (text "airtel") (text "api_key")
        (afterCopy.table.read .primary) =
      .error (text "Provider secret decryption failed: wrong master key or tampered data") ∧
    ∃ w ∈ afterCopy.written, wellFormed w.value = text "secret" := by
  have unforged : Runs.Every (step openGcm zeros asciiLetters) (Unforged zeros asciiLetters)
      emptyState [.upsert (text "mtn") (text "api_key") (text "secret") zeroRandomness,
        .tamper (text "airtel") (text "api_key") (some firstSecret)] := by
    refine ⟨trivial, ?_, trivial⟩
    show Unforged zeros asciiLetters afterFirst _
    rw [afterFirst_eq]
    exact genuine_firstSecret
  have after : afterCopy = ⟨firstEnvironment,
      ⟨Function.update (Function.update (fun _ => none) (text "mtn", text "api_key")
        (some firstSecret)) (text "airtel", text "api_key") (some firstSecret),
        [Function.update (fun _ => none) (text "mtn", text "api_key") (some firstSecret),
          fun _ => none]⟩, [firstWritten]⟩ := by
    unfold afterCopy
    rw [afterFirst_eq]
    rfl
  have original : afterCopy.table.current
      (normalizeProvider asciiLetters (text "mtn"), text "api_key") = some firstSecret := by
    have named : normalizeProvider asciiLetters (text "mtn") = text "mtn" := by decide
    have other : ((text "mtn", text "api_key") : Text × Text) ≠
        (text "airtel", text "api_key") := by
      decide
    rw [after, named]
    dsimp only
    rw [Function.update_of_ne other, Function.update_self]
  have copied : afterCopy.table.current
      (normalizeProvider asciiLetters (text "airtel"), text "api_key") = some firstSecret := by
    have named : normalizeProvider asciiLetters (text "airtel") = text "airtel" := by decide
    rw [after, named]
    dsimp only
    rw [Function.update_self]
  have refused : openEnvelope openGcm firstSecret (credentialContext asciiLetters
      (normalizeProvider asciiLetters (text "airtel")) (text "api_key")) zeroKey = none := by
    decide +kernel
  have keyring : getSecretsKeyring zeros afterCopy.env = .ok [(text "v1", zeroKey)] := by
    rw [after]
    exact getSecretsKeyring_first
  refine ⟨?_, ?_⟩
  · simp only [get, Replicated.read, copied]
    refine bind_eq_error.2 (.inr ⟨_, keyring, bind_eq_error.2 (.inl ?_)⟩)
    have key : Entries.get? firstSecret.keyVersion [(text "v1", zeroKey)] = some zeroKey := rfl
    rw [decryptSecret, key]
    dsimp only
    rw [refused]
  · obtain ⟨w, hw, value, -⟩ := get_genuine firstEnvironment plainVersions_first _ unforged
      (text "mtn") (text "api_key") (text "secret") .primary
      ((get_of_encryptSecret original _).2 ⟨by decide, _, getSecretsKeyring_first, rfl⟩)
    exact ⟨w, hw, value⟩

end MobileMoney.Encryption.Envelope
