import MobileMoney.Library.Json
import MobileMoney.Library.Words

/-!
# Encryption of fields

`getEncryptionKeys`, `encryptField` and `decryptField` of `utils/encryption.ts`. A value is
encrypted with the active version of the key, whose name then stands before the payload, or with the
legacy key and no name. The cipher is ideal: it decrypts under the key used to encrypt, and under no
other. A buffer is modelled by the text that it is UTF-8 of.
-/

namespace MobileMoney.Encryption

open Json

/-- The letters of the language. -/
structure Letters where
  toLowerCase : Text → Text
  idempotent (s : Text) : toLowerCase (toLowerCase s) = toLowerCase s

/-- AES-GCM with keys derived from key material. -/
structure Cipher where
  Key : Type
  deriveKey : Text → Key
  /-- The authentication tag and the ciphertext. -/
  encrypt : Key → List UInt8 → Text → List UInt8 × List UInt8
  decrypt : Key → List UInt8 → List UInt8 → List UInt8 → Option Text
  decrypt_encrypt (key : Key) (iv : List UInt8) (plaintext : Text) :
    decrypt key iv (encrypt key iv plaintext).1 (encrypt key iv plaintext).2 = some plaintext
  decrypt_of_ne {key key' : Key} (iv : List UInt8) (plaintext : Text) : key' ≠ key →
    decrypt key' iv (encrypt key iv plaintext).1 (encrypt key iv plaintext).2 = none

/-! ## Payloads -/

/-- The text that is left of a text in UTF-8. -/
@[grind =] def wellFormed : Text → Text
  | [] => []
  | [c] => if isHigh c ∨ isLow c then [0xFFFD] else [c]
  | c :: d :: rest =>
    if isHigh c ∧ isLow d then c :: d :: wellFormed rest
    else (if isHigh c ∨ isLow c then 0xFFFD else c) :: wellFormed (d :: rest)

def hex (bytes : List UInt8) : Text :=
  bytes.flatMap fun byte => [hexDigit (byte.toNat / 16), hexDigit (byte.toNat % 16)]

/-- `Buffer.from(s, "hex")`. -/
def unhex : Text → List UInt8
  | a :: b :: rest =>
    match hexValue a, hexValue b with
    | some x, some y => UInt8.ofNat (x * 16 + y) :: unhex rest
    | _, _ => []
  | _ => []

structure EncryptedPayload where
  iv : Text
  authTag : Text
  ciphertext : Text

def colon : ℕ := ':'.toNat

def serializePayload (payload : EncryptedPayload) : Text :=
  payload.iv ++ colon :: (payload.authTag ++ colon :: payload.ciphertext)

def deserializePayload (raw : Text) : Except String EncryptedPayload :=
  match raw.splitOn colon with
  | [iv, authTag, ciphertext] => .ok ⟨iv, authTag, ciphertext⟩
  | _ => .error "Invalid encrypted payload format — expected iv:authTag:ciphertext"

variable (cipher : Cipher)

def encryptAES (plaintext : Text) (key : cipher.Key) (iv : List UInt8) : EncryptedPayload :=
  let encrypted := cipher.encrypt key iv (wellFormed plaintext)
  ⟨hex iv, hex encrypted.1, hex encrypted.2⟩

def decryptAES (payload : EncryptedPayload) (key : cipher.Key) : Except String Text :=
  match cipher.decrypt key (unhex payload.iv) (unhex payload.authTag)
      (unhex payload.ciphertext) with
  | some plaintext => .ok plaintext
  | none => .error ("PII decryption failed: authentication tag mismatch. " ++
      "The data may be corrupt or the wrong key was used.")

/-! ## Keys -/

/-- The variables of the process, and what `config/env.ts` makes of the key. The versions are the
entries of the JSON in `DB_ENCRYPTION_KEYS`, if there is any; a key is a text. -/
structure Environment where
  processEnv : List (Text × Text)
  DB_ENCRYPTION_KEY : Text
  DB_ENCRYPTION_KEYS : Option (List (Text × Text))

/-- A variable that is set and not empty. -/
def Environment.given (env : Environment) (name : String) : Option Text :=
  (Entries.get? (text name) env.processEnv).filter (· ≠ [])

def currentKey (env : Environment) : List (Text × Text) :=
  let key := (env.given "DB_ENCRYPTION_KEY").getD env.DB_ENCRYPTION_KEY
  if key = [] then [] else [(text "legacy", key)]

def fallbackKeys (env : Environment) : List (Text × Text) :=
  ((env.given "DB_ENCRYPTION_KEYS_FALLBACK").elim [] (·.splitOn ','.toNat)).zipIdx.filterMap
    fun (fallback, idx) =>
      let trimmed := Words.trim isTrimmed fallback
      if trimmed = [] then none else some (text "fallback_" ++ text (toString idx), trimmed)

variable (letters : Letters)

def versionKeys (env : Environment) : List (Text × Text) :=
  (env.DB_ENCRYPTION_KEYS.getD []).map fun (version, key) => (letters.toLowerCase version, key)

def variableKeys (env : Environment) : List (Text × Text) :=
  let start := text "DB_ENCRYPTION_KEY_"
  (env.processEnv.filter fun (name, key) => start <+: name ∧ key ≠ [] ∧
      name ≠ text "DB_ENCRYPTION_KEY_VERSION" ∧ name ≠ text "DB_ENCRYPTION_KEYS_FALLBACK").map
    fun (name, key) => (letters.toLowerCase (name.drop start.length), key)

/-- A map whose entries stay where they were first set. -/
def getEncryptionKeys (env : Environment) : List (Text × Text) :=
  Entries.ofList (fun _ _ => False)
    (currentKey env ++ fallbackKeys env ++ versionKeys letters env ++ variableKeys letters env)

/-! ## Fields -/

/-- The version that is active and registered, unless it is the legacy one, and its key. -/
def activeKey (env : Environment) : Option (Text × Text) :=
  let activeVersion :=
    letters.toLowerCase ((env.given "ACTIVE_ENCRYPTION_KEY_VERSION").getD [])
  if activeVersion = [] ∨ activeVersion = text "legacy" then none
  else (Entries.get? activeVersion (getEncryptionKeys letters env)).map (activeVersion, ·)

def legacyKey (env : Environment) : Text :=
  ((Entries.get? (text "legacy") (getEncryptionKeys letters env)).filter (· ≠ [])).getD
    env.DB_ENCRYPTION_KEY

def encryptField (env : Environment) (value : Option Text) (iv : List UInt8) : Option Text :=
  match value with
  | none => none
  | some [] => some []
  | some value =>
    match activeKey letters env with
    | some (activeVersion, keyMaterial) =>
      some (activeVersion ++ colon ::
        serializePayload (encryptAES cipher value (cipher.deriveKey keyMaterial) iv))
    | none =>
      some (serializePayload
        (encryptAES cipher value (cipher.deriveKey (legacyKey letters env)) iv))

/-- One key after the other is tried. -/
def tryKeys (raw : Text) : List cipher.Key → Except String Text
  | [] => .ok raw
  | key :: keys =>
    match deserializePayload raw >>= fun payload => decryptAES cipher payload key with
    | .ok plaintext => .ok plaintext
    | .error e => if keys = [] ∧ colon ∈ raw then .error e else tryKeys raw keys

def decryptField (env : Environment) (raw : Option Text) : Except String (Option Text) :=
  match raw with
  | none => .ok none
  | some [] => .ok (some [])
  | some raw =>
    let parts := raw.splitOn colon
    let keys := getEncryptionKeys letters env
    let version := letters.toLowerCase (parts.headD [])
    match (if 4 ≤ parts.length then Entries.get? version keys else none) with
    | some keyMaterial => do
      let payload ← deserializePayload (List.intercalate [colon] parts.tail)
      let plaintext ← decryptAES cipher payload (cipher.deriveKey keyMaterial)
      return some plaintext
    | none => (tryKeys cipher raw (keys.map fun key => cipher.deriveKey key.2)).map some

end MobileMoney.Encryption
