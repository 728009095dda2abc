import MobileMoney.Encryption.Rotation

/-!
# Signed statements about commitments

`signCommitment` and `signCommitmentEnvelope` of `crypto/zkKycProof.ts`: the fields of a statement
are joined by colons, and the UTF-8 of the text is hashed and signed. A text that is left of a text
in UTF-8 stands for the bytes.
-/

namespace MobileMoney.Zk

open Json Encryption

/-! ## The authority -/

/-- ECDSA over SHA-256, ideal: a signature verifies for the digest that was signed only. -/
structure Authority where
  PrivateKey : Type
  PublicKey : Type
  Digest : Type
  Signature : Type
  getPublic : PrivateKey → PublicKey
  sha256 : Text → Digest
  sign : PrivateKey → Digest → Signature
  verify : PublicKey → Digest → Signature → Bool
  sha256_injective : Function.Injective sha256
  verify_sign (key : PrivateKey) (digest digest' : Digest) :
    verify (getPublic key) digest' (sign key digest) = true ↔ digest' = digest

structure CommitmentSignatureContext where
  applicantId : Text
  proofType : Text
  proofVersion : Text
  issuedAt : Text
  providerReference : Text
  deriving DecidableEq

variable (authority : Authority)

def signCommitment (privateKey : authority.PrivateKey) (commitmentHex attributeType : Text) :
    authority.Signature :=
  let msg := commitmentHex ++ colon :: attributeType
  let msgHash := authority.sha256 (wellFormed msg)
  authority.sign privateKey msgHash

def verifyCommitmentSignature (publicKey : authority.PublicKey)
    (commitmentHex attributeType : Text) (signature : authority.Signature) : Bool :=
  let msg := commitmentHex ++ colon :: attributeType
  let msgHash := authority.sha256 (wellFormed msg)
  authority.verify publicKey msgHash signature

def serializeSignatureContext (context : CommitmentSignatureContext) : Text :=
  List.intercalate [colon] [context.applicantId, context.proofType, context.proofVersion,
    context.issuedAt, context.providerReference]

def signCommitmentEnvelope (privateKey : authority.PrivateKey) (commitmentHex : Text)
    (context : CommitmentSignatureContext) : authority.Signature :=
  let msg := commitmentHex ++ colon :: serializeSignatureContext context
  let msgHash := authority.sha256 (wellFormed msg)
  authority.sign privateKey msgHash

def verifyCommitmentEnvelopeSignature (publicKey : authority.PublicKey) (commitmentHex : Text)
    (context : CommitmentSignatureContext) (signature : authority.Signature) : Bool :=
  let msg := commitmentHex ++ colon :: serializeSignatureContext context
  let msgHash := authority.sha256 (wellFormed msg)
  authority.verify publicKey msgHash signature

/-! ## Statements -/

inductive Statement where
  | commitment (commitmentHex attributeType : Text)
  | envelope (commitmentHex : Text) (context : CommitmentSignatureContext)
  deriving DecidableEq

namespace Statement

def sign (privateKey : authority.PrivateKey) : Statement → authority.Signature
  | commitment commitmentHex attributeType =>
    signCommitment authority privateKey commitmentHex attributeType
  | envelope commitmentHex context =>
    signCommitmentEnvelope authority privateKey commitmentHex context

def verify (publicKey : authority.PublicKey) (signature : authority.Signature) : Statement → Bool
  | commitment commitmentHex attributeType =>
    verifyCommitmentSignature authority publicKey commitmentHex attributeType signature
  | envelope commitmentHex context =>
    verifyCommitmentEnvelopeSignature authority publicKey commitmentHex context signature

def msg : Statement → Text
  | commitment commitmentHex attributeType => commitmentHex ++ colon :: attributeType
  | envelope commitmentHex context => commitmentHex ++ colon :: serializeSignatureContext context

/-- What is hashed. -/
def signed (statement : Statement) : Text := wellFormed statement.msg

/-- Two fields without colons, in which UTF-8 replaces nothing and nothing looks replaced. -/
def Unambiguous : Statement → Prop
  | commitment commitmentHex attributeType =>
    (colon ∉ commitmentHex ∧ colon ∉ attributeType) ∧
      0xFFFD ∉ wellFormed commitmentHex ∧ 0xFFFD ∉ wellFormed attributeType
  | envelope _ _ => False

end Statement

variable {authority}

/-- An ideal signature verifies for the statements with the same signed text. -/
theorem verify_sign_iff (privateKey : authority.PrivateKey) (statement statement' : Statement) :
    statement'.verify authority (authority.getPublic privateKey)
        (statement.sign authority privateKey) = true ↔
      statement'.signed = statement.signed := by
  cases statement <;> cases statement' <;>
    exact (authority.verify_sign privateKey _ _).trans authority.sha256_injective.eq_iff

/-! ## What UTF-8 keeps -/

/-- A colon separates what comes before and after it. -/
theorem wellFormed_append_colon (s t : Text) :
    wellFormed (s ++ colon :: t) = wellFormed s ++ colon :: wellFormed t :=
  wellFormed_append_cons (by decide) (by decide) s t

/-- Where UTF-8 leaves a replacement, or the character itself stands, another text leaves the
same. -/
theorem exists_ne_of_replacement {s : Text} (h : 0xFFFD ∈ wellFormed s) :
    ∃ s', s' ≠ s ∧ wellFormed s' = wellFormed s := by
  fun_induction wellFormed s with
  | case1 => cases h
  | case2 c lone => exact ⟨[0xFFFD], by rintro ⟨⟩; revert lone; decide, by decide⟩
  | case3 c single =>
    obtain rfl := List.mem_singleton.1 h
    exact ⟨[0xDC00], by decide, by decide⟩
  | case4 c d rest pair ih =>
    have later : 0xFFFD ∈ wellFormed rest := by
      simp only [isHigh, isLow, Bool.and_eq_true, decide_eq_true_eq] at pair
      grind
    obtain ⟨rest', hne, heq⟩ := ih later
    exact ⟨c :: d :: rest', by simpa using hne, by simp [wellFormed, pair, heq]⟩
  | case5 c d rest apart ih =>
    -- A low surrogate, or the character, at the start does not touch what follows.
    by_cases lone : isHigh c ∨ isLow c
    · refine ⟨0xFFFD :: d :: rest, ?_, ?_⟩
      · rintro ⟨⟩
        revert lone
        decide
      · rw [wellFormed_cons_of_not_high (by decide), if_pos lone]
        rfl
    · by_cases replacement : c = 0xFFFD
      · subst replacement
        exact ⟨0xDC00 :: d :: rest, by simp, by
          rw [wellFormed_cons_of_not_high (by decide), if_neg lone]
          rfl⟩
      · have later : 0xFFFD ∈ wellFormed (d :: rest) := by grind
        obtain ⟨rest', hne, heq⟩ := ih later
        have high : isHigh c = false := by simp_all
        exact ⟨c :: rest', by simpa using hne, by
          rw [wellFormed_cons_of_not_high high, heq]
          simp_all⟩

/-! ## Collisions -/

theorem count_serializeSignatureContext (context : CommitmentSignatureContext) :
    4 ≤ (serializeSignatureContext context).count colon := by
  simp only [serializeSignatureContext, List.intercalate, List.intersperse, List.flatten_cons,
    List.flatten_nil, List.count_append, List.count_singleton_self, List.append_nil]
  omega

/-- What is signed for an unambiguous statement is signed for no other. -/
theorem eq_of_signed_eq {statement statement' : Statement} (h : statement.Unambiguous)
    (heq : statement'.signed = statement.signed) : statement' = statement := by
  cases statement with
  | envelope => exact h.elim
  | commitment commitmentHex attributeType =>
    obtain ⟨⟨hcolon, acolon⟩, hkept, akept⟩ := h
    have kept : Statement.signed (.commitment commitmentHex attributeType) =
        commitmentHex ++ colon :: attributeType := by
      rw [Statement.signed, Statement.msg, wellFormed_append_colon, wellFormed_eq_self hkept,
        wellFormed_eq_self akept]
    have noReplacement : 0xFFFD ∉ Statement.signed (.commitment commitmentHex attributeType) := by
      rw [Statement.signed, Statement.msg, wellFormed_append_colon]
      simp [hkept, akept, colon]
    rw [← heq] at kept noReplacement
    have same : statement'.msg = commitmentHex ++ colon :: attributeType :=
      (wellFormed_eq_self noReplacement).symm.trans kept
    have colons : statement'.msg.count colon = 1 := by
      simp [same, List.count_eq_zero.2 hcolon, List.count_eq_zero.2 acolon]
    cases statement' with
    | envelope commitmentHex' context =>
      have := count_serializeSignatureContext context
      simp only [Statement.msg, List.count_append, List.count_cons_self] at colons
      omega
    | commitment commitmentHex' attributeType' =>
      simp only [Statement.msg, List.count_append, List.count_cons_self] at colons same
      have hcolon' : colon ∉ commitmentHex' := List.count_eq_zero.1 (by omega)
      have acolon' : colon ∉ attributeType' := List.count_eq_zero.1 (by omega)
      have parts := congrArg (List.splitOn colon) same
      rw [List.splitOn_append_cons_self_of_not_mem hcolon', List.splitOn_eq_singleton acolon',
        List.splitOn_append_cons_self_of_not_mem hcolon, List.splitOn_eq_singleton acolon] at parts
      obtain ⟨rfl, rfl⟩ := by simpa using parts
      rfl

/-- Every other statement shares what is signed with a third one. -/
theorem exists_ne_of_not_unambiguous {statement : Statement} (h : ¬ statement.Unambiguous) :
    ∃ statement' ≠ statement, statement'.signed = statement.signed := by
  cases statement with
  | envelope commitmentHex context =>
    exact ⟨.commitment commitmentHex (serializeSignatureContext context), nofun, rfl⟩
  | commitment commitmentHex attributeType =>
    by_cases hcolon : colon ∈ commitmentHex
    · obtain ⟨before, after, rfl⟩ := List.append_of_mem hcolon
      refine ⟨.commitment before (after ++ colon :: attributeType), ?_, ?_⟩
      · simp
      · simp [Statement.signed, Statement.msg]
    by_cases acolon : colon ∈ attributeType
    · obtain ⟨before, after, rfl⟩ := List.append_of_mem acolon
      refine ⟨.commitment (commitmentHex ++ colon :: before) after, ?_, ?_⟩
      · simp
      · simp [Statement.signed, Statement.msg]
    by_cases hkept : 0xFFFD ∈ wellFormed commitmentHex
    · obtain ⟨commitmentHex', hne, heq⟩ := exists_ne_of_replacement hkept
      refine ⟨.commitment commitmentHex' attributeType, by simpa using hne, ?_⟩
      simp only [Statement.signed, Statement.msg, wellFormed_append_colon, heq]
    by_cases akept : 0xFFFD ∈ wellFormed attributeType
    · obtain ⟨attributeType', hne, heq⟩ := exists_ne_of_replacement akept
      refine ⟨.commitment commitmentHex attributeType', by simpa using hne, ?_⟩
      simp only [Statement.signed, Statement.msg, wellFormed_append_colon, heq]
    exact absurd ⟨⟨hcolon, acolon⟩, hkept, akept⟩ h

/-- No other statement shares what is signed, and no signature verifies for another statement,
exactly for a commitment with an attribute type, neither of which has a colon or a character that
UTF-8 replaces. -/
theorem statement_unambiguous_iff (authority : Authority) (statement : Statement) :
    ((∀ statement' : Statement, statement'.signed = statement.signed → statement' = statement) ∧
      ∀ (privateKey : authority.PrivateKey) (statement' : Statement),
        statement'.verify authority (authority.getPublic privateKey)
          (statement.sign authority privateKey) = true → statement' = statement) ↔
      statement.Unambiguous := by
  constructor
  · rintro ⟨unique, -⟩
    by_contra ambiguous
    obtain ⟨statement', hne, heq⟩ := exists_ne_of_not_unambiguous ambiguous
    exact hne (unique statement' heq)
  · intro unambiguous
    refine ⟨fun _ heq => eq_of_signed_eq unambiguous heq, fun privateKey _ verified => ?_⟩
    exact eq_of_signed_eq unambiguous ((verify_sign_iff privateKey _ _).1 verified)

/-- Every digest is its own signature. -/
def plainAuthority : Authority where
  PrivateKey := Unit
  PublicKey := Unit
  Digest := Text
  Signature := Text
  getPublic := id
  sha256 := id
  sign _ digest := digest
  verify _ digest signature := digest = signature
  sha256_injective := Function.injective_id
  verify_sign _ _ _ := decide_eq_true_iff

/-- No other statement passes for one about an age. -/
theorem age_unambiguous :
    (∀ statement' : Statement,
      statement'.signed = Statement.signed (.commitment (text "02ab") (text "age")) →
        statement' = .commitment (text "02ab") (text "age")) ∧
    ∀ (privateKey : Unit) (statement' : Statement),
      statement'.verify plainAuthority (plainAuthority.getPublic privateKey)
        (Statement.sign plainAuthority privateKey (.commitment (text "02ab") (text "age"))) =
          true → statement' = .commitment (text "02ab") (text "age") :=
  (statement_unambiguous_iff plainAuthority _).2 ⟨by decide, by decide, by decide⟩

def billContext : CommitmentSignatureContext where
  applicantId := text "user-7"
  proofType := text "address_validity"
  proofVersion := text "1.0"
  issuedAt := text "2024-05-01T10:00:00.000Z"
  providerReference := text "utility-bill:user-7"

def billText : Text :=
  text "user-7:address_validity:1.0:2024-05-01T10:00:00.000Z:utility-bill:user-7"

theorem serializeSignatureContext_billContext :
    serializeSignatureContext billContext = billText := by
  have joined : "user-7:address_validity:1.0:2024-05-01T10:00:00.000Z:utility-bill:user-7" =
      "user-7" ++ (":" ++ ("address_validity" ++ (":" ++ ("1.0" ++ (":" ++
        ("2024-05-01T10:00:00.000Z" ++ (":" ++ "utility-bill:user-7"))))))) := rfl
  rw [billText, joined]
  simp only [text_append]
  rfl

/-- A context is signed as the attribute type is that reads the same. -/
theorem context_signed_as_attributeType :
    Statement.envelope (text "02ab") billContext ≠ .commitment (text "02ab") billText ∧
      Statement.signed (.envelope (text "02ab") billContext) =
        Statement.signed (.commitment (text "02ab") billText) :=
  ⟨nofun, congrArg (fun s => wellFormed (text "02ab" ++ colon :: s))
    serializeSignatureContext_billContext⟩

end MobileMoney.Zk
