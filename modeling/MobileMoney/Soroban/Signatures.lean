import MobileMoney.Library.Quorum
import MobileMoney.Soroban.Host

/-!
# Signer lists supplied by a caller

A multi-signature call takes the list of its signers from the caller and checks it entry
by entry: an approved address, which authorised this invocation. `Enforces` says for
which lists counting the entries is counting signers.
-/

namespace MobileMoney.Soroban

variable {ε A : Type} [DecidableEq A] {contract : A}

/-- The signature loop: every listed signer must be approved and must authorise. The
result counts list entries; a host vector is too short for the `u32` to overflow. -/
def countSigners (env : Invocation A contract) (unapproved : Failure ε) (approved : List A) :
    List A → Outcome ε ℕ
  | [] => .ok 0
  | signer :: rest => do
    require (signer ∈ approved) unapproved
    env.requireAuth signer
    let count ← countSigners env unapproved approved rest
    return count + 1

theorem countSigners_eq_ok {env : Invocation A contract} {unapproved : Failure ε}
    {approved signers : List A} {count : ℕ} :
    countSigners env unapproved approved signers = .ok count ↔
      (∀ a ∈ signers, a ∈ approved ∧ env.authorised a = true) ∧ signers.length = count := by
  induction signers generalizing count with
  | nil => simp [countSigners]
  | cons signer rest ih =>
    simp only [countSigners, bind_eq_ok, require_eq_ok, Invocation.requireAuth_eq_ok,
      pure_eq_ok, ih, exists_const, List.forall_mem_cons, List.length_cons]
    constructor
    · rintro ⟨happroved, hauth, n, ⟨hrest, rfl⟩, rfl⟩
      exact ⟨⟨⟨happroved, hauth⟩, hrest⟩, rfl⟩
    · rintro ⟨⟨⟨happroved, hauth⟩, hrest⟩, rfl⟩
      exact ⟨happroved, hauth, rest.length, ⟨hrest, rfl⟩, rfl⟩

/-- A quorum of the approved addresses authorised this invocation. -/
def Authorised (env : Invocation A contract) (approved : List A) (required : ℕ) : Prop :=
  Quorum.Reached (fun a => env.authorised a = true) approved required

/-- Counting the entries of this list cannot mistake fewer signers for the required
number: an entry is refused, or there are too few entries, or enough distinct ones. -/
def Enforces (contract : A) (approved : List A) (required : ℕ) (signers : List A) : Prop :=
  (∃ a ∈ signers, a ∉ approved ∨ a = contract) ∨ signers.length < required ∨
    required ≤ signers.toFinset.card

theorem Enforces.authorised {approved signers : List A} {required : ℕ}
    (h : Enforces contract approved required signers) (env : Invocation A contract)
    (valid : ∀ a ∈ signers, a ∈ approved ∧ env.authorised a = true)
    (enough : required ≤ signers.length) : Authorised env approved required := by
  refine (Quorum.entries_sound_iff (· ≠ contract)).2 ?_ _ ?_ valid enough
  · simpa only [Enforces, ne_eq, not_not] using h
  · intro a ha
    exact env.ne_contract_of_authorised ha

omit [DecidableEq A] in
/-- The invocation that exactly the addresses of `p` authorise and no token refuses. -/
def Invocation.signedBy (p : A → Prop) [DecidablePred p] (hp : ¬ p contract) :
    Invocation A contract where
  timestamp := 0
  sequence := 0
  authorised a := decide (p a)
  contract_unauthorised := by simpa using hp
  accepts _ := true

theorem enforces_of_signed {approved signers : List A} {required : ℕ}
    (h : ∀ env : Invocation A contract, (∀ call, env.accepts call = true) →
      (∀ a ∈ signers, a ∈ approved ∧ env.authorised a = true) →
      required ≤ signers.length → Authorised env approved required) :
    Enforces contract approved required signers := by
  classical
  unfold Enforces
  simp only [← not_ne_iff]
  refine (Quorum.entries_sound_iff (· ≠ contract)).1 ?_
  intro p hp valid enough
  have hcontract : ¬ p contract := fun hc => hp contract hc rfl
  have reached := h (.signedBy p hcontract) (fun _ => rfl)
    (fun a ha => ⟨(valid a ha).1, by simpa [Invocation.signedBy] using (valid a ha).2⟩) enough
  exact reached.mono le_rfl fun a ha => by simpa [Invocation.signedBy] using ha

end MobileMoney.Soroban
