import MobileMoney.Contracts.Escrow.Custody
import MobileMoney.Contracts.Htlc.Program

/-!
# The multi-signature law of escrow upgrades and HTLC claims

Both operations are meant to need a number of distinct approved addresses. Both count
the entries of the list the caller sends, so one approved address listed often enough
passes: the law holds of a call exactly when its list `Enforces` the threshold, or the
call is refused for another reason.
-/

namespace MobileMoney

open Soroban

variable {A : Type} [DecidableEq A] {contract : A}

/-! ## Escrow upgrade -/

namespace Escrow

omit [DecidableEq A] in
theorem openState_of_stored {w : EscrowWorld A} (hw : SplitLayout w) {state : EscrowState A}
    (found : stored w = some state) (missing : Failure EscrowError) :
    openState missing w = .ok (state, w.store { w.storage with reentrancy := true }) := by
  have hescrow := stored_eq_some.1 found
  obtain ⟨admins, hadmins⟩ := Option.isSome_iff_exists.1 (hw.hot _ hescrow).2
  simp only [openState, bind_eq_ok, enterGuard_eq_ok, orFail_eq_ok, pure_eq_ok]
  refine ⟨_, ⟨hw.unlocked, rfl⟩, (some state, _), ?_, state, rfl, rfl⟩
  simp [loadState, hescrow, hadmins, World.store]

/-- `upgrade` succeeds exactly when admins are configured and every entry of the list is
approved and authorised, with as many entries as the threshold. -/
theorem upgrade_isOk_iff {env : Invocation A contract} {newWasmHash : BitVec 256}
    {adminSigners : List A} {w : EscrowWorld A} (hw : SplitLayout w) {state : EscrowState A}
    (found : stored w = some state) {admins : EscrowAdmins A}
    (configured : w.storage.escrowAdmins = some admins) :
    (∃ w', upgrade env newWasmHash adminSigners w = .ok w') ↔
      admins.adminSigners ≠ [] ∧
      (∀ a ∈ adminSigners, a ∈ admins.adminSigners ∧ env.authorised a = true) ∧
      admins.requiredAdminSignatures ≤ adminSigners.length := by
  simp only [upgrade, openState_of_stored hw found, bind_eq_ok, Except.ok.injEq,
    exists_eq_left', World.store_storage, configured, orFail_eq_ok, Option.some.injEq,
    require_eq_ok, countAdminSignatures, countSigners_eq_ok, pure_eq_ok, exists_const]
  constructor
  · rintro ⟨_, hne, count, ⟨valid, rfl⟩, enough, -⟩
    exact ⟨hne, valid, enough⟩
  · rintro ⟨hne, valid, enough⟩
    exact ⟨_, hne, _, ⟨valid, rfl⟩, enough, rfl⟩

/-- The law for one call of `upgrade`: whoever authorised it, it succeeds only with a
quorum of the admins. -/
def UpgradeLaw (contract : A) (w : EscrowWorld A) (adminSigners : List A) : Prop :=
  ∀ (env : Invocation A contract) (newWasmHash : BitVec 256) (w' : EscrowWorld A),
    upgrade env newWasmHash adminSigners w = .ok w' →
    ∃ admins, w.storage.escrowAdmins = some admins ∧
      Authorised env admins.adminSigners admins.requiredAdminSignatures

/-- When `upgrade` keeps the law: not initialised, no admins, or a list that enforces the
threshold. -/
def UpgradeSafe (contract : A) (w : EscrowWorld A) (adminSigners : List A) : Prop :=
  ∀ state admins, stored w = some state → w.storage.escrowAdmins = some admins →
    admins.adminSigners = [] ∨
      Enforces contract admins.adminSigners admins.requiredAdminSignatures adminSigners

theorem upgradeLaw_iff {w : EscrowWorld A} (hw : SplitLayout w) (adminSigners : List A) :
    UpgradeLaw contract w adminSigners ↔ UpgradeSafe contract w adminSigners := by
  constructor
  · intro law state admins found configured
    by_cases hne : admins.adminSigners = []
    · exact .inl hne
    · right
      apply enforces_of_signed
      intro env _ valid enough
      obtain ⟨w', hw'⟩ : ∃ w', upgrade env 0 adminSigners w = .ok w' :=
        (upgrade_isOk_iff hw found configured).2 ⟨hne, valid, enough⟩
      obtain ⟨admins', configured', reached⟩ := law env 0 w' hw'
      obtain rfl : admins = admins' := Option.some.inj (configured.symm.trans configured')
      exact reached
  · intro safe env newWasmHash w' h
    have h' := h
    simp only [upgrade, bind_eq_ok] at h'
    obtain ⟨⟨state, _⟩, hopen, -⟩ := h'
    have found := (openState_eq_ok hw hopen).1
    obtain ⟨admins, configured⟩ :=
      Option.isSome_iff_exists.1 (hw.hot _ (stored_eq_some.1 found)).2
    obtain ⟨hne, valid, enough⟩ := (upgrade_isOk_iff hw found configured).1 ⟨w', h⟩
    refine ⟨admins, configured, ?_⟩
    exact ((safe state admins found configured).resolve_left hne).authorised env valid enough

end Escrow

/-! ## HTLC claim -/

namespace Htlc

/-- The law for one call of `claim`: whoever authorised it, it succeeds only with a quorum
of the approved signers. -/
def ClaimLaw (sha256 : BitVec 256 → BitVec 256) (contract : A) (w : HtlcWorld A)
    (preimage : BitVec 256) (signers : List A) : Prop :=
  ∀ (env : Invocation A contract) (w' : HtlcWorld A),
    claim sha256 env preimage signers w = .ok w' →
    ∃ state, w.storage = some state ∧
      Authorised env state.approvedSigners state.requiredSignatures

/-- When `claim` keeps the law: refused whoever signs, no approved signers and no
threshold, or a list that enforces the threshold. -/
def ClaimSafe (sha256 : BitVec 256 → BitVec 256) (contract : A) (w : HtlcWorld A)
    (preimage : BitVec 256) (signers : List A) : Prop :=
  ∀ state, Claimable sha256 contract preimage w state →
    if state.approvedSigners = [] then
      state.requiredSignatures = 0 ∨ state.receiver = contract
    else Enforces contract state.approvedSigners state.requiredSignatures signers

theorem claimLaw_iff {sha256 : BitVec 256 → BitVec 256} {w : HtlcWorld A}
    {preimage : BitVec 256} {signers : List A} :
    ClaimLaw sha256 contract w preimage signers ↔
      ClaimSafe sha256 contract w preimage signers := by
  constructor
  · intro law state claimable
    -- Any invocation that the signature check lets through completes.
    have passes : ∀ env : Invocation A contract, (∀ call, env.accepts call = true) →
        authoriseClaim env state signers = .ok () →
        Authorised env state.approvedSigners state.requiredSignatures := by
      intro env accepts hauth
      obtain ⟨state', hs, reached⟩ :=
        law env _ (claim_eq_ok.2 ⟨state, claimable, hauth, accepts _, rfl⟩)
      obtain rfl : state = state' := Option.some.inj (claimable.stored.symm.trans hs)
      exact reached
    split_ifs with hempty
    · by_cases hreceiver : state.receiver = contract
      · exact .inr hreceiver
      · left
        have hnot : ¬ contract = state.receiver := fun h => hreceiver h.symm
        have reached := passes (.signedBy (· = state.receiver) hnot) (fun _ => rfl)
          (by simp [authoriseClaim_eq_ok, hempty, Invocation.signedBy])
        rw [hempty] at reached
        exact Quorum.reached_nil_iff.1 reached
    · apply enforces_of_signed
      intro env accepts valid enough
      exact passes env accepts (authoriseClaim_eq_ok.2 (by
        rw [if_neg hempty]
        exact ⟨valid, enough⟩))
  · intro safe env w' h
    obtain ⟨state, claimable, hauth, -, -⟩ := claim_eq_ok.1 h
    refine ⟨state, claimable.stored, ?_⟩
    have hsafe := safe state claimable
    rw [authoriseClaim_eq_ok] at hauth
    split_ifs at hauth hsafe with hempty
    · rcases hsafe with hzero | hreceiver
      · rw [hzero]
        exact Quorum.reached_zero _ _
      · exact absurd hreceiver (env.ne_contract_of_authorised hauth)
    · exact hsafe.authorised env hauth.1 hauth.2

end Htlc
/-! ## Both operations over every reachable state -/

/-- In every reachable state of either contract, an operation keeps the multi-signature
law exactly for the signer lists described by `UpgradeSafe` and `ClaimSafe`. -/
theorem multiSig_law_iff :
    (∀ (wasm : BitVec 256) (balances : A → A → ℤ)
      (es : List (Event A contract (Escrow.Operation A))) (adminSigners : List A),
      let w := run Escrow.invoke (Escrow.deployed wasm balances) es
      Escrow.UpgradeLaw contract w adminSigners ↔
        Escrow.UpgradeSafe contract w adminSigners) ∧
    (∀ (sha256 : BitVec 256 → BitVec 256) (balances : A → A → ℤ)
      (es : List (Event A contract (Htlc.Operation A))) (preimage : BitVec 256)
      (signers : List A),
      let w := run (Htlc.invoke sha256) (Htlc.deployed balances) es
      Htlc.ClaimLaw sha256 contract w preimage signers ↔
        Htlc.ClaimSafe sha256 contract w preimage signers) := by
  constructor
  · intro wasm balances es adminSigners
    have start : Escrow.Custodied contract (Escrow.deployed wasm balances) :=
      Escrow.deployed_custodied wasm balances
    exact Escrow.upgradeLaw_iff (Escrow.custodied_invariant.run start es).toSplitLayout
      adminSigners
  · intro sha256 balances es preimage signers
    exact Htlc.claimLaw_iff

section Duplicates

/-- An escrow of 100 units with admins 5 and 6, both needed. -/
def escrowOfTwoAdmins : Escrow.InitializeArgs ℕ :=
  ⟨1, 2, 3, 9, 100, 10, 0, 0, 4, [5, 6], 2⟩

/-- A contract holding 100 units for a claim that needs both 5 and 6. -/
def htlcOfTwoSigners : Htlc.InitializeArgs ℕ := ⟨1, 2, 9, 100, 7, 10, [5, 6], 2⟩

theorem not_authorised_alone :
    ¬ Authorised (.signedBy (· = 5) (by simp) : Invocation ℕ 0) [5, 6] 2 := by
  intro reached
  have two : 2 ≤ ([5, 5] : List ℕ).toFinset.card :=
    reached.le_card (by simp [Invocation.signedBy])
  revert two
  decide

/-- After either initialiser has accepted a list of two and a threshold of two, one
signer listed twice is enough for an upgrade and for a claim. -/
theorem multiSig_counts_duplicates :
    (¬ ∀ (es : List (Event ℕ 0 (Escrow.Operation ℕ))) (adminSigners : List ℕ),
      Escrow.UpgradeLaw 0 (run Escrow.invoke (Escrow.deployed 0 fun _ _ => 100) es)
        adminSigners) ∧
    (¬ ∀ (es : List (Event ℕ 0 (Htlc.Operation ℕ))) (preimage : BitVec 256)
      (signers : List ℕ),
      Htlc.ClaimLaw id 0 (run (Htlc.invoke id) (Htlc.deployed fun _ _ => 100) es)
        preimage signers) := by
  constructor
  · intro law
    obtain ⟨admins, configured, reached⟩ :=
      law [.call (openInvocation 0) (.initializeEscrow escrowOfTwoAdmins)] [5, 5]
        (.signedBy (· = 5) (by simp)) 0 _ rfl
    obtain rfl : admins = ⟨[5, 6], 2⟩ := (Option.some.inj configured).symm
    exact not_authorised_alone reached
  · intro law
    obtain ⟨state, hs, reached⟩ :=
      law [.call (openInvocation 0) (.initializeHtlc htlcOfTwoSigners)] 7 [5, 5]
        (.signedBy (· = 5) (by simp)) _ rfl
    obtain rfl : state = htlcOfTwoSigners.state := (Option.some.inj hs).symm
    exact not_authorised_alone reached

end Duplicates

end MobileMoney
