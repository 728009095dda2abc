import MobileMoney.Sep30.Program

/-!
# What a managed key keeps

A rotation draws a key pair, stores its secret and leaves the signers with the old row. The new key
is as good as the old one as long as it gets the drawn address and the old one had no signers
worth the name.
-/

namespace MobileMoney.Sep30

open Interleaving

variable {I B ι : Type}

/-- The service can sign for the address. -/
def ManagedKey.Signs (env : Environment B) (key : ManagedKey I B) : Prop :=
  ∃ secret, env.decrypt key.encryptedSecret = some secret ∧ env.publicKey secret = key.publicKey

/-- An active key has its own secret, and it keeps as many signers as its threshold once it, or
the key that it replaces, has had as many. -/
structure ManagedKey.Kept (env : Environment B) (count : ℕ) (key : ManagedKey I B) : Prop where
  signs : key.isActive → key.Signs env
  signers : key.isActive → key.secured → key.recoveryThreshold ≤ count

def Keeps (env : Environment B) (s : State I B) : Prop :=
  ∀ key ∈ s.keys.rows, key.Kept env (s.signers key.id).length

variable [DecidableEq I] [DecidableEq B]

/-- Constraints of the tables: a threshold is positive, and a signer is one of a key. -/
structure Consistent (s : State I B) : Prop where
  threshold : ∀ key ∈ s.keys.rows, 1 ≤ key.recoveryThreshold
  signers : ∀ keyId, s.keys.find? keyId = none → s.signers keyId = []

/-- A rotation gets the drawn address, and it replaces a key that has never had its signers. -/
def RotationSpares (env : Environment B) (fresh : Fresh I B) (s : State I B) (keyId : I)
    (address : Option B) : Prop :=
  (∀ a ∈ address, a = env.publicKey fresh.secret) ∧ ∀ key ∈ s.keys.find? keyId, key.secured = false

/-- A signer is taken from an active key that has more of them than its threshold, or that has
never had as many. -/
def Phase.Spares (env : Environment B) (fresh : Fresh I B) (s : State I B) : Phase I B → Prop
  | .deletingSigner keyId signerPublicKey =>
    ∀ key ∈ s.keys.find? keyId, key.isActive → key.secured →
      signerPublicKey ∈ s.signers keyId → key.recoveryThreshold < (s.signers keyId).length
  | .completing session key => RotationSpares env fresh s key.id session.requestedNewAddress
  | .rotating key newStellarAddress => RotationSpares env fresh s key.id newStellarAddress
  | _ => True

def SparesKeys (env : Environment B) (input : Input I B) (s : State I B) (phase : Phase I B) :
    Prop :=
  match input with
  | .turn fresh answer => phase.Executes env fresh answer s → phase.Spares env fresh s
  | _ => True

instance (env : Environment B) (fresh : Fresh I B) (s : State I B) (keyId : I)
    (address : Option B) : Decidable (RotationSpares env fresh s keyId address) :=
  inferInstanceAs (Decidable (_ ∧ ∀ key ∈ s.keys.find? keyId, key.secured = false))

instance (env : Environment B) (fresh : Fresh I B) (s : State I B) :
    DecidablePred (Phase.Spares env fresh s)
  | .deletingSigner keyId signerPublicKey => inferInstanceAs (Decidable
      (∀ key ∈ s.keys.find? keyId, key.isActive → key.secured →
        signerPublicKey ∈ s.signers keyId → key.recoveryThreshold < (s.signers keyId).length))
  | .completing session key => inferInstanceAs (Decidable
      (RotationSpares env fresh s key.id session.requestedNewAddress))
  | .rotating key newStellarAddress => inferInstanceAs (Decidable
      (RotationSpares env fresh s key.id newStellarAddress))
  | .call _ | .insertingSigner _ _ | .recheckingKey .. | .listingSigners .. | .findingKey _ _
  | .findingActive .. | .insertingSession .. | .auditingOpened _ _ | .findingSession ..
  | .invalidatingTokens _ _ | .insertingToken _ _ | .auditingToken _ _ | .checkingSigner _ _
  | .checkingToken _ _ | .usingToken _ _ | .approving _ _ | .auditingApproval _ | .rereading _
  | .readingKey _ | .auditingCompletion _ _ | .readingRejected _ _ | .rejecting _ _
  | .auditingRejection _ | .created _ _ | .added | .removed | .opened _ | .issued _ _
  | .approved _ | .rotated _ _ | .cancelled | .threw _ | .crashed =>
    instDecidableTrue

instance (env : Environment B) (s : State I B) (phase : Phase I B) :
    DecidablePred fun input => SparesKeys env input s phase
  | .turn fresh answer => inferInstanceAs (Decidable
      (phase.Executes env fresh answer s → phase.Spares env fresh s))
  | .passes _ | .crash => instDecidableTrue

/-! ## Statements -/

section Statements

variable {env : Environment B} {s : State I B}

omit [DecidableEq I] [DecidableEq B] in
theorem Keeps.congr {s' : State I B} (hkeys : s'.keys = s.keys)
    (hsigners : s'.signers = s.signers) : Keeps env s' ↔ Keeps env s := by
  rw [Keeps, Keeps, hkeys, hsigners]

omit [DecidableEq B] in
theorem keeps_insertKey (s : State I B) (key : ManagedKey I B)
    (absent : s.keys.find? key.id = none) :
    Keeps env { s with keys := s.keys.insert key } ↔
      Keeps env s ∧ key.Kept env (s.signers key.id).length := by
  simp only [Keeps, Keyed.rows_insert absent, List.forall_mem_append, List.forall_mem_singleton]

omit [DecidableEq I] [DecidableEq B] in
theorem ManagedKey.deactivate_kept (key : ManagedKey I B) (count : ℕ) :
    key.deactivate.Kept env count :=
  ⟨nofun, nofun⟩

omit [DecidableEq B] in
theorem Keeps.deactivate (h : Keeps env s) (keyId : I) :
    Keeps env { s with
      keys := s.keys.modify keyId ManagedKey.deactivate ManagedKey.deactivate_id } := by
  intro key hmem
  obtain ⟨old, hold, rfl⟩ := (Keyed.mem_modify ManagedKey.deactivate_id).1 hmem
  split_ifs with hid
  · exact old.deactivate_kept _
  · exact h old hold

theorem Keeps.insertSigner (h : Keeps env s) (keyId : I) (signerPublicKey : B) :
    Keeps env (Statement.run s (.insertSigner keyId signerPublicKey)) := by
  intro key hmem
  obtain ⟨old, hold, rfl⟩ := (Keyed.mem_modify (ManagedKey.secure_id _)).1 hmem
  simp only [Statement.run]
  have kept := h old hold
  split_ifs with hid
  · subst hid
    refine ⟨kept.signs, ?_⟩
    intro hactive hsecured
    have before := kept.signers hactive
    simp only [ManagedKey.secure, Bool.or_eq_true, decide_eq_true_eq] at hsecured
    simp only [ManagedKey.secure, Function.update_self, List.length_append, List.length_singleton]
    rcases hsecured with hsecured | hreached
    · have := before hsecured
      omega
    · exact hreached
  · rw [Function.update_of_ne hid]
    exact kept

theorem keeps_deleteSigner (h : Keeps env s) {keyId : I} {signerPublicKey : B} :
    Keeps env (Statement.run s (.deleteSigner keyId signerPublicKey)) ↔
      ∀ key ∈ s.keys.find? keyId, key.isActive → key.secured →
        signerPublicKey ∈ s.signers keyId → key.recoveryThreshold < (s.signers keyId).length := by
  constructor
  · intro after key hkey hactive hsecured hsigner
    obtain ⟨hmem, rfl⟩ := Keyed.of_find? hkey
    have left := (after key hmem).signers hactive hsecured
    have some_ : 0 < (s.signers key.id).length := List.length_pos_of_mem hsigner
    simp only [Statement.run, Function.update_self, List.length_erase_of_mem hsigner] at left
    omega
  · intro spares key hmem
    have kept := h key hmem
    simp only [Statement.run]
    by_cases hid : key.id = keyId
    · subst hid
      refine ⟨kept.signs, ?_⟩
      intro hactive hsecured
      rw [Function.update_self]
      by_cases hsigner : signerPublicKey ∈ s.signers key.id
      · have more := spares key (Keyed.find?_of_mem hmem) hactive hsecured hsigner
        rw [List.length_erase_of_mem hsigner]
        omega
      · rw [List.erase_of_not_mem hsigner]
        exact kept.signers hactive hsecured
    · rw [Function.update_of_ne hid]
      exact kept

omit [DecidableEq B] in
theorem keeps_rotate (h : Keeps env s) (consistent : Consistent s) {keyId : I}
    {key : ManagedKey I B} (active : key.isActive = true) (positive : 1 ≤ key.recoveryThreshold)
    (absent : s.keys.find? key.id = none) : Keeps env (s.rotate keyId key) ↔
      key.Signs env ∧ ∀ old ∈ s.keys.find? keyId, old.secured = false := by
  have absent' : (s.keys.modify keyId ManagedKey.deactivate ManagedKey.deactivate_id).find?
      key.id = none := by
    rw [Keyed.find?_modify, absent, Option.map_none]
  have none_ := consistent.signers key.id absent
  have inserted : Keeps env (s.rotate keyId key) ↔
      Keeps env { s with
        keys := s.keys.modify keyId ManagedKey.deactivate ManagedKey.deactivate_id } ∧
      ManagedKey.Kept env (s.signers key.id).length
        { key with secured := ((s.keys.find? keyId).map (·.secured)).getD false } :=
    keeps_insertKey { s with
      keys := s.keys.modify keyId ManagedKey.deactivate ManagedKey.deactivate_id } _ absent'
  rw [and_iff_right (h.deactivate keyId)] at inserted
  refine inserted.trans ?_
  constructor
  · rintro ⟨signs, signers⟩
    refine ⟨signs active, ?_⟩
    rintro old hold
    by_contra hsecured
    have enough := signers active (by simpa [Option.mem_def.1 hold] using hsecured)
    simp only [none_, List.length_nil] at enough
    omega
  · rintro ⟨signs, unsecured⟩
    refine ⟨fun _ => signs, ?_⟩
    intro _ hsecured
    cases hold : s.keys.find? keyId with
    | none => simp [hold] at hsecured
    | some old => simp [hold, unsecured old hold] at hsecured

omit [DecidableEq I] [DecidableEq B] in
/-- The drawn secret is that of the drawn address only. -/
theorem newKey_signs (decrypts : ∀ salt secret, env.decrypt (env.encrypt salt secret) = some secret)
    {fresh : Fresh I B} {userId : I} {address : Option B} {recoveryThreshold : ℕ} :
    (newKey env fresh userId address recoveryThreshold).Signs env ↔
      ∀ a ∈ address, a = env.publicKey fresh.secret := by
  cases address with
  | none => simp [ManagedKey.Signs, newKey, decrypts]
  | some address => simp [ManagedKey.Signs, newKey, decrypts, eq_comm]

end Statements

/-! ## Runs -/

section Runs

variable {env : Environment B} {s : State I B}

omit [DecidableEq B] in
theorem Consistent.of_eq {s' : State I B} (h : Consistent s) (hkeys : s'.keys = s.keys)
    (hsigners : s'.signers = s.signers) : Consistent s' :=
  ⟨hkeys ▸ h.threshold, by rw [hkeys, hsigners]; exact h.signers⟩

omit [DecidableEq B] in
theorem Consistent.insertKey (h : Consistent s) {key : ManagedKey I B}
    (positive : 1 ≤ key.recoveryThreshold) (absent : s.keys.find? key.id = none) :
    Consistent { s with keys := s.keys.insert key } where
  threshold := by
    intro key' hmem
    rcases Keyed.mem_insert_cases hmem with hmem | rfl
    · exact h.threshold key' hmem
    · exact positive
  signers := by
    intro keyId hnone
    simp only [Keyed.find?_insert absent] at hnone
    split_ifs at hnone
    exact h.signers keyId hnone

omit [DecidableEq B] in
/-- A change of a row that keeps its threshold. -/
theorem Consistent.modify (h : Consistent s) (keyId : I)
    {f : ManagedKey I B → ManagedKey I B} (same : ∀ key, (f key).id = key.id)
    (threshold : ∀ key, (f key).recoveryThreshold = key.recoveryThreshold) :
    Consistent { s with keys := s.keys.modify keyId f same } where
  threshold := by
    intro key hmem
    obtain ⟨old, hold, rfl⟩ := (Keyed.mem_modify same).1 hmem
    split_ifs
    · rw [threshold]
      exact h.threshold old hold
    · exact h.threshold old hold
  signers := by
    intro keyId' hnone
    rw [Keyed.find?_modify, Option.map_eq_none_iff] at hnone
    exact h.signers keyId' hnone

omit [DecidableEq B] in
theorem Consistent.setSigners (h : Consistent s) {keyId : I} {signers : List B}
    (some_ : s.keys.find? keyId = none → signers = []) :
    Consistent { s with signers := Function.update s.signers keyId signers } where
  threshold := h.threshold
  signers := by
    intro keyId' hnone
    by_cases hid : keyId' = keyId
    · subst hid
      simp only [Function.update_self]
      exact some_ hnone
    · simp only [Function.update_of_ne hid]
      exact h.signers keyId' hnone

omit [DecidableEq B] in
theorem Consistent.rotate (h : Consistent s) (keyId : I) {key : ManagedKey I B}
    (positive : 1 ≤ key.recoveryThreshold) (absent : s.keys.find? key.id = none) :
    Consistent (s.rotate keyId key) := by
  refine (h.modify keyId ManagedKey.deactivate_id fun _ => rfl).insertKey positive ?_
  simp only [Keyed.find?_modify, absent, Option.map_none]

theorem Consistent.run (h : Consistent s) {statement : Statement I B}
    (admitted : statement.Admitted s) : Consistent (statement.run s) := by
  cases statement with
  | insertKey key => exact h.insertKey admitted.1 admitted.2
  | insertSigner keyId signerPublicKey =>
    refine (h.modify keyId (ManagedKey.secure_id _) fun _ => rfl).setSigners ?_
    intro hnone
    rw [Keyed.find?_modify, Option.map_eq_none_iff] at hnone
    exact absurd hnone admitted.1
  | deleteSigner keyId signerPublicKey =>
    refine h.setSigners ?_
    intro hnone
    simp [h.signers keyId hnone]
  | rotate keyId key session =>
    cases session with
    | none => exact h.rotate keyId admitted.1 admitted.2
    | some sessionId => exact (h.rotate keyId admitted.1 admitted.2).of_eq rfl rfl
  | _ => exact h.of_eq rfl rfl

omit [DecidableEq B] in
theorem keeps_newKey_rotate
    (decrypts : ∀ salt secret, env.decrypt (env.encrypt salt secret) = some secret)
    (h : Keeps env s) (consistent : Consistent s) {keyId userId : I} {fresh : Fresh I B}
    {address : Option B} {recoveryThreshold : ℕ}
    (admitted : 1 ≤ recoveryThreshold ∧ s.keys.find? fresh.id = none) :
    Keeps env (s.rotate keyId (newKey env fresh userId address recoveryThreshold)) ↔
      RotationSpares env fresh s keyId address := by
  rw [keeps_rotate h consistent rfl admitted.1 admitted.2, newKey_signs decrypts]
  rfl

/-- What a statement makes of the keys. -/
theorem keeps_run (decrypts : ∀ salt secret, env.decrypt (env.encrypt salt secret) = some secret)
    (h : Keeps env s) (consistent : Consistent s) {fresh : Fresh I B} {phase : Phase I B}
    {statement : Statement I B} (sent : phase.statement env fresh s.now = some statement)
    (admitted : statement.Admitted s) :
    Keeps env (statement.run s) ↔ phase.Spares env fresh s := by
  have unchanged : Keeps env s ↔ True := iff_true_intro h
  cases phase with
  | call call =>
    cases call with
    | createManagedKey userId recoveryThreshold =>
      cases sent
      refine (keeps_insertKey s _ admitted.2).trans ((and_iff_right h).trans (iff_true_intro ?_))
      exact ⟨fun _ => (newKey_signs decrypts).2 nofun, nofun⟩
    | _ => cases sent
  | insertingSigner keyId signerPublicKey =>
    cases sent
    exact iff_true_intro (h.insertSigner keyId signerPublicKey)
  | deletingSigner keyId signerPublicKey =>
    cases sent
    exact keeps_deleteSigner h
  | completing session key =>
    cases sent
    exact (Keeps.congr rfl rfl).trans (keeps_newKey_rotate decrypts h consistent admitted)
  | rotating key newStellarAddress =>
    cases sent
    exact keeps_newKey_rotate decrypts h consistent admitted
  | insertingSession | invalidatingTokens | insertingToken | usingToken | approving | rejecting
  | auditingOpened | auditingToken | auditingApproval | auditingCompletion | auditingRejection =>
    cases sent
    exact (Keeps.congr rfl rfl).trans unchanged
  | _ => cases sent

omit [DecidableEq I] [DecidableEq B] in
theorem note_keys (phase : Phase I B) :
    (s.note phase).keys = s.keys ∧ (s.note phase).signers = s.signers := by
  cases phase <;> exact ⟨rfl, rfl⟩

theorem step_consistent (h : Consistent s) (input : Input I B) (phase : Phase I B) :
    Consistent (step env input s phase).1 := by
  cases input with
  | passes elapsed => exact h.of_eq rfl rfl
  | crash => exact h
  | turn fresh answer =>
    rcases turn_cases env fresh answer s phase with
      ⟨statement, -, hs, -⟩ | ⟨-, ⟨-, hs⟩ | ⟨error, hs⟩ | ⟨phase', -, hs⟩⟩
    · rw [step, hs, State.execute]
      split_ifs with hexecutes
      · exact h.run hexecutes.1
      · exact h
    · rw [step, hs]
      exact h
    · rw [step, hs]
      exact h
    · rw [step, hs]
      exact h.of_eq (note_keys phase).1 (note_keys phase).2

theorem step_keeps (decrypts : ∀ salt secret, env.decrypt (env.encrypt salt secret) = some secret)
    (h : Keeps env s) (consistent : Consistent s) (input : Input I B) (phase : Phase I B) :
    Keeps env (step env input s phase).1 ↔ SparesKeys env input s phase := by
  cases input with
  | passes elapsed => exact iff_of_true h trivial
  | crash => exact iff_of_true h trivial
  | turn fresh answer =>
    rcases turn_cases env fresh answer s phase with
      ⟨statement, sent, hs, -⟩ | ⟨sent, hs⟩
    · simp only [step, hs, State.execute, SparesKeys, Phase.Executes, sent, Option.mem_def,
        Option.some.injEq, exists_eq_left']
      by_cases hexecutes : statement.Admitted s ∧ answer.executed
      · rw [if_pos hexecutes, keeps_run decrypts h consistent sent hexecutes.1]
        exact ⟨fun spares _ => spares, fun spares => spares hexecutes.symm⟩
      · rw [if_neg hexecutes]
        exact iff_of_true h fun executes => absurd executes.symm hexecutes
    · have idle : SparesKeys env (.turn fresh answer) s phase := by
        rintro ⟨-, statement, hstatement, -⟩
        rw [Option.mem_def, sent] at hstatement
        cases hstatement
      refine iff_of_true ?_ idle
      rcases hs with ⟨-, hs⟩ | ⟨error, hs⟩ | ⟨phase', -, hs⟩
      · rw [step, hs]
        exact h
      · rw [step, hs]
        exact h
      · rw [step, hs]
        exact (Keeps.congr (note_keys phase).1 (note_keys phase).2).2 h

variable [DecidableEq ι]

/-- A run keeps every active key able to sign and its signers enough, exactly when no rotation or
recovery that is committed brings an address of its own or replaces a key that has had its signers,
and no signer is deleted from a key that has no more than it needs. -/
theorem keys_kept_iff
    (decrypts : ∀ salt secret, env.decrypt (env.encrypt salt secret) = some secret)
    {w : World I B ι} (initial : w.Initial) (schedule : List (ι × Input I B)) :
    (∀ pre, pre <+: schedule → Keeps env (run (step env) w pre).shared) ↔
      Runs.Every (advance (step env))
        (fun w turn => SparesKeys env turn.2 w.shared (w.locals turn.1)) w schedule := by
  obtain ⟨now, hnow⟩ := initial.shared
  refine Runs.forall_prefix_iff_every (fun w : World I B ι => Consistent w.shared)
    (fun w => Keeps env w.shared) ?_ ?_ ?_ ?_ schedule
  · intro w turn h
    exact step_consistent h turn.2 (w.locals turn.1)
  · intro w turn consistent h
    exact step_keeps decrypts h consistent turn.2 (w.locals turn.1)
  · rw [hnow]
    exact ⟨nofun, fun _ _ => rfl⟩
  · rw [hnow]
    exact nofun

end Runs

/-- User 7 has a key with the threshold 1 and the signers 201 and 202. -/
def guardedKey : List (Call ℕ ℕ) :=
  [.createManagedKey 7 1, .addRecoverySigner 1 7 201, .addRecoverySigner 1 7 202]

def guardKey : List (ℕ × Input ℕ ℕ) :=
  [answered 0 1 11, answered 1 0 0, answered 1 0 0, answered 2 0 0, answered 2 0 0]

theorem removal_and_early_rotation_keep_keys :
    let calls := guardedKey ++
      [Call.removeRecoverySigner 1 7 201, Call.createManagedKey 8 2, Call.rotateKey 2 8 none]
    let schedule := guardKey ++
      [answered 3 0 0, answered 3 0 0, answered 3 0 0, answered 3 0 0, answered 4 2 12,
        answered 5 0 0, answered 5 3 13]
    ∀ pre, pre <+: schedule →
      Keeps plainEnvironment (run (step plainEnvironment) (World.of calls) pre).shared :=
  (keys_kept_iff plainEnvironment_decrypts (World.of_initial _) _).2 (by decide +kernel)

/-- A rotation to another address stores the secret of a key that nobody uses, any rotation leaves
the signers behind, and two removals side by side leave none. -/
theorem rotation_loses_key :
    ¬ Keeps plainEnvironment (run (step plainEnvironment)
      (World.of [.createManagedKey 7 1, .rotateKey 1 7 (some 500)])
      [answered 0 1 11, answered 1 0 0, answered 1 2 12]).shared ∧
    ¬ Keeps plainEnvironment (run (step plainEnvironment)
      (World.of (guardedKey ++ [.rotateKey 1 7 none]))
      (guardKey ++ [answered 3 0 0, answered 3 2 12])).shared ∧
    ¬ Keeps plainEnvironment (run (step plainEnvironment)
      (World.of (guardedKey ++ [.removeRecoverySigner 1 7 201, .removeRecoverySigner 1 7 202]))
      (guardKey ++ [answered 3 0 0, answered 3 0 0, answered 3 0 0, answered 4 0 0, answered 4 0 0,
        answered 4 0 0, answered 3 0 0, answered 4 0 0])).shared := by
  refine ⟨?_, ?_, ?_⟩
  · intro keeps
    obtain ⟨secret, hsecret, hpublic⟩ :=
      (keeps ⟨2, 7, 500, 1012, 1, true, false⟩ (by decide +kernel)).signs rfl
    obtain rfl : 12 = secret := Option.some.inj hsecret
    exact absurd hpublic (by decide)
  · intro keeps
    have enough := (keeps ⟨2, 7, 112, 1012, 1, true, true⟩ (by decide +kernel)).signers rfl rfl
    exact absurd enough (by decide +kernel)
  · intro keeps
    have enough := (keeps ⟨1, 7, 111, 1011, 1, true, true⟩ (by decide +kernel)).signers rfl rfl
    exact absurd enough (by decide +kernel)

end MobileMoney.Sep30
