import Mathlib.Data.List.Count
import MobileMoney.TwoFactor.Program

/-!
# What the second factor lets through

A withdrawal is let through without a code when the lookup of the preference fails, or on a version
of the row in which the preference is off. Any other withdrawal that is let through has had a code
of its own verified, and a backup code serves for one of them at most.
-/

namespace MobileMoney.TwoFactor

open Interleaving

variable {I K C H ι : Type}

/-! ## The law -/

/-- What the preference was read as, unless the lookup failed. -/
def Waiver.Justified (s : State I K C H) : Waiver K → Prop
  | .lookupFailed => True
  | .userNotFound => none ∈ s.user.versions
  | .notMandatory user => some user ∈ s.user.versions ∧ user.mandatory2FAWithdrawals = false

/-- The secret of a version of the row that demands the second factor. -/
def Demanded (s : State I K C H) (secret : K) : Prop :=
  ∃ user, some user ∈ s.user.versions ∧ user.mandatory2FAWithdrawals = true ∧
    user.enabledSecret = some secret

/-- One of the codes of the request was evaluated and is right. -/
def Verified (v : Verifiers K C H) (s : State I K C H) (request : Request C) : Method I → Prop
  | .totp => ∃ secret token e, Demanded s secret ∧ request.token = some token ∧
      e ∈ s.evaluations ∧ e.correct = v.verifyTOTP secret token e.time ∧ e.correct = true
  | .backup id => ∃ code hash, request.backupCode = some code ∧ (id, hash) ∈ s.issued ∧
      v.compare code hash = true ∧ id ∈ s.spent

def State.correct (s : State I K C H) : ℕ := s.evaluations.countP (·.correct)

/-- Whoever is let through without a code is let through on the preference, everyone else has had a
code verified, each one of their own, and each backup code serves once. -/
structure GateLaw [DecidableEq I] (v : Verifiers K C H) (w : World I K C H ι) : Prop where
  waived : ∀ i waiver, w.locals i = .waived waiver → waiver.Justified w.shared
  verified : ∀ i request method, w.locals i = .succeeded request method →
    Verified v w.shared request method
  own : w.shared.authorised.length ≤ w.shared.correct
  once : ∀ id, w.shared.authorised.count (.backup id) ≤ 1

/-! ## What is known stays known -/

/-- What has happened is not forgotten. -/
structure Grows (s s' : State I K C H) : Prop where
  versions : s.user.versions ⊆ s'.user.versions
  evaluations : s.evaluations ⊆ s'.evaluations
  issued : s.issued ⊆ s'.issued
  spent : s.spent ⊆ s'.spent

/-- What a request has found out so far. -/
def Phase.Sound (v : Verifiers K C H) (s : State I K C H) : Phase I K C H → Prop
  | .checkingLock secret _ | .verifying secret _ _ => Demanded s secret
  | .selecting request code _ => request.backupCode = some code
  | .comparing request code rows _ => request.backupCode = some code ∧
      ∀ row ∈ rows, (row.id, row.codeHash) ∈ s.issued
  | .spending request id => ∃ code hash, request.backupCode = some code ∧
      (id, hash) ∈ s.issued ∧ v.compare code hash = true
  | .resetting request method | .succeeded request method => Verified v s request method
  | .waived waiver => waiver.Justified s
  | _ => True

variable {v : Verifiers K C H} {s s' : State I K C H}

theorem Grows.refl (s : State I K C H) : Grows s s :=
  ⟨fun _ h => h, fun _ h => h, fun _ h => h, fun _ h => h⟩

theorem Grows.of_eq (user : s'.user = s.user) (evaluations : s'.evaluations = s.evaluations)
    (issued : s'.issued = s.issued) (spent : s'.spent = s.spent) : Grows s s' := by
  refine ⟨?_, ?_, ?_, ?_⟩
  · rw [user]
    exact fun _ h => h
  · rw [evaluations]
    exact fun _ h => h
  · rw [issued]
    exact fun _ h => h
  · rw [spent]
    exact fun _ h => h

theorem Demanded.grow {secret : K} (h : Demanded s secret) (grows : Grows s s') :
    Demanded s' secret := by
  obtain ⟨user, hversion, hmandatory, hsecret⟩ := h
  exact ⟨user, grows.versions hversion, hmandatory, hsecret⟩

theorem Verified.grow {request : Request C} {method : Method I} (h : Verified v s request method)
    (grows : Grows s s') : Verified v s' request method := by
  cases method with
  | totp =>
    obtain ⟨secret, token, e, hdemanded, htoken, hmem, hright⟩ := h
    exact ⟨secret, token, e, hdemanded.grow grows, htoken, grows.evaluations hmem, hright⟩
  | backup id =>
    obtain ⟨code, hash, hcode, hissued, hmatch, hspent⟩ := h
    exact ⟨code, hash, hcode, grows.issued hissued, hmatch, grows.spent hspent⟩

theorem Waiver.Justified.grow {waiver : Waiver K} (h : waiver.Justified s) (grows : Grows s s') :
    waiver.Justified s' := by
  cases waiver with
  | lookupFailed => exact trivial
  | userNotFound => exact grows.versions h
  | notMandatory user => exact ⟨grows.versions h.1, h.2⟩

theorem Phase.Sound.grow {phase : Phase I K C H} (h : phase.Sound v s) (grows : Grows s s') :
    phase.Sound v s' := by
  cases phase with
  | checkingLock => exact Demanded.grow h grows
  | verifying => exact Demanded.grow h grows
  | selecting => exact h
  | comparing => exact ⟨h.1, fun row hrow => grows.issued (h.2 row hrow)⟩
  | spending =>
    obtain ⟨code, hash, hcode, hissued, hmatch⟩ := h
    exact ⟨code, hash, hcode, grows.issued hissued, hmatch⟩
  | resetting => exact Verified.grow h grows
  | succeeded => exact Verified.grow h grows
  | waived => exact Waiver.Justified.grow h grows
  | _ => exact trivial

theorem grows_evaluate (s : State I K C H) (correct : Bool) : Grows s (s.evaluate correct) :=
  ⟨fun _ h => h, fun _ h => List.mem_append_left _ h, fun _ h => h, fun _ h => h⟩

/-! ## What a request finds out -/

theorem demanded_of_read {source : Replicated.Source} {user : User K} {secret : K}
    (hread : s.user.read source = some user) (hmandatory : user.mandatory2FAWithdrawals = true)
    (hsecret : user.enabledSecret = some secret) : Demanded s secret :=
  ⟨user, hread ▸ s.user.read_mem_versions source, hmandatory, hsecret⟩

theorem requires2FA_sound (request : Request C) (source : Replicated.Source) (answer : DbAnswer) :
    (requires2FA request source answer s).Sound v s := by
  unfold requires2FA
  have hversion := s.user.read_mem_versions source
  split_ifs
  · split
    · rename_i hread
      rwa [hread] at hversion
    · rename_i user hread
      split_ifs with hmandatory
      · exact trivial
      · exact ⟨hread ▸ hversion, Bool.eq_false_iff.2 hmandatory⟩
  · exact trivial

theorem checkUser_sound (request : Request C) (source : Replicated.Source) (answer : DbAnswer) :
    (checkUser request source answer s).Sound v s := by
  unfold checkUser
  split_ifs
  · split
    · exact trivial
    · rename_i user hread
      split
      · exact trivial
      · rename_i secret hsecret
        split_ifs with hmandatory
        · exact demanded_of_read hread hmandatory hsecret
        · exact trivial
  · exact trivial

theorem isLocked_sound {secret : K} (h : Demanded s secret) (request : Request C) (isOpen : Bool)
    (answer : DbAnswer) : (isLocked secret request isOpen answer s).Sound v s := by
  unfold isLocked
  dsimp only
  split_ifs
  · exact h
  · exact trivial
  · exact h
  · exact h

theorem afterToken_sound (request : Request C) (read : ℕ) :
    (afterToken request read : Phase I K C H).Sound v s := by
  unfold afterToken
  split
  · exact trivial
  · rename_i code hcode
    exact hcode

theorem tryToken_sound {secret : K} (h : Demanded s secret) (request : Request C) (read : ℕ) :
    Grows s (tryToken v secret request read s).1 ∧
      (tryToken v secret request read s).2.Sound v (tryToken v secret request read s).1 := by
  unfold tryToken
  split
  · exact ⟨Grows.refl s, afterToken_sound request read⟩
  · rename_i token htoken
    have grows := grows_evaluate s (v.verifyTOTP secret token s.now)
    refine ⟨grows, ?_⟩
    dsimp only
    split_ifs with hvalid
    · exact ⟨secret, token, _, h.grow grows, htoken, List.mem_concat_self, rfl, hvalid⟩
    · exact afterToken_sound request read

theorem tryBackupCode_sound {request : Request C} {code : C} {rows : List (BackupCode I H)}
    {read : ℕ} (h : (Phase.comparing (K := K) request code rows read).Sound v s) :
    Grows s (tryBackupCode v request code rows s).1 ∧
      (tryBackupCode v request code rows s).2.Sound v (tryBackupCode v request code rows s).1 := by
  unfold tryBackupCode
  split
  · exact ⟨grows_evaluate s false, trivial⟩
  · rename_i row hfound
    refine ⟨grows_evaluate s true, code, row.codeHash, h.1, ?_, ?_⟩
    · exact h.2 row (List.mem_of_find?_eq_some hfound)
    · simpa using List.find?_some hfound

/-! ## The backup codes -/

/-- The codes in the table have been issued, and one that has been spent is marked as used. -/
structure Stored (s : State I K C H) : Prop where
  rows : ∀ row ∈ s.backupCodes.rows, (row.id, row.codeHash) ∈ s.issued
  spent : ∀ id ∈ s.spent, id ∈ s.issued.map Prod.fst
  used : ∀ row ∈ s.backupCodes.rows, row.id ∈ s.spent → row.used = true
  nodup : s.spent.Nodup

theorem Stored.congr (h : Stored s) (backupCodes : s'.backupCodes = s.backupCodes)
    (issued : s'.issued = s.issued) (spent : s'.spent = s.spent) : Stored s' := by
  obtain ⟨hrows, hspent, hused, hnodup⟩ := h
  constructor <;> simp only [backupCodes, issued, spent] <;> assumption

/-- Redis has no part in what is sound. -/
theorem onRedis_sound (h : Stored s) {isOpen : Bool} {answer : DbAnswer} {phase : Phase I K C H}
    (hphase : phase.Sound v s) :
    Stored (onRedis isOpen answer s phase).1 ∧ Grows s (onRedis isOpen answer s phase).1 ∧
      (onRedis isOpen answer s phase).2.Sound v (onRedis isOpen answer s phase).1 := by
  cases phase with
  | checkingLock secret request => exact ⟨h, Grows.refl s, isLocked_sound hphase _ _ _⟩
  | measuring =>
    refine ⟨h, Grows.refl s, ?_⟩
    simp only [onRedis]
    split_ifs <;> exact trivial
  | resetting request method =>
    have grows : ∀ cell authorised, Grows s
        { s with counter := cell, authorised := authorised } := fun _ _ =>
      Grows.of_eq rfl rfl rfl rfl
    simp only [onRedis, resetFailures]
    split_ifs <;> exact ⟨h.congr rfl rfl rfl, grows _ _, hphase.grow (grows _ _)⟩
  | counting =>
    simp only [onRedis, incrementFailures]
    split_ifs <;> exact ⟨h.congr rfl rfl rfl, Grows.of_eq rfl rfl rfl rfl, trivial⟩
  | expiring =>
    simp only [onRedis, setExpiry]
    split_ifs <;> exact ⟨h.congr rfl rfl rfl, Grows.of_eq rfl rfl rfl rfl, trivial⟩
  | locking =>
    simp only [onRedis, setExpiry]
    split_ifs <;> exact ⟨h.congr rfl rfl rfl, Grows.of_eq rfl rfl rfl rfl, trivial⟩
  | _ => exact ⟨h, Grows.refl s, hphase⟩

theorem id_markUsed (code : BackupCode I H) :
    BackupCode.id { code with used := true } = code.id := rfl

variable [DecidableEq I]

/-- Only a row that is not used yet is marked. -/
theorem of_spend {codes codes' : Keyed (BackupCode.id : BackupCode I H → I)} {id : I}
    (h : spend codes id = some codes') :
    (∃ row ∈ codes.rows, row.id = id ∧ row.used = false) ∧
      codes' = codes.modify id (fun code => { code with used := true }) id_markUsed := by
  unfold spend at h
  split at h
  · rename_i row hfound
    obtain ⟨hmem, hid⟩ := Keyed.of_find? hfound
    split_ifs at h with hunused
    exact ⟨⟨row, hmem, hid, hunused⟩, (Option.some.inj h).symm⟩
  · exact absurd h nofun

theorem Stored.spend (h : Stored s) {codes' : Keyed (BackupCode.id : BackupCode I H → I)} {id : I}
    (hspend : TwoFactor.spend s.backupCodes id = some codes') :
    Stored ({ s with backupCodes := codes', spent := s.spent ++ [id] } : State I K C H) := by
  obtain ⟨⟨row, hrow, rfl, hunused⟩, rfl⟩ := of_spend hspend
  have hissued := h.rows row hrow
  have unspent : row.id ∉ s.spent := by
    intro hspent
    rw [h.used row hrow hspent] at hunused
    exact absurd hunused nofun
  refine ⟨?_, ?_, ?_, ?_⟩
  · intro row' hrow'
    obtain ⟨old, hold, rfl⟩ := (Keyed.mem_modify id_markUsed).1 hrow'
    have := h.rows old hold
    split_ifs <;> exact this
  · intro id hid
    rcases List.mem_append.1 hid with hid | hid
    · exact h.spent id hid
    · rw [List.mem_singleton.1 hid]
      exact List.mem_map_of_mem hissued
  · intro row' hrow' hspent
    obtain ⟨old, hold, rfl⟩ := (Keyed.mem_modify id_markUsed).1 hrow'
    by_cases hid : old.id = row.id
    · rw [if_pos hid]
    · rw [if_neg hid] at hspent ⊢
      rcases List.mem_append.1 hspent with hspent | hspent
      · exact h.used old hold hspent
      · exact absurd (List.mem_singleton.1 hspent) hid
  · exact List.nodup_append.2 ⟨h.nodup, List.nodup_singleton _, by
      rintro a ha b hb rfl
      rw [List.mem_singleton.1 hb] at ha
      exact unspent ha⟩

theorem Stored.storeBackupCodes (h : Stored s) (codes : List (I × H)) :
    Stored (s.storeBackupCodes codes) := by
  unfold State.storeBackupCodes
  split_ifs with fresh
  · refine ⟨?_, ?_, ?_, h.nodup⟩
    · intro row hrow
      obtain ⟨code, hcode, rfl⟩ := List.mem_map.1 hrow
      exact List.mem_append_right _ hcode
    · intro id hid
      rw [List.map_append]
      exact List.mem_append_left _ (h.spent id hid)
    · intro row hrow hspent
      obtain ⟨code, hcode, rfl⟩ := List.mem_map.1 hrow
      exact absurd (h.spent _ hspent) (fresh.2 _ (List.mem_map_of_mem hcode))
  · exact h

theorem grows_storeBackupCodes (s : State I K C H) (codes : List (I × H)) :
    Grows s (s.storeBackupCodes codes) := by
  unfold State.storeBackupCodes
  split_ifs
  · exact ⟨fun _ h => h, fun _ h => h, fun _ h => List.mem_append_left _ h, fun _ h => h⟩
  · exact Grows.refl s

theorem onQuery_sound (h : Stored s) {answer : DbAnswer} {phase : Phase I K C H}
    (hphase : phase.Sound v s) :
    Stored (onQuery answer s phase).1 ∧ Grows s (onQuery answer s phase).1 ∧
      (onQuery answer s phase).2.Sound v (onQuery answer s phase).1 := by
  cases phase with
  | selecting request code read =>
    refine ⟨h, Grows.refl s, ?_⟩
    simp only [onQuery]
    split_ifs
    · exact ⟨hphase, fun row hrow => h.rows row (List.mem_filter.1 hrow).1⟩
    · exact trivial
  | comparing request code rows read =>
    refine ⟨h, Grows.refl s, ?_⟩
    simp only [onQuery]
    split_ifs
    · exact hphase
    · exact trivial
  | spending request id =>
    obtain ⟨code, hash, hcode, hissued, hmatch⟩ := hphase
    simp only [onQuery]
    split
    · exact ⟨h, Grows.refl s, trivial⟩
    · rename_i codes hspend
      have grows : Grows s { s with backupCodes := codes, spent := s.spent ++ [id] } :=
        ⟨fun _ h => h, fun _ h => h, fun _ h => h, fun _ h => List.mem_append_left _ h⟩
      cases answer with
      | answered =>
        refine ⟨h.spend hspend, grows, ?_⟩
        exact ⟨code, hash, hcode, hissued, hmatch, List.mem_concat_self⟩
      | failed executed =>
        cases executed with
        | true => exact ⟨h.spend hspend, grows, trivial⟩
        | false => exact ⟨h, Grows.refl s, trivial⟩
  | _ => exact ⟨h, Grows.refl s, hphase⟩

theorem step_sound (h : Stored s) {input : Input I K C H} {phase : Phase I K C H}
    (hphase : phase.Sound v s) :
    Stored (step v input s phase).1 ∧ Grows s (step v input s phase).1 ∧
      (step v input s phase).2.Sound v (step v input s phase).1 := by
  cases input with
  | elapse ms =>
    have grows : Grows s { s with now := s.now + ms } := Grows.of_eq rfl rfl rfl rfl
    exact ⟨h.congr rfl rfl rfl, grows, hphase.grow grows⟩
  | setUser user =>
    have grows : Grows s { s with user := s.user.write user } :=
      ⟨fun _ h => List.mem_cons_of_mem _ h, fun _ h => h, fun _ h => h, fun _ h => h⟩
    exact ⟨h.congr rfl rfl rfl, grows, hphase.grow grows⟩
  | storeBackupCodes codes =>
    have grows := grows_storeBackupCodes s codes
    exact ⟨h.storeBackupCodes codes, grows, hphase.grow grows⟩
  | withdraw request =>
    refine ⟨h, Grows.refl s, ?_⟩
    simp only [step]
    split_ifs
    · exact trivial
    · exact hphase
  | verify request =>
    refine ⟨h, Grows.refl s, ?_⟩
    simp only [step]
    split_ifs
    · exact trivial
    · exact hphase
  | lookup source answer =>
    refine ⟨h, Grows.refl s, ?_⟩
    cases phase with
    | requiring request => exact requires2FA_sound request source answer
    | finding request => exact checkUser_sound request source answer
    | _ => exact hphase
  | query answer => exact onQuery_sound h hphase
  | redis isOpen answer => exact onRedis_sound h hphase
  | compute =>
    cases phase with
    | verifying secret request read =>
      refine ⟨?_, tryToken_sound hphase request read⟩
      simp only [step, tryToken]
      split
      · exact h
      · exact h.congr rfl rfl rfl
    | comparing request code rows read =>
      refine ⟨?_, tryBackupCode_sound hphase⟩
      simp only [step, tryBackupCode]
      split <;> exact h.congr rfl rfl rfl
    | _ => exact ⟨h, Grows.refl s, hphase⟩
  | crash => exact ⟨h, Grows.refl s, trivial⟩

/-! ## What each withdrawal takes -/

/-- A code that has been verified and not been used for a withdrawal yet. -/
def Phase.verified : Phase I K C H → ℕ
  | .spending _ _ | .resetting _ _ => 1
  | _ => 0

/-- The same for a backup code that has been spent. -/
def Phase.spent (id : I) : Phase I K C H → ℕ
  | .resetting _ (.backup id') => if id' = id then 1 else 0
  | _ => 0

omit [DecidableEq I] in
@[simp] theorem correct_evaluate (s : State I K C H) (correct : Bool) :
    (s.evaluate correct).correct = s.correct + if correct then 1 else 0 := by
  simp [State.evaluate, State.correct]

/-- Nothing is verified, spent or taken. -/
structure Kept (s s' : State I K C H) : Prop where
  authorised : s'.authorised = s.authorised
  correct : s'.correct = s.correct
  spent : s'.spent = s.spent

/-- What a turn does with the codes that count. -/
inductive Move (s : State I K C H) (phase : Phase I K C H) (s' : State I K C H)
    (phase' : Phase I K C H) : Prop where
  | stays (kept : Kept s s') (next : phase' = phase)
  | drops (kept : Kept s s') (verified : phase'.verified = 0) (spent : ∀ id, phase'.spent id = 0)
  | finds (found : s' = s.evaluate true) (verified : phase'.verified = 1)
      (spent : ∀ id, phase'.spent id = 0)
  | spends (request : Request C) (id : I) (here : phase = .spending request id)
      (authorised : s'.authorised = s.authorised) (correct : s'.correct = s.correct)
      (spent : s'.spent = s.spent ++ [id])
      (next : phase' = .resetting request (.backup id) ∨ phase' = .counting)
  | authorises (request : Request C) (method : Method I) (here : phase = .resetting request method)
      (authorised : s'.authorised = s.authorised ++ [method]) (correct : s'.correct = s.correct)
      (spent : s'.spent = s.spent) (next : phase' = .succeeded request method)

omit [DecidableEq I] in
theorem Kept.refl (s : State I K C H) : Kept s s := ⟨rfl, rfl, rfl⟩

omit [DecidableEq I] in
theorem kept_evaluate_false (s : State I K C H) : Kept s (s.evaluate false) :=
  ⟨rfl, correct_evaluate s false, rfl⟩

theorem requires2FA_drops (request : Request C) (source : Replicated.Source) (answer : DbAnswer)
    (s : State I K C H) (phase : Phase I K C H) :
    Move s phase s (requires2FA request source answer s) := by
  unfold requires2FA
  split_ifs
  · split
    · exact .drops (.refl s) rfl fun _ => rfl
    · split_ifs <;> exact .drops (.refl s) rfl fun _ => rfl
  · exact .drops (.refl s) rfl fun _ => rfl

theorem checkUser_drops (request : Request C) (source : Replicated.Source) (answer : DbAnswer)
    (s : State I K C H) (phase : Phase I K C H) :
    Move s phase s (checkUser request source answer s) := by
  unfold checkUser
  split_ifs
  · split
    · exact .drops (.refl s) rfl fun _ => rfl
    · split
      · exact .drops (.refl s) rfl fun _ => rfl
      · split_ifs <;> exact .drops (.refl s) rfl fun _ => rfl
  · exact .drops (.refl s) rfl fun _ => rfl

theorem afterToken_drops {s s' : State I K C H} (kept : Kept s s') (request : Request C) (read : ℕ)
    (phase : Phase I K C H) : Move s phase s' (afterToken request read) := by
  unfold afterToken
  split <;> exact .drops kept rfl fun _ => rfl

theorem compute_move (s : State I K C H) (phase : Phase I K C H) :
    Move s phase (step v .compute s phase).1 (step v .compute s phase).2 := by
  cases phase with
  | verifying secret request read =>
    simp only [step, tryToken]
    split
    · exact afterToken_drops (.refl s) request read _
    · cases v.verifyTOTP secret ‹C› s.now with
      | true => exact .finds rfl rfl fun _ => rfl
      | false => exact afterToken_drops (kept_evaluate_false s) request read _
  | comparing request code rows read =>
    simp only [step, tryBackupCode]
    split
    · exact .drops (kept_evaluate_false s) rfl fun _ => rfl
    · exact .finds rfl rfl fun _ => rfl
  | _ => exact .stays (.refl s) rfl

theorem onQuery_move (answer : DbAnswer) (s : State I K C H) (phase : Phase I K C H) :
    Move s phase (onQuery answer s phase).1 (onQuery answer s phase).2 := by
  cases phase with
  | selecting request code read =>
    simp only [onQuery]
    split_ifs <;> exact .drops (.refl s) rfl fun _ => rfl
  | comparing request code rows read =>
    simp only [onQuery]
    split_ifs
    · exact .stays (.refl s) rfl
    · exact .drops (.refl s) rfl fun _ => rfl
  | spending request id =>
    simp only [onQuery]
    split
    · exact .drops (.refl s) rfl fun _ => rfl
    · cases answer with
      | answered => exact .spends request id rfl rfl rfl rfl (.inl rfl)
      | failed executed =>
        cases executed with
        | true => exact .spends request id rfl rfl rfl rfl (.inr rfl)
        | false => exact .drops (.refl s) rfl fun _ => rfl
  | _ => exact .stays (.refl s) rfl

theorem onRedis_move (isOpen : Bool) (answer : DbAnswer) (s : State I K C H)
    (phase : Phase I K C H) :
    Move s phase (onRedis isOpen answer s phase).1 (onRedis isOpen answer s phase).2 := by
  cases phase with
  | checkingLock secret request =>
    simp only [onRedis, isLocked]
    split_ifs <;> exact .drops (.refl s) rfl fun _ => rfl
  | measuring =>
    simp only [onRedis]
    split_ifs <;> exact .drops (.refl s) rfl fun _ => rfl
  | resetting request method =>
    simp only [onRedis, resetFailures]
    split_ifs <;> exact .authorises request method rfl rfl rfl rfl rfl
  | counting =>
    simp only [onRedis, incrementFailures]
    split_ifs <;> exact .drops ⟨rfl, rfl, rfl⟩ rfl fun _ => rfl
  | expiring =>
    simp only [onRedis, setExpiry]
    split_ifs <;> exact .drops ⟨rfl, rfl, rfl⟩ rfl fun _ => rfl
  | locking =>
    simp only [onRedis, setExpiry]
    split_ifs <;> exact .drops ⟨rfl, rfl, rfl⟩ rfl fun _ => rfl
  | _ => exact .stays (.refl s) rfl

theorem step_move (input : Input I K C H) (s : State I K C H) (phase : Phase I K C H) :
    Move s phase (step v input s phase).1 (step v input s phase).2 := by
  cases input with
  | elapse ms => exact .stays ⟨rfl, rfl, rfl⟩ rfl
  | setUser user => exact .stays ⟨rfl, rfl, rfl⟩ rfl
  | storeBackupCodes codes =>
    simp only [step, State.storeBackupCodes]
    split_ifs <;> exact .stays ⟨rfl, rfl, rfl⟩ rfl
  | withdraw request =>
    simp only [step]
    split_ifs
    · exact .drops (.refl s) rfl fun _ => rfl
    · exact .stays (.refl s) rfl
  | verify request =>
    simp only [step]
    split_ifs
    · exact .drops (.refl s) rfl fun _ => rfl
    · exact .stays (.refl s) rfl
  | lookup source answer =>
    cases phase with
    | requiring request => exact requires2FA_drops request source answer s _
    | finding request => exact checkUser_drops request source answer s _
    | _ => exact .stays (.refl s) rfl
  | query answer => exact onQuery_move answer s phase
  | redis isOpen answer => exact onRedis_move isOpen answer s phase
  | compute => exact compute_move s phase
  | crash => exact .drops (.refl s) rfl fun _ => rfl

/-- Who is let through has had a code verified. -/
theorem Move.verified_le {phase phase' : Phase I K C H} (h : Move s phase s' phase') :
    s'.authorised.length + phase'.verified + s.correct ≤
      s'.correct + (s.authorised.length + phase.verified) := by
  cases h with
  | stays kept next =>
    rw [kept.authorised, kept.correct, next]
    omega
  | drops kept verified =>
    rw [kept.authorised, kept.correct, verified]
    omega
  | finds found verified =>
    rw [verified, found, correct_evaluate, if_pos rfl]
    simp only [State.evaluate]
    omega
  | spends request id here authorised correct spent next =>
    rw [authorised, correct, here]
    rcases next with rfl | rfl
    · simp only [Phase.verified]
      omega
    · simp only [Phase.verified]
      omega
  | authorises request method here authorised correct spent next =>
    rw [authorised, correct, here, next, List.length_append, List.length_singleton]
    simp only [Phase.verified]
    omega

/-- Who is let through with a backup code has spent it. -/
theorem Move.spent_le {phase phase' : Phase I K C H} (h : Move s phase s' phase') (id : I) :
    s'.authorised.count (.backup id) + phase'.spent id + s.spent.count id ≤
      s'.spent.count id + (s.authorised.count (.backup id) + phase.spent id) := by
  cases h with
  | stays kept next =>
    rw [kept.authorised, kept.spent, next]
    omega
  | drops kept verified spent =>
    rw [kept.authorised, kept.spent, spent]
    omega
  | finds found verified spent =>
    rw [spent, found]
    simp only [State.evaluate]
    omega
  | spends request id' here authorised correct spent next =>
    rw [authorised, spent, here, List.count_append, List.count_singleton']
    rcases next with rfl | rfl
    · simp only [Phase.spent]
      omega
    · simp only [Phase.spent]
      omega
  | authorises request method here authorised correct spent next =>
    rw [authorised, spent, here, next, List.count_append, List.count_singleton']
    cases method with
    | totp =>
      simp only [Phase.spent, reduceCtorEq, if_false]
      omega
    | backup id' =>
      simp only [Phase.spent, Method.backup.injEq]
      omega

/-! ## Runs -/

variable [DecidableEq ι]

variable (v) in
/-- Nobody is let through because of a failed lookup unless their lookup has failed. -/
theorem lookup_failed (user : Option (User K)) (schedule : List (ι × Input I K C H)) {i : ι}
    (h : (run (step v) (World.init user) schedule).locals i = .waived .lookupFailed) :
    ∃ source executed, (i, .lookup source (.failed executed)) ∈ schedule := by
  obtain ⟨pre, ⟨j, input⟩, post, rfl, hbefore, hafter⟩ := Runs.exists_first
    (fun w : World I K C H ι => w.locals i = .waived .lookupFailed) schedule
    (by simp [World.init]) h
  generalize pre.foldl (advance (step v)) (World.init user) = w at hbefore hafter
  by_cases hij : i = j
  · subst hij
    rw [advance_self] at hafter
    obtain ⟨source, executed, rfl⟩ : ∃ source executed,
        input = .lookup source (.failed executed) := by
      generalize w.locals i = phase at hbefore hafter
      cases input with
      | lookup source answer =>
        cases answer with
        | failed executed => exact ⟨source, executed, rfl⟩
        | answered => cases phase <;> grind [step, requires2FA, checkUser]
      | query answer => cases phase <;> grind [step, onQuery]
      | redis isOpen answer =>
        cases phase <;> grind [step, onRedis, isLocked, resetFailures, incrementFailures, setExpiry]
      | compute => cases phase <;> grind [step, tryToken, tryBackupCode, afterToken]
      | _ => grind [step]
    exact ⟨source, executed, List.mem_append_right _ List.mem_cons_self⟩
  · rw [advance_other (step v) w input hij] at hafter
    exact absurd hafter hbefore

end MobileMoney.TwoFactor
