import MobileMoney.Zk.Program
import Mathlib.Data.ZMod.Basic
import Mathlib.Tactic.Abel

/-!
# The sigma protocols

Every proof of a true statement is accepted, and two accepting transcripts with the same
announcements and different challenges give a witness. The challenges of a second transcript are
those of a second hash.
-/

namespace MobileMoney.Zk

open PrimeOrder Checked

variable {P : Type} [AddCommGroup P] [DecidableEq P] {params : ZkParams P} {hash : List P → ℕ}

/-! ## Scalars and challenges -/

omit [DecidableEq P] in
theorem mod_order_zsmul (x : ℤ) (p : P) : (x % params.order) • p = x • p :=
  emod_zsmul params.exponent x p

omit [DecidableEq P] in
theorem toScalar_zsmul (x : ℤ) (p : P) : toScalar params x • p = x • p :=
  mod_order_zsmul x p

omit [DecidableEq P] in
/-- A response of `x + c * w`, of reduced terms, to the challenge `c`. -/
theorem response_zsmul (x c w : ℤ) (p : P) :
    ((x + c * toScalar params w) % params.order) • p = x • p + c • (w • p) := by
  rw [mod_order_zsmul, add_zsmul, mul_zsmul, toScalar_zsmul]

theorem pointToBytes_eq_ok {p p' : P} : pointToBytes p = .ok p' ↔ p ≠ 0 ∧ p' = p := by
  unfold pointToBytes
  split_ifs with h <;> simp [h, eq_comm]

theorem mapM_pointToBytes {points points' : List P} :
    points.mapM pointToBytes = .ok points' ↔ (∀ p ∈ points, p ≠ 0) ∧ points' = points := by
  rw [mapM_eq_ok]
  constructor
  · intro h
    induction h with
    | nil => simp
    | cons head _ ih =>
      obtain ⟨hne, rfl⟩ := pointToBytes_eq_ok.1 head
      exact ⟨List.forall_mem_cons.2 ⟨hne, ih.1⟩, by rw [ih.2]⟩
  · rintro ⟨hne, rfl⟩
    exact List.forall₂_same.2 fun p hp => pointToBytes_eq_ok.2 ⟨hne p hp, rfl⟩

theorem challengeFrom_eq_ok {points : List P} {c : ℤ} :
    challengeFrom params hash points = .ok c ↔
      (∀ p ∈ points, p ≠ 0) ∧ c = hash points % params.order := by
  simp only [challengeFrom, bind_eq_ok, mapM_pointToBytes, pure_eq_ok]
  constructor
  · rintro ⟨_, ⟨hne, rfl⟩, rfl⟩
    exact ⟨hne, rfl⟩
  · rintro ⟨hne, rfl⟩
    exact ⟨points, ⟨hne, rfl⟩, rfl⟩

theorem challenge_mod {points : List P} {c : ℤ}
    (h : challengeFrom params hash points = .ok c) : c % params.order = c := by
  obtain ⟨-, rfl⟩ := challengeFrom_eq_ok.1 h
  simp

/-- Challenges are reduced, so different ones are so modulo the order. -/
theorem not_modEq_of_ne {hash' : List P → ℕ} {points : List P} {c c' : ℤ}
    (h : challengeFrom params hash points = .ok c)
    (h' : challengeFrom params hash' points = .ok c') (hne : c ≠ c') :
    ¬ c ≡ c' [ZMOD params.order] := by
  intro heq
  exact hne (by rw [← challenge_mod h, ← challenge_mod h', heq])

/-! ## What the verifiers check -/

theorem verifyOpening_iff {commitment : Commitment P} {proof : OpeningProof P} :
    verifyOpening params hash commitment proof = true ↔
      ∃ c, challengeFrom params hash [commitment.point, proof.T] = .ok c ∧
        proof.z1 • params.G + proof.z2 • params.H = proof.T + c • commitment.point := by
  unfold verifyOpening
  split <;> simp_all

theorem verifyEqualOpenings_iff {c1 c2 : Commitment P} {proof : EqualityProof P} :
    verifyEqualOpenings params hash c1 c2 proof = true ↔
      ∃ c, challengeFrom params hash [c1.point, c2.point, proof.T] = .ok c ∧
        proof.z • params.H = proof.T + c • (c1.point + -c2.point) := by
  unfold verifyEqualOpenings
  split <;> simp_all

theorem verifyBit_iff {commitment : Commitment P} {proof : BitProof P} :
    verifyBit params hash commitment proof = true ↔
      challengeFrom params hash [commitment.point, proof.T0, proof.T1] =
          .ok ((proof.c0 + proof.c1) % params.order) ∧
        proof.z0 • params.H = proof.T0 + proof.c0 • commitment.point ∧
        proof.z1 • params.H = proof.T1 + proof.c1 • (commitment.point + -params.G) := by
  unfold verifyBit
  split
  · simp_all
  · next c hc =>
    rw [hc]
    grind

/-! ## Completeness -/

section Completeness

variable {commitment : Commitment P} {opening : Opening}

theorem exists_proveOpening {a b : ℤ} (hC : commitment.point ≠ 0)
    (hT : a • params.G + b • params.H ≠ 0) :
    ∃ proof, proveOpening params hash commitment opening a b = .ok proof := by
  simp only [proveOpening, bind_eq_ok, pure_eq_ok, challengeFrom_eq_ok]
  exact ⟨_, _, ⟨by simp [hC, hT], rfl⟩, rfl⟩

theorem verifyOpening_of_proved {a b : ℤ} {proof : OpeningProof P}
    (opens : opening.Opens params commitment)
    (h : proveOpening params hash commitment opening a b = .ok proof) :
    verifyOpening params hash commitment proof = true := by
  simp only [proveOpening, bind_eq_ok, pure_eq_ok] at h
  obtain ⟨c, hc, rfl⟩ := h
  refine verifyOpening_iff.2 ⟨c, hc, ?_⟩
  rw [response_zsmul, response_zsmul, opens]
  module

theorem exists_proveEqualOpenings {c1 c2 : Commitment P} {r1 r2 k : ℤ} (h1 : c1.point ≠ 0)
    (h2 : c2.point ≠ 0) (hT : k • params.H ≠ 0) :
    ∃ proof, proveEqualOpenings params hash c1 c2 r1 r2 k = .ok proof := by
  simp only [proveEqualOpenings, bind_eq_ok, pure_eq_ok, challengeFrom_eq_ok]
  exact ⟨_, _, ⟨by simp [h1, h2, hT], rfl⟩, rfl⟩

theorem verifyEqualOpenings_of_proved {c1 c2 : Commitment P} {v r1 r2 k : ℤ}
    {proof : EqualityProof P} (opens1 : Opening.Opens params ⟨v, r1⟩ c1)
    (opens2 : Opening.Opens params ⟨v, r2⟩ c2)
    (h : proveEqualOpenings params hash c1 c2 r1 r2 k = .ok proof) :
    verifyEqualOpenings params hash c1 c2 proof = true := by
  simp only [proveEqualOpenings, bind_eq_ok, pure_eq_ok] at h
  obtain ⟨c, hc, rfl⟩ := h
  refine verifyEqualOpenings_iff.2 ⟨c, hc, ?_⟩
  rw [mod_order_zsmul, add_zsmul, mul_zsmul, mod_order_zsmul, sub_zsmul, toScalar_zsmul,
    toScalar_zsmul, opens1, opens2]
  module

/-- The announcement of the simulated branch. -/
def simulated (params : ZkParams P) (bit : ℤ) (C : P) (nonces : BitNonces) : P :=
  nonces.zSim • params.H + -(nonces.cSim • if bit = 1 then C else C + -params.G)

theorem exists_proveBit {bit blinding : ℤ} {nonces : BitNonces} (hbit : bit = 0 ∨ bit = 1)
    (hC : bit • params.G + blinding • params.H ≠ 0) (hreal : nonces.k • params.H ≠ 0)
    (hsim : simulated params bit (bit • params.G + blinding • params.H) nonces ≠ 0) :
    ∃ commitment proof, proveBit params hash bit blinding nonces = .ok (commitment, proof) := by
  simp only [proveBit, bind_eq_ok, require_eq_ok, pointToBytes_eq_ok, challengeFrom_eq_ok,
    pure_eq_ok, toScalar_zsmul, simulated] at *
  rcases hbit with rfl | rfl
  · exact ⟨_, _, (), .inl rfl, _, ⟨by simpa using hC, rfl⟩, _,
      ⟨by simp_all, rfl⟩, rfl⟩
  · exact ⟨_, _, (), .inr rfl, _, ⟨by simpa using hC, rfl⟩, _,
      ⟨by simp_all, rfl⟩, rfl⟩

/-- A proof that is made for a bit is accepted, and the commitment is to the bit. -/
theorem proveBit_spec {bit blinding : ℤ} {nonces : BitNonces} {proof : BitProof P}
    (h : proveBit params hash bit blinding nonces = .ok (commitment, proof)) :
    (bit = 0 ∨ bit = 1) ∧ Opening.Opens params ⟨bit, blinding⟩ commitment ∧
      verifyBit params hash commitment proof = true := by
  simp only [proveBit, bind_eq_ok, require_eq_ok, pointToBytes_eq_ok, pure_eq_ok,
    toScalar_zsmul] at h
  obtain ⟨-, hbit, _, ⟨-, rfl⟩, c, hc, hproof⟩ := h
  obtain ⟨rfl, rfl⟩ := Prod.mk.inj hproof
  clear hproof
  have hmod := challenge_mod hc
  refine ⟨hbit, ?_, verifyBit_iff.2 ?_⟩
  · rcases hbit with rfl | rfl <;> simp [Opening.Opens]
  · -- The real branch answers the rest of the challenge; the simulated one was solved for.
    rcases hbit with rfl | rfl
    · simp at hc ⊢
      refine ⟨by rw [hc, hmod], ?_, by module⟩
      rw [response_zsmul]
    · simp at hc ⊢
      refine ⟨by rw [hc, hmod], by module, ?_⟩
      rw [response_zsmul]

end Completeness

/-! ## Special soundness -/

section Soundness

variable {hash' : List P → ℕ}

/-- The opening that two answers to the challenges `c` and `c'` give. -/
def extractOpening (params : ZkParams P) (proof proof' : OpeningProof P) (c c' : ℤ) : Opening where
  value := inverse (c - c') params.order * (proof.z1 - proof'.z1)
  blinding := inverse (c - c') params.order * (proof.z2 - proof'.z2)

theorem extractOpening_opens {commitment : Commitment P} {proof proof' : OpeningProof P}
    {c c' : ℤ} (hT : proof.T = proof'.T)
    (h : verifyOpening params hash commitment proof = true)
    (h' : verifyOpening params hash' commitment proof' = true)
    (hc : challengeFrom params hash [commitment.point, proof.T] = .ok c)
    (hc' : challengeFrom params hash' [commitment.point, proof'.T] = .ok c') (hne : c ≠ c') :
    (extractOpening params proof proof' c c').Opens params commitment := by
  obtain ⟨_, hd, answer⟩ := verifyOpening_iff.1 h
  obtain ⟨_, hd', answer'⟩ := verifyOpening_iff.1 h'
  obtain rfl := Except.ok.inj (hc.symm.trans hd)
  obtain rfl := Except.ok.inj (hc'.symm.trans hd')
  rw [← hT] at answer' hc'
  have found := eq_of_two_answers params.prime params.exponent answer answer'
    (not_modEq_of_ne hc hc' hne)
  rw [Opening.Opens, extractOpening, found]
  module

/-- The difference of the blindings of two commitments to one value. -/
def extractDifference (params : ZkParams P) (proof proof' : EqualityProof P) (c c' : ℤ) : ℤ :=
  inverse (c - c') params.order * (proof.z - proof'.z)

/-- Whoever opens the first commitment opens the second one to the same value. -/
theorem extractDifference_opens {c1 c2 : Commitment P} {proof proof' : EqualityProof P}
    {c c' : ℤ} (hT : proof.T = proof'.T)
    (h : verifyEqualOpenings params hash c1 c2 proof = true)
    (h' : verifyEqualOpenings params hash' c1 c2 proof' = true)
    (hc : challengeFrom params hash [c1.point, c2.point, proof.T] = .ok c)
    (hc' : challengeFrom params hash' [c1.point, c2.point, proof'.T] = .ok c') (hne : c ≠ c')
    (v r : ℤ) : Opening.Opens params ⟨v, r⟩ c1 ↔
      Opening.Opens params ⟨v, r - extractDifference params proof proof' c c'⟩ c2 := by
  obtain ⟨_, hd, answer⟩ := verifyEqualOpenings_iff.1 h
  obtain ⟨_, hd', answer'⟩ := verifyEqualOpenings_iff.1 h'
  obtain rfl := Except.ok.inj (hc.symm.trans hd)
  obtain rfl := Except.ok.inj (hc'.symm.trans hd')
  rw [← hT] at answer' hc'
  have found := eq_of_two_answers params.prime params.exponent answer answer'
    (not_modEq_of_ne hc hc' hne)
  have difference : c1.point - c2.point =
      extractDifference params proof proof' c c' • params.H := by
    rw [sub_eq_add_neg, found, extractDifference]
    module
  have moved : c1.point = c2.point + extractDifference params proof proof' c c' • params.H := by
    rw [← difference]
    abel
  simp only [Opening.Opens, moved, sub_smul]
  rw [← add_sub_assoc, eq_sub_iff_add_eq]

/-- The opening to 0 or 1, by the branch in which the challenges differ. -/
def extractBit (params : ZkParams P) (proof proof' : BitProof P) : Opening :=
  if proof.c0 ≡ proof'.c0 [ZMOD params.order] then
    ⟨1, inverse (proof.c1 - proof'.c1) params.order * (proof.z1 - proof'.z1)⟩
  else ⟨0, inverse (proof.c0 - proof'.c0) params.order * (proof.z0 - proof'.z0)⟩

theorem extractBit_opens {commitment : Commitment P} {proof proof' : BitProof P} {c c' : ℤ}
    (hT0 : proof.T0 = proof'.T0) (hT1 : proof.T1 = proof'.T1)
    (h : verifyBit params hash commitment proof = true)
    (h' : verifyBit params hash' commitment proof' = true)
    (hc : challengeFrom params hash [commitment.point, proof.T0, proof.T1] = .ok c)
    (hc' : challengeFrom params hash' [commitment.point, proof'.T0, proof'.T1] = .ok c')
    (hne : c ≠ c') :
    let opening := extractBit params proof proof'
    (opening.value = 0 ∨ opening.value = 1) ∧ opening.Opens params commitment := by
  obtain ⟨hd, answer0, answer1⟩ := verifyBit_iff.1 h
  obtain ⟨hd', answer0', answer1'⟩ := verifyBit_iff.1 h'
  rw [← hT0, ← hT1] at hd' hc'
  rw [← hT0] at answer0'
  rw [← hT1] at answer1'
  unfold extractBit
  split_ifs with hsame
  · -- The challenges differ in sum, so with the first ones alike the second ones differ.
    have differ : ¬ proof.c1 ≡ proof'.c1 [ZMOD params.order] := fun hsame' => by
      apply not_modEq_of_ne hc hc' hne
      rw [Except.ok.inj (hc.symm.trans hd), Except.ok.inj (hc'.symm.trans hd')]
      exact congrArg (· % (params.order : ℤ)) (hsame.add hsame')
    have found := eq_of_two_answers params.prime params.exponent answer1 answer1' differ
    refine ⟨.inr rfl, ?_⟩
    have moved : commitment.point = params.G + (commitment.point + -params.G) := by abel
    rw [Opening.Opens, moved, found]
    module
  · have found := eq_of_two_answers params.prime params.exponent answer0 answer0' hsame
    refine ⟨.inl rfl, ?_⟩
    rw [Opening.Opens, found]
    module

end Soundness

/-! ## The three protocols -/

/-- True statements are proved and accepted, whatever the nonces, and two accepting transcripts
with the same announcements and different challenges give a witness. -/
theorem sigma_protocols_complete_and_sound (params : ZkParams P) (hash hash' : List P → ℕ) :
    ((∀ (commitment : Commitment P) (opening : Opening) (a b : ℤ),
        opening.Opens params commitment → commitment.point ≠ 0 →
        a • params.G + b • params.H ≠ 0 →
        ∃ proof, proveOpening params hash commitment opening a b = .ok proof ∧
          verifyOpening params hash commitment proof = true) ∧
      (∀ (c1 c2 : Commitment P) (v r1 r2 k : ℤ),
        Opening.Opens params ⟨v, r1⟩ c1 → Opening.Opens params ⟨v, r2⟩ c2 →
        c1.point ≠ 0 → c2.point ≠ 0 → k • params.H ≠ 0 →
        ∃ proof, proveEqualOpenings params hash c1 c2 r1 r2 k = .ok proof ∧
          verifyEqualOpenings params hash c1 c2 proof = true) ∧
      ∀ (bit blinding : ℤ) (nonces : BitNonces), bit = 0 ∨ bit = 1 →
        bit • params.G + blinding • params.H ≠ 0 → nonces.k • params.H ≠ 0 →
        simulated params bit (bit • params.G + blinding • params.H) nonces ≠ 0 →
        ∃ commitment proof, proveBit params hash bit blinding nonces = .ok (commitment, proof) ∧
          Opening.Opens params ⟨bit, blinding⟩ commitment ∧
          verifyBit params hash commitment proof = true) ∧
    (∀ (commitment : Commitment P) (proof proof' : OpeningProof P) (c c' : ℤ),
      proof.T = proof'.T → c ≠ c' →
      verifyOpening params hash commitment proof = true →
      verifyOpening params hash' commitment proof' = true →
      challengeFrom params hash [commitment.point, proof.T] = .ok c →
      challengeFrom params hash' [commitment.point, proof'.T] = .ok c' →
      (extractOpening params proof proof' c c').Opens params commitment) ∧
    (∀ (c1 c2 : Commitment P) (proof proof' : EqualityProof P) (c c' : ℤ),
      proof.T = proof'.T → c ≠ c' →
      verifyEqualOpenings params hash c1 c2 proof = true →
      verifyEqualOpenings params hash' c1 c2 proof' = true →
      challengeFrom params hash [c1.point, c2.point, proof.T] = .ok c →
      challengeFrom params hash' [c1.point, c2.point, proof'.T] = .ok c' →
      ∀ v r, Opening.Opens params ⟨v, r⟩ c1 ↔
        Opening.Opens params ⟨v, r - extractDifference params proof proof' c c'⟩ c2) ∧
    ∀ (commitment : Commitment P) (proof proof' : BitProof P) (c c' : ℤ),
      proof.T0 = proof'.T0 → proof.T1 = proof'.T1 → c ≠ c' →
      verifyBit params hash commitment proof = true →
      verifyBit params hash' commitment proof' = true →
      challengeFrom params hash [commitment.point, proof.T0, proof.T1] = .ok c →
      challengeFrom params hash' [commitment.point, proof'.T0, proof'.T1] = .ok c' →
      ((extractBit params proof proof').value = 0 ∨ (extractBit params proof proof').value = 1) ∧
        (extractBit params proof proof').Opens params commitment := by
  refine ⟨⟨?_, ?_, ?_⟩, ?_, ?_, ?_⟩
  · intro commitment opening a b opens hC hT
    obtain ⟨proof, proved⟩ : ∃ proof,
        proveOpening params hash commitment opening a b = .ok proof := exists_proveOpening hC hT
    exact ⟨proof, proved, verifyOpening_of_proved opens proved⟩
  · intro c1 c2 v r1 r2 k opens1 opens2 h1 h2 hT
    obtain ⟨proof, proved⟩ : ∃ proof, proveEqualOpenings params hash c1 c2 r1 r2 k = .ok proof :=
      exists_proveEqualOpenings h1 h2 hT
    exact ⟨proof, proved, verifyEqualOpenings_of_proved opens1 opens2 proved⟩
  · intro bit blinding nonces hbit hC hreal hsim
    obtain ⟨commitment, proof, proved⟩ : ∃ commitment proof,
        proveBit params hash bit blinding nonces = .ok (commitment, proof) :=
      exists_proveBit hbit hC hreal hsim
    exact ⟨commitment, proof, proved, (proveBit_spec proved).2⟩
  · intro commitment proof proof' c c' hT hne h h' hc hc'
    exact extractOpening_opens hT h h' hc hc' hne
  · intro c1 c2 proof proof' c c' hT hne h h' hc hc'
    exact extractDifference_opens hT h h' hc hc' hne
  · intro commitment proof proof' c c' hT0 hT1 hne h h' hc hc'
    exact extractBit_opens hT0 hT1 h h' hc hc' hne

/-- The integers modulo 7, with the generators 1 and 3 and a `mul` that ignores the sign. -/
def modSeven : ZkParams (ZMod 7) where
  G := 1
  H := 3
  order := 7
  prime := by decide
  exponent := by decide
  G_ne_zero := by decide
  H_ne_zero := by decide
  multiple n := n.natAbs
  multiple_of_nonneg h := Int.natAbs_of_nonneg h

theorem sigma_protocols_modSeven :
    (∃ proof, proveOpening modSeven (fun _ => 1) ⟨4⟩ ⟨1, 1⟩ 1 0 = .ok proof ∧
      verifyOpening modSeven (fun _ => 1) ⟨4⟩ proof = true) ∧
    (∃ proof, proveEqualOpenings modSeven (fun _ => 1) ⟨4⟩ ⟨3⟩ 1 3 1 = .ok proof ∧
      verifyEqualOpenings modSeven (fun _ => 1) ⟨4⟩ ⟨3⟩ proof = true) ∧
    (∃ commitment proof,
      proveBit modSeven (fun _ => 1) 1 1 ⟨1, 1, 1⟩ = .ok (commitment, proof) ∧
      Opening.Opens modSeven ⟨1, 1⟩ commitment ∧
      verifyBit modSeven (fun _ => 1) commitment proof = true) ∧
    (extractOpening modSeven ⟨1, 2, 1⟩ ⟨1, 3, 2⟩ 1 2).Opens modSeven ⟨4⟩ ∧
    Opening.Opens modSeven ⟨1, 1 - extractDifference modSeven ⟨3, 6⟩ ⟨3, 4⟩ 1 2⟩ ⟨3⟩ ∧
    (extractBit modSeven ⟨6, 3, 1, 0, 1, 1⟩ ⟨6, 3, 1, 1, 1, 2⟩).Opens modSeven ⟨4⟩ := by
  obtain ⟨⟨opening, equal, bit⟩, opening', equal', bit'⟩ :=
    sigma_protocols_complete_and_sound modSeven (fun _ => 1) (fun _ => 2)
  refine ⟨?_, ?_, ?_, ?_, ?_, ?_⟩
  · exact opening ⟨4⟩ ⟨1, 1⟩ 1 0 (by decide) (by decide) (by decide)
  · exact equal ⟨4⟩ ⟨3⟩ 1 1 3 1 (by decide) (by decide) (by decide) (by decide) (by decide)
  · exact bit 1 1 ⟨1, 1, 1⟩ (.inr rfl) (by decide) (by decide) (by decide)
  · exact opening' ⟨4⟩ ⟨1, 2, 1⟩ ⟨1, 3, 2⟩ 1 2 rfl (by decide) (by decide) (by decide) rfl rfl
  · exact (equal' ⟨4⟩ ⟨3⟩ ⟨3, 6⟩ ⟨3, 4⟩ 1 2 rfl (by decide) (by decide) (by decide) rfl rfl 1 1).1
      (by decide)
  · exact (bit' ⟨4⟩ ⟨6, 3, 1, 0, 1, 1⟩ ⟨6, 3, 1, 1, 1, 2⟩ 1 2 rfl rfl (by decide) (by decide)
      (by decide) rfl rfl).2

/-! ## A public value -/

/-- A proof of an opening convinces a verifier of any public value, so it tells the right one from
the wrong ones for the right one only. -/
theorem verifyBalanceEquals_iff_same_value {commitment : Commitment P} {opening : Opening}
    {proof : OpeningProof P} (expectedValue : ℤ) (opens : opening.Opens params commitment)
    (made : (∃ a b, proveOpening params hash commitment opening a b = .ok proof) ∨
      ∃ claimed a b,
        proveBalanceEquals params hash commitment opening claimed a b = .ok (some proof)) :
    (verifyBalanceEquals params hash commitment expectedValue proof = true ↔
        expectedValue ≡ opening.value [ZMOD params.order]) ↔
      expectedValue ≡ opening.value [ZMOD params.order] := by
  have accepted : verifyBalanceEquals params hash commitment expectedValue proof = true := by
    rcases made with ⟨a, b, proved⟩ | ⟨claimed, a, b, proved⟩
    · exact verifyOpening_of_proved opens proved
    · unfold proveBalanceEquals at proved
      split_ifs at proved with hclaimed
      · cases proved
      · cases hmade : proveOpening params hash commitment opening a b with
        | error e => simp [hmade, Except.map] at proved
        | ok made =>
          obtain rfl : made = proof := by simpa [hmade, Except.map] using proved
          exact verifyOpening_of_proved opens hmade
  simp [accepted]

theorem right_value_accepted :
    (verifyBalanceEquals modSeven (fun _ => 1) ⟨4⟩ 8 ⟨1, 2, 1⟩ = true ↔ 8 ≡ 1 [ZMOD 7]) ↔
      8 ≡ 1 [ZMOD 7] :=
  verifyBalanceEquals_iff_same_value 8 (by decide : Opening.Opens modSeven ⟨1, 1⟩ ⟨4⟩)
    (.inl ⟨1, 0, rfl⟩)

/-- A wrong public value is accepted with an honest proof. -/
theorem wrong_value_accepted :
    Opening.Opens modSeven ⟨1, 1⟩ ⟨4⟩ ∧
      proveBalanceEquals modSeven (fun _ => 1) ⟨4⟩ ⟨1, 1⟩ 1 1 0 = .ok (some ⟨1, 2, 1⟩) ∧
      ¬ (verifyBalanceEquals modSeven (fun _ => 1) ⟨4⟩ 2 ⟨1, 2, 1⟩ = true ↔ 2 ≡ 1 [ZMOD 7]) := by
  decide

end MobileMoney.Zk
