import MobileMoney.Zk.Sigma

/-!
# Range proofs

A range proof is a list of commitments to bits that add up, with the weights of the bits, to the
commitment less the threshold. The last blinding of an honest proof is solved for, so the blindings
add up; the bits do for a difference that has no more bits than are proved.
-/

namespace MobileMoney.Zk

open PrimeOrder Checked

variable {P : Type} [AddCommGroup P] [DecidableEq P] {params : ZkParams P} {hash : List P → ℕ}
variable {commitment : Commitment P} {threshold : ℤ} {k : ℕ}

/-! ## Weights -/

/-- The number with these digits to the base 2, from the least on. -/
def weigh : List ℤ → ℤ
  | [] => 0
  | x :: xs => x + 2 * weigh xs

def weighPoints : List P → P
  | [] => 0
  | p :: ps => p + (2 : ℤ) • weighPoints ps

omit [DecidableEq P] in
theorem foldl_zipIdx (bitCommitments : List (Commitment P)) (i : ℕ) (sum : P) :
    (bitCommitments.zipIdx i).foldl (fun sum (C, j) => sum + (2 ^ j : ℤ) • C.point) sum =
      sum + (2 ^ i : ℤ) • weighPoints (bitCommitments.map (·.point)) := by
  induction bitCommitments generalizing i sum with
  | nil => simp [weighPoints]
  | cons C bitCommitments ih =>
    rw [List.zipIdx_cons, List.foldl_cons, ih, List.map_cons, weighPoints, pow_succ]
    module

omit [DecidableEq P] in
theorem sumPoint_eq_weighPoints (bitCommitments : List (Commitment P)) :
    sumPoint bitCommitments = weighPoints (bitCommitments.map (·.point)) := by
  rw [sumPoint, foldl_zipIdx, zero_add, pow_zero, one_zsmul]

omit [DecidableEq P] in
theorem sumPoint_eq_of_opens {openings : List Opening} {bitCommitments : List (Commitment P)}
    (h : List.Forall₂ (fun opening C => opening.Opens params C) openings bitCommitments) :
    sumPoint bitCommitments = weigh (openings.map (·.value)) • params.G +
      weigh (openings.map (·.blinding)) • params.H := by
  rw [sumPoint_eq_weighPoints]
  induction h with
  | nil => simp [weigh, weighPoints]
  | cons opens _ ih =>
    rw [List.map_cons, List.map_cons, List.map_cons, weigh, weigh, weighPoints, ih, opens]
    module

/-- The sum check compares values and blindings at once. -/
theorem sumCheck_iff {openings : List Opening} {bitCommitments : List (Commitment P)} {v s : ℤ}
    (h : List.Forall₂ (fun opening C => opening.Opens params C) openings bitCommitments)
    (opens : Opening.Opens params ⟨v, s⟩ commitment) :
    sumCheck params commitment bitCommitments threshold = true ↔
      (v - (params.multiple threshold + weigh (openings.map (·.value)))) • params.G =
        (weigh (openings.map (·.blinding)) - s) • params.H := by
  set x := weigh (openings.map (·.value))
  set y := weigh (openings.map (·.blinding))
  set t := params.multiple threshold
  have point : commitment.point = v • params.G + s • params.H := opens
  have moved : x • params.G + y • params.H - (commitment.point + -(t • params.G)) =
      (y - s) • params.H - (v - (t + x)) • params.G := by
    rw [point]
    module
  rw [sumCheck, decide_eq_true_iff, sumPoint_eq_of_opens h, ← sub_eq_zero, moved, sub_eq_zero,
    eq_comm]

theorem weigh_bits {bits : List ℤ} (h : ∀ b ∈ bits, b = 0 ∨ b = 1) :
    0 ≤ weigh bits ∧ weigh bits < 2 ^ bits.length := by
  induction bits with
  | nil => simp [weigh]
  | cons b bits ih =>
    obtain ⟨hb, hbits⟩ := List.forall_mem_cons.1 h
    have := ih hbits
    rw [weigh, List.length_cons, pow_succ]
    omega

theorem weigh_bitsOf (k : ℕ) (n : ℤ) : weigh (bitsOf k n) = n % 2 ^ k := by
  induction k generalizing n with
  | zero => simp [weigh, bitsOf]
  | succ k ih =>
    have hpos : (0 : ℤ) < 2 ^ k := by positivity
    have hpow : (2 : ℤ) ^ (k + 1) = 2 * 2 ^ k := pow_succ' 2 k
    have hn := Int.emod_add_mul_ediv n 2
    have hhalf := Int.emod_add_mul_ediv (n / 2) (2 ^ k)
    have low := Int.emod_lt_of_pos (n / 2) hpos
    have := Int.emod_nonneg (n / 2) hpos.ne'
    have split : n = n % 2 + 2 * (n / 2 % 2 ^ k) + 2 ^ (k + 1) * (n / 2 / 2 ^ k) := by
      rw [hpow, mul_assoc]
      linarith
    rw [bitsOf, weigh, ih]
    have reduced : (n % 2 + 2 * (n / 2 % 2 ^ k)) % 2 ^ (k + 1) = n % 2 + 2 * (n / 2 % 2 ^ k) :=
      Int.emod_eq_of_lt (by omega) (by omega)
    rw [← reduced, ← Int.add_mul_emod_self_left _ _ (n / 2 / 2 ^ k), ← split]

@[simp] theorem length_bitsOf (k : ℕ) (n : ℤ) : (bitsOf k n).length = k := by
  induction k generalizing n with
  | zero => rfl
  | succ k ih => rw [bitsOf, List.length_cons, ih]

/-! ## The blindings of an honest proof -/

omit [DecidableEq P] in
theorem sumR_congr {f g : ℕ → ℤ} {k : ℕ} (h : ∀ i < k, f i = g i) :
    sumR params f k = sumR params g k := by
  induction k with
  | zero => rfl
  | succ k ih => rw [sumR, sumR, ih fun i hi => h i (by omega), h k (by omega)]

omit [DecidableEq P] in
/-- The loop of the prover adds the blindings with their weights. -/
theorem sumR_modEq_weigh (params : ZkParams P) (f : ℕ → ℤ) (j n : ℕ) :
    sumR params f (j + n) ≡
      sumR params f j + 2 ^ j * weigh ((List.range' j n).map f) [ZMOD params.order] := by
  induction n generalizing j with
  | zero => simp [weigh, Int.ModEq.refl]
  | succ n ih =>
    have rest := ih (j + 1)
    have first : sumR params f (j + 1) ≡ sumR params f j + f j * 2 ^ j [ZMOD params.order] :=
      Int.mod_modEq _ _
    have regrouped : sumR params f j + f j * 2 ^ j +
        2 ^ (j + 1) * weigh ((List.range' (j + 1) n).map f) =
        sumR params f j + 2 ^ j * weigh ((List.range' j (n + 1)).map f) := by
      rw [List.range'_succ, List.map_cons, weigh, pow_succ]
      ring
    rw [show j + (n + 1) = j + 1 + n by omega, ← regrouped]
    exact rest.trans (first.add_right _)

omit [DecidableEq P] in
/-- The last blinding is solved for, by the inverse of its weight. -/
theorem sumR_rBits (r : ℤ) (m : ℕ) (blindings : ℕ → ℤ)
    (invertible : ¬ (params.order : ℤ) ∣ 2 ^ m) :
    sumR params (rBits params r (m + 1) blindings) (m + 1) ≡ r [ZMOD params.order] := by
  have drawn : sumR params (rBits params r (m + 1) blindings) m = sumR params blindings m :=
    sumR_congr fun i hi => by simp [rBits, hi]
  have solved : rBits params r (m + 1) blindings m ≡
      (r - sumR params blindings m) * inverse (2 ^ m) params.order [ZMOD params.order] := by
    simpa [rBits] using Int.mod_modEq _ _
  have unit := inverse_mul_modEq params.prime invertible
  rw [sumR, drawn]
  calc (sumR params blindings m + rBits params r (m + 1) blindings m * 2 ^ m) % params.order
      ≡ sumR params blindings m + rBits params r (m + 1) blindings m * 2 ^ m
        [ZMOD params.order] := Int.mod_modEq _ _
    _ ≡ sumR params blindings m + (r - sumR params blindings m) *
          inverse (2 ^ m) params.order * 2 ^ m [ZMOD params.order] :=
        (solved.mul_right _).add_left _
    _ ≡ sumR params blindings m + (r - sumR params blindings m) * 1 [ZMOD params.order] := by
        rw [mul_assoc]
        exact (unit.mul_left _).add_left _
    _ = r := by ring

omit [DecidableEq P] in
/-- Of a group of order two only the first blinding counts. -/
theorem sumR_rBits_two (r : ℤ) (m : ℕ) (blindings : ℕ → ℤ) (two : params.order = 2) (hm : m ≠ 0) :
    sumR params (rBits params r (m + 1) blindings) (m + 1) ≡ blindings 0 [ZMOD params.order] := by
  have first : rBits params r (m + 1) blindings 0 = blindings 0 := by
    simp [rBits, Nat.pos_of_ne_zero hm]
  have all := sumR_modEq_weigh params (rBits params r (m + 1) blindings) 0 (m + 1)
  rw [zero_add] at all
  refine all.trans ?_
  rw [List.range'_succ, List.map_cons, weigh, first, two, sumR]
  exact Int.modEq_iff_dvd.2 ⟨-weigh _, by push_cast; ring⟩

omit [DecidableEq P] in
theorem invertible_iff (params : ZkParams P) (m : ℕ) :
    ¬ (params.order : ℤ) ∣ 2 ^ m ↔ (params.order = 2 → m = 0) := by
  have power : (params.order : ℤ) ∣ 2 ^ m ↔ params.order ∣ 2 ^ m := by
    exact_mod_cast Int.natCast_dvd_natCast
  rw [power]
  constructor
  · rintro hnot two
    by_contra hm
    rw [two] at hnot
    exact hnot (dvd_pow_self 2 hm)
  · intro odd hdvd
    have two := (Nat.prime_dvd_prime_iff_eq params.prime Nat.prime_two).1
      (params.prime.dvd_of_dvd_pow hdvd)
    rw [odd two, pow_zero, Nat.dvd_one] at hdvd
    exact params.prime.one_lt.ne' hdvd

/-! ## Honest proofs -/

/-- What the commitments of an honest proof open to. -/
def rangeOpenings (params : ZkParams P) (opening : Opening) (threshold : ℤ) (k : ℕ)
    (blindings : ℕ → ℤ) : List Opening :=
  (bitsOf k (opening.value - threshold)).zipIdx.map fun (bit, i) =>
    ⟨bit, rBits params opening.blinding k blindings i⟩

omit [DecidableEq P] in
theorem rangeOpenings_values (opening : Opening) (threshold : ℤ) (k : ℕ) (blindings : ℕ → ℤ) :
    (rangeOpenings params opening threshold k blindings).map (·.value) =
      bitsOf k (opening.value - threshold) := by
  rw [rangeOpenings, List.map_map]
  exact List.zipIdx_map_fst _ _

omit [DecidableEq P] in
theorem rangeOpenings_blindings (opening : Opening) (threshold : ℤ) (k : ℕ) (blindings : ℕ → ℤ) :
    (rangeOpenings params opening threshold k blindings).map (·.blinding) =
      (List.range' 0 k).map (rBits params opening.blinding k blindings) := by
  have indices := List.zipIdx_map_snd 0 (bitsOf k (opening.value - threshold))
  rw [length_bitsOf] at indices
  rw [rangeOpenings, List.map_map, ← indices, List.map_map]
  rfl

theorem proveRange_spec {opening : Opening} {blindings : ℕ → ℤ} {nonces : ℕ → BitNonces}
    {proof : RangeProof P}
    (h : proveRange params hash commitment opening threshold k blindings nonces = .ok proof) :
    proof.bitCommitments.length = k ∧ proof.bitProofs.length = k ∧
      List.Forall₂ (fun opening C => opening.Opens params C)
        (rangeOpenings params opening threshold k blindings) proof.bitCommitments ∧
      ∀ proved ∈ proof.bitCommitments.zip proof.bitProofs,
        verifyBit params hash proved.1 proved.2 = true := by
  simp only [proveRange, bind_eq_ok, require_eq_ok, pure_eq_ok] at h
  obtain ⟨-, -, proved, hbits, rfl⟩ := h
  have bits := mapM_eq_ok.1 hbits
  have count : proved.length = k := by
    rw [← bits.length_eq, List.length_zipIdx, length_bitsOf]
  refine ⟨by simpa using count, by simpa using count, ?_, ?_⟩
  · rw [rangeOpenings, List.forall₂_map_left_iff, List.forall₂_map_right_iff]
    exact bits.imp fun _ _ hbit => (proveBit_spec hbit).2.1
  · rw [List.zip_map', List.map_id'' fun _ => rfl]
    intro made hmade
    obtain ⟨_, -, hbit⟩ := exists_of_mem_mapM hbits hmade
    exact (proveBit_spec hbit).2.2

/-- The proved bits are the whole difference, modulo the order; a negative threshold counts as what
the curve library makes of it. Without bits there is no blinding to solve for, and of a group of
order two the last one has no weight. -/
def RangeFits (params : ZkParams P) (opening : Opening) (threshold : ℤ) (blindings : ℕ → ℤ) :
    ℕ → Prop
  | 0 => (opening.value - params.multiple threshold) • params.G +
      opening.blinding • params.H = 0
  | m + 1 =>
    let rest := opening.value - params.multiple threshold -
      (opening.value - threshold) % 2 ^ (m + 1)
    if params.order = 2 ∧ m ≠ 0 then
      rest • params.G = (blindings 0 - opening.blinding) • params.H
    else (params.order : ℤ) ∣ rest

theorem verifyRange_of_proved_iff {opening : Opening} {blindings : ℕ → ℤ}
    {nonces : ℕ → BitNonces} {proof : RangeProof P} (opens : opening.Opens params commitment)
    (h : proveRange params hash commitment opening threshold k blindings nonces = .ok proof) :
    verifyRange params hash commitment proof threshold k = true ↔
      RangeFits params opening threshold blindings k := by
  obtain ⟨hcommitments, hproofs, bits, verified⟩ := proveRange_spec h
  have verifies : verifyRange params hash commitment proof threshold k =
      sumCheck params commitment proof.bitCommitments threshold := by
    simp only [verifyRange, hcommitments, hproofs, ne_eq, not_true_eq_false, or_self, if_false,
      List.all_eq_true.2 verified, Bool.true_and]
  rw [verifies, sumCheck_iff bits opens, rangeOpenings_values, rangeOpenings_blindings,
    weigh_bitsOf]
  set t := params.multiple threshold
  cases k with
  | zero =>
    have moved : (opening.value - t) • params.G + opening.blinding • params.H =
        (opening.value - t) • params.G - (0 - opening.blinding) • params.H := by module
    rw [RangeFits, moved, sub_eq_zero, pow_zero, Int.emod_one, add_zero]
    rfl
  | succ m =>
    set delta := opening.value - threshold
    set total := weigh ((List.range' 0 (m + 1)).map
      (rBits params opening.blinding (m + 1) blindings))
    have looped : sumR params (rBits params opening.blinding (m + 1) blindings) (m + 1) ≡
        total [ZMOD params.order] := by
      simpa [sumR] using sumR_modEq_weigh params
        (rBits params opening.blinding (m + 1) blindings) 0 (m + 1)
    -- Only what the blindings add up to modulo the order is seen.
    have seen {solved : ℤ} (hsolved : total ≡ solved [ZMOD params.order]) :
        (total - opening.blinding) • params.H = (solved - opening.blinding) • params.H := by
      rw [← sub_eq_zero, ← sub_smul, sub_sub_sub_cancel_right,
        zsmul_eq_zero_iff params.prime params.exponent params.H_ne_zero]
      exact hsolved.symm.dvd
    have rest : opening.value - (t + delta % 2 ^ (m + 1)) =
        opening.value - t - delta % 2 ^ (m + 1) := by
      ring
    rw [RangeFits, rest]
    by_cases two : params.order = 2 ∧ m ≠ 0
    · rw [if_pos two, seen (looped.symm.trans
        (sumR_rBits_two opening.blinding m blindings two.1 two.2))]
    · have invertible : ¬ (params.order : ℤ) ∣ 2 ^ m :=
        (invertible_iff params m).2 fun heq => by_contra fun hm => two ⟨heq, hm⟩
      rw [if_neg two, seen (looped.symm.trans (sumR_rBits opening.blinding m blindings invertible)),
        sub_self, zero_zsmul, zsmul_eq_zero_iff params.prime params.exponent params.G_ne_zero]

/-! ## Soundness -/

/-- The discrete logarithm of `H`, from bits whose blindings do not add up to that of the
commitment. -/
def extractLogarithm (params : ZkParams P) (v s threshold : ℤ) (openings : List Opening) : ℤ :=
  inverse (weigh (openings.map (·.blinding)) - s) params.order *
    (v - (params.multiple threshold + weigh (openings.map (·.value))))

theorem sumCheck_sound {openings : List Opening} {bitCommitments : List (Commitment P)} {v s : ℤ}
    (h : List.Forall₂ (fun opening C => opening.Opens params C) openings bitCommitments)
    (opens : Opening.Opens params ⟨v, s⟩ commitment)
    (checked : sumCheck params commitment bitCommitments threshold = true) :
    (v ≡ params.multiple threshold + weigh (openings.map (·.value)) [ZMOD params.order] ↔
      weigh (openings.map (·.blinding)) ≡ s [ZMOD params.order]) ∧
    (¬ weigh (openings.map (·.blinding)) ≡ s [ZMOD params.order] →
      params.H = extractLogarithm params v s threshold openings • params.G) := by
  have equal := (sumCheck_iff h opens).1 checked
  set d := weigh (openings.map (·.value))
  set r := weigh (openings.map (·.blinding))
  set t := params.multiple threshold
  have values : v ≡ t + d [ZMOD params.order] ↔ (v - (t + d)) • params.G = 0 := by
    rw [zsmul_eq_zero_iff params.prime params.exponent params.G_ne_zero, ← Int.modEq_iff_dvd]
    exact ⟨.symm, .symm⟩
  have blindings : r ≡ s [ZMOD params.order] ↔ (r - s) • params.H = 0 := by
    rw [zsmul_eq_zero_iff params.prime params.exponent params.H_ne_zero, ← Int.modEq_iff_dvd]
    exact ⟨.symm, .symm⟩
  refine ⟨by rw [values, blindings, equal], fun hne => ?_⟩
  have unit : ¬ (params.order : ℤ) ∣ r - s := fun hdvd => hne (Int.modEq_iff_dvd.2 hdvd).symm
  rw [extractLogarithm, mul_zsmul, equal, inverse_zsmul params.prime params.exponent unit]

/-- What the curve library makes of a threshold is congruent to it just when it gives the same
values to the bits. -/
theorem threshold_modEq_iff {v t t' d m : ℤ} (h : v ≡ t' + d [ZMOD m]) :
    v ≡ t + d [ZMOD m] ↔ t' ≡ t [ZMOD m] :=
  ⟨fun heq => Int.ModEq.add_right_cancel' d (h.symm.trans heq),
    fun heq => h.trans (heq.add_right d)⟩

/-! ## The two halves -/

/-- An honest range proof is accepted exactly if the bits fit. The bits of an accepted sum give the
committed value, for a threshold that is not negative, exactly if the blindings add up, which they
do unless the logarithm of `H` is found; for any threshold to which they add up, exactly if the
curve library takes it to a congruent number. -/
theorem range_proofs_iff (params : ZkParams P) (hash : List P → ℕ) (threshold : ℤ) (k : ℕ) :
    (∀ (commitment : Commitment P) (opening : Opening) (blindings : ℕ → ℤ)
        (nonces : ℕ → BitNonces) (proof : RangeProof P),
      opening.Opens params commitment →
      proveRange params hash commitment opening threshold k blindings nonces = .ok proof →
      (verifyRange params hash commitment proof threshold k = true ↔
        RangeFits params opening threshold blindings k)) ∧
    ∀ (commitment : Commitment P) (bitCommitments : List (Commitment P)) (openings : List Opening)
        (v s : ℤ),
      bitCommitments.length = k → (∀ opening ∈ openings, opening.value = 0 ∨ opening.value = 1) →
      List.Forall₂ (fun opening C => opening.Opens params C) openings bitCommitments →
      Opening.Opens params ⟨v, s⟩ commitment →
      sumCheck params commitment bitCommitments threshold = true →
      (0 ≤ weigh (openings.map (·.value)) ∧ weigh (openings.map (·.value)) < 2 ^ k) ∧
      (0 ≤ threshold →
        (v ≡ threshold + weigh (openings.map (·.value)) [ZMOD params.order] ↔
          weigh (openings.map (·.blinding)) ≡ s [ZMOD params.order])) ∧
      (weigh (openings.map (·.blinding)) ≡ s [ZMOD params.order] →
        (v ≡ threshold + weigh (openings.map (·.value)) [ZMOD params.order] ↔
          params.multiple threshold ≡ threshold [ZMOD params.order])) ∧
      (¬ weigh (openings.map (·.blinding)) ≡ s [ZMOD params.order] →
        params.H = extractLogarithm params v s threshold openings • params.G) := by
  constructor
  · intro commitment opening blindings nonces proof opens proved
    exact verifyRange_of_proved_iff opens proved
  · intro commitment bitCommitments openings v s count bits h opens checked
    have values : ∀ b ∈ openings.map (·.value), b = 0 ∨ b = 1 := by simpa using bits
    have range := weigh_bits values
    rw [List.length_map, h.length_eq, count] at range
    obtain ⟨sound, logarithm⟩ := sumCheck_sound h opens checked
    refine ⟨range, fun nonneg => ?_, fun add_up => threshold_modEq_iff (sound.2 add_up), logarithm⟩
    rwa [params.multiple_of_nonneg nonneg] at sound

theorem range_of_one_bit :
    (verifyRange modSeven (fun _ => 1) ⟨4⟩ ⟨[⟨4⟩], [⟨6, 3, 1, 0, 1, 1⟩]⟩ 0 1 = true ↔
      RangeFits modSeven ⟨1, 1⟩ 0 (fun _ => 1) 1) ∧
    RangeFits modSeven ⟨1, 1⟩ 0 (fun _ => 1) 1 ∧
    (1 ≡ 0 + weigh [1] [ZMOD 7] ↔ weigh [1] ≡ 1 [ZMOD 7]) := by
  obtain ⟨complete, sound⟩ := range_proofs_iff modSeven (fun _ => 1) 0 1
  refine ⟨?_, by simp [RangeFits, modSeven], ?_⟩
  · exact complete ⟨4⟩ ⟨1, 1⟩ (fun _ => 1) (fun _ => ⟨1, 1, 1⟩) _ (by decide) (by decide +kernel)
  · exact (sound ⟨4⟩ [⟨4⟩] [⟨1, 1⟩] 1 1 rfl (by decide) (.cons (by decide) .nil) (by decide)
      (by decide)).2.1 le_rfl

/-- The difference of 2 has two bits, and one is proved. -/
theorem proof_of_low_bits_rejected :
    Opening.Opens modSeven ⟨2, 1⟩ ⟨5⟩ ∧
      proveRange modSeven (fun _ => 1) ⟨5⟩ ⟨2, 1⟩ 0 1 (fun _ => 1) (fun _ => ⟨1, 1, 1⟩) =
        .ok ⟨[⟨3⟩], [⟨3, 1, 0, 1, 1, 1⟩]⟩ ∧
      verifyRange modSeven (fun _ => 1) ⟨5⟩ ⟨[⟨3⟩], [⟨3, 1, 0, 1, 1, 1⟩]⟩ 0 1 = false := by
  decide +kernel

end MobileMoney.Zk
