import MobileMoney.Library.Checked
import MobileMoney.Library.PrimeOrder

/-!
# Zero-knowledge proofs about committed values

`crypto/zkBalanceProof.ts`, and the range proofs of `crypto/zkKycProof.ts`, over any additive group
of prime order. Scalars are integers; random scalars are arguments. SHA-256 is any function of the
points that are hashed. A point stands for its encoding, and the identity has none: encoding it
throws, and no text is decoded to it.
-/

namespace MobileMoney.Zk

open PrimeOrder Checked

/-- The multiple of a point that `mul` of the curve library computes for a scalar is a field: for a
negative scalar it need not be that many times the point. -/
structure ZkParams (P : Type) [AddCommGroup P] where
  G : P
  H : P
  order : ℕ
  prime : order.Prime
  exponent : ∀ p : P, (order : ℤ) • p = 0
  G_ne_zero : G ≠ 0
  H_ne_zero : H ≠ 0
  multiple : ℤ → ℤ
  multiple_of_nonneg : ∀ {n : ℤ}, 0 ≤ n → multiple n = n

inductive ZkError where
  | pointAtInfinity
  | notABit
  | belowThreshold
  deriving DecidableEq, Repr

def ZkError.message : ZkError → String
  | .pointAtInfinity => "Cannot read properties of null (reading 'fromRed')"
  | .notABit => "proveBit: bit must be 0 or 1"
  | .belowThreshold => "Value is less than threshold, cannot prove range"

variable {P : Type} [AddCommGroup P] [DecidableEq P] (params : ZkParams P) (hash : List P → ℕ)

def pointToBytes (p : P) : Except ZkError P := if p = 0 then .error .pointAtInfinity else .ok p

/-- The hash of the points, reduced modulo the order. -/
def challengeFrom (points : List P) : Except ZkError ℤ := do
  let points ← points.mapM pointToBytes
  return hash points % params.order

def toScalar (n : ℤ) : ℤ := n % params.order

/-! ## Commitments -/

structure Commitment (P : Type) where
  point : P
  deriving DecidableEq

structure Opening where
  value : ℤ
  blinding : ℤ
  deriving DecidableEq

def commitWithBlinding (value blinding : ℤ) : Except ZkError (Commitment P) := do
  let point ← pointToBytes (toScalar params value • params.G + toScalar params blinding • params.H)
  return ⟨point⟩

/-- `v·G + r·H`. -/
def Opening.Opens (opening : Opening) (commitment : Commitment P) : Prop :=
  commitment.point = opening.value • params.G + opening.blinding • params.H

instance (opening : Opening) (commitment : Commitment P) :
    Decidable (opening.Opens params commitment) :=
  inferInstanceAs (Decidable (_ = _))

/-! ## Knowledge of an opening -/

structure OpeningProof (P : Type) where
  T : P
  z1 : ℤ
  z2 : ℤ
  deriving DecidableEq

def proveOpening (commitment : Commitment P) (opening : Opening) (a b : ℤ) :
    Except ZkError (OpeningProof P) := do
  let v := toScalar params opening.value
  let r := toScalar params opening.blinding
  let T := a • params.G + b • params.H
  let c ← challengeFrom params hash [commitment.point, T]
  return ⟨T, (a + c * v) % params.order, (b + c * r) % params.order⟩

def verifyOpening (commitment : Commitment P) (proof : OpeningProof P) : Bool :=
  match challengeFrom params hash [commitment.point, proof.T] with
  | .error _ => false
  | .ok c => proof.z1 • params.G + proof.z2 • params.H = proof.T + c • commitment.point

/-! ## Equality of committed values -/

structure EqualityProof (P : Type) where
  T : P
  z : ℤ
  deriving DecidableEq

def proveEqualOpenings (c1 c2 : Commitment P) (r1 r2 : ℤ) (k : ℤ) :
    Except ZkError (EqualityProof P) := do
  let delta := (toScalar params r1 - toScalar params r2) % params.order
  let T := k • params.H
  let c ← challengeFrom params hash [c1.point, c2.point, T]
  return ⟨T, (k + c * delta) % params.order⟩

def verifyEqualOpenings (c1 c2 : Commitment P) (proof : EqualityProof P) : Bool :=
  match challengeFrom params hash [c1.point, c2.point, proof.T] with
  | .error _ => false
  | .ok c => proof.z • params.H = proof.T + c • (c1.point + -c2.point)

/-! ## Commitments to a bit -/

structure BitProof (P : Type) where
  T0 : P
  T1 : P
  c0 : ℤ
  c1 : ℤ
  z0 : ℤ
  z1 : ℤ
  deriving DecidableEq

/-- The scalars of the simulated branch, and that of the real one. -/
structure BitNonces where
  zSim : ℤ
  cSim : ℤ
  k : ℤ
  deriving DecidableEq

def proveBit (bit blinding : ℤ) (nonces : BitNonces) :
    Except ZkError (Commitment P × BitProof P) := do
  require (bit = 0 ∨ bit = 1) .notABit
  let r := toScalar params blinding
  let C ← pointToBytes ((if bit = 0 then 0 else 1 : ℤ) • params.G + r • params.H)
  let realIndex := bit
  let simIndex := 1 - realIndex
  let Psim := if simIndex = 0 then C else C + -params.G
  let Tsim := nonces.zSim • params.H + -(nonces.cSim • Psim)
  let Treal := nonces.k • params.H
  let T0 := if realIndex = 0 then Treal else Tsim
  let T1 := if realIndex = 1 then Treal else Tsim
  let cTotal ← challengeFrom params hash [C, T0, T1]
  let cReal := (cTotal - nonces.cSim) % params.order
  let zReal := (nonces.k + cReal * r) % params.order
  return (⟨C⟩, {
    T0 := T0
    T1 := T1
    c0 := if realIndex = 0 then cReal else nonces.cSim
    c1 := if realIndex = 1 then cReal else nonces.cSim
    z0 := if realIndex = 0 then zReal else nonces.zSim
    z1 := if realIndex = 1 then zReal else nonces.zSim })

def verifyBit (commitment : Commitment P) (proof : BitProof P) : Bool :=
  match challengeFrom params hash [commitment.point, proof.T0, proof.T1] with
  | .error _ => false
  | .ok cTotal =>
    let P0 := commitment.point
    let P1 := commitment.point + -params.G
    if (proof.c0 + proof.c1) % params.order ≠ cTotal then false
    else if proof.z0 • params.H ≠ proof.T0 + proof.c0 • P0 then false
    else if proof.z1 • params.H ≠ proof.T1 + proof.c1 • P1 then false
    else true

/-! ## A public value -/

def proveBalanceEquals (commitment : Commitment P) (opening : Opening) (expectedValue a b : ℤ) :
    Except ZkError (Option (OpeningProof P)) :=
  if opening.value ≠ expectedValue then .ok none
  else (proveOpening params hash commitment opening a b).map some

/-- The expected value is not looked at. -/
def verifyBalanceEquals (commitment : Commitment P) (_expectedValue : ℤ)
    (proof : OpeningProof P) : Bool :=
  verifyOpening params hash commitment proof

/-! ## Ranges -/

structure RangeProof (P : Type) where
  bitCommitments : List (Commitment P)
  bitProofs : List (BitProof P)
  deriving DecidableEq

/-- So many bits, from the least on. -/
def bitsOf : ℕ → ℤ → List ℤ
  | 0, _ => []
  | k + 1, temp => temp % 2 :: bitsOf k (temp / 2)

/-- What the first blindings contribute to the sum. -/
def sumR (blindings : ℕ → ℤ) : ℕ → ℤ
  | 0 => 0
  | i + 1 => (sumR blindings i + blindings i * 2 ^ i) % params.order

/-- The blindings of the bits: the last one is solved for. -/
def rBits (r : ℤ) (k : ℕ) (blindings : ℕ → ℤ) (i : ℕ) : ℤ :=
  let inv2k := inverse (2 ^ (k - 1)) params.order
  let rLast := ((r - sumR params blindings (k - 1)) * inv2k) % params.order
  if i < k - 1 then blindings i else rLast

def proveRange (_commitment : Commitment P) (opening : Opening) (threshold : ℤ) (k : ℕ)
    (blindings : ℕ → ℤ) (nonces : ℕ → BitNonces) : Except ZkError (RangeProof P) := do
  require (¬ opening.value < threshold) .belowThreshold
  let delta := opening.value - threshold
  let rBits := rBits params opening.blinding k blindings
  let proved ← (bitsOf k delta).zipIdx.mapM fun (bit, i) =>
    proveBit params hash bit (rBits i) (nonces i)
  return ⟨proved.map (·.1), proved.map (·.2)⟩

/-- The sum of the commitments with the weights of their bits. -/
def sumPoint (bitCommitments : List (Commitment P)) : P :=
  bitCommitments.zipIdx.foldl (fun sum (C, i) => sum + (2 ^ i : ℤ) • C.point) 0

/-- The sum check of `verifyRange`. The threshold is not reduced modulo the order, so it is the one
scalar of this file that can be negative. -/
def sumCheck (commitment : Commitment P) (bitCommitments : List (Commitment P))
    (threshold : ℤ) : Bool :=
  sumPoint bitCommitments = commitment.point + -(params.multiple threshold • params.G)

def verifyRange (commitment : Commitment P) (proof : RangeProof P) (threshold : ℤ) (k : ℕ) :
    Bool :=
  if proof.bitCommitments.length ≠ k ∨ proof.bitProofs.length ≠ k then false
  else (proof.bitCommitments.zip proof.bitProofs).all
      (fun (bitCommitment, bitProof) => verifyBit params hash bitCommitment bitProof) &&
    sumCheck params commitment proof.bitCommitments threshold

end MobileMoney.Zk
