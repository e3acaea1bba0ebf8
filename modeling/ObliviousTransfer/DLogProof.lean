import ObliviousTransfer.Random
import ObliviousTransfer.Transcript

/-!
# Proofs of knowledge of a discrete logarithm

The sender of the base transfers publishes one point `B = b • G` and uses it in every instance, so
the receiver has to be convinced that the sender knows `b`. The proof is Schnorr's, made
non-interactive: the challenge is read from a fork of the session transcript that has taken in the
generator, the point and the commitment.

A proof for the point at infinity never verifies: its logarithm is known to everybody, and with it
every output of the base transfers.
-/

namespace ObliviousTransfer

/-- A point, with a proof that its maker knows its discrete logarithm. -/
structure DLogProof (P : Type) where
  /-- The point whose logarithm is known. -/
  point : P
  /-- A random multiple of the generator. -/
  commitment : P
  /-- The logarithm of the commitment, less the challenge times that of the point. -/
  response : Scalar
deriving DecidableEq, Repr

namespace DLogProof

variable {P : Type} [PointGroup P]

/-- The domain of the challenges. -/
def domain : Bytes := Bytes.ofAscii "DLogProof"

/-- The transcript from which the challenge for a point and a commitment is read. -/
def statement (t : Transcript) (point commitment : P) : Transcript :=
  (t.fork domain [])
    |>.appendPoint (Bytes.ofAscii "generator") (PointGroup.generator : P)
    |>.appendPoint (Bytes.ofAscii "point") point
    |>.appendPoint (Bytes.ofAscii "rand_commitment") commitment

/-- The challenge for a point and a commitment. -/
def challenge (t : Transcript) (point commitment : P) : Scalar :=
  (statement t point commitment).read Reading.scalar

/-- The proof for the multiple of the generator by `secret`, with the logarithm `nonce` of the
commitment. -/
def make (secret nonce : Scalar) (t : Transcript) : DLogProof P :=
  let point : P := secret • PointGroup.generator
  let commitment : P := nonce • PointGroup.generator
  ⟨point, commitment, nonce - challenge t point commitment * secret⟩

/-- A proof for the multiple of the generator by `secret`. -/
def prove {σ : Type} [ByteStream σ] (secret : Scalar) (t : Transcript) : Draw σ (DLogProof P) := do
  return make secret (← Draw.nonzeroScalar) t

/-- Whether the proof holds under a transcript. -/
def verify [DecidableEq P] (proof : DLogProof P) (t : Transcript) : Bool :=
  if proof.point = 0 then false
  else
    let c := challenge t proof.point proof.commitment
    decide (proof.response • PointGroup.generator + c • proof.point = proof.commitment)

end DLogProof

end ObliviousTransfer
