import ObliviousTransfer.AdditiveTransfer

/-!
# Multiplication

The sender holds `α` and the receiver `β`; they end with scalars that add up to `α * β`. The
receiver writes `β` as a sum of entries of a public gadget vector, and uses the bits that select the
entries as choices in additive transfers of `α`; each party adds up its shares, weighted by the
entries.

The gadget vector holds the powers of two and 160 random scalars. The bits of the latter are random
too, so that a sender that makes the receiver fail for some choices learns nothing about `β`.

A sender that does not use one `α` in all transfers is found out by the second position of the
pairs, which carries a random `α̂`: the sender reveals `χ̃ * α + χ̂ * α̂` for challenges that depend
on all ciphertexts, and a hash of the same combination of its shares, which the receiver computes
from the other side.
-/

namespace ObliviousTransfer.Multiply

open AdditiveTransfer Correlated

/-- The sender's message. -/
structure Message where
  additive : AdditiveTransfer.Message
  /-- The challenged combination of the sender's inputs. -/
  verifyU : Scalar
  /-- The hash of the challenged combinations of the sender's shares. -/
  verifyR : Block
deriving DecidableEq, Repr

/-- The domain of the random part of the gadget vector. -/
def gadgetDomain : Bytes := Bytes.ofAscii "multiply/gadget"

/-- The domain of the challenges. -/
def checkDomain : Bytes := Bytes.ofAscii "multiply/check"

/-- The batch of one multiplication. -/
def batch : Extension.BatchSize := ⟨gadgetBytes, by decide⟩

/-- The gadget vector: the powers of two, and scalars read from the transcript. -/
def publicGadget (t : Transcript) : List Scalar :=
  (List.range securityBits).map (fun i => Scalar.reduce (1 <<< i)) ++
    (t.fork gadgetDomain []).read (Reading.times noiseBits Reading.scalar)

/-- The sum of the entries that bits select. -/
def selectedSum (entries : List Scalar) (bits : List Bool) : Scalar :=
  Scalar.sum (List.zipWith (fun entry bit => if bit then entry else 0) entries bits)

/-- The choices for `beta` with given bits for the random entries: these bits stand at the end, and
before them the binary digits of what is left of `beta`. -/
def encodeWith (beta : Scalar) (gadget : List Scalar) (noise : Bytes) : Bytes :=
  let offset := selectedSum (gadget.drop securityBits) (Bits.unpack noise)
  Bytes.ofNatLE securityBytes (beta - offset).val ++ noise

/-- The choices for `beta` with random bits for the random entries. -/
def encode {σ : Type} [ByteStream σ] (beta : Scalar) (gadget : List Scalar) : Draw σ Bytes := do
  return encodeWith beta gadget (← Draw.packedBits noiseBits)

/-- The sum of the first shares, weighted by the gadget vector. -/
def weightedSum (gadget : List Scalar) (shares : List ScalarPair) : Scalar :=
  Scalar.sum (List.zipWith (fun entry share => entry * share.1) gadget shares)

/-! ## The check -/

/-- The challenges of the check and the salt of its hash. -/
structure Challenges where
  tilde : Scalar
  hat : Scalar
  salt : Block

/-- The challenges, which depend on every ciphertext. -/
def challenges (t : Transcript) (message : AdditiveTransfer.Message) : Challenges :=
  let label := Bytes.ofAscii "ciphertext"
  let check := message.ciphertexts.foldl
    (fun t pair => (t.appendScalar label pair.1).appendScalar label pair.2) (t.fork checkDomain [])
  check.read do
    let tilde ← Reading.scalar
    let hat ← Reading.scalar
    let salt ← Reading.block
    return ⟨tilde, hat, salt⟩

/-- The challenged combination of a pair. -/
def Challenges.combine (c : Challenges) (pair : ScalarPair) : Scalar :=
  c.tilde * pair.1 + c.hat * pair.2

/-- The string that stands for a list of scalars in the check's hash. -/
def checkBytes (entries : List Scalar) : Bytes :=
  entries.flatMap Scalar.toBytes

/-- The hash of a list of scalars under the salt of the check. -/
def Challenges.hash (c : Challenges) (entries : List Scalar) : Block :=
  ObliviousTransfer.hash (checkBytes entries) c.salt.toBytes

/-! ## The sender -/

/-- The sender, ready for the receiver's message. -/
structure Sender where
  transcript : Transcript
  gadget : List Scalar
  alpha : Scalar
  /-- The random scalar in the second position. -/
  alphaHat : Scalar
  pool : Pool

/-- The sender with a given scalar in the second position. -/
def Sender.make (t : Transcript) (alpha alphaHat : Scalar) (pool : Pool) : Sender :=
  ⟨t, publicGadget t, alpha, alphaHat, pool⟩

/-- A new sender. -/
def Sender.init {σ : Type} [ByteStream σ] (t : Transcript) (alpha : Scalar) (pool : Pool) :
    Draw σ Sender := do
  return Sender.make t alpha (← Draw.scalar) pool

/-- The sender's share, and the message for the receiver. -/
def Sender.send (sender : Sender) (setup : SendSetup) (message : Extension.Message) :
    Except OTError (Scalar × Message) := do
  let alpha := (sender.alpha, sender.alphaHat)
  let (shares, additive) ←
    AdditiveTransfer.send sender.transcript setup batch alpha message sender.pool
  let c := challenges sender.transcript additive
  let verifyR := c.hash (sender.pool.mapList c.combine shares)
  return (weightedSum sender.gadget shares, ⟨additive, c.combine alpha, verifyR⟩)

/-! ## The receiver -/

/-- The receiver that waits for the sender's message. -/
structure Receiver where
  transcript : Transcript
  gadget : List Scalar
  choices : Bytes
  additive : AdditiveTransfer.Receiver
  pool : Pool

/-- The receiver with given bits for the random entries and given padding. -/
def Receiver.initWith (t : Transcript) (setup : ReceiveSetup) (beta : Scalar)
    (noise padding : Bytes) (pool : Pool) : Except OTError (Receiver × Extension.Message) := do
  let gadget := publicGadget t
  let choices := encodeWith beta gadget noise
  let (additive, message) ← AdditiveTransfer.Receiver.initWith t setup choices padding pool
  return (⟨t, gadget, choices, additive, pool⟩, message)

/-- Draws the bits for the random entries, and runs the receiver's side of the extension. -/
def Receiver.init {σ : Type} [ByteStream σ] (t : Transcript) (setup : ReceiveSetup) (beta : Scalar)
    (pool : Pool) : Draw σ (Except OTError (Receiver × Extension.Message)) := do
  let gadget := publicGadget t
  let noise ← Draw.packedBits noiseBits
  let choices := encodeWith beta gadget noise
  return (← AdditiveTransfer.Receiver.init t setup choices pool).map fun (additive, message) =>
    (⟨t, gadget, choices, additive, pool⟩, message)

/-- What the sender must have hashed for one item, computed from the receiver's side. -/
def Challenges.recompute (c : Challenges) (verifyU : Scalar) (choice : Bool) (share : ScalarPair) :
    Scalar :=
  (if choice then verifyU else 0) - c.combine share

/-- Checks the sender's message; the result is the receiver's share. -/
def Receiver.finish (receiver : Receiver) (message : Message) : Except OTError Scalar := do
  let shares ← receiver.additive.finish message.additive
  let c := challenges receiver.transcript message.additive
  let expected := receiver.pool.mapList (fun item => c.recompute message.verifyU item.1 item.2)
    ((Bits.unpack receiver.choices).zip shares)
  if c.hash expected ≠ message.verifyR then throw .multiplicationCheckFailed
  else return weightedSum receiver.gadget shares

end ObliviousTransfer.Multiply
