import ObliviousTransfer.Hash.Sha256
import ObliviousTransfer.Scalar

/-!
# Salted hashes

The random oracle of the base transfers and of the outputs of the extension. Every call takes a
salt, which is a nonce from a fork of the session transcript, so that each instance of a protocol
asks an oracle of its own.

`hash` puts the salt in front of one message. `hashParts` frames its parts, so that two different
lists of parts are never hashed alike under one salt.
-/

namespace ObliviousTransfer

/-- The hash of a message under a salt. -/
def hash (message salt : Bytes) : Block :=
  Sha256.digest (salt ++ message)

/-- The string that `hashParts` hashes: the salt, then each part with its length in front. -/
def saltedParts (parts : List Bytes) (salt : Bytes) : Bytes :=
  salt ++ parts.flatMap Bytes.framed

/-- The hash of a list of parts under a salt. -/
def hashParts (parts : List Bytes) (salt : Bytes) : Block :=
  Sha256.digest (saltedParts parts salt)

/-- The hash of a message, read as a number most significant byte first. -/
def hashNat (message salt : Bytes) : Nat :=
  Bytes.toNatBE (hash message salt).toBytes

/-- The hash of a message as a scalar, reduced modulo the group order. -/
def hashScalar (message salt : Bytes) : Scalar :=
  Scalar.reduce (hashNat message salt)

end ObliviousTransfer
