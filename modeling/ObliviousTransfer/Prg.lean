import ObliviousTransfer.Block
import ObliviousTransfer.Parameters
import ObliviousTransfer.Hash.Shake256

/-!
# The pseudorandom generator

Stretches a key to a string of any length. The nonce and the index keep the uses of one key apart. A
longer output begins with every shorter one.
-/

namespace ObliviousTransfer.Prg

/-- The first bytes of every input, which keep the generator apart from transcripts. -/
def tag : Bytes := Bytes.ofAscii "ecdsa-ot/prg"

/-- The string that is hashed for a key, a nonce and an index. -/
def input (key nonce : Block) (index : Nat) : Bytes :=
  tag ++ nonce.toBytes ++ Bytes.lengthField index ++ key.toBytes

/-- The first `length` bytes of the generator's output. -/
def expand (key nonce : Block) (index length : Nat) : Bytes :=
  Shake256.digest (input key nonce index) length

/-- The first `length` bytes of the generator's output, if memory can keep them. -/
def expand? (key nonce : Block) (index length : Nat) : Option Bytes :=
  if FitsMemory 1 length then some (expand key nonce index length) else none

end ObliviousTransfer.Prg
