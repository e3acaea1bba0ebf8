import ObliviousTransfer.Bytes

/-!
# Blocks

A block is a string of 256 bits: a key, a digest, a nonce, the correlation `Δ`, or one row of the
transposed extension matrix. Bit `i` of a block is bit `i % 8` of byte `i / 8`, the order of packed
bits, so that a block reads and writes its 32 bytes least significant first.

The consistency check works on a block as two halves of 128 bits.
-/

namespace ObliviousTransfer

/-- A string of 256 bits. -/
abbrev Block := BitVec 256

/-- Half a block. -/
abbrev HalfBlock := BitVec 128

namespace Block

/-- The 32 bytes of a block. -/
def toBytes (block : Block) : Bytes :=
  Bytes.ofNatLE 32 block.toNat

/-- The block of the first 32 bytes, missing ones counted as zero. -/
def ofBytes (bytes : Bytes) : Block :=
  BitVec.ofNat 256 (Bytes.toNatLE bytes)

@[simp]
theorem length_toBytes (block : Block) : block.toBytes.length = 32 :=
  Bytes.length_ofNatLE ..

@[simp]
theorem ofBytes_toBytes (block : Block) : ofBytes block.toBytes = block := by
  rw [ofBytes, toBytes, Bytes.toNatLE_ofNatLE]
  simp

/-- Different blocks have different bytes. -/
theorem toBytes_injective {a b : Block} (h : a.toBytes = b.toBytes) : a = b := by
  rw [← ofBytes_toBytes a, h, ofBytes_toBytes]

/-- The first sixteen bytes of a block. -/
def low (block : Block) : HalfBlock :=
  block.extractLsb' 0 128

/-- The last sixteen bytes of a block. -/
def high (block : Block) : HalfBlock :=
  block.extractLsb' 128 128

end Block

namespace HalfBlock

/-- The half block of the first sixteen bytes, missing ones counted as zero. -/
def ofBytes (bytes : Bytes) : HalfBlock :=
  BitVec.ofNat 128 (Bytes.toNatLE bytes)

end HalfBlock

end ObliviousTransfer
