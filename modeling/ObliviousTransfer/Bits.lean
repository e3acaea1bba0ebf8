import ObliviousTransfer.Bytes

/-!
# Packed bits

A string of bits is packed into bytes least significant bit first: bit `i` of the string is bit
`i % 8` of byte `i / 8`. The bits `1110000010100000` are the bytes `07 05`.

There are three ways at a packed string, and all of them use this one order: `pack` writes it,
`unpack` reads it from the start, `bit?` looks one bit up.
-/

namespace ObliviousTransfer.Bits

/-- The byte whose bit `i` is entry `i` of a list of at most eight bits. -/
def toByte (bits : List Bool) : UInt8 :=
  UInt8.ofNat (bits.foldr (fun b n => b.toNat + 2 * n) 0)

/-- The eight bits of a byte, least significant first. -/
def ofByte (byte : UInt8) : List Bool :=
  (List.range 8).map byte.toNat.testBit

/-- Packs bits, eight to a byte; the last byte is filled up with zeros. -/
def pack (bits : List Bool) : Bytes :=
  (slices 8 bits).map toByte

/-- All bits of a packed string, eight for each byte. -/
def unpack (bytes : Bytes) : List Bool :=
  bytes.flatMap ofByte

/-- Bit `index` of a packed string, if the string is that long. -/
def bit? (bytes : Bytes) (index : Nat) : Option Bool :=
  bytes[index / 8]?.map fun byte => byte.toNat.testBit (index % 8)

end ObliviousTransfer.Bits
