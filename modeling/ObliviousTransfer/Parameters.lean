/-!
# Parameters of the protocol stack

Every size in the library follows from two numbers: the computational security level (256 bits,
the order of the curve group and the width of every key and digest) and the statistical security
level (80 bits, the chance `2⁻⁸⁰` that a cheating party passes a check).
-/

namespace ObliviousTransfer

/-- Computational security in bits: the width of keys, digests and scalars. -/
abbrev securityBits : Nat := 256

/-- Computational security in bytes. -/
abbrev securityBytes : Nat := securityBits / 8

/-- Statistical security in bits. -/
abbrev statisticalBits : Nat := 80

/-- The number of base transfers behind one correlated setup, one for each bit of `Δ`. -/
abbrev baseCount : Nat := securityBits

/-- Random bytes that the receiver of an extension appends to its choices, so that the sums it
reveals in the consistency check say nothing about the choices themselves. -/
abbrev paddingBytes : Nat := (securityBits + statisticalBits) / 8

/-- The number of random entries at the end of a gadget vector. -/
abbrev noiseBits : Nat := 2 * statisticalBits

/-- The number of transfers in one multiplication: one per entry of the gadget vector. -/
abbrev gadgetSize : Nat := securityBits + noiseBits

/-- The packed choices of one multiplication, in bytes. -/
abbrev gadgetBytes : Nat := gadgetSize / 8

/-- Lengths, indices and counts are below this bound: they are written in eight bytes. -/
abbrev sizeLimit : Nat := 0x10000000000000000

/-- What is kept in one piece takes fewer bytes than this: the distance between two of its bytes is
a signed number of eight bytes. -/
abbrev memoryLimit : Nat := 0x8000000000000000

/-- Memory can keep `count` entries of `entryBytes` bytes each in one piece. -/
abbrev FitsMemory (entryBytes count : Nat) : Prop := entryBytes * count < memoryLimit

/-- How often a failing randomness source is asked again before it is declared broken. -/
abbrev maxAttempts : Nat := 255

/-- The seed of a reproducible randomness source, for use while debugging. -/
abbrev debugSeed : Nat := 42

end ObliviousTransfer
