import ObliviousTransfer.Block

/-!
# SHA-256

A hash of byte strings with 32 bytes of output. A message is padded to whole blocks of 64 bytes;
each block is expanded to a schedule of 64 words, which 64 rounds mix into the eight registers.

The digest is returned as a `Block`, whose bytes are the bytes of the digest in their order.
-/

namespace ObliviousTransfer.Sha256

/-- The eight working words. -/
structure Registers where
  a : UInt32
  b : UInt32
  c : UInt32
  d : UInt32
  e : UInt32
  f : UInt32
  g : UInt32
  h : UInt32

/-- The first 32 bits of the fractional parts of the square roots of the first eight primes. -/
def initial : Registers :=
  ⟨0x6a09e667, 0xbb67ae85, 0x3c6ef372, 0xa54ff53a, 0x510e527f, 0x9b05688c, 0x1f83d9ab, 0x5be0cd19⟩

/-- The first 32 bits of the fractional parts of the cube roots of the first 64 primes. -/
def roundConstants : Vector UInt32 64 :=
  #v[0x428a2f98, 0x71374491, 0xb5c0fbcf, 0xe9b5dba5, 0x3956c25b, 0x59f111f1, 0x923f82a4, 0xab1c5ed5,
    0xd807aa98, 0x12835b01, 0x243185be, 0x550c7dc3, 0x72be5d74, 0x80deb1fe, 0x9bdc06a7, 0xc19bf174,
    0xe49b69c1, 0xefbe4786, 0x0fc19dc6, 0x240ca1cc, 0x2de92c6f, 0x4a7484aa, 0x5cb0a9dc, 0x76f988da,
    0x983e5152, 0xa831c66d, 0xb00327c8, 0xbf597fc7, 0xc6e00bf3, 0xd5a79147, 0x06ca6351, 0x14292967,
    0x27b70a85, 0x2e1b2138, 0x4d2c6dfc, 0x53380d13, 0x650a7354, 0x766a0abb, 0x81c2c92e, 0x92722c85,
    0xa2bfe8a1, 0xa81a664b, 0xc24b8b70, 0xc76c51a3, 0xd192e819, 0xd6990624, 0xf40e3585, 0x106aa070,
    0x19a4c116, 0x1e376c08, 0x2748774c, 0x34b0bcb5, 0x391c0cb3, 0x4ed8aa4a, 0x5b9cca4f, 0x682e6ff3,
    0x748f82ee, 0x78a5636f, 0x84c87814, 0x8cc70208, 0x90befffa, 0xa4506ceb, 0xbef9a3f7, 0xc67178f2]

/-- Rotation to the right, for amounts between 1 and 31. -/
def rotateRight (x : UInt32) (amount : UInt32) : UInt32 :=
  (x >>> amount) ||| (x <<< (32 - amount))

/-- The schedule function that reads the word fifteen places back. -/
def smallSigma0 (x : UInt32) : UInt32 :=
  rotateRight x 7 ^^^ rotateRight x 18 ^^^ (x >>> 3)

/-- The schedule function that reads the word two places back. -/
def smallSigma1 (x : UInt32) : UInt32 :=
  rotateRight x 17 ^^^ rotateRight x 19 ^^^ (x >>> 10)

/-- The round function of the register `a`. -/
def bigSigma0 (x : UInt32) : UInt32 :=
  rotateRight x 2 ^^^ rotateRight x 13 ^^^ rotateRight x 22

/-- The round function of the register `e`. -/
def bigSigma1 (x : UInt32) : UInt32 :=
  rotateRight x 6 ^^^ rotateRight x 11 ^^^ rotateRight x 25

/-- Extends the sixteen words of a block by `count` more, each from four of the words before it. -/
def extend (block : Vector UInt32 16) : (count : Nat) → Vector UInt32 (16 + count)
  | 0 => block
  | count + 1 =>
    let words := extend block count
    words.push
      (smallSigma1 words[14 + count] + words[9 + count] +
        smallSigma0 words[1 + count] + words[count])

/-- One round, with the sum of its schedule word and its constant. -/
def round (r : Registers) (input : UInt32) : Registers :=
  let choose := (r.e &&& r.f) ^^^ (~~~r.e &&& r.g)
  let majority := (r.a &&& r.b) ^^^ (r.a &&& r.c) ^^^ (r.b &&& r.c)
  let t₁ := r.h + bigSigma1 r.e + choose + input
  let t₂ := bigSigma0 r.a + majority
  ⟨t₁ + t₂, r.a, r.b, r.c, r.d + t₁, r.e, r.f, r.g⟩

/-- The big-endian word of four bytes. -/
def word (bytes : Bytes) : UInt32 :=
  bytes.foldl (fun w b => (w <<< 8) ||| b.toUInt32) 0

/-- The sixteen words of a block of 64 bytes. -/
def blockWords (block : Bytes) : Vector UInt32 16 :=
  Vector.ofFn fun i => word ((block.drop (4 * i.val)).take 4)

/-- Mixes one block of 64 bytes into the registers. -/
def compress (r : Registers) (block : Bytes) : Registers :=
  let schedule := extend (blockWords block) 48
  let s := Fin.foldl 64 (fun s i => round s (schedule[i] + roundConstants[i])) r
  ⟨r.a + s.a, r.b + s.b, r.c + s.c, r.d + s.d, r.e + s.e, r.f + s.f, r.g + s.g, r.h + s.h⟩

/-- What follows a message of `length` bytes: a set bit, zeros up to eight bytes before the end of a
block, and the length in bits. -/
def padding (length : Nat) : Bytes :=
  0x80 :: List.replicate ((119 - length % 64) % 64) 0 ++ Bytes.ofNatBE 8 (8 * length)

/-- The bytes of the registers in their order. -/
def Registers.toBytes (r : Registers) : Bytes :=
  [r.a, r.b, r.c, r.d, r.e, r.f, r.g, r.h].flatMap fun w => Bytes.ofNatBE 4 w.toNat

/-- The digest of a message. -/
def digest (message : Bytes) : Block :=
  let registers := (slices 64 (message ++ padding message.length)).foldl compress initial
  Block.ofBytes registers.toBytes

end ObliviousTransfer.Sha256
