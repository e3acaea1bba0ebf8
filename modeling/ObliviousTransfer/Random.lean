import ObliviousTransfer.Bits
import ObliviousTransfer.Block
import ObliviousTransfer.Parameters
import ObliviousTransfer.Scalar
import ObliviousTransfer.Hash.Shake256

/-!
# Randomness

A `Source` is a stream of random bytes together with what can go wrong: a number of pending
failures, each of which makes one request fail. A computation of type `Draw σ α` takes bytes from a
source with stream `σ`, and either returns a value or ends with a `Fault`; the source is kept in
both cases.

* `Draw.filled` asks again when a request fails, at most `maxAttempts` times in all.
* `Draw.bytes` is the request that cannot fail.
* `Draw.scalar` reads 32 bytes at a time until they write a number below the group order, and
  `Draw.nonzeroScalar` repeats this until the number is not zero.

A stream that never yields an acceptable number would be searched for ever; `Source.patience` bounds
how many candidates such a search looks at.
-/

namespace ObliviousTransfer

/-- Why a computation could not get its random bytes. -/
inductive Fault where
  /-- The source failed at every attempt. -/
  | sourceFailed
  /-- No acceptable candidate among those looked at. -/
  | exhausted
deriving DecidableEq, Repr

/-- The text reported for a fault. -/
def Fault.message : Fault → String
  | sourceFailed => "randomness source failed " ++ toString maxAttempts ++ " times in a row"
  | exhausted => "no acceptable scalar in the randomness source"

/-- A source of random bytes. -/
structure Source (σ : Type) where
  /-- The bytes not yet taken. -/
  stream : σ
  /-- How many bytes have been taken. -/
  taken : Nat
  /-- How many of the next requests will fail. -/
  failures : Nat
  /-- How many candidates a search for a scalar looks at. -/
  patience : Nat

/-- A computation that takes bytes from a source. -/
abbrev Draw (σ : Type) := ExceptT Fault (StateM (Source σ))

namespace Draw

variable {σ : Type} [ByteStream σ]

/-- The next `count` bytes. -/
def bytes (count : Nat) : Draw σ Bytes := do
  let source ← get
  let (bytes, stream) := ByteStream.take count source.stream
  set { source with stream, taken := source.taken + count }
  return bytes

/-- One request for `count` bytes. A pending failure is used up and nothing is taken. -/
def attempt (count : Nat) : Draw σ (Option Bytes) := do
  let source ← get
  match source.failures with
  | 0 => return some (← bytes count)
  | failures + 1 =>
    set { source with failures }
    return none

/-- Requests `count` bytes up to `attempts` times. -/
def within (count : Nat) : (attempts : Nat) → Draw σ Bytes
  | 0 => throw .sourceFailed
  | attempts + 1 => do
    match ← attempt count with
    | some bytes => return bytes
    | none => within count attempts

/-- The next `count` bytes, requested until a request succeeds. -/
def filled (count : Nat) : Draw σ Bytes :=
  within count maxAttempts

/-- The next `count` bytes, requested until a request succeeds, if memory can keep them. -/
def filled? (count : Nat) : Option (Draw σ Bytes) :=
  if FitsMemory 1 count then some (filled count) else none

/-- A random block. -/
def block : Draw σ Block := do
  return Block.ofBytes (← filled 32)

/-- The next four bytes as a number, least significant first. -/
def word : Draw σ Nat := do
  return Bytes.toNatLE (← bytes 4)

/-- `count` random bits, each the lowest bit of a word of its own, packed. -/
def packedBits (count : Nat) : Draw σ Bytes := do
  let words ← (List.range count).mapM fun _ => word
  return Bits.pack (words.map (·.testBit 0))

/-- `count` random bits, packed, if memory can keep them one to a byte before they are packed. -/
def packedBits? (count : Nat) : Option (Draw σ Bytes) :=
  if FitsMemory 1 count then some (packedBits count) else none

/-- The first of at most `candidates` strings of 32 bytes that writes a number below the order. -/
def scalarWithin : (candidates : Nat) → Draw σ Scalar
  | 0 => throw .exhausted
  | candidates + 1 => do
    match Scalar.ofBytes? (← bytes 32) with
    | some s => return s
    | none => scalarWithin candidates

/-- A random scalar, which may be zero. -/
def scalar : Draw σ Scalar := do
  scalarWithin (← get).patience

/-- The first of at most `candidates` random scalars that is not zero. -/
def nonzeroWithin : (candidates : Nat) → Draw σ Scalar
  | 0 => throw .exhausted
  | candidates + 1 => do
    let s ← scalar
    if s = 0 then nonzeroWithin candidates else return s

/-- A random scalar other than zero, as a secret exponent has to be. -/
def nonzeroScalar : Draw σ Scalar := do
  nonzeroWithin (← get).patience

end Draw

/-! ## Recorded randomness -/

/-- A stream that begins with recorded bytes and goes on with the output of SHAKE256. -/
structure Tape where
  recorded : Bytes
  rest : Shake256.Reader

/-- The next byte of a tape. -/
def Tape.next (tape : Tape) : UInt8 × Tape :=
  match tape.recorded with
  | byte :: recorded => (byte, { tape with recorded })
  | [] => let (byte, rest) := ByteStream.next tape.rest; (byte, { tape with rest })

instance : ByteStream Tape where
  next := Tape.next

/-- The source that yields recorded bytes and then the output of SHAKE256 for a seed, after a number
of failures. A search looks at all recorded candidates and at 64 more. -/
def Source.ofTape (recorded seed : Bytes) (failures : Nat) : Source Tape where
  stream := ⟨recorded, Shake256.reader seed⟩
  taken := 0
  failures
  patience := recorded.length + 64

end ObliviousTransfer
