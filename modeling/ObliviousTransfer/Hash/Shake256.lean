import ObliviousTransfer.Hash.Keccak
import ObliviousTransfer.Stream

/-!
# SHAKE256

A hash with an output of any length: a Keccak sponge with a rate of 136 bytes. Absorbing a message
gives a reader, an endless stream of bytes; a hash of a given length is a prefix of that stream.
-/

namespace ObliviousTransfer.Shake256

open Keccak

/-- The bytes taken in or given out between two permutations. -/
abbrev rate : Nat := 136

/-- What follows a message of `length` bytes: the domain bits of an extendable hash, and zeros up to
the last bit of a block, which is set. -/
def padding (length : Nat) : Bytes :=
  match rate - 1 - length % rate with
  | 0 => [0x9f]
  | zeros + 1 => 0x1f :: List.replicate zeros 0 ++ [0x80]

/-- Takes in one block of `rate` bytes. -/
def absorb (s : State) (block : Bytes) : State :=
  permute (s.xorLanes ((slices 8 block).map Bytes.toWord64))

/-- A position in the output: the sponge, and the offset of the next byte in its block. -/
structure Reader where
  state : State
  offset : Nat

/-- The next byte of the output. The sponge is permuted behind the last byte of a block. -/
def Reader.next (r : Reader) : UInt8 × Reader :=
  let byte := r.state.byte r.offset
  if r.offset + 1 < rate then (byte, { r with offset := r.offset + 1 })
  else (byte, ⟨permute r.state, 0⟩)

instance : ByteStream Reader where
  next := Reader.next

/-- The output for a message, as an endless stream. -/
def reader (message : Bytes) : Reader :=
  ⟨(slices rate (message ++ padding message.length)).foldl absorb .zero, 0⟩

/-- The first `length` bytes of the output for a message. -/
def digest (message : Bytes) (length : Nat) : Bytes :=
  (ByteStream.take length (reader message)).1

end ObliviousTransfer.Shake256
