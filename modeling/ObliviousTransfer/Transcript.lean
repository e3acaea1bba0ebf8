import ObliviousTransfer.Hash.Shake256
import ObliviousTransfer.Block
import ObliviousTransfer.Group
import ObliviousTransfer.Parameters

/-!
# Transcripts

Both parties keep the same transcript, to which one can only add. It serves two purposes: the
challenges of the non-interactive checks, and nonces that keep the instances of the protocols apart.

A transcript is the list of writes made on it. `Write.encode` frames a write, `Transcript.absorbed`
is the byte string of all of them, and `Transcript.digest` is the output of SHAKE256 for that
string, as an endless stream. A fork is a copy with one more write that names a domain; the parent
stays as it is.
-/

namespace ObliviousTransfer

/-- One addition to a transcript. -/
inductive Write where
  /-- A label and one string of data. -/
  | item (label data : Bytes)
  /-- A label and a list of strings. -/
  | items (label : Bytes) (parts : List Bytes)
deriving DecidableEq, Repr

/-- The bytes of a write: the framed label, then the framed data, or the number of parts and each
part framed. -/
def Write.encode : Write → Bytes
  | item label data => label.framed ++ data.framed
  | items label parts =>
    label.framed ++ Bytes.lengthField parts.length ++ parts.flatMap Bytes.framed

/-- The writes made by both parties so far, the first one first. -/
structure Transcript where
  writes : List Write
deriving DecidableEq, Repr

namespace Transcript

/-- The label of the first write of every transcript. -/
def tag : Bytes := Bytes.ofAscii "ecdsa-ot/transcript/v1"

/-- The label of the write that a fork begins with. -/
def forkLabel : Bytes := Bytes.ofAscii "fork"

/-- The transcript with one more write. -/
def write (t : Transcript) (w : Write) : Transcript :=
  ⟨t.writes ++ [w]⟩

/-- The transcript with labelled data. -/
def append (t : Transcript) (label data : Bytes) : Transcript :=
  t.write (.item label data)

/-- The transcript with a labelled list of strings. -/
def appendAll (t : Transcript) (label : Bytes) (parts : List Bytes) : Transcript :=
  t.write (.items label parts)

/-- The transcript with a labelled scalar. -/
def appendScalar (t : Transcript) (label : Bytes) (s : Scalar) : Transcript :=
  t.append label s.toBytes

/-- The transcript with a labelled element of the group. -/
def appendPoint {P : Type} [PointGroup P] (t : Transcript) (label : Bytes) (p : P) : Transcript :=
  t.append label (PointGroup.encode p)

/-- The transcript of a new session. -/
def new (domain : Bytes) : Transcript :=
  append ⟨[]⟩ tag domain

/-- The transcript of a sub-protocol, set apart by a domain and by further data. -/
def fork (t : Transcript) (domain data : Bytes) : Transcript :=
  t.appendAll forkLabel [domain, data]

/-- The string of all writes. -/
def absorbed (t : Transcript) : Bytes :=
  t.writes.flatMap Write.encode

/-- The output for the writes so far. -/
def digest (t : Transcript) : Shake256.Reader :=
  Shake256.reader t.absorbed

/-- What is shown of a transcript; the writes themselves are not. -/
def describe (_ : Transcript) : String := "Transcript \x7b .. \x7d"

end Transcript

/-- A computation that reads from the output of a transcript and leaves the position behind what it
read. -/
abbrev Reading (α : Type) := StateM Shake256.Reader α

namespace Reading

/-- The next `count` bytes. -/
def bytes (count : Nat) : Reading Bytes :=
  fun r => ByteStream.take count r

/-- The next `count` bytes, if memory can keep them. -/
def bytes? (count : Nat) : Option (Reading Bytes) :=
  if FitsMemory 1 count then some (bytes count) else none

/-- The next 32 bytes as a block. -/
def block : Reading Block := do
  return Block.ofBytes (← bytes 32)

/-- The next sixteen bytes as half a block. -/
def halfBlock : Reading HalfBlock := do
  return HalfBlock.ofBytes (← bytes 16)

/-- The next 32 bytes as a scalar, most significant byte first and reduced. -/
def scalar : Reading Scalar := do
  return Scalar.ofBytes (← bytes 32)

/-- Reads `count` times. -/
def times {α : Type} (count : Nat) (read : Reading α) : Reading (List α) :=
  (List.range count).mapM fun _ => read

end Reading

/-- What a computation reads at the start of a transcript's output. -/
def Transcript.read {α : Type} (t : Transcript) (reading : Reading α) : α :=
  (reading t.digest).1

end ObliviousTransfer
