import ObliviousTransfer.BinaryPolynomial.Limbs
import ObliviousTransfer.Correlated.Extend

/-!
# Transfers secure against a malicious receiver

A receiver of correlated transfers that does not use one string of choices in all 256 rows could
learn bits of `Δ`. Here it has to pass a check first. Challenges `χⱼ`, one for each item of the
batch, are read from a transcript that has taken in the whole matrix; the receiver reveals the sum
`x` of the challenges at the set choices and the sum of `χⱼ * tⱼ`, and the sender compares the
latter with its own sum of `χⱼ * qⱼ` plus `x * Δ`. Rows are multiplied by halves, and products are
not reduced (`BinaryPolynomial`).

The choices are padded with random bytes, so that `x` says nothing about them; the padded items are
dropped. Only blocks that have passed the check are hashed into outputs: `v₀ⱼ = H(j, qⱼ)` and
`v₁ⱼ = H(j, qⱼ ⊕ Δ)` for the sender, and `H(j, tⱼ)`, which is the chosen one of them, for the
receiver.
-/

namespace ObliviousTransfer.Extension

open Correlated

/-- Sums of products, for the low and the high halves of blocks. -/
structure Sums where
  low : BinaryPolynomial
  high : BinaryPolynomial
deriving DecidableEq, Repr

namespace Sums

/-- The sums of nothing. -/
def zero : Sums := ⟨0, 0⟩

/-- The sums of two parts together. -/
def add (a b : Sums) : Sums :=
  ⟨a.low ^^^ b.low, a.high ^^^ b.high⟩

/-- The sums with one more challenge times one more block. -/
def accumulate (sums : Sums) (challenge : HalfBlock) (block : Block) : Sums :=
  ⟨sums.low.accumulate challenge block.low, sums.high.accumulate challenge block.high⟩

end Sums

/-- The receiver's message: the extension matrix and the revealed sums. -/
structure Message where
  extend : ExtendMessage
  /-- The sum of the challenges at the set choices. -/
  x : HalfBlock
  /-- The sum of the challenges times the receiver's blocks. -/
  t : Sums
deriving DecidableEq, Repr

/-- The sender's result: two outputs for each item. -/
structure SendOutput where
  v0 : List Block
  v1 : List Block
deriving DecidableEq, Repr

/-- The number of bytes of choices in a batch whose matrix, padding included, has a size below the
limit of sizes. -/
structure BatchSize where
  bytes : Nat
  fits : baseCount * (bytes + paddingBytes) < sizeLimit
deriving DecidableEq, Repr

namespace BatchSize

/-- The batch size of a number of bytes, if the matrix is not too large. -/
def ofNat? (bytes : Nat) : Option BatchSize :=
  if h : baseCount * (bytes + paddingBytes) < sizeLimit then some ⟨bytes, h⟩ else none

/-- The length of a row with the padding. -/
def rowLength (batch : BatchSize) : RowLength :=
  ⟨batch.bytes + paddingBytes, batch.fits⟩

end BatchSize

/-- The domain of the challenges. -/
def checkDomain : Bytes := Bytes.ofAscii "extended-ot/check"

/-- The domain of the salts of outputs. -/
def outputDomain : Bytes := Bytes.ofAscii "extended-ot/output"

/-- How many blocks are summed up in one piece of work. -/
abbrev chunkSize : Nat := 256

/-- The challenges for the items of a batch, which depend on the whole matrix. -/
def challenges (t : Transcript) (message : ExtendMessage) (count : Nat) : List HalfBlock :=
  ((t.fork checkDomain []).append (Bytes.ofAscii "u") message.u).read
    (Reading.times count Reading.halfBlock)

/-- The sum of the challenges times the blocks, computed in chunks. -/
def checkSums (blocks : List Block) (challenges : List HalfBlock) (pool : Pool) : Sums :=
  let chunk (entries : List (Block × HalfBlock)) : Sums :=
    entries.foldl (fun sums entry => sums.accumulate entry.2 entry.1) Sums.zero
  (pool.mapList chunk (slices chunkSize (blocks.zip challenges))).foldl Sums.add Sums.zero

/-- The sum of the challenges at the set bits of packed choices. -/
def choiceSum (choices : Bytes) (challenges : List HalfBlock) : HalfBlock :=
  ((Bits.unpack choices).zip challenges).foldl
    (fun sum entry => if entry.1 then sum ^^^ entry.2 else sum) 0

/-- The outputs for blocks, each hashed together with its position. -/
def outputs (t : Transcript) (blocks : List Block) (pool : Pool) : List Block :=
  let salt := (t.fork outputDomain []).read Reading.block
  pool.mapList
    (fun entry => hashParts [Bytes.lengthField entry.2, entry.1.toBytes] salt.toBytes) blocks.zipIdx

/-- The receiver's side with given padding: one output for each choice, and the message for the
sender. -/
def receiveWith (t : Transcript) (setup : ReceiveSetup) (choices padding : Bytes) (pool : Pool) :
    Except OTError (List Block × Message) := do
  let padded := choices ++ padding
  let (blocks, extend) ← Correlated.receive t setup padded pool
  let challenges := challenges t extend blocks.length
  let message := ⟨extend, choiceSum padded challenges, checkSums blocks challenges pool⟩
  return (outputs t (blocks.take (8 * choices.length)) pool, message)

/-- The receiver's side for a batch of packed choices. An empty batch is refused before anything is
drawn. -/
def receive {σ : Type} [ByteStream σ] (t : Transcript) (setup : ReceiveSetup) (choices : Bytes)
    (pool : Pool) : Draw σ (Except OTError (List Block × Message)) := do
  if choices.length = 0 then return .error (.invalidBatchSize 0)
  else
    let padding ← Draw.filled paddingBytes
    return receiveWith t setup choices padding pool

/-- The sender's side for a batch, eight items to a byte: two outputs for each item, if the receiver
passes the check. -/
def send (t : Transcript) (setup : SendSetup) (batch : BatchSize) (message : Message)
    (pool : Pool) : Except OTError SendOutput :=
  if batch.bytes = 0 then throw (.invalidBatchSize 0)
  else do
    let blocks ← Correlated.send t setup batch.rowLength message.extend pool
    let challenges := challenges t message.extend blocks.length
    let sums := (checkSums blocks challenges pool).accumulate message.x setup.delta
    if sums ≠ message.t then throw .consistencyCheckFailed
    else
      let kept := blocks.take (8 * batch.bytes)
      return ⟨outputs t kept pool, outputs t (kept.map (· ^^^ setup.delta)) pool⟩

end ObliviousTransfer.Extension
