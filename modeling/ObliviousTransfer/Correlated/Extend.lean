import ObliviousTransfer.BitMatrix
import ObliviousTransfer.Correlated.Setup
import ObliviousTransfer.Prg

/-!
# Extending correlated transfers

With a setup in place, any number of correlated transfers costs only symmetric operations. The keys
are stretched to the length of the batch, and the receiver sends for every base index `i` the row
`uᵢ = PRG(k₀ᵢ) ⊕ PRG(k₁ᵢ) ⊕ choices`. Transposing gives each party one block for each item `j` of
the batch: `tⱼ` to the receiver, and `qⱼ` to the sender, which is `tⱼ`, plus `Δ` if choice `j` is
set.
-/

namespace ObliviousTransfer.Correlated

/-- The rows of the extension matrix one after the other. -/
structure ExtendMessage where
  u : Bytes
deriving DecidableEq, Repr

namespace ExtendMessage

/-- The number of bytes in each of the 256 rows. -/
def batchBytes (message : ExtendMessage) : Nat :=
  message.u.length / baseCount

/-- The bytes at the place of the row with a given index, as far as there are any. -/
def row (message : ExtendMessage) (index : Nat) : Bytes :=
  (message.u.drop (index * message.batchBytes)).take message.batchBytes

/-- The row with a given index, if the message is that long. There has to be an index behind it,
even where all rows are empty. -/
def row? (message : ExtendMessage) (index : Nat) : Option Bytes :=
  if index + 1 < sizeLimit ∧ (index + 1) * message.batchBytes ≤ message.u.length then
    some (message.row index)
  else none

end ExtendMessage

/-- The number of bytes in each row of a matrix whose own size is below the limit of sizes. -/
structure RowLength where
  bytes : Nat
  fits : baseCount * bytes < sizeLimit
deriving DecidableEq, Repr

/-- The row length of a number of bytes, if the matrix is not too large. -/
def RowLength.ofNat? (bytes : Nat) : Option RowLength :=
  if h : baseCount * bytes < sizeLimit then some ⟨bytes, h⟩ else none

/-- The domain of the nonces of extensions. -/
def extendDomain : Bytes := Bytes.ofAscii "correlated-ot/extend"

/-- The nonce under which a session stretches its keys. -/
def extendNonce (t : Transcript) : Block :=
  (t.fork extendDomain []).read Reading.block

/-- The receiver's two rows at a base index: the stretched first key, and what is sent. -/
def receiveRow (setup : ReceiveSetup) (nonce : Block) (choices : Bytes) (i : Fin baseCount) :
    Bytes × Bytes :=
  let row0 := Prg.expand (setup.key i false) nonce i choices.length
  let row1 := Prg.expand (setup.key i true) nonce i choices.length
  (row0, Bytes.xorInto (Bytes.xorInto row1 row0) choices)

/-- The receiver's side for a batch of packed choices: one block for each choice, and the message
for the sender. -/
def receive (t : Transcript) (setup : ReceiveSetup) (choices : Bytes) (pool : Pool) :
    Except OTError (List Block × ExtendMessage) :=
  if choices.length = 0 then throw (.invalidBatchSize 0)
  else do
    let nonce := extendNonce t
    let rows := pool.tabulate baseCount (receiveRow setup nonce choices)
    let blocks ← BitMatrix.transposeBits (rows.toList.map Prod.fst) choices.length pool
    return (blocks, ⟨rows.toList.flatMap Prod.snd⟩)

/-- The sender's row at a base index: the stretched key, plus the received row if the bit of `Δ` is
set. -/
def sendRow (setup : SendSetup) (nonce : Block) (batchBytes : Nat) (message : ExtendMessage)
    (i : Fin baseCount) : Bytes :=
  Bytes.xorIf (setup.delta.getLsbD i) (Prg.expand (setup.key i) nonce i batchBytes) (message.row i)

/-- The sender's side for rows of a given length, eight items to a byte: one block for each item. -/
def send (t : Transcript) (setup : SendSetup) (rowLength : RowLength) (message : ExtendMessage)
    (pool : Pool) : Except OTError (List Block) :=
  if rowLength.bytes = 0 then throw (.invalidBatchSize 0)
  else if message.u.length ≠ baseCount * rowLength.bytes then
    throw (.batchSizeMismatch (baseCount * rowLength.bytes) message.u.length)
  else
    let nonce := extendNonce t
    let rows := pool.tabulate baseCount (sendRow setup nonce rowLength.bytes message)
    BitMatrix.transposeBits rows.toList rowLength.bytes pool

end ObliviousTransfer.Correlated
