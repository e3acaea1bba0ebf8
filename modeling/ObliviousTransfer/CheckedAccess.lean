import ObliviousTransfer.Multiply

/-!
# Receiving with every access checked

A party that has received a message looks rows, blocks, challenges, shares and bits up by their
index, in lists whose lengths come from different places: some from the message, some from a setup,
some from the parameters. Here the receiving operations are written with these accesses one by one.
An index behind the end of a list, or a slice that is longer than the list, ends the operation with
`none`; what an operation answers to a message, an error included, stands under `some`.
-/

namespace ObliviousTransfer

/-- The results of `f` on every index below `count`, if it has one for each of them. -/
def Pool.mapRange? {α : Type} (pool : Pool) (count : Nat) (f : Nat → Option α) : Option (List α) :=
  (pool.mapList f (List.range count)).mapM id

/-- The first `count` entries of a list, if it has that many. -/
def front? {α : Type} (count : Nat) (xs : List α) : Option (List α) :=
  if count ≤ xs.length then some (xs.take count) else none

/-! ## Bit matrices -/

namespace BitMatrix

/-- `transposeColumn` on a list of rows. -/
def transposeColumn? (rows : List Bytes) (c : Nat) : Option (List Block) := do
  let squares ← (List.range securityBytes).mapM fun r => do
    let bytes ← (List.range 8).mapM fun k => do (← rows[8 * r + k]?)[c]?
    return transposeSquare (Bytes.toWord64 bytes)
  return (List.range 8).map fun k => Block.ofBytes (squares.map (squareRow · k))

/-- `transposeBits` by single bytes. -/
def transposeBits? (rows : List Bytes) (batchBytes : Nat) (pool : Pool) :
    Option (Except OTError (List Block)) :=
  if rows.length ≠ baseCount then some (throw (.batchSizeMismatch baseCount rows.length))
  else
    match rows.find? (·.length ≠ batchBytes) with
    | some row => some (throw (.batchSizeMismatch batchBytes row.length))
    | none => do
      let blocks ← pool.mapRange? batchBytes (transposeColumn? rows)
      return .ok blocks.flatten

end BitMatrix

/-! ## Correlated transfers -/

namespace Correlated

variable {P : Type} [PointGroup P]

/-- One part of each result, one for every base index. -/
def parts? {α β : Type} (results : List α) (part : α → β) : Option (Vector β baseCount) :=
  Vector.ofFnM fun i => results[i.val]?.map part

/-- The future sender with given `Δ` and given secrets, by single bits and secrets. -/
def SetupSender.make? (t : Transcript) (pool : Pool) (base : RandomTransfer.Receiver P)
    (delta : Block) (secrets : Vector Scalar baseCount) :
    Option (SetupSender × SetupChoices P) := do
  let results ← pool.mapRange? baseCount fun i => do
    return base.chooseWith (baseNonce t i) (← Bits.bit? delta.toBytes i) (← secrets[i]?)
  return (⟨pool, delta, ← parts? results Prod.fst⟩, ⟨← parts? results Prod.snd⟩)

/-- The challenges for the points of all instances, by single points. -/
def SetupReceiver.challenge? (receiver : SetupReceiver P) (message : SetupChoices P) :
    Option (SetupReceiverChallenged × SetupChallenges) := do
  let results ← receiver.pool.mapRange? baseCount fun i => do
    return receiver.sender.challenge (baseNonce receiver.transcript i) (← message.points[i]?)
  return (⟨receiver.pool, ← parts? results Prod.fst⟩, ⟨← parts? results Prod.snd⟩)

/-- The answers to the challenges of all instances, by single challenges. -/
def SetupSender.respond? (sender : SetupSender) (message : SetupChallenges) :
    Option (SetupSenderResponded × SetupResponses) := do
  let results ← sender.pool.mapRange? baseCount fun i => do
    return (← sender.states[i]?).respond (← message.challenges[i]?)
  return (⟨sender.pool, sender.delta, ← parts? results Prod.fst⟩, ⟨← parts? results Prod.snd⟩)

/-- The check of all responses, by single responses. -/
def SetupReceiverChallenged.reveal? (receiver : SetupReceiverChallenged)
    (message : SetupResponses) : Option (Except OTError (ReceiveSetup × SetupOpenings)) := do
  let verdicts ← receiver.pool.mapRange? baseCount fun i => do
    return (← receiver.states[i]?).reveal (← message.responses[i]?)
  match verdicts.mapM id with
  | .error e => return .error e
  | .ok results =>
    let keys0 ← parts? results (·.1.pad0)
    let keys1 ← parts? results (·.1.pad1)
    return .ok (⟨keys0, keys1⟩, ⟨← parts? results Prod.snd⟩)

/-- The check of all openings, by single openings. -/
def SetupSenderResponded.finish? (sender : SetupSenderResponded) (message : SetupOpenings) :
    Option (Except OTError SendSetup) := do
  let verdicts ← sender.pool.mapRange? baseCount fun i => do
    return (← sender.states[i]?).verify (← message.openings[i]?)
  match verdicts.mapM id with
  | .error e => return .error e
  | .ok keys => return .ok ⟨sender.delta, ← parts? keys id⟩

/-- The sender's row at a base index. -/
def sendRow? (setup : SendSetup) (nonce : Block) (batchBytes : Nat) (message : ExtendMessage)
    (i : Nat) : Option Bytes := do
  let row := Prg.expand (← setup.keys[i]?) nonce i batchBytes
  return Bytes.xorIf (← Bits.bit? setup.delta.toBytes i) row (← message.row? i)

/-- The sender's side of an extension, by single rows. -/
def send? (t : Transcript) (setup : SendSetup) (rowLength : RowLength) (message : ExtendMessage)
    (pool : Pool) : Option (Except OTError (List Block)) :=
  if rowLength.bytes = 0 then some (throw (.invalidBatchSize 0))
  else if message.u.length ≠ baseCount * rowLength.bytes then
    some (throw (.batchSizeMismatch (baseCount * rowLength.bytes) message.u.length))
  else do
    let rows ← pool.mapRange? baseCount (sendRow? setup (extendNonce t) rowLength.bytes message)
    BitMatrix.transposeBits? rows rowLength.bytes pool

end Correlated

/-! ## Extensions -/

namespace Extension

open Correlated

/-- The sum of the challenges times the blocks from one index up to another. -/
def sumBetween? (blocks : List Block) (challenges : List HalfBlock) (start stop : Nat) :
    Option Sums :=
  (List.range' start (stop - start)).foldlM
    (fun sums j => do return sums.accumulate (← challenges[j]?) (← blocks[j]?)) Sums.zero

/-- The sum of the challenges times the blocks, computed in chunks that are given by their
indices. -/
def checkSums? (blocks : List Block) (challenges : List HalfBlock) (pool : Pool) : Option Sums := do
  let chunks := (blocks.length + chunkSize - 1) / chunkSize
  let sums ← pool.mapRange? chunks fun chunk =>
    sumBetween? blocks challenges (chunk * chunkSize)
      (min blocks.length (chunk * chunkSize + chunkSize))
  return sums.foldl Sums.add Sums.zero

/-- The outputs for the first `count` blocks. -/
def outputs? (t : Transcript) (blocks : List Block) (count : Nat) (pool : Pool) :
    Option (List Block) :=
  let salt := (t.fork outputDomain []).read Reading.block
  pool.mapRange? count fun j => do
    return hashParts [Bytes.lengthField j, (← blocks[j]?).toBytes] salt.toBytes

/-- The sender's side for a batch, by single blocks and challenges. -/
def send? (t : Transcript) (setup : SendSetup) (batch : BatchSize) (message : Message)
    (pool : Pool) : Option (Except OTError SendOutput) :=
  if batch.bytes = 0 then some (throw (.invalidBatchSize 0))
  else do
    match ← Correlated.send? t setup batch.rowLength message.extend pool with
    | .error e => return .error e
    | .ok blocks =>
      let own ← checkSums? blocks (challenges t message.extend blocks.length) pool
      if own.accumulate message.x setup.delta ≠ message.t then return .error .consistencyCheckFailed
      else
        let count := 8 * batch.bytes
        let v0 ← outputs? t blocks count pool
        let kept ← front? count blocks
        let v1 ← outputs? t (kept.map (· ^^^ setup.delta)) count pool
        return .ok ⟨v0, v1⟩

end Extension

/-! ## Additive shares -/

namespace AdditiveTransfer

open Correlated

/-- The sender's side, by single outputs. -/
def send? (t : Transcript) (setup : SendSetup) (batch : Extension.BatchSize) (alpha : ScalarPair)
    (message : Extension.Message) (pool : Pool) :
    Option (Except OTError (List ScalarPair × Message)) := do
  match ← Extension.send? t setup batch message pool with
  | .error e => return .error e
  | .ok output =>
    let salt := padSalt t
    let results ← pool.mapRange? output.v0.length fun j => do
      return sendShare salt alpha (← output.v0[j]?) (← output.v1[j]?)
    return .ok (results.map Prod.fst, ⟨results.map Prod.snd⟩)

/-- The receiver's shares, by single choices, outputs and ciphertexts. -/
def Receiver.finish? (receiver : Receiver) (message : Message) :
    Option (Except OTError (List ScalarPair)) :=
  if message.ciphertexts.length ≠ receiver.outputs.length then
    some (throw (.batchSizeMismatch receiver.outputs.length message.ciphertexts.length))
  else do
    let shares ← receiver.pool.mapRange? receiver.outputs.length fun j => do
      return receiveShare receiver.salt (← Bits.bit? receiver.choices j) (← receiver.outputs[j]?)
        (← message.ciphertexts[j]?)
    return .ok shares

end AdditiveTransfer

/-! ## Multiplications -/

namespace Multiply

open AdditiveTransfer Correlated

/-- The sender's side, by single shares. -/
def Sender.send? (sender : Sender) (setup : SendSetup) (message : Extension.Message) :
    Option (Except OTError (Scalar × Message)) := do
  let alpha := (sender.alpha, sender.alphaHat)
  match ← AdditiveTransfer.send? sender.transcript setup batch alpha message sender.pool with
  | .error e => return .error e
  | .ok (shares, additive) =>
    let c := challenges sender.transcript additive
    let entries ← sender.pool.mapRange? gadgetSize fun j => do return c.combine (← shares[j]?)
    return .ok (weightedSum sender.gadget shares, ⟨additive, c.combine alpha, c.hash entries⟩)

/-- The check of the sender's message, by single choices and shares. -/
def Receiver.finish? (receiver : Receiver) (message : Message) :
    Option (Except OTError Scalar) := do
  match ← receiver.additive.finish? message.additive with
  | .error e => return .error e
  | .ok shares =>
    let c := challenges receiver.transcript message.additive
    let expected ← receiver.pool.mapRange? gadgetSize fun j => do
      return c.recompute message.verifyU (← Bits.bit? receiver.choices j) (← shares[j]?)
    if c.hash expected ≠ message.verifyR then return .error .multiplicationCheckFailed
    else return .ok (weightedSum receiver.gadget shares)

end Multiply

end ObliviousTransfer
