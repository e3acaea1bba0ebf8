import ObliviousTransfer.Extension

/-!
# Additive shares of chosen scalars

The sender fixes a pair of scalars `α` for a whole batch. For every item `j` and both positions `h`
in the pair, the parties end with scalars that add up to `αₕ` if choice `j` is set, and otherwise to
zero.

The outputs of the extension are hashed into pads. The sender keeps the negative of the first pad
and sends the sum of both pads and `αₕ`. The receiver knows one of the pads: it removes the second
one from what it gets if the choice is set, and otherwise keeps the first one.
-/

namespace ObliviousTransfer.AdditiveTransfer

open Correlated

/-- Two scalars for one item. -/
abbrev ScalarPair := Scalar × Scalar

/-- The sender's message: two ciphertexts for each item. -/
structure Message where
  ciphertexts : List ScalarPair
deriving DecidableEq, Repr

/-- The domain of the salts of pads. -/
def padDomain : Bytes := Bytes.ofAscii "additive-ot/pads"

/-- The salt of the pads of a session. -/
def padSalt (t : Transcript) : Block :=
  (t.fork padDomain []).read Reading.block

/-- The pads for an output of the extension, one for each position. -/
def pads (salt output : Block) : ScalarPair :=
  (hashScalar (0 :: output.toBytes) salt.toBytes, hashScalar (1 :: output.toBytes) salt.toBytes)

/-- The receiver that waits for the ciphertexts. -/
structure Receiver where
  salt : Block
  choices : Bytes
  outputs : List Block
  pool : Pool

/-- The receiver for the outputs of an extension. -/
def Receiver.make (t : Transcript) (choices : Bytes) (outputs : List Block) (pool : Pool) :
    Receiver :=
  ⟨padSalt t, choices, outputs, pool⟩

/-- Runs the receiver's side of the extension with given padding. -/
def Receiver.initWith (t : Transcript) (setup : ReceiveSetup) (choices padding : Bytes)
    (pool : Pool) : Except OTError (Receiver × Extension.Message) := do
  let (outputs, message) ← Extension.receiveWith t setup choices padding pool
  return (Receiver.make t choices outputs pool, message)

/-- Runs the receiver's side of the extension for a batch of packed choices. -/
def Receiver.init {σ : Type} [ByteStream σ] (t : Transcript) (setup : ReceiveSetup)
    (choices : Bytes) (pool : Pool) : Draw σ (Except OTError (Receiver × Extension.Message)) := do
  return (← Extension.receive t setup choices pool).map fun (outputs, message) =>
    (Receiver.make t choices outputs pool, message)

/-- The receiver's shares of one item. -/
def receiveShare (salt : Block) (choice : Bool) (output : Block) (ciphertext : ScalarPair) :
    ScalarPair :=
  let pads := pads salt output
  if choice then (ciphertext.1 - pads.1, ciphertext.2 - pads.2) else pads

/-- Removes the pads: the receiver's shares of all items. -/
def Receiver.finish (receiver : Receiver) (message : Message) : Except OTError (List ScalarPair) :=
  if message.ciphertexts.length ≠ receiver.outputs.length then
    throw (.batchSizeMismatch receiver.outputs.length message.ciphertexts.length)
  else
    let items := (Bits.unpack receiver.choices).zip (receiver.outputs.zip message.ciphertexts)
    return receiver.pool.mapList
      (fun item => receiveShare receiver.salt item.1 item.2.1 item.2.2) items

/-- The sender's shares and ciphertexts of one item. -/
def sendShare (salt : Block) (alpha : ScalarPair) (output0 output1 : Block) :
    ScalarPair × ScalarPair :=
  let pads0 := pads salt output0
  let pads1 := pads salt output1
  ((-pads0.1, -pads0.2), (pads0.1 + pads1.1 + alpha.1, pads0.2 + pads1.2 + alpha.2))

/-- The sender's side: its shares of all items, and the message for the receiver. -/
def send (t : Transcript) (setup : SendSetup) (batch : Extension.BatchSize) (alpha : ScalarPair)
    (message : Extension.Message) (pool : Pool) : Except OTError (List ScalarPair × Message) := do
  let output ← Extension.send t setup batch message pool
  let salt := padSalt t
  let results := pool.mapList (fun item => sendShare salt alpha item.1 item.2)
    (output.v0.zip output.v1)
  return (results.map Prod.fst, ⟨results.map Prod.snd⟩)

end ObliviousTransfer.AdditiveTransfer
