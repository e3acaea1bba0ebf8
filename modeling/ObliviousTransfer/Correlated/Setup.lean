import ObliviousTransfer.Parameters
import ObliviousTransfer.Pool
import ObliviousTransfer.RandomTransfer

/-!
# The setup of a correlated transfer

The setup runs 256 random transfers with the roles exchanged: the party that will be the sender
draws a block `Δ` and uses its bits as choices. In the end the sender has one key for each base
index, and the receiver has two; `Agree` says that the sender's key is the one that the bit of `Δ`
selects.

The instances are independent of each other, and each has a nonce of its own. A single instance that
fails ends the whole setup.
-/

namespace ObliviousTransfer.Correlated

open RandomTransfer

/-- What the sender of correlated transfers keeps: `Δ`, and one key for each of its bits. -/
structure SendSetup where
  delta : Block
  keys : Vector Block baseCount
deriving DecidableEq, Repr

/-- What the receiver of correlated transfers keeps: both keys for each bit of `Δ`. -/
structure ReceiveSetup where
  keys0 : Vector Block baseCount
  keys1 : Vector Block baseCount
deriving DecidableEq, Repr

/-- The key at a base index. -/
def SendSetup.key (setup : SendSetup) (i : Fin baseCount) : Block :=
  setup.keys[i]

/-- The key that a bit selects at a base index. -/
def ReceiveSetup.key (setup : ReceiveSetup) (i : Fin baseCount) (choice : Bool) : Block :=
  if choice then setup.keys1[i] else setup.keys0[i]

/-- The sender's key at every base index is the receiver's key for that bit of `Δ`. -/
def Agree (send : SendSetup) (receive : ReceiveSetup) : Prop :=
  ∀ i : Fin baseCount, send.key i = receive.key i (send.delta.getLsbD i)

/-! ## Messages -/

/-- The points of all instances. -/
structure SetupChoices (P : Type) where
  points : Vector (ChoiceMessage P) baseCount
deriving DecidableEq, Repr

/-- The challenges of all instances. -/
structure SetupChallenges where
  challenges : Vector ChallengeMessage baseCount
deriving DecidableEq, Repr

/-- The responses of all instances. -/
structure SetupResponses where
  responses : Vector ResponseMessage baseCount
deriving DecidableEq, Repr

/-- The opened hashes of all instances. -/
structure SetupOpenings where
  openings : Vector OpeningMessage baseCount
deriving DecidableEq, Repr

/-! ## Steps -/

/-- The domain of the whole setup. -/
def setupDomain : Bytes := Bytes.ofAscii "correlated-ot/setup"

/-- The domain of the nonces of the instances. -/
def baseDomain : Bytes := Bytes.ofAscii "correlated-ot/base"

/-- The nonce of the instance with a given base index. -/
def baseNonce (t : Transcript) (index : Nat) : Block :=
  (t.fork baseDomain (Bytes.lengthField index)).read Reading.block

variable {P : Type} [PointGroup P] {σ : Type} [ByteStream σ]

/-- The future receiver, which is the sender of the instances. -/
structure SetupReceiver (P : Type) where
  transcript : Transcript
  pool : Pool
  sender : Sender P

/-- The future receiver behind its challenges. -/
structure SetupReceiverChallenged where
  pool : Pool
  states : Vector Challenged baseCount

/-- The future sender, which is the receiver of the instances. -/
structure SetupSender where
  pool : Pool
  delta : Block
  states : Vector Chosen baseCount

/-- The future sender behind its responses. -/
structure SetupSenderResponded where
  pool : Pool
  delta : Block
  states : Vector Responded baseCount

/-- A new setup, seen from the future receiver. -/
def SetupReceiver.init (t : Transcript) (pool : Pool) :
    Draw σ (SetupReceiver P × SetupMessage P) := do
  let t := t.fork setupDomain []
  let (sender, message) ← Sender.init t
  return (⟨t, pool, sender⟩, message)

/-- The future sender with given `Δ` and given secrets of the instances. -/
def SetupSender.make (t : Transcript) (pool : Pool) (base : Receiver P) (delta : Block)
    (secrets : Vector Scalar baseCount) : SetupSender × SetupChoices P :=
  let results := pool.tabulate baseCount fun i =>
    base.chooseWith (baseNonce t i) (delta.getLsbD i) secrets[i]
  (⟨pool, delta, results.map Prod.fst⟩, ⟨results.map Prod.snd⟩)

/-- Checks the proof, draws `Δ` and then a secret for each instance, and chooses in each instance by
the bit of `Δ`. -/
def SetupSender.init [DecidableEq P] (t : Transcript) (pool : Pool) (message : SetupMessage P) :
    Draw σ (Except OTError (SetupSender × SetupChoices P)) := do
  let t := t.fork setupDomain []
  match Receiver.init t message with
  | .error e => return .error e
  | .ok base =>
    let delta ← Draw.block
    let secrets ← Vector.ofFnM fun _ => Draw.nonzeroScalar
    return .ok (SetupSender.make t pool base delta secrets)

/-- The challenges for the points of all instances. -/
def SetupReceiver.challenge (receiver : SetupReceiver P) (message : SetupChoices P) :
    SetupReceiverChallenged × SetupChallenges :=
  let results := receiver.pool.tabulate baseCount fun i =>
    receiver.sender.challenge (baseNonce receiver.transcript i) message.points[i]
  (⟨receiver.pool, results.map Prod.fst⟩, ⟨results.map Prod.snd⟩)

/-- The answers to the challenges of all instances. -/
def SetupSender.respond (sender : SetupSender) (message : SetupChallenges) :
    SetupSenderResponded × SetupResponses :=
  let results := sender.pool.tabulate baseCount fun i =>
    sender.states[i].respond message.challenges[i]
  (⟨sender.pool, sender.delta, results.map Prod.fst⟩, ⟨results.map Prod.snd⟩)

/-- Checks all responses, and keeps both pads of each instance as keys. The error is that of the
first instance that fails. -/
def SetupReceiverChallenged.reveal (receiver : SetupReceiverChallenged) (message : SetupResponses) :
    Except OTError (ReceiveSetup × SetupOpenings) := do
  let results ← (receiver.pool.tabulate baseCount fun i =>
    receiver.states[i].reveal message.responses[i]).mapM id
  let pads := results.map Prod.fst
  return (⟨pads.map Pads.pad0, pads.map Pads.pad1⟩, ⟨results.map Prod.snd⟩)

/-- Checks all openings, and keeps the pad of each instance as a key. The error is that of the first
instance that fails. -/
def SetupSenderResponded.finish (sender : SetupSenderResponded) (message : SetupOpenings) :
    Except OTError SendSetup := do
  let keys ← (sender.pool.tabulate baseCount fun i =>
    sender.states[i].verify message.openings[i]).mapM id
  return ⟨sender.delta, keys⟩

end ObliviousTransfer.Correlated
