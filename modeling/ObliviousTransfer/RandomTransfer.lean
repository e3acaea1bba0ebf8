import ObliviousTransfer.DLogProof
import ObliviousTransfer.Error
import ObliviousTransfer.Hash.Salted

/-!
# Random oblivious transfer

One transfer gives the sender two random pads and the receiver the one of them that its choice bit
selects. The sender learns nothing about the choice, the receiver nothing about the other pad, and
each of them notices when the other one deviates.

The sender proves knowledge of a secret `b` once and uses its point `B = b • G` in every instance; a
nonce keeps the instances apart. An instance has five steps, and `H` is the hash under its nonce:

1. the receiver draws `a` and sends `A = a • G`, plus `B` if the choice is set (`Receiver.choose`);
2. the sender has the pads `H(b • A)` and `H(b • (A - B))`, hashes each of them twice, and sends the
   exclusive or of the results as a challenge (`Sender.challenge`);
3. the receiver hashes its pad twice, removes it from the challenge if the choice is set, and sends
   what is left (`Chosen.respond`);
4. the sender compares this with the twice hashed first pad and opens both single hashes
   (`Challenged.reveal`);
5. the receiver compares them with the challenge and with its own pad (`Responded.verify`).
-/

namespace ObliviousTransfer.RandomTransfer

/-! ## Messages -/

/-- The sender's point, with the proof that it knows the logarithm. -/
structure SetupMessage (P : Type) where
  proof : DLogProof P
deriving DecidableEq, Repr

/-- The point that holds the receiver's choice. -/
structure ChoiceMessage (P : Type) where
  point : P
deriving DecidableEq, Repr

/-- The exclusive or of both pads, hashed twice. -/
structure ChallengeMessage where
  challenge : Block
deriving DecidableEq, Repr

/-- The receiver's answer to the challenge. -/
structure ResponseMessage where
  response : Block
deriving DecidableEq, Repr

/-- Both pads, hashed once. -/
structure OpeningMessage where
  decommit0 : Block
  decommit1 : Block
deriving DecidableEq, Repr

/-- The opened value that a choice selects. -/
def OpeningMessage.get (opening : OpeningMessage) (choice : Bool) : Block :=
  if choice then opening.decommit1 else opening.decommit0

/-! ## States -/

/-- The sender behind its setup message, ready for any number of instances. -/
structure Sender (P : Type) where
  secret : Scalar
  point : P
deriving DecidableEq, Repr

/-- The receiver that has accepted a setup message, ready for any number of instances. -/
structure Receiver (P : Type) where
  senderPoint : P
deriving DecidableEq, Repr

/-- The sender's result: both pads. -/
structure Pads where
  pad0 : Block
  pad1 : Block
deriving DecidableEq, Repr

/-- The pad that a choice selects. -/
def Pads.get (pads : Pads) (choice : Bool) : Block :=
  if choice then pads.pad1 else pads.pad0

/-- The sender that has sent a challenge. -/
structure Challenged where
  pads : Pads
  opening : OpeningMessage
  /-- The first pad hashed twice: the only response that is accepted. -/
  expected : Block
deriving DecidableEq, Repr

/-- The receiver that has sent its point. -/
structure Chosen where
  nonce : Block
  choice : Bool
  pad : Block
deriving DecidableEq, Repr

/-- The receiver that has answered a challenge. -/
structure Responded extends Chosen where
  challenge : Block
deriving DecidableEq, Repr

/-! ## Steps -/

/-- The domain of the sender's proof. -/
def setupDomain : Bytes := Bytes.ofAscii "random-ot/setup"

/-- The hash of a block under a nonce. -/
def hashBlock (nonce block : Block) : Block :=
  hash block.toBytes nonce.toBytes

variable {P : Type} [PointGroup P] {σ : Type} [ByteStream σ]

/-- The hash of a point under a nonce. -/
def hashPoint (nonce : Block) (p : P) : Block :=
  hash (PointGroup.encode p) nonce.toBytes

/-- The sender with a given secret, whose proof uses a given nonce. -/
def Sender.make (t : Transcript) (secret proofNonce : Scalar) : Sender P × SetupMessage P :=
  let proof := DLogProof.make secret proofNonce (t.fork setupDomain [])
  (⟨secret, proof.point⟩, ⟨proof⟩)

/-- A new sender: draws its secret and proves that it knows it. -/
def Sender.init (t : Transcript) : Draw σ (Sender P × SetupMessage P) := do
  let secret ← Draw.nonzeroScalar
  let proofNonce ← Draw.nonzeroScalar
  return Sender.make t secret proofNonce

/-- The receiver for a sender whose proof verifies. -/
def Receiver.init [DecidableEq P] (t : Transcript) (message : SetupMessage P) :
    Except OTError (Receiver P) :=
  if message.proof.verify (t.fork setupDomain []) then return ⟨message.proof.point⟩
  else throw .invalidDLogProof

/-- The choice of a receiver with a given secret. -/
def Receiver.chooseWith (receiver : Receiver P) (nonce : Block) (choice : Bool) (secret : Scalar) :
    Chosen × ChoiceMessage P :=
  let offset := if choice then receiver.senderPoint else 0
  (⟨nonce, choice, hashPoint nonce (secret • receiver.senderPoint)⟩,
    ⟨secret • PointGroup.generator + offset⟩)

/-- Draws a secret and hides the choice behind it. -/
def Receiver.choose (receiver : Receiver P) (nonce : Block) (choice : Bool) :
    Draw σ (Chosen × ChoiceMessage P) := do
  return receiver.chooseWith nonce choice (← Draw.nonzeroScalar)

/-- Both pads for the receiver's point. -/
def Sender.pads (sender : Sender P) (nonce : Block) (point : P) : Pads where
  pad0 := hashPoint nonce (sender.secret • point)
  pad1 := hashPoint nonce (sender.secret • (point - sender.point))

/-- The challenge for the receiver's point. -/
def Sender.challenge (sender : Sender P) (nonce : Block) (message : ChoiceMessage P) :
    Challenged × ChallengeMessage :=
  let pads := sender.pads nonce message.point
  let opening : OpeningMessage := ⟨hashBlock nonce pads.pad0, hashBlock nonce pads.pad1⟩
  let expected := hashBlock nonce opening.decommit0
  (⟨pads, opening, expected⟩, ⟨hashBlock nonce opening.decommit1 ^^^ expected⟩)

/-- The answer to a challenge. -/
def Chosen.respond (state : Chosen) (message : ChallengeMessage) : Responded × ResponseMessage :=
  let own := hashBlock state.nonce (hashBlock state.nonce state.pad)
  (⟨state, message.challenge⟩, ⟨if state.choice then own ^^^ message.challenge else own⟩)

/-- Checks the response, and opens both hashes. -/
def Challenged.reveal (state : Challenged) (message : ResponseMessage) :
    Except OTError (Pads × OpeningMessage) :=
  if message.response = state.expected then return (state.pads, state.opening)
  else throw .invalidResponse

/-- Checks the opened hashes against the challenge and against the own pad, which is the result. -/
def Responded.verify (state : Responded) (message : OpeningMessage) : Except OTError Block :=
  if hashBlock state.nonce message.decommit0 ^^^ hashBlock state.nonce message.decommit1
      ≠ state.challenge then
    throw .invalidChallenge
  else if hashBlock state.nonce state.pad ≠ message.get state.choice then
    throw .invalidDecommitment
  else return state.pad

end ObliviousTransfer.RandomTransfer
