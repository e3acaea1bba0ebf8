import ObliviousTransfer.Curve.Group
import ObliviousTransfer.Wire.Messages

/-!
# Dialogues

Everything that is sent or kept has one of seventeen kinds. A dialogue is a run that sends values of
these kinds and goes on with what arrives. It can be carried out directly, each value handed over as
it is, or over a wire, each value written as bytes and read again.
-/

namespace ObliviousTransfer.Wire

/-- The kinds of values that are sent between the parties or kept between sessions. -/
inductive Kind where
  | dlogProof
  | setup
  | choice
  | challenge
  | response
  | opening
  | polynomial
  | extend
  | extension
  | additive
  | multiply
  | setupChoices
  | setupChallenges
  | setupResponses
  | setupOpenings
  | sendSetup
  | receiveSetup
deriving DecidableEq, Repr

namespace Kind

/-- The values of a kind. -/
def Value : Kind → Type
  | dlogProof => DLogProof Point
  | setup => RandomTransfer.SetupMessage Point
  | choice => RandomTransfer.ChoiceMessage Point
  | challenge => RandomTransfer.ChallengeMessage
  | response => RandomTransfer.ResponseMessage
  | opening => RandomTransfer.OpeningMessage
  | polynomial => BinaryPolynomial
  | extend => Correlated.ExtendMessage
  | extension => Extension.Message
  | additive => AdditiveTransfer.Message
  | multiply => Multiply.Message
  | setupChoices => Correlated.SetupChoices Point
  | setupChallenges => Correlated.SetupChallenges
  | setupResponses => Correlated.SetupResponses
  | setupOpenings => Correlated.SetupOpenings
  | sendSetup => Correlated.SendSetup
  | receiveSetup => Correlated.ReceiveSetup

/-- The form of the values of a kind. -/
def form : (kind : Kind) → Form kind.Value
  | dlogProof => Wire.dlogProof
  | setup => setupMessage
  | choice => choiceMessage
  | challenge => challengeMessage
  | response => responseMessage
  | opening => openingMessage
  | polynomial => Form.polynomial
  | extend => extendMessage
  | extension => extensionMessage
  | additive => additiveMessage
  | multiply => multiplyMessage
  | setupChoices => Wire.setupChoices
  | setupChallenges => Wire.setupChallenges
  | setupResponses => Wire.setupResponses
  | setupOpenings => Wire.setupOpenings
  | sendSetup => Wire.sendSetup
  | receiveSetup => Wire.receiveSetup

/-- The length of the one string or list in a value whose length is not fixed. -/
def variableLength : (kind : Kind) → kind.Value → Nat
  | extend, m => m.u.length
  | extension, m => m.extend.u.length
  | additive, m => m.ciphertexts.length
  | multiply, m => m.additive.ciphertexts.length
  | _, _ => 0

/-- Lengths are written in eight bytes; memory holds no longer string or list. -/
def Fits (kind : Kind) (value : kind.Value) : Prop :=
  kind.variableLength value < sizeLimit

instance (kind : Kind) (value : kind.Value) : Decidable (kind.Fits value) :=
  inferInstanceAs (Decidable (_ < _))

end Kind

/-- A run that sends values and goes on with what arrives. -/
inductive Dialogue (α : Type) where
  | done (result : α)
  | send (kind : Kind) (value : kind.Value) (next : kind.Value → Dialogue α)

namespace Dialogue

variable {α : Type}

/-- The result when every value arrives as it is. -/
def direct : Dialogue α → α
  | done result => result
  | send _ value next => (next value).direct

/-- The result when every value is written as bytes and read again; nothing may be left over. -/
def overWire : Dialogue α → Option α
  | done result => some result
  | send kind value next =>
    match kind.form.decode.run (kind.form.encode value) with
    | some (arrived, []) => (next arrived).overWire
    | _ => none

/-- Every value that is sent in the direct run fits. -/
def Fits : Dialogue α → Prop
  | done _ => True
  | send kind value next => kind.Fits value ∧ (next value).Fits

open RandomTransfer in
/-- One random transfer behind its setup: the receiver's point, the challenge, the response and the
opened hashes. The result is what both sides keep, or the reason of the side that refuses to go
on. -/
def transfer (sender : Sender Point) (nonce : Block) (start : Chosen × ChoiceMessage Point) :
    Dialogue (Except OTError (Pads × Block)) :=
  send .choice start.2 fun choice =>
    let challenged := sender.challenge nonce choice
    send .challenge challenged.2 fun challenge =>
      let responded := start.1.respond challenge
      send .response responded.2 fun response =>
        match challenged.1.reveal response with
        | .error e => done (.error e)
        | .ok (pads, opening) =>
          send .opening opening fun opening => done ((responded.1.verify opening).map (pads, ·))

/-- One multiplication behind its setup: the receiver's matrix and the sender's ciphertexts. -/
def product (sender : Multiply.Sender) (setup : Correlated.SendSetup)
    (start : Multiply.Receiver × Extension.Message) : Dialogue (Except OTError (Scalar × Scalar)) :=
  send .extension start.2 fun request =>
    match sender.send setup request with
    | .error e => done (.error e)
    | .ok (share, message) =>
      send .multiply message fun message => done ((start.1.finish message).map (share, ·))

end Dialogue

end ObliviousTransfer.Wire
