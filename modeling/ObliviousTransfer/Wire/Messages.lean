import ObliviousTransfer.Multiply
import ObliviousTransfer.Wire.Form

/-!
# The wire forms of messages and setups

Everything that a party sends or keeps between sessions has a form. The fields of a record are
written in the order in which they stand here, under these names.
-/

namespace ObliviousTransfer.Wire

open Fields Form

/-- A proof of knowledge of a discrete logarithm. -/
def dlogProof : Form (DLogProof Point) :=
  record
    (cons "point" point <| cons "rand_commitment" point <| one "challenge_response" scalar)
    (fun (p, c, r) => ⟨p, c, r⟩) (fun m => (m.point, m.commitment, m.response))

/-! ## Random transfers -/

/-- The message that sets random transfers up. -/
def setupMessage : Form (RandomTransfer.SetupMessage Point) :=
  record (one "proof" dlogProof) (fun p => ⟨p⟩) (·.proof)

/-- The receiver's point. -/
def choiceMessage : Form (RandomTransfer.ChoiceMessage Point) :=
  record (one "point" point) (fun p => ⟨p⟩) (·.point)

/-- The sender's challenge. -/
def challengeMessage : Form RandomTransfer.ChallengeMessage :=
  record (one "challenge" block) (fun c => ⟨c⟩) (·.challenge)

/-- The receiver's response. -/
def responseMessage : Form RandomTransfer.ResponseMessage :=
  record (one "response" block) (fun r => ⟨r⟩) (·.response)

/-- The sender's opened hashes. -/
def openingMessage : Form RandomTransfer.OpeningMessage :=
  record (cons "decommit_0" block <| one "decommit_1" block)
    (fun (d₀, d₁) => ⟨d₀, d₁⟩) (fun m => (m.decommit0, m.decommit1))

/-! ## Correlated transfers -/

/-- The points of all instances of a setup. -/
def setupChoices : Form (Correlated.SetupChoices Point) :=
  record (one "points" (vector baseCount choiceMessage)) (fun p => ⟨p⟩) (·.points)

/-- The challenges of all instances of a setup. -/
def setupChallenges : Form Correlated.SetupChallenges :=
  record (one "challenges" (vector baseCount challengeMessage)) (fun c => ⟨c⟩) (·.challenges)

/-- The responses of all instances of a setup. -/
def setupResponses : Form Correlated.SetupResponses :=
  record (one "responses" (vector baseCount responseMessage)) (fun r => ⟨r⟩) (·.responses)

/-- The opened hashes of all instances of a setup. -/
def setupOpenings : Form Correlated.SetupOpenings :=
  record (one "openings" (vector baseCount openingMessage)) (fun o => ⟨o⟩) (·.openings)

/-- The sender's setup. -/
def sendSetup : Form Correlated.SendSetup :=
  record (cons "delta" block <| one "k_delta" (vector baseCount block))
    (fun (d, k) => ⟨d, k⟩) (fun s => (s.delta, s.keys))

/-- The receiver's setup. -/
def receiveSetup : Form Correlated.ReceiveSetup :=
  record (cons "k_0" (vector baseCount block) <| one "k_1" (vector baseCount block))
    (fun (k₀, k₁) => ⟨k₀, k₁⟩) (fun s => (s.keys0, s.keys1))

/-- The matrix of an extension. -/
def extendMessage : Form Correlated.ExtendMessage :=
  record (one "u" bytes) (fun u => ⟨u⟩) (·.u)

/-! ## Extensions, shares and products -/

/-- The sums of an extension's check. -/
def sums : Form Extension.Sums :=
  (pair polynomial polynomial).imap (fun (low, high) => ⟨low, high⟩) (fun s => (s.low, s.high))

/-- The receiver's message of an extension. -/
def extensionMessage : Form Extension.Message :=
  record (cons "extend" extendMessage <| cons "x" halfBlock <| one "t" sums)
    (fun (e, x, t) => ⟨e, x, t⟩) (fun m => (m.extend, m.x, m.t))

/-- The sender's ciphertexts of additive transfers. -/
def additiveMessage : Form AdditiveTransfer.Message :=
  record (one "ciphertexts" (list (pair scalar scalar))) (fun c => ⟨c⟩) (·.ciphertexts)

/-- The sender's message of a multiplication. -/
def multiplyMessage : Form Multiply.Message :=
  record (cons "additive" additiveMessage <| cons "verify_u" scalar <| one "verify_r" block)
    (fun (a, u, r) => ⟨a, u, r⟩) (fun m => (m.additive, m.verifyU, m.verifyR))

end ObliviousTransfer.Wire
