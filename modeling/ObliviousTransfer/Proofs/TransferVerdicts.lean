import Mathlib
import ObliviousTransfer.Proofs.TransferInstance
import ObliviousTransfer.Proofs.Verdicts

/-!
# Verdicts on what is delivered

Behind the choice message an instance has three more messages: the challenge, the response and the
opening. Whatever is delivered in place of them, the verdicts of both sides are known exactly once
the setup and the choice message have arrived as they were sent (`verdicts_on_delivered_messages`).
The receiver answers with the hash of the value that it can check, and adds the challenge that it
got if its choice is set (`response_respond`); the sender accepts one response only
(`reveal_challenge`); the receiver looks at the challenge first and at the opened value of its
choice next (`verify_respond`).

`exchange` runs both sides over a line. A line that delivers everything unchanged lets both of them
finish. A line that replaces the challenge is noticed by the sender if the choice is set, because
the own hash does not cancel in the response, and otherwise by the receiver.
-/

namespace ObliviousTransfer.RandomTransfer

open scoped PointGroup Fin.CommRing

/-! ## Runs over a line -/

/-- What the line makes of the messages behind the choice message. -/
structure Line where
  challenge : ChallengeMessage → ChallengeMessage
  response : ResponseMessage → ResponseMessage
  opening : OpeningMessage → OpeningMessage

/-- The line that delivers what was sent. -/
def Line.faithful : Line := ⟨id, id, id⟩

/-- The line that delivers another challenge, and nothing else that was not sent. -/
def Line.replacingChallenge (challenge : ChallengeMessage) : Line :=
  { Line.faithful with challenge := fun _ => challenge }

/-- The messages of an instance, as they were sent. -/
structure Messages (P : Type) where
  choice : ChoiceMessage P
  challenge : ChallengeMessage
  response : ResponseMessage
  opening : OpeningMessage

variable {P : Type} [PointGroup P]

/-- The messages of an instance in which all goes well. They follow from the choice message. -/
def Sender.messages (sender : Sender P) (nonce : Block) (choice : ChoiceMessage P) : Messages P :=
  let challenged := sender.challenge nonce choice
  ⟨choice, challenged.2, ⟨challenged.1.expected⟩, challenged.1.opening⟩

/-- The rest of an instance in which the receiver has chosen: the messages, the sender's pads and
the receiver's pad, or the reason of the side that refuses to go on. -/
def exchange (sender : Sender P) (nonce : Block) (line : Line) (start : Chosen × ChoiceMessage P) :
    Except OTError (Messages P × Pads × Block) := do
  let challenged := sender.challenge nonce start.2
  let responded := start.1.respond (line.challenge challenged.2)
  let revealed ← challenged.1.reveal (line.response responded.2)
  let pad ← responded.1.verify (line.opening revealed.2)
  return (⟨start.2, challenged.2, responded.2, revealed.2⟩, revealed.1, pad)

section Exchange

variable (sender : Sender P) (nonce : Block) (line : Line) (start : Chosen × ChoiceMessage P)

/-- A sender that refuses the response ends the run. -/
theorem exchange_eq_of_reveal_eq_error {error : OTError}
    (hreveal : (sender.challenge nonce start.2).1.reveal
      (line.response (start.1.respond (line.challenge (sender.challenge nonce start.2).2)).2) =
        .error error) :
    exchange sender nonce line start = .error error :=
  bind_eq_error hreveal _

/-- Behind a sender that accepts the response, the receiver decides. -/
theorem exchange_eq_of_reveal_eq_ok {pads : Pads} {opening : OpeningMessage}
    {verdict : Except OTError Block}
    (hreveal : (sender.challenge nonce start.2).1.reveal
      (line.response (start.1.respond (line.challenge (sender.challenge nonce start.2).2)).2) =
        .ok (pads, opening))
    (hverify : (start.1.respond (line.challenge (sender.challenge nonce start.2).2)).1.verify
      (line.opening opening) = verdict) :
    exchange sender nonce line start = verdict.map fun pad =>
      (⟨start.2, (sender.challenge nonce start.2).2,
        (start.1.respond (line.challenge (sender.challenge nonce start.2).2)).2, opening⟩,
        pads, pad) := by
  refine (bind_eq_of_eq_ok hreveal _).trans ?_
  cases verdict with
  | error error => exact bind_eq_error hverify _
  | ok pad => exact bind_eq_of_eq_ok hverify _

end Exchange

/-! ## Single verdicts -/

/-- The sender accepts the hash of its first opened value and nothing else. -/
theorem reveal_challenge (sender : Sender P) (nonce : Block) (message : ChoiceMessage P)
    (response : ResponseMessage) :
    let challenged := (sender.challenge nonce message).1
    challenged.reveal response =
      if response.response = hashBlock nonce challenged.opening.decommit0 then
        .ok (challenged.pads, challenged.opening)
      else .error .invalidResponse := rfl

private theorem eq_xor_of_xor_eq {a b x : Block} (h : a ^^^ x = b) : x = a ^^^ b := by
  rw [← h, xor_cancel_left]

section Verdicts

variable [LawfulPointGroup P] {sender : Sender P}
  (hpoint : sender.point = sender.secret • PointGroup.generator) (nonce : Block) (choice : Bool)
  (secret : Scalar)

include hpoint

/-- The receiver's own hash is the value that the sender can open for the choice. -/
theorem hashBlock_pad_chooseWith :
    let chosen := (Receiver.mk sender.point).chooseWith nonce choice secret
    hashBlock nonce chosen.1.pad = (sender.challenge nonce chosen.2).1.opening.get choice := by
  intro chosen
  rw [sender.get_opening_challenge]
  exact congrArg (hashBlock nonce) (pads_get_chooseWith hpoint nonce choice secret).symm

theorem response_respond (challenge : ChallengeMessage) :
    let chosen := (Receiver.mk sender.point).chooseWith nonce choice secret
    let opening := (sender.challenge nonce chosen.2).1.opening
    (chosen.1.respond challenge).2.response =
      hashBlock nonce (opening.get choice) ^^^ (if choice then challenge.challenge else 0) := by
  intro chosen opening
  have hown : hashBlock nonce chosen.1.pad = opening.get choice :=
    hashBlock_pad_chooseWith hpoint nonce choice secret
  show (if choice then hashBlock nonce (hashBlock nonce chosen.1.pad) ^^^ challenge.challenge
    else hashBlock nonce (hashBlock nonce chosen.1.pad)) = _
  rw [hown]
  cases choice with
  | false => exact BitVec.xor_zero.symm
  | true => rfl

theorem verify_respond (challenge : ChallengeMessage) (delivered : OpeningMessage) :
    let chosen := (Receiver.mk sender.point).chooseWith nonce choice secret
    let challenged := (sender.challenge nonce chosen.2).1
    (chosen.1.respond challenge).1.verify delivered =
      if hashBlock nonce delivered.decommit0 ^^^ hashBlock nonce delivered.decommit1 ≠
          challenge.challenge then
        .error .invalidChallenge
      else if challenged.opening.get choice ≠ delivered.get choice then .error .invalidDecommitment
      else .ok (challenged.pads.get choice) := by
  intro chosen challenged
  have hpad : challenged.pads.get choice = chosen.1.pad :=
    pads_get_chooseWith hpoint nonce choice secret
  rw [hpad, ← hashBlock_pad_chooseWith hpoint nonce choice secret]
  rfl

/-! ## Runs -/

/-- Nobody refuses what was sent. -/
theorem exchange_faithful :
    let chosen := (Receiver.mk sender.point).chooseWith nonce choice secret
    let pads := sender.pads nonce chosen.2.point
    exchange sender nonce .faithful chosen =
      .ok (sender.messages nonce chosen.2, pads, pads.get choice) := by
  intro chosen pads
  have hreveal := reveal_respond hpoint nonce choice secret
  have hresponse : (chosen.1.respond (sender.challenge nonce chosen.2).2).2 =
      ⟨(sender.challenge nonce chosen.2).1.expected⟩ :=
    congrArg ResponseMessage.mk ((Challenged.reveal_eq_ok_iff ..).1 hreveal).1
  have hpad : pads.get choice = chosen.1.pad := pads_get_chooseWith hpoint nonce choice secret
  rw [hpad, Sender.messages, ← hresponse]
  exact exchange_eq_of_reveal_eq_ok sender nonce .faithful chosen hreveal
    (verify_reveal hpoint nonce choice secret)

/-- A challenge that was not sent ends the run: at the sender if the choice is set, and otherwise at
the receiver. -/
theorem exchange_replacingChallenge {challenge : ChallengeMessage}
    (hchanged : challenge ≠ (sender.challenge nonce
      ((Receiver.mk sender.point).chooseWith nonce choice secret).2).2) :
    exchange sender nonce (.replacingChallenge challenge)
        ((Receiver.mk sender.point).chooseWith nonce choice secret) =
      .error (if choice then .invalidResponse else .invalidChallenge) := by
  set chosen := (Receiver.mk sender.point).chooseWith nonce choice secret
  set opening := (sender.challenge nonce chosen.2).1.opening
  let line := Line.replacingChallenge challenge
  have hsent : challenge.challenge ≠
      hashBlock nonce opening.decommit1 ^^^ hashBlock nonce opening.decommit0 :=
    fun h => hchanged (congrArg ChallengeMessage.mk h)
  have hresponse := response_respond hpoint nonce choice secret challenge
  cases choice with
  | true =>
    have hreveal : (sender.challenge nonce chosen.2).1.reveal (chosen.1.respond challenge).2 =
        .error .invalidResponse :=
      (reveal_challenge ..).trans
        (if_neg fun h => hsent (eq_xor_of_xor_eq (hresponse.symm.trans h)))
    exact exchange_eq_of_reveal_eq_error sender nonce line chosen hreveal
  | false =>
    have hreveal : (sender.challenge nonce chosen.2).1.reveal (chosen.1.respond challenge).2 =
        .ok ((sender.challenge nonce chosen.2).1.pads, opening) :=
      (reveal_challenge ..).trans (if_pos (hresponse.trans BitVec.xor_zero))
    have hverify : (chosen.1.respond challenge).1.verify opening = .error .invalidChallenge :=
      (verify_respond hpoint nonce false secret challenge opening).trans
        (if_pos fun h => hsent (h.symm.trans (BitVec.xor_comm ..)))
    exact exchange_eq_of_reveal_eq_ok sender nonce line chosen hreveal hverify

end Verdicts

/-- Once the setup and the choice message have arrived as they were sent, the verdicts of both sides
on any challenge, any response and any opening are these. What was sent is accepted, and a challenge
that was not sent never is. -/
theorem verdicts_on_delivered_messages [LawfulPointGroup P] [DecidableEq P] (t : Transcript)
    {senderSecret : Scalar} (hsecret : senderSecret ≠ 0) (proofNonce receiverSecret : Scalar)
    (nonce : Block) (choice : Bool) :
    let made : Sender P × SetupMessage P := Sender.make t senderSecret proofNonce
    let receiver : Receiver P := ⟨made.1.point⟩
    let chosen := receiver.chooseWith nonce choice receiverSecret
    let challenged := made.1.challenge nonce chosen.2
    let pads := challenged.1.pads
    let own := challenged.1.opening
    Receiver.init t made.2 = .ok receiver ∧
    (∀ challenge, (chosen.1.respond challenge).2.response =
      hashBlock nonce (own.get choice) ^^^ (if choice then challenge.challenge else 0)) ∧
    (∀ response, challenged.1.reveal response =
      if response.response = hashBlock nonce own.decommit0 then .ok (pads, own)
      else .error .invalidResponse) ∧
    (∀ challenge opening, (chosen.1.respond challenge).1.verify opening =
      if hashBlock nonce opening.decommit0 ^^^ hashBlock nonce opening.decommit1 ≠
          challenge.challenge then
        .error .invalidChallenge
      else if own.get choice ≠ opening.get choice then .error .invalidDecommitment
      else .ok (pads.get choice)) ∧
    exchange made.1 nonce .faithful chosen =
      .ok (made.1.messages nonce chosen.2, pads, pads.get choice) ∧
    ∀ challenge ≠ challenged.2, exchange made.1 nonce (.replacingChallenge challenge) chosen =
      .error (if choice then .invalidResponse else .invalidChallenge) := by
  intro made receiver chosen challenged pads own
  have hpoint : made.1.point = made.1.secret • PointGroup.generator := rfl
  refine ⟨init_make hsecret t proofNonce, fun challenge => ?_, fun response => ?_,
    fun challenge opening => ?_, ?_, fun challenge hchanged => ?_⟩
  · exact response_respond hpoint nonce choice receiverSecret challenge
  · exact reveal_challenge made.1 nonce chosen.2 response
  · exact verify_respond hpoint nonce choice receiverSecret challenge opening
  · exact exchange_faithful hpoint nonce choice receiverSecret
  · exact exchange_replacingChallenge hpoint nonce choice receiverSecret hchanged

/-- With the choice set, the sender refuses the response to a challenge in which one bit has
changed. -/
theorem changed_bit_refused_over_exponents :
    let made : Sender Exponent × SetupMessage Exponent := Sender.make (Transcript.new [7]) 3 5
    let chosen := (Receiver.mk made.1.point).chooseWith 9 true 4
    let sent := (made.1.challenge 9 chosen.2).2
    (3 : Scalar) ≠ 0 ∧
    exchange made.1 9 (.replacingChallenge ⟨sent.challenge ^^^ 1⟩) chosen =
      .error .invalidResponse := by
  intro made chosen sent
  have hsecret : (3 : Scalar) ≠ 0 := by decide
  have hverdicts :=
    verdicts_on_delivered_messages (P := Exponent) (Transcript.new [7]) hsecret 5 4 9 true
  refine ⟨hsecret, hverdicts.2.2.2.2.2 _ fun h => ?_⟩
  have hbit : sent.challenge ^^^ 1 = sent.challenge ^^^ 0 :=
    (congrArg ChallengeMessage.challenge h).trans BitVec.xor_zero.symm
  have hone : (1 : Block) = 0 := (BitVec.xor_right_inj _).1 hbit
  exact absurd hone (by decide)

end ObliviousTransfer.RandomTransfer
