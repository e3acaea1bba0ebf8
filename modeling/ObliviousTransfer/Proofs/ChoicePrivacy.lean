import Mathlib
import ObliviousTransfer.Proofs.TransferVerdicts

/-!
# What the sender learns about the choice

The receiver of an instance sends two messages: its point and its response.

The point says nothing. With either choice the receiver can send every point but one, each of them
for exactly one secret (`canSend_iff`, `existsUnique_secret`), and a secret `a` without the choice
sends the same point as the secret `a - b` with it. Against the honest sender the two runs agree in
all messages (`point_hides_choice`), since all messages follow from the point (`exchange_faithful`).

A sender that deviates may learn the choice from the response, but not from an accepted one. What
the receiver accepts ties its pad to one of the opened values and the exclusive or of their hashes
to the challenge; whichever value it was, the response is the hash of the first one
(`accepting_runs_send_one_response`).
-/

namespace ObliviousTransfer.RandomTransfer

open scoped PointGroup Fin.CommRing

/-! ## Accepted responses -/

/-- The response of a receiver that accepts the opening does not depend on its choice. -/
theorem response_eq_of_verify_eq_ok {state : Chosen} {challenge : ChallengeMessage}
    {opening : OpeningMessage} {pad : Block}
    (h : (state.respond challenge).1.verify opening = .ok pad) :
    (state.respond challenge).2.response = hashBlock state.nonce opening.decommit0 := by
  obtain ⟨hchallenge, hown, -⟩ := (Responded.verify_eq_ok_iff ..).1 h
  obtain ⟨nonce, choice, own⟩ := state
  replace hchallenge : hashBlock nonce opening.decommit0 ^^^ hashBlock nonce opening.decommit1 =
    challenge.challenge := hchallenge
  cases choice with
  | false =>
    replace hown : hashBlock nonce own = opening.decommit0 := hown
    exact congrArg (hashBlock nonce) hown
  | true =>
    replace hown : hashBlock nonce own = opening.decommit1 := hown
    show hashBlock nonce (hashBlock nonce own) ^^^ challenge.challenge =
      hashBlock nonce opening.decommit0
    -- the challenge takes the hash of the second value out and puts that of the first one in
    rw [hown, ← hchallenge, BitVec.xor_comm (hashBlock nonce opening.decommit0), xor_cancel_left]

variable {P : Type} [PointGroup P]

/-- A receiver up to its response, against a sender that sends what it likes. -/
structure ReceiverRun (P : Type) where
  receiver : Receiver P
  choice : Bool
  secret : Scalar
  challenge : ChallengeMessage

namespace ReceiverRun

/-- The receiver behind its response, and the response. -/
def responded (run : ReceiverRun P) (nonce : Block) : Responded × ResponseMessage :=
  (run.receiver.chooseWith nonce run.choice run.secret).1.respond run.challenge

/-- The response that the sender gets. -/
def response (run : ReceiverRun P) (nonce : Block) : ResponseMessage :=
  (run.responded nonce).2

/-- What the receiver makes of the opening. -/
def verdict (run : ReceiverRun P) (nonce : Block) (opening : OpeningMessage) :
    Except OTError Block :=
  (run.responded nonce).1.verify opening

end ReceiverRun

/-- Whatever a sender has sent as its point and its challenge, a receiver that accepts the opening
has sent the hash of its first value, so that all accepting runs with one opening have sent one
response. A sender that looks at the response only if the opening is accepted sees nothing but the
verdict. -/
theorem accepting_runs_send_one_response (nonce : Block) (opening : OpeningMessage) :
    (∀ (run : ReceiverRun P) (pad : Block), run.verdict nonce opening = .ok pad →
      (run.response nonce).response = hashBlock nonce opening.decommit0) ∧
    (∀ (run run' : ReceiverRun P) (pad pad' : Block), run.verdict nonce opening = .ok pad →
      run'.verdict nonce opening = .ok pad' → run.response nonce = run'.response nonce) ∧
    ∃ seen : Bool → Option ResponseMessage, ∀ run : ReceiverRun P,
      (run.verdict nonce opening).toOption.map (fun _ => run.response nonce) =
        seen (run.verdict nonce opening).toBool := by
  have hresponse (run : ReceiverRun P) (pad : Block) (h : run.verdict nonce opening = .ok pad) :
      run.response nonce = ⟨hashBlock nonce opening.decommit0⟩ :=
    congrArg ResponseMessage.mk (response_eq_of_verify_eq_ok h)
  refine ⟨fun run pad h => ?_, fun run run' pad pad' h h' => ?_, ?_⟩
  · exact congrArg ResponseMessage.response (hresponse run pad h)
  · exact (hresponse run pad h).trans (hresponse run' pad' h').symm
  · refine ⟨fun accepted => if accepted then some ⟨hashBlock nonce opening.decommit0⟩ else none, ?_⟩
    intro run
    cases h : run.verdict nonce opening with
    | error error => rfl
    | ok pad => exact congrArg some (hresponse run pad h)

/-- Two receivers whose choices differ and who accept what an honest sender opens. -/
theorem both_choices_send_one_response_over_exponents :
    let sender : Sender Exponent := ⟨3, ⟨3⟩⟩
    let asked := sender.challenge 9 ⟨⟨7⟩⟩
    let plain : ReceiverRun Exponent := ⟨⟨⟨3⟩⟩, false, 7, asked.2⟩
    let flipped : ReceiverRun Exponent := ⟨⟨⟨3⟩⟩, true, 4, asked.2⟩
    (∃ pad, plain.verdict 9 asked.1.opening = .ok pad) ∧
      (∃ pad, flipped.verdict 9 asked.1.opening = .ok pad) ∧
      plain.response 9 = flipped.response 9 := by
  intro sender asked plain flipped
  have hpoint : sender.point = sender.secret • PointGroup.generator := by decide
  have hplain : plain.verdict 9 asked.1.opening = .ok _ := verify_reveal hpoint 9 false 7
  have hflipped : flipped.verdict 9 asked.1.opening = .ok _ := verify_reveal hpoint 9 true 4
  exact ⟨⟨_, hplain⟩, ⟨_, hflipped⟩,
    (accepting_runs_send_one_response 9 asked.1.opening).2.1 plain flipped _ _ hplain hflipped⟩

/-! ## The points that a receiver can send -/

/-- What the choice adds to the receiver's point. It is the only point that the receiver cannot
send. -/
def Receiver.offset (receiver : Receiver P) (choice : Bool) : P :=
  if choice then receiver.senderPoint else 0

/-- Some source of randomness makes the receiver send the point. -/
def Receiver.CanSend (receiver : Receiver P) (nonce : Block) (choice : Bool) (point : P) : Prop :=
  ∃ (source rest : Source Tape) (chosen : Chosen),
    (receiver.choose nonce choice).run.run source = (.ok (chosen, ⟨point⟩), rest)

theorem canSend_iff_exists_secret (receiver : Receiver P) (nonce : Block) (choice : Bool)
    (point : P) :
    receiver.CanSend nonce choice point ↔
      ∃ secret, secret ≠ 0 ∧ (receiver.chooseWith nonce choice secret).2.point = point := by
  constructor
  · rintro ⟨source, rest, chosen, hrun⟩
    have hfinds : (receiver.choose nonce choice : Draw Tape _).Finds [.search] source fun start =>
        ∃ secret, secret ≠ 0 ∧ receiver.chooseWith nonce choice secret = start :=
      Draw.finds_bind_pure (Draw.finds_nonzeroScalar source) fun secret hsecret =>
        ⟨secret, hsecret, rfl⟩
    obtain ⟨secret, hsecret, hstart⟩ := hfinds.of_run hrun
    exact ⟨secret, hsecret, by rw [hstart]⟩
  · rintro ⟨secret, hsecret, rfl⟩
    exact ⟨_, _, _, Draw.run_bind (Draw.run_nonzeroScalar_ofTape hsecret [] 0)⟩

variable [LawfulPointGroup P]

/-- A secret other than zero never sends the offset. -/
theorem point_chooseWith_ne (receiver : Receiver P) (nonce : Block) (choice : Bool)
    {secret : Scalar} (hsecret : secret ≠ 0) :
    (receiver.chooseWith nonce choice secret).2.point ≠ receiver.offset choice := by
  have hpoint : (receiver.chooseWith nonce choice secret).2.point =
      secret • PointGroup.generator + receiver.offset choice := rfl
  rw [hpoint, Ne, add_eq_right, PointGroup.smul_generator_eq_zero_iff]
  exact hsecret

/-- Every other point is sent for exactly one secret. -/
theorem existsUnique_secret (receiver : Receiver P) (nonce : Block) {choice : Bool} {point : P}
    (hpoint : point ≠ receiver.offset choice) :
    ∃! secret, secret ≠ 0 ∧ (receiver.chooseWith nonce choice secret).2.point = point := by
  obtain ⟨secret, hsecret⟩ :=
    LawfulPointGroup.exists_smul_generator (point - receiver.offset choice)
  have hsends (s : Scalar) : (receiver.chooseWith nonce choice s).2.point = point ↔ s = secret := by
    show s • PointGroup.generator + receiver.offset choice = point ↔ s = secret
    rw [← eq_sub_iff_add_eq, hsecret]
    exact ⟨LawfulPointGroup.smul_generator_injective s secret, fun h => by rw [h]⟩
  refine ⟨secret, ⟨?_, (hsends secret).2 rfl⟩, fun s hs => (hsends s).1 hs.2⟩
  rintro rfl
  exact hpoint (sub_eq_zero.1 (hsecret.trans (zero_smul Scalar _)))

theorem canSend_iff (receiver : Receiver P) (nonce : Block) (choice : Bool) (point : P) :
    receiver.CanSend nonce choice point ↔ point ≠ receiver.offset choice := by
  rw [canSend_iff_exists_secret]
  constructor
  · rintro ⟨secret, hsecret, rfl⟩
    exact point_chooseWith_ne receiver nonce choice hsecret
  · intro h
    exact (existsUnique_secret receiver nonce h).exists

/-! ## Two runs that look alike -/

/-- Both choices are behind a point, with secrets that differ by that of the sender. -/
theorem chooseWith_sub_eq (receiver : Receiver P) {senderSecret : Scalar}
    (hpoint : receiver.senderPoint = senderSecret • PointGroup.generator) (nonce : Block)
    (secret : Scalar) :
    (receiver.chooseWith nonce true (secret - senderSecret)).2 =
      (receiver.chooseWith nonce false secret).2 := by
  show ChoiceMessage.mk ((secret - senderSecret) • PointGroup.generator + receiver.senderPoint) =
    ⟨secret • PointGroup.generator + 0⟩
  rw [hpoint, sub_smul, sub_add_cancel, add_zero]

/-- The point of an accepted proof is not the identity. -/
theorem senderSecret_ne_zero_of_init_eq_ok [DecidableEq P] {t : Transcript}
    {message : SetupMessage P} {receiver : Receiver P}
    (haccepted : Receiver.init t message = .ok receiver) {senderSecret : Scalar}
    (hpoint : receiver.senderPoint = senderSecret • PointGroup.generator) : senderSecret ≠ 0 := by
  unfold Receiver.init at haccepted
  split at haccepted
  · next hverified =>
    cases haccepted
    have hne : message.proof.point ≠ 0 := ((DLogProof.verify_eq_true_iff ..).1 hverified).1
    rwa [show message.proof.point = _ from hpoint, Ne, PointGroup.smul_generator_eq_zero_iff] at hne
  · exact nomatch haccepted

/-- With either choice the receiver can send every point but one, each of them for exactly one
secret other than zero. A secret without the choice and the same secret less that of the sender with
it make for the same messages in a whole instance with the honest sender, and both runs end well. -/
theorem point_hides_choice [DecidableEq P] {t : Transcript} {message : SetupMessage P}
    {receiver : Receiver P} (haccepted : Receiver.init t message = .ok receiver)
    {senderSecret : Scalar}
    (hpoint : receiver.senderPoint = senderSecret • PointGroup.generator) (nonce : Block) :
    (∀ choice point,
      (receiver.CanSend nonce choice point ↔ point ≠ receiver.offset choice) ∧
      (point ≠ receiver.offset choice →
        ∃! secret, secret ≠ 0 ∧ (receiver.chooseWith nonce choice secret).2.point = point)) ∧
    senderSecret ≠ 0 ∧
    ∀ secret, secret ≠ 0 → secret ≠ senderSecret →
      let sender : Sender P := ⟨senderSecret, senderSecret • PointGroup.generator⟩
      let plain := receiver.chooseWith nonce false secret
      let flipped := receiver.chooseWith nonce true (secret - senderSecret)
      secret - senderSecret ≠ 0 ∧ flipped.2 = plain.2 ∧
      ∃ messages pads,
        exchange sender nonce .faithful plain = .ok (messages, pads, pads.pad0) ∧
        exchange sender nonce .faithful flipped = .ok (messages, pads, pads.pad1) := by
  refine ⟨fun choice point =>
      ⟨canSend_iff receiver nonce choice point, existsUnique_secret receiver nonce⟩,
    senderSecret_ne_zero_of_init_eq_ok haccepted hpoint, ?_⟩
  intro secret _ hsecret sender plain flipped
  have hsame : flipped.2 = plain.2 := chooseWith_sub_eq receiver hpoint nonce secret
  have hreceiver : receiver = ⟨sender.point⟩ := congrArg Receiver.mk hpoint
  have hplain : exchange sender nonce .faithful plain =
      .ok (sender.messages nonce plain.2, sender.pads nonce plain.2.point,
        (sender.pads nonce plain.2.point).pad0) := by
    simp only [plain, hreceiver]
    exact exchange_faithful rfl nonce false secret
  have hflipped : exchange sender nonce .faithful flipped =
      .ok (sender.messages nonce flipped.2, sender.pads nonce flipped.2.point,
        (sender.pads nonce flipped.2.point).pad1) := by
    simp only [flipped, hreceiver]
    exact exchange_faithful rfl nonce true (secret - senderSecret)
  rw [hsame] at hflipped
  exact ⟨sub_ne_zero.2 hsecret, hsame, _, _, hplain, hflipped⟩

/-- The receiver that has accepted the sender with secret 3 sends one point for the secrets
7 and 4. -/
theorem one_point_for_both_choices_over_exponents :
    let t := Transcript.new [7]
    let made : Sender Exponent × SetupMessage Exponent := Sender.make t 3 5
    let receiver : Receiver Exponent := ⟨made.1.point⟩
    Receiver.init t made.2 = .ok receiver ∧
    receiver.senderPoint = (3 : Scalar) • PointGroup.generator ∧
    receiver.CanSend 9 true ⟨7⟩ ∧
    (receiver.chooseWith 9 true (7 - 3)).2 = (receiver.chooseWith 9 false 7).2 := by
  intro t made receiver
  have haccepted : Receiver.init t made.2 = .ok receiver := init_make (by decide) t 5
  have hpoint : receiver.senderPoint = (3 : Scalar) • PointGroup.generator := rfl
  obtain ⟨hpoints, -, hruns⟩ := point_hides_choice haccepted hpoint 9
  exact ⟨haccepted, hpoint, (hpoints true ⟨7⟩).1.2 (by decide),
    (hruns 7 (by decide) (by decide)).2.1⟩

end ObliviousTransfer.RandomTransfer
