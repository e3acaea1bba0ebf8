import Mathlib
import ObliviousTransfer.RandomTransfer
import ObliviousTransfer.Proofs.KnowledgeProofs

/-!
# One random transfer

What the two parties of one instance have in common. The sender with secret `b` and the receiver
with secret `a` compute the pad of the choice from different points, `b • A` or `b • (A - B)` on one
side and `a • B` on the other, and these are equal (`pads_get_chooseWith`). This needs the choice
message only: what is sent after it decides whether the parties accept, not which pads they have.

An honest run is accepted by both sides (`reveal_respond`, `verify_reveal`), as is the proof that it
rests on (`DLogProof.verify_make`).
-/

namespace ObliviousTransfer.RandomTransfer

open scoped PointGroup Fin.CommRing

variable {P : Type} [PointGroup P]

/-! ## Steps that succeed -/

theorem Challenged.reveal_eq_ok_iff (state : Challenged) (message : ResponseMessage)
    (result : Pads × OpeningMessage) :
    state.reveal message = .ok result ↔
      message.response = state.expected ∧ (state.pads, state.opening) = result := by
  unfold Challenged.reveal
  split
  · next h => exact ⟨fun hok => ⟨h, Except.ok.inj hok⟩, fun hok => congrArg Except.ok hok.2⟩
  · next h => exact ⟨nofun, fun hok => absurd hok.1 h⟩

theorem Responded.verify_eq_ok_iff (state : Responded) (opening : OpeningMessage) (pad : Block) :
    state.verify opening = .ok pad ↔
      hashBlock state.nonce opening.decommit0 ^^^ hashBlock state.nonce opening.decommit1 =
        state.challenge ∧
      hashBlock state.nonce state.pad = opening.get state.choice ∧ state.pad = pad := by
  unfold Responded.verify
  split
  · next h => exact ⟨nofun, fun hok => absurd hok.1 h⟩
  · next hchallenge =>
    split
    · next h => exact ⟨nofun, fun hok => absurd hok.2.1 h⟩
    · next hown =>
      exact ⟨fun hok => ⟨not_not.1 hchallenge, not_not.1 hown, Except.ok.inj hok⟩,
        fun hok => congrArg Except.ok hok.2.2⟩

/-- The value that is opened for a choice is the hash of the pad of that choice. -/
theorem Sender.get_opening_challenge (sender : Sender P) (nonce : Block) (message : ChoiceMessage P)
    (choice : Bool) :
    (sender.challenge nonce message).1.opening.get choice =
      hashBlock nonce ((sender.pads nonce message.point).get choice) := by
  cases choice <;> rfl

/-! ## The start -/

/-- The receiver accepts the point of a sender with a secret other than zero. -/
theorem init_make [LawfulPointGroup P] [DecidableEq P] {secret : Scalar} (hsecret : secret ≠ 0)
    (t : Transcript) (proofNonce : Scalar) :
    let made : Sender P × SetupMessage P := Sender.make t secret proofNonce
    Receiver.init t made.2 = .ok ⟨made.1.point⟩ :=
  if_pos (DLogProof.verify_make hsecret proofNonce _)

theorem finds_sender [LawfulPointGroup P] [DecidableEq P] {σ : Type} [ByteStream σ] (t : Transcript)
    (source : Source σ) :
    (Sender.init t : Draw σ (Sender P × SetupMessage P)).Finds
      [.search, .search] source fun start =>
      start.1.point = start.1.secret • PointGroup.generator ∧
      Receiver.init t start.2 = .ok ⟨start.1.point⟩ :=
  Draw.finds_bind (Draw.finds_nonzeroScalar source) fun _ rest hsecret =>
    Draw.finds_bind_pure (Draw.finds_nonzeroScalar rest) fun proofNonce _ =>
      ⟨rfl, init_make hsecret t proofNonce⟩

/-! ## The pad of the choice -/

section SamePad

variable [LawfulPointGroup P] {sender : Sender P}
  (hpoint : sender.point = sender.secret • PointGroup.generator) (nonce : Block) (choice : Bool)
  (secret : Scalar)

include hpoint

/-- The receiver's pad is the sender's pad for the choice. -/
theorem pads_get_chooseWith :
    let chosen := (Receiver.mk sender.point).chooseWith nonce choice secret
    (sender.pads nonce chosen.2.point).get choice = chosen.1.pad := by
  have hsame : sender.secret • secret • (PointGroup.generator : P) = secret • sender.point := by
    rw [hpoint, smul_comm]
  cases choice with
  | false =>
    show hashPoint nonce (sender.secret • (secret • PointGroup.generator + 0)) =
      hashPoint nonce (secret • sender.point)
    rw [add_zero, hsame]
  | true =>
    show hashPoint nonce
        (sender.secret • (secret • PointGroup.generator + sender.point - sender.point)) =
      hashPoint nonce (secret • sender.point)
    rw [add_sub_cancel_right, hsame]

/-! ## An honest run -/

/-- The sender accepts the response to its own challenge. -/
theorem reveal_respond :
    let chosen := (Receiver.mk sender.point).chooseWith nonce choice secret
    let challenged := sender.challenge nonce chosen.2
    challenged.1.reveal (chosen.1.respond challenged.2).2 =
      .ok (challenged.1.pads, challenged.1.opening) := by
  intro chosen challenged
  have hpad : (sender.pads nonce chosen.2.point).get choice = chosen.1.pad :=
    pads_get_chooseWith hpoint nonce choice secret
  refine (Challenged.reveal_eq_ok_iff ..).2 ⟨?_, rfl⟩
  have hown : hashBlock nonce (hashBlock nonce chosen.1.pad) =
      hashBlock nonce (challenged.1.opening.get choice) := by
    rw [← hpad, sender.get_opening_challenge]
  cases choice with
  | false => exact hown
  | true =>
    -- the own hash cancels against that of the second pad in the challenge
    show hashBlock nonce (hashBlock nonce chosen.1.pad) ^^^
      (hashBlock nonce challenged.1.opening.decommit1 ^^^ challenged.1.expected) =
        challenged.1.expected
    rw [hown, ← BitVec.xor_assoc]
    exact (congrArg (· ^^^ challenged.1.expected) BitVec.xor_self).trans BitVec.zero_xor

/-- The receiver accepts the opening for the challenge that it has answered. -/
theorem verify_reveal :
    let chosen := (Receiver.mk sender.point).chooseWith nonce choice secret
    let challenged := sender.challenge nonce chosen.2
    (chosen.1.respond challenged.2).1.verify challenged.1.opening = .ok chosen.1.pad := by
  intro chosen challenged
  have hpad : (sender.pads nonce chosen.2.point).get choice = chosen.1.pad :=
    pads_get_chooseWith hpoint nonce choice secret
  refine (Responded.verify_eq_ok_iff ..).2 ⟨?_, ?_, rfl⟩
  · exact BitVec.xor_comm ..
  · exact ((sender.get_opening_challenge nonce chosen.2 choice).trans (congrArg _ hpad)).symm

end SamePad

end ObliviousTransfer.RandomTransfer
