import Mathlib
import ObliviousTransfer.Proofs.SetupAgreement
import ObliviousTransfer.Proofs.TransferBinding

/-!
# The strings behind the two pads

The sender with secret `b` hashes `b • A` into one pad of an instance and `b • (A - B)` into the
other. The two points differ by `b • B = b • b • G`, and this is not the neutral element, whatever
`A` is (`Sender.pointFor_false_ne_true`). So the two strings that are hashed are always different,
also for points `A` that no honest receiver sends, and equal pads would be a collision of these
strings (`Sender.pad0_eq_pad1_iff`). What holds of the pads holds of the two keys of a setup.
-/

namespace ObliviousTransfer.RandomTransfer

open Correlated
open scoped PointGroup Fin.CommRing

variable {P : Type} [PointGroup P]

/-- What the sender hashes into the pad of a choice: the nonce, and its point for the choice. -/
def Sender.padString (sender : Sender P) (nonce : Block) (point : P) (choice : Bool) : Bytes :=
  nonce.toBytes ++ PointGroup.encode (sender.pointFor choice point)

theorem Sender.pads_get_eq_digest (sender : Sender P) (nonce : Block) (point : P) (choice : Bool) :
    (sender.pads nonce point).get choice = Sha256.digest (sender.padString nonce point choice) := by
  cases choice <;> rfl

section Strings

variable [LawfulPointGroup P] {sender : Sender P}

theorem Sender.length_padString (nonce : Block) (point : P) (choice : Bool) :
    (sender.padString nonce point choice).length = 65 := by
  rw [padString, List.length_append, Block.length_toBytes, LawfulPointGroup.length_encode]

variable (hpoint : sender.point = sender.secret • PointGroup.generator)
  (hsecret : sender.secret ≠ 0)

include hpoint hsecret

/-- The sender's points for the two choices are never the same. -/
theorem Sender.pointFor_false_ne_true (point : P) :
    sender.pointFor false point ≠ sender.pointFor true point := by
  intro hsame
  have hcancelled : point = point - sender.point :=
    PointGroup.smul_left_cancel_of_ne_zero hsecret hsame
  have hzero : sender.secret • (PointGroup.generator : P) = 0 := by
    rw [← hpoint]
    exact sub_eq_self.1 hcancelled.symm
  exact hsecret ((PointGroup.smul_generator_eq_zero_iff sender.secret).1 hzero)

theorem Sender.padString_false_ne_true (nonce : Block) (point : P) :
    sender.padString nonce point false ≠ sender.padString nonce point true := fun hsame =>
  sender.pointFor_false_ne_true hpoint hsecret point
    (LawfulPointGroup.encode_injective _ _ (List.append_cancel_left hsame))

/-- The pads are equal if and only if the strings behind them collide. -/
theorem Sender.pad0_eq_pad1_iff (nonce : Block) (point : P) :
    (sender.pads nonce point).pad0 = (sender.pads nonce point).pad1 ↔
      Sha256.Collide (sender.padString nonce point false) (sender.padString nonce point true) :=
  (and_iff_right (sender.padString_false_ne_true hpoint hsecret nonce point)).symm

end Strings

/-! ## Pads and keys -/

/-- The keys that the receiver of a setup ends with are the sender's pads of the instances. -/
theorem pads_eq_keys {receiver : SetupReceiver P} {choices : SetupChoices P}
    {responses : SetupResponses} {setup : ReceiveSetup} {openings : SetupOpenings}
    (hreveal : (receiver.challenge choices).1.reveal responses = .ok (setup, openings))
    (i : Fin baseCount) :
    receiver.sender.pads (baseNonce receiver.transcript i) (choices.points.get i).point =
      ⟨setup.key i false, setup.key i true⟩ := by
  have hpads := SetupReceiverChallenged.pads_eq_keys hreveal i
  rwa [(get_challenge receiver choices i).1] at hpads

/-- For every received point, the identity and the sender's own point included, the two points that
the sender hashes are different, and so are their encodings: the pads are digests of two different
strings of 65 bytes, and they are equal only if these collide. The same holds of the two keys that a
setup ends with at each base index. -/
theorem pads_are_digests_of_different_strings [LawfulPointGroup P] {sender : Sender P}
    (hpoint : sender.point = sender.secret • PointGroup.generator) (hsecret : sender.secret ≠ 0) :
    (∀ (nonce : Block) (point : P),
      let pads := (sender.challenge nonce ⟨point⟩).1.pads
      let point0 := sender.secret • point
      let point1 := sender.secret • (point - sender.point)
      let string := sender.padString nonce point
      point0 ≠ point1 ∧ PointGroup.encode point0 ≠ PointGroup.encode point1 ∧
      (PointGroup.encode point0).length = 33 ∧ (PointGroup.encode point1).length = 33 ∧
      string false = nonce.toBytes ++ PointGroup.encode point0 ∧
      string true = nonce.toBytes ++ PointGroup.encode point1 ∧
      string false ≠ string true ∧
      (∀ choice, (string choice).length = 65 ∧ pads.get choice = Sha256.digest (string choice)) ∧
      (pads.pad0 = pads.pad1 ↔ Sha256.Collide (string false) (string true))) ∧
    ∀ (t : Transcript) (pool : Pool) (choices : SetupChoices P) (responses : SetupResponses)
      (setup : ReceiveSetup) (openings : SetupOpenings),
      ((SetupReceiver.mk t pool sender).challenge choices).1.reveal responses =
        .ok (setup, openings) →
      ∀ i : Fin baseCount,
        let string := sender.padString (baseNonce t i) (choices.points.get i).point
        string false ≠ string true ∧
        (∀ choice, setup.key i choice = Sha256.digest (string choice)) ∧
        (setup.key i false = setup.key i true ↔ Sha256.Collide (string false) (string true)) := by
  refine ⟨fun nonce point => ?_, fun t pool choices responses setup openings hreveal i => ?_⟩
  · have hpoints := sender.pointFor_false_ne_true hpoint hsecret point
    have hencodings := mt (LawfulPointGroup.encode_injective _ _) hpoints
    exact ⟨hpoints, hencodings, LawfulPointGroup.length_encode _, LawfulPointGroup.length_encode _,
      rfl, rfl, sender.padString_false_ne_true hpoint hsecret nonce point,
      fun choice => ⟨Sender.length_padString .., sender.pads_get_eq_digest nonce point choice⟩,
      sender.pad0_eq_pad1_iff hpoint hsecret nonce point⟩
  · have hkeys : sender.pads (baseNonce t i) (choices.points.get i).point =
        ⟨setup.key i false, setup.key i true⟩ := pads_eq_keys hreveal i
    have hdigest := sender.pads_get_eq_digest (baseNonce t i) (choices.points.get i).point
    have hcollide :=
      sender.pad0_eq_pad1_iff hpoint hsecret (baseNonce t i) (choices.points.get i).point
    rw [hkeys] at hdigest hcollide
    exact ⟨sender.padString_false_ne_true hpoint hsecret _ _,
      fun choice => by cases choice; exacts [hdigest false, hdigest true], hcollide⟩

/-- The sender's own point is hashed into two different strings, and so is every point of an honest
setup. -/
theorem keys_are_digests_of_different_strings_over_exponents :
    let sender : Sender Exponent := ⟨3, ⟨3⟩⟩
    let receiver : SetupReceiver Exponent := ⟨Transcript.new [7], .sequential, sender⟩
    let made := SetupSender.make receiver.transcript (.parallel 3) ⟨sender.point⟩ 0x15#256
      (Vector.replicate baseCount 4)
    let challenged := receiver.challenge made.2
    let string (i : Fin baseCount) :=
      sender.padString (baseNonce receiver.transcript i) (made.2.points.get i).point
    sender.point = sender.secret • PointGroup.generator ∧ sender.secret ≠ 0 ∧
      sender.padString 9 sender.point false ≠ sender.padString 9 sender.point true ∧
      ∃ setup openings,
        challenged.1.reveal (made.1.respond challenged.2).2 = .ok (setup, openings) ∧
        ∀ i, (setup.key i false = setup.key i true ↔
          Sha256.Collide (string i false) (string i true)) := by
  intro sender receiver made challenged string
  have hpoint : sender.point = sender.secret • PointGroup.generator := by decide
  have hsecret : sender.secret ≠ 0 := by decide
  obtain ⟨hstrings, hkeys⟩ := pads_are_digests_of_different_strings hpoint hsecret
  have started : Started receiver made.1 made.2 := started_make hpoint ..
  obtain ⟨setup, openings, -, hreveal, -⟩ := started.accepts
  obtain ⟨-, -, -, -, -, -, hown, -⟩ := hstrings 9 sender.point
  exact ⟨hpoint, hsecret, hown, setup, openings, hreveal,
    fun i => (hkeys _ _ _ _ _ _ hreveal i).2.2⟩

end ObliviousTransfer.RandomTransfer
