import Mathlib
import ObliviousTransfer.Proofs.SaltedHash
import ObliviousTransfer.Proofs.TransferVerdicts
import ObliviousTransfer.Proofs.Verdicts

/-!
# What an accepted response binds

The receiver's response and the block that the sender compares it with both come from a point that
is hashed three times under a nonce: `a • B` on the receiver's side, and on the sender's side
`b • A` or `b • (A - B)`, as the choice has it. The challenge takes this choice out of the
comparison (`reveal_respond_challenge`).

Going back through the three hashes, the two sides have hashed equal strings or a collision is found
(`hashChain_eq_or_collide`). Equal strings mean equal nonces and equal points, and the sender's
secret can be cancelled. So a response is accepted only by a sender that got the receiver's point
under the receiver's nonce.
-/

namespace ObliviousTransfer.RandomTransfer

open scoped PointGroup Fin.CommRing

/-! ## Three hashes -/

variable {P : Type} [PointGroup P]

/-- The hash of a point under a nonce, hashed twice more. -/
def hashChain (nonce : Block) (p : P) : Block :=
  hashBlock nonce (hashBlock nonce (hashPoint nonce p))

/-- The three strings that are hashed for it: the nonce with the encoded point, with the pad, and
with the value that the sender can open. -/
def hashedStrings (nonce : Block) (p : P) : List Bytes :=
  [nonce.toBytes ++ PointGroup.encode p,
    nonce.toBytes ++ (hashPoint nonce p).toBytes,
    nonce.toBytes ++ (hashBlock nonce (hashPoint nonce p)).toBytes]

/-- Two strings of one length, one from each list, are different and have the same digest. -/
def HaveCollision (hashed hashed' : List Bytes) : Prop :=
  ∃ x ∈ hashed, ∃ y ∈ hashed', x.length = y.length ∧ Sha256.Collide x y

theorem HaveCollision.mono {hashed hashed' more : List Bytes} (h : HaveCollision hashed hashed')
    (hsub : hashed' ⊆ more) : HaveCollision hashed more := by
  obtain ⟨x, hx, y, hy, hcollide⟩ := h
  exact ⟨x, hx, y, hsub hy, hcollide⟩

/-- Equal ends of two chains have equal beginnings, unless there is a collision on the way. -/
theorem hashChain_eq_or_collide [LawfulPointGroup P] {nonce nonce' : Block} {p q : P}
    (h : hashChain nonce p = hashChain nonce' q) :
    (nonce = nonce' ∧ p = q) ∨ HaveCollision (hashedStrings nonce p) (hashedStrings nonce' q) := by
  have hnonces : nonce.toBytes.length = nonce'.toBytes.length := by
    rw [Block.length_toBytes, Block.length_toBytes]
  have hlength (block block' : Block) : (nonce.toBytes ++ block.toBytes).length =
      (nonce'.toBytes ++ block'.toBytes).length := by
    simp only [List.length_append, Block.length_toBytes]
  rcases hash_eq_or_collide hnonces h with ⟨-, hopened⟩ | hcollide
  · rcases hash_eq_or_collide hnonces (Block.toBytes_injective hopened) with ⟨-, hpad⟩ | hcollide
    · rcases hash_eq_or_collide hnonces (Block.toBytes_injective hpad) with
        ⟨hsalt, hencode⟩ | hcollide
      · exact Or.inl ⟨Block.toBytes_injective hsalt, LawfulPointGroup.encode_injective p q hencode⟩
      · refine Or.inr ⟨_, List.mem_cons_self, _, List.mem_cons_self, ?_, hcollide⟩
        simp only [List.length_append, Block.length_toBytes, LawfulPointGroup.length_encode]
    · exact Or.inr ⟨_, by simp [hashedStrings], _, by simp [hashedStrings], hlength _ _, hcollide⟩
  · exact Or.inr ⟨_, by simp [hashedStrings], _, by simp [hashedStrings], hlength _ _, hcollide⟩

/-! ## What the sender compares -/

/-- The point that the sender has for a choice. -/
def Sender.pointFor (sender : Sender P) (choice : Bool) (point : P) : P :=
  sender.secret • (if choice then point - sender.point else point)

private theorem xor_xor_eq_right_iff (a b c : Block) : a ^^^ (b ^^^ c) = c ↔ a = b := by
  have hzero : a ^^^ (b ^^^ c) = c ↔ (a ^^^ b) ^^^ c = 0#256 ^^^ c := by
    rw [BitVec.zero_xor, BitVec.xor_assoc]
  rw [hzero, BitVec.xor_left_inj, BitVec.xor_eq_zero_iff]

section Verdict

variable (receiver : Receiver P) (sender : Sender P) (nonce nonce' : Block) (choice : Bool)
  (secret : Scalar) (message : ChoiceMessage P)

theorem response_respond_challenge :
    ((receiver.chooseWith nonce choice secret).1.respond
      (sender.challenge nonce' message).2).2.response =
      if choice then hashChain nonce (secret • receiver.senderPoint) ^^^
        (hashChain nonce' (sender.pointFor true message.point) ^^^
          hashChain nonce' (sender.pointFor false message.point))
      else hashChain nonce (secret • receiver.senderPoint) := by
  cases choice <;> rfl

/-- The sender accepts if its own point for the receiver's choice ends in the same block. -/
theorem reveal_respond_challenge :
    (sender.challenge nonce' message).1.reveal ((receiver.chooseWith nonce choice secret).1.respond
      (sender.challenge nonce' message).2).2 =
      if hashChain nonce (secret • receiver.senderPoint) =
          hashChain nonce' (sender.pointFor choice message.point) then
        .ok ((sender.challenge nonce' message).1.pads, (sender.challenge nonce' message).1.opening)
      else .error .invalidResponse := by
  refine (reveal_challenge sender nonce' message _).trans (if_congr ?_ rfl rfl)
  have hfirst : hashBlock nonce' (sender.challenge nonce' message).1.opening.decommit0 =
      hashChain nonce' (sender.pointFor false message.point) := rfl
  rw [response_respond_challenge, hfirst]
  cases choice with
  | false => exact Iff.rfl
  | true =>
    -- the block of the first point is in the challenge and in what the sender compares
    rw [if_pos rfl]
    exact xor_xor_eq_right_iff ..

end Verdict

/-! ## Binding -/

/-- What the receiver hashes for its point and for its response. -/
def Receiver.hashed (receiver : Receiver P) (nonce : Block) (secret : Scalar) : List Bytes :=
  hashedStrings nonce (secret • receiver.senderPoint)

/-- What the sender hashes for a point: three strings for each choice. -/
def Sender.hashed (sender : Sender P) (nonce : Block) (point : P) : List Bytes :=
  hashedStrings nonce (sender.pointFor false point) ++
    hashedStrings nonce (sender.pointFor true point)

theorem Sender.hashedStrings_subset_hashed (sender : Sender P) (nonce : Block) (choice : Bool)
    (point : P) :
    hashedStrings nonce (sender.pointFor choice point) ⊆ sender.hashed nonce point := by
  cases choice with
  | false => exact List.subset_append_left _ _
  | true => exact List.subset_append_right _ _

section Binding

variable [LawfulPointGroup P] {sender : Sender P}
  (hpoint : sender.point = sender.secret • PointGroup.generator) (hsecret : sender.secret ≠ 0)

include hpoint hsecret

/-- The sender's point for the choice is the receiver's only if the sender got what the receiver
sent. -/
theorem smul_eq_pointFor_iff (nonce : Block) (choice : Bool) (secret : Scalar) (point : P) :
    secret • sender.point = sender.pointFor choice point ↔
      point = ((Receiver.mk sender.point).chooseWith nonce choice secret).2.point := by
  have hswap : secret • sender.point = sender.secret • secret • (PointGroup.generator : P) := by
    rw [hpoint, smul_comm]
  have hcancel (q : P) : secret • sender.point = sender.secret • q ↔
      secret • (PointGroup.generator : P) = q := by
    rw [hswap]
    exact ⟨PointGroup.smul_left_cancel_of_ne_zero hsecret, fun h => by rw [h]⟩
  rw [Sender.pointFor, hcancel]
  cases choice with
  | false =>
    show secret • (PointGroup.generator : P) = point ↔ point = secret • PointGroup.generator + 0
    rw [add_zero, eq_comm]
  | true =>
    show secret • (PointGroup.generator : P) = point - sender.point ↔
      point = secret • PointGroup.generator + sender.point
    rw [eq_sub_iff_add_eq, eq_comm]

/-- The point and the nonce that the receiver used lead to the same block on both sides. -/
theorem hashChain_eq_of_same (choice : Bool) (secret : Scalar) {nonce nonce' : Block} {point' : P}
    (hsame : point' = ((Receiver.mk sender.point).chooseWith nonce choice secret).2.point)
    (hnonce : nonce' = nonce) :
    hashChain nonce (secret • sender.point) = hashChain nonce' (sender.pointFor choice point') := by
  subst hnonce
  exact congrArg _ ((smul_eq_pointFor_iff hpoint hsecret nonce' choice secret point').2 hsame)

/-- No other point and nonce do, unless there is a collision. -/
theorem collide_or_hashChain_eq_iff (choice : Bool) (secret : Scalar) (nonce nonce' : Block)
    (point' : P) :
    HaveCollision ((Receiver.mk sender.point).hashed nonce secret) (sender.hashed nonce' point') ∨
      (hashChain nonce (secret • sender.point) = hashChain nonce' (sender.pointFor choice point') ↔
        point' = ((Receiver.mk sender.point).chooseWith nonce choice secret).2.point ∧
          nonce' = nonce) := by
  refine or_iff_not_imp_left.2 fun hnone => ⟨fun hequal => ?_, fun h =>
    hashChain_eq_of_same hpoint hsecret choice secret h.1 h.2⟩
  rcases hashChain_eq_or_collide hequal with ⟨hnonce, heq⟩ | hcollide
  · exact ⟨(smul_eq_pointFor_iff hpoint hsecret nonce choice secret point').1 heq, hnonce.symm⟩
  · exact absurd (hcollide.mono (sender.hashedStrings_subset_hashed nonce' choice point')) hnone

/-- **Binding.** The response of a receiver to the challenge of a sender that got any point and uses
any nonce is accepted if these are the receiver's. If they are not, it is refused, unless one of the
strings that the receiver hashes and one that the sender hashes have the same length and collide. -/
theorem response_binds_point_and_nonce (choice : Bool) (secret : Scalar) (nonce nonce' : Block)
    (point' : P) :
    let receiver : Receiver P := ⟨sender.point⟩
    let chosen := receiver.chooseWith nonce choice secret
    let challenged := sender.challenge nonce' ⟨point'⟩
    let verdict := challenged.1.reveal (chosen.1.respond challenged.2).2
    let same := point' = chosen.2.point ∧ nonce' = nonce
    (verdict = .ok (challenged.1.pads, challenged.1.opening) ∨ verdict = .error .invalidResponse) ∧
    (same → verdict = .ok (challenged.1.pads, challenged.1.opening)) ∧
    (HaveCollision (receiver.hashed nonce secret) (sender.hashed nonce' point') ∨
      ((∃ result, verdict = .ok result) ↔ same) ∧ (¬same → verdict = .error .invalidResponse)) := by
  intro receiver chosen challenged verdict same
  have hverdict := reveal_respond_challenge receiver sender nonce nonce' choice secret ⟨point'⟩
  have hbinds := collide_or_hashChain_eq_iff hpoint hsecret choice secret nonce nonce' point'
  refine ⟨(em _).imp (fun h => hverdict.trans (if_pos h)) (fun h => hverdict.trans (if_neg h)),
    fun h => ?_, hbinds.imp_right fun hiff => ?_⟩
  · exact hverdict.trans (if_pos (hashChain_eq_of_same hpoint hsecret choice secret h.1 h.2))
  · have haccepted : (∃ result, verdict = .ok result) ↔ same := (exists_ok_iff hverdict).trans hiff
    exact ⟨haccepted, fun hnot => eq_error_of_not_exists_ok hverdict (mt haccepted.1 hnot)⟩

end Binding

/-- The receiver with secret 4 that has set its choice sends the point 7: it is accepted under its
nonce, and under another one only if there is a collision. -/
theorem response_binds_seven_over_exponents :
    let sender : Sender Exponent := ⟨3, ⟨3⟩⟩
    let receiver : Receiver Exponent := ⟨⟨3⟩⟩
    let chosen := receiver.chooseWith 9 true 4
    let own := sender.challenge 9 ⟨⟨7⟩⟩
    let other := sender.challenge 8 ⟨⟨7⟩⟩
    sender.point = sender.secret • PointGroup.generator ∧ sender.secret ≠ 0 ∧
      own.1.reveal (chosen.1.respond own.2).2 = .ok (own.1.pads, own.1.opening) ∧
      (HaveCollision (receiver.hashed 9 4) (sender.hashed 8 ⟨7⟩) ∨
        other.1.reveal (chosen.1.respond other.2).2 = .error .invalidResponse) := by
  intro sender receiver chosen own other
  have hpoint : sender.point = sender.secret • PointGroup.generator := by decide
  have hsecret : sender.secret ≠ 0 := by decide
  obtain ⟨-, hown, -⟩ := response_binds_point_and_nonce hpoint hsecret true 4 9 9 ⟨7⟩
  obtain ⟨-, -, hother⟩ := response_binds_point_and_nonce hpoint hsecret true 4 9 8 ⟨7⟩
  refine ⟨hpoint, hsecret, hown ⟨by decide, rfl⟩, hother.imp_right fun h => h.2 fun hsame => ?_⟩
  exact absurd hsame.2 (by decide)

end ObliviousTransfer.RandomTransfer
