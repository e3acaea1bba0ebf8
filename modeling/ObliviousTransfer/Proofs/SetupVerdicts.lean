import Mathlib
import ObliviousTransfer.Proofs.SetupAgreement
import ObliviousTransfer.Proofs.Verdicts

/-!
# Verdicts of a setup

In its last step each side of a setup checks one message for every instance. The setup ends with
keys if all instances accept, and otherwise with the error of the first instance that refuses,
whatever the instances behind it would have said.

`Responded.Accepts` and `Responded.Refuses` say for one instance what is compared: the two opened
values with the challenge, and only if they belong to it the value of the choice with the own pad.
The verdict on all instances is found from those on each by the lemmas on tables of results.
-/

namespace ObliviousTransfer

namespace RandomTransfer

/-! ## One instance -/

theorem Challenged.exists_reveal_eq_ok_iff (state : Challenged) (message : ResponseMessage) :
    (∃ result, state.reveal message = .ok result) ↔ message.response = state.expected :=
  exists_ok_iff rfl

theorem Challenged.eq_invalidResponse_of_reveal_eq_error {state : Challenged}
    {message : ResponseMessage} {e : OTError} (h : state.reveal message = .error e) :
    e = .invalidResponse := by
  have hfault : state.reveal message = .error .invalidResponse :=
    eq_error_of_not_exists_ok rfl (by rintro ⟨_, hok⟩; exact nomatch hok.symm.trans h)
  exact Except.error.inj (h.symm.trans hfault)

namespace Responded

/-- What is opened belongs to the challenge that was received, and the value of the choice is the
hash of the own pad. -/
structure Accepts (state : Responded) (opening : OpeningMessage) : Prop where
  challenge : hashBlock state.nonce opening.decommit0 ^^^ hashBlock state.nonce opening.decommit1 =
    state.challenge
  decommitment : opening.get state.choice = hashBlock state.nonce state.pad

/-- Why an opening is refused. What does not belong to the challenge is not looked at any
further. -/
inductive Refuses (state : Responded) (opening : OpeningMessage) : OTError → Prop
  | challenge
      (h : hashBlock state.nonce opening.decommit0 ^^^ hashBlock state.nonce opening.decommit1 ≠
        state.challenge) : Refuses state opening .invalidChallenge
  | decommitment (hchallenge : hashBlock state.nonce opening.decommit0 ^^^
      hashBlock state.nonce opening.decommit1 = state.challenge)
      (h : opening.get state.choice ≠ hashBlock state.nonce state.pad) :
      Refuses state opening .invalidDecommitment

variable (state : Responded) (opening : OpeningMessage)

theorem exists_verify_eq_ok_iff :
    (∃ pad, state.verify opening = .ok pad) ↔ state.Accepts opening := by
  simp only [verify_eq_ok_iff]
  constructor
  · rintro ⟨_, hchallenge, hown, -⟩
    exact ⟨hchallenge, hown.symm⟩
  · intro h
    exact ⟨_, h.challenge, h.decommitment.symm, rfl⟩

theorem verify_eq_error_iff (e : OTError) :
    state.verify opening = .error e ↔ state.Refuses opening e := by
  constructor
  · intro h
    unfold verify at h
    split at h
    · next hchallenge =>
      cases h
      exact .challenge hchallenge
    · next hchallenge =>
      split at h
      · next hown =>
        cases h
        exact .decommitment (not_not.1 hchallenge) (Ne.symm hown)
      · exact nomatch h
  · rintro (hchallenge | ⟨hchallenge, hown⟩)
    · exact if_pos hchallenge
    · exact (if_neg (not_not.2 hchallenge)).trans (if_pos hown.symm)

end Responded

end RandomTransfer

namespace Correlated

open RandomTransfer

/-! ## All instances -/

namespace SetupReceiverChallenged

variable (state : SetupReceiverChallenged) (message : SetupResponses)

theorem exists_reveal_eq_ok_iff :
    (∃ result, state.reveal message = .ok result) ↔
      ∀ i, (message.responses.get i).response = (state.states.get i).expected := by
  simp only [← Challenged.exists_reveal_eq_ok_iff]
  exact state.pool.exists_bind_tabulate_eq_ok_iff _ fun _ => ⟨_, rfl⟩

theorem reveal_eq_invalidResponse
    (h : ¬∀ i, (message.responses.get i).response = (state.states.get i).expected) :
    state.reveal message = .error .invalidResponse := by
  cases hverdict : state.reveal message with
  | ok result => exact absurd ((state.exists_reveal_eq_ok_iff message).1 ⟨result, hverdict⟩) h
  | error e =>
    obtain ⟨i, hi, -⟩ := (state.pool.bind_tabulate_eq_error_iff _ (fun _ => ⟨_, rfl⟩) e).1 hverdict
    rw [Challenged.eq_invalidResponse_of_reveal_eq_error hi]

end SetupReceiverChallenged

namespace SetupSenderResponded

variable (state : SetupSenderResponded) (message : SetupOpenings)

theorem exists_finish_eq_ok_iff :
    (∃ setup, state.finish message = .ok setup) ↔
      ∀ i, (state.states.get i).Accepts (message.openings.get i) := by
  simp only [← Responded.exists_verify_eq_ok_iff]
  exact state.pool.exists_bind_tabulate_eq_ok_iff _ fun _ => ⟨_, rfl⟩

theorem finish_eq_error_iff (e : OTError) :
    state.finish message = .error e ↔
      ∃ i, (state.states.get i).Refuses (message.openings.get i) e ∧
        ∀ j < i, (state.states.get j).Accepts (message.openings.get j) := by
  simp only [← Responded.exists_verify_eq_ok_iff, ← Responded.verify_eq_error_iff]
  exact state.pool.bind_tabulate_eq_error_iff _ (fun _ => ⟨_, rfl⟩) e

end SetupSenderResponded

/-- What the sender has before the last step: the `Δ` that it began with, and in each instance the
nonce of the instance, the choice of its bit of `Δ`, and the challenge that was received for it. -/
theorem get_respond_make {P : Type} [PointGroup P] (t : Transcript) (pool : Pool)
    (base : Receiver P) (delta : Block) (secrets : Vector Scalar baseCount)
    (challenges : SetupChallenges)
    (i : Fin baseCount) :
    let made := (SetupSender.make t pool base delta secrets).1
    let responded := (made.respond challenges).1
    let state := responded.states.get i
    responded.delta = delta ∧ state.nonce = baseNonce t i ∧ state.choice = delta.getLsbD i ∧
      state.challenge = (challenges.challenges.get i).challenge := by
  intro made responded state
  have hstate : state =
      ⟨(base.chooseWith (baseNonce t i) (delta.getLsbD i) (secrets.get i)).1,
        (challenges.challenges.get i).challenge⟩ := by
    rw [← (get_make t pool base delta secrets i).1]
    exact (get_respond made challenges i).1
  rw [hstate]
  exact ⟨rfl, rfl, rfl, rfl⟩

/-- **All or nothing.** The receiver of a setup ends with keys if and only if in every instance the
response is the expected one; any other response ends it with `invalidResponse`. The sender ends
with keys if and only if every instance accepts what was opened, and otherwise with the error of the
first instance that refuses. The keys and the opened values at a base index are those of the
instance with this index, as are the nonce, the choice and the challenge that it compares with. -/
theorem setup_ends_whole_or_with_first_fault (P : Type) [PointGroup P]
    (receiver : SetupReceiverChallenged) (responses : SetupResponses)
    (sender : SetupSenderResponded) (openings : SetupOpenings) :
    (((∃ result, receiver.reveal responses = .ok result) ↔
        ∀ i, (responses.responses.get i).response = (receiver.states.get i).expected) ∧
      ((¬∀ i, (responses.responses.get i).response = (receiver.states.get i).expected) →
        receiver.reveal responses = .error .invalidResponse) ∧
      ∀ setup revealed, receiver.reveal responses = .ok (setup, revealed) → ∀ i,
        setup.keys0.get i = (receiver.states.get i).pads.pad0 ∧
        setup.keys1.get i = (receiver.states.get i).pads.pad1 ∧
        revealed.openings.get i = (receiver.states.get i).opening) ∧
    (((∃ setup, sender.finish openings = .ok setup) ↔
        ∀ i, (sender.states.get i).Accepts (openings.openings.get i)) ∧
      (∀ e, sender.finish openings = .error e ↔
        ∃ i, (sender.states.get i).Refuses (openings.openings.get i) e ∧
          ∀ j < i, (sender.states.get j).Accepts (openings.openings.get j)) ∧
      ∀ setup, sender.finish openings = .ok setup → setup.delta = sender.delta ∧
        ∀ i, setup.keys.get i = (sender.states.get i).pad) ∧
    ∀ (t : Transcript) (pool : Pool) (base : Receiver P) (delta : Block)
      (secrets : Vector Scalar baseCount) (challenges : SetupChallenges) (i : Fin baseCount),
      let made := (SetupSender.make t pool base delta secrets).1
      let responded := (made.respond challenges).1
      let state := responded.states.get i
      responded.delta = delta ∧ state.nonce = baseNonce t i ∧ state.choice = delta.getLsbD i ∧
        state.challenge = (challenges.challenges.get i).challenge := by
  refine ⟨⟨receiver.exists_reveal_eq_ok_iff responses, receiver.reveal_eq_invalidResponse responses,
    fun setup revealed h i => ?_⟩, ⟨sender.exists_finish_eq_ok_iff openings,
    sender.finish_eq_error_iff openings, fun setup h => ?_⟩, get_respond_make⟩
  · have hinstance := (SetupReceiverChallenged.reveal_eq_ok_iff ..).1 h i
    obtain ⟨-, hresult⟩ := (Challenged.reveal_eq_ok_iff ..).1 hinstance
    obtain ⟨hpads, hopening⟩ := Prod.mk.inj hresult
    rw [hpads, hopening]
    exact ⟨rfl, rfl, rfl⟩
  · obtain ⟨hdelta, hkeys⟩ := (SetupSenderResponded.finish_eq_ok_iff ..).1 h
    exact ⟨hdelta, fun i => ((Responded.verify_eq_ok_iff ..).1 (hkeys i)).2.2.symm⟩

/-- Instance 3 has its opened values exchanged, and the challenge of instance 5 has changed in one
bit: the exchange is reported. -/
theorem exchanged_opening_reported_before_changed_challenge :
    let own := hashBlock 0 0
    let other := own ^^^ 1
    let challenge := hashBlock 0 own ^^^ hashBlock 0 other
    let state (i : Nat) : Responded := ⟨⟨0, false, 0⟩, if i = 5 then challenge ^^^ 1 else challenge⟩
    let sender : SetupSenderResponded := ⟨.parallel 3, 0, .ofFn fun i => state i⟩
    let openings : SetupOpenings :=
      ⟨.ofFn fun i => if i.val = 3 then ⟨other, own⟩ else ⟨own, other⟩⟩
    let receiver : SetupReceiverChallenged :=
      ⟨.sequential, .ofFn fun _ => ⟨⟨0, 1⟩, ⟨own, other⟩, 7⟩⟩
    let responses : SetupResponses := ⟨.ofFn fun i => if i.val = 200 then ⟨6⟩ else ⟨7⟩⟩
    sender.finish openings = .error .invalidDecommitment ∧
      receiver.reveal responses = .error .invalidResponse := by
  intro own other challenge state sender openings receiver responses
  obtain ⟨⟨-, hrefused, -⟩, ⟨-, hfault, -⟩, -⟩ :=
    setup_ends_whole_or_with_first_fault Exponent receiver responses sender openings
  have hne : other ≠ own := by
    intro h
    have hbit : own ^^^ 1 = own ^^^ 0 := h.trans BitVec.xor_zero.symm
    exact absurd ((BitVec.xor_right_inj own).1 hbit) (by decide)
  refine ⟨(hfault .invalidDecommitment).2 ⟨⟨3, by decide⟩, ?_, fun j hj => ?_⟩,
    hrefused fun h => ?_⟩
  · simp only [sender, openings, Vector.get_ofFn]
    exact .decommitment (BitVec.xor_comm ..) hne
  · have hthree : j.val ≠ 3 := Nat.ne_of_lt hj
    have hfive : j.val ≠ 5 := Nat.ne_of_lt (Nat.lt_trans hj (by decide))
    simp only [sender, openings, state, Vector.get_ofFn, if_neg hthree, if_neg hfive]
    exact ⟨rfl, rfl⟩
  · have hresponse := h ⟨200, by decide⟩
    simp only [receiver, responses, Vector.get_ofFn] at hresponse
    exact absurd hresponse (by decide)

end Correlated

end ObliviousTransfer
