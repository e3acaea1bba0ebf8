import Mathlib
import ObliviousTransfer.Correlated.Setup
import ObliviousTransfer.Proofs.ResultTables
import ObliviousTransfer.Proofs.TransferInstance

/-!
# Agreement after the setup

If the setup message and the choice message arrive as they were sent, then the setups of both sides
agree whenever both sides accept, whatever was delivered in place of the three messages after them
(`setups_agree_if_accepted`). An adversary on the line can end the setup, but cannot make it end
with keys that do not fit together.

## Shape of the proof

The keys are fixed by the point of an instance: those of the receiver are the pads for this point,
that of the sender was computed together with it. A setup is accepted if every instance is
(`reveal_eq_ok_iff`, `finish_eq_ok_iff`), so that both kinds of keys are found in the states before
the last step, and for one instance they are equal by `RandomTransfer.pads_get_chooseWith`.
-/

namespace ObliviousTransfer

namespace Correlated

open RandomTransfer

/-! ## A setup is accepted if every instance is -/

theorem SetupReceiverChallenged.reveal_eq_ok_iff (state : SetupReceiverChallenged)
    (message : SetupResponses) (setup : ReceiveSetup) (openings : SetupOpenings) :
    state.reveal message = .ok (setup, openings) ↔
      ∀ i, (state.states.get i).reveal (message.responses.get i) =
        .ok (⟨setup.key i false, setup.key i true⟩, openings.openings.get i) := by
  refine (state.pool.bind_tabulate_eq_ok_iff _ _ _).trans ⟨?_, fun h => ?_⟩
  · rintro ⟨results, hresults, ⟨⟩⟩ i
    refine (hresults i).trans (congrArg Except.ok ?_)
    simp only [ReceiveSetup.key, ← Vector.get_eq_getElem, Fin.getElem_fin, Vector.get_map]
    rfl
  · refine ⟨Vector.ofFn fun i =>
      (⟨setup.key i false, setup.key i true⟩, openings.openings.get i), fun i => ?_, ?_⟩
    · rw [Vector.get_ofFn]
      exact h i
    · have hkeys0 : Vector.ofFn (setup.key · false) = setup.keys0 := Vector.ofFn_getElem
      have hkeys1 : Vector.ofFn (setup.key · true) = setup.keys1 := Vector.ofFn_getElem
      have hopenings : Vector.ofFn openings.openings.get = openings.openings := Vector.ofFn_getElem
      simp only [Vector.map_ofFn]
      show Except.ok (ReceiveSetup.mk (.ofFn (setup.key · false)) (.ofFn (setup.key · true)),
        SetupOpenings.mk (.ofFn openings.openings.get)) = .ok (setup, openings)
      rw [hkeys0, hkeys1, hopenings]

/-- The keys that a setup is accepted with are the pads of its instances. -/
theorem SetupReceiverChallenged.pads_eq_keys {state : SetupReceiverChallenged}
    {message : SetupResponses} {setup : ReceiveSetup} {openings : SetupOpenings}
    (h : state.reveal message = .ok (setup, openings)) (i : Fin baseCount) :
    (state.states.get i).pads = ⟨setup.key i false, setup.key i true⟩ :=
  have hinstance := (state.reveal_eq_ok_iff message setup openings).1 h i
  congrArg Prod.fst ((Challenged.reveal_eq_ok_iff ..).1 hinstance).2

theorem SetupSenderResponded.finish_eq_ok_iff (state : SetupSenderResponded)
    (message : SetupOpenings) (setup : SendSetup) :
    state.finish message = .ok setup ↔
      setup.delta = state.delta ∧
      ∀ i, (state.states.get i).verify (message.openings.get i) = .ok (setup.key i) := by
  refine (state.pool.bind_tabulate_eq_ok_iff _ _ _).trans ⟨?_, ?_⟩
  · rintro ⟨keys, hkeys, ⟨⟩⟩
    exact ⟨rfl, hkeys⟩
  · rintro ⟨hdelta, hkeys⟩
    exact ⟨setup.keys, hkeys,
      congrArg (fun delta => Except.ok (SendSetup.mk delta setup.keys)) hdelta.symm⟩

/-! ## The instances of a setup -/

section Instances

variable {P : Type} [PointGroup P]

theorem get_make (t : Transcript) (pool : Pool) (base : Receiver P) (delta : Block)
    (secrets : Vector Scalar baseCount) (i : Fin baseCount) :
    let made := SetupSender.make t pool base delta secrets
    let chosen := base.chooseWith (baseNonce t i) (delta.getLsbD i) (secrets.get i)
    made.1.states.get i = chosen.1 ∧ made.2.points.get i = chosen.2 := by
  simp only [SetupSender.make, Pool.tabulate_eq_ofFn, Vector.get_map, Vector.get_ofFn]
  exact ⟨rfl, rfl⟩

theorem get_challenge (receiver : SetupReceiver P) (message : SetupChoices P) (i : Fin baseCount) :
    let challenged := receiver.challenge message
    let asked := receiver.sender.challenge (baseNonce receiver.transcript i) (message.points.get i)
    challenged.1.states.get i = asked.1 ∧ challenged.2.challenges.get i = asked.2 := by
  simp only [SetupReceiver.challenge, Pool.tabulate_eq_ofFn, Vector.get_map, Vector.get_ofFn]
  exact ⟨rfl, rfl⟩

theorem get_respond (sender : SetupSender) (message : SetupChallenges) (i : Fin baseCount) :
    let responded := sender.respond message
    let answer := (sender.states.get i).respond (message.challenges.get i)
    responded.1.states.get i = answer.1 ∧ responded.2.responses.get i = answer.2 := by
  simp only [SetupSender.respond, Pool.tabulate_eq_ofFn, Vector.get_map, Vector.get_ofFn]
  exact ⟨rfl, rfl⟩

/-- Both sides after the choice message has been delivered: the receiver knows the logarithm of its
point, and in every instance the sender has chosen by the bit of `Δ`. -/
structure Started (receiver : SetupReceiver P) (sender : SetupSender)
    (choices : SetupChoices P) : Prop where
  point : receiver.sender.point = receiver.sender.secret • PointGroup.generator
  chosen (i : Fin baseCount) : ∃ secret : Scalar,
    let chosen := (Receiver.mk receiver.sender.point).chooseWith (baseNonce receiver.transcript i)
      (sender.delta.getLsbD i) secret
    sender.states.get i = chosen.1 ∧ choices.points.get i = chosen.2

theorem started_make {receiver : SetupReceiver P}
    (hpoint : receiver.sender.point = receiver.sender.secret • PointGroup.generator) (pool : Pool)
    (delta : Block) (secrets : Vector Scalar baseCount) :
    let made := SetupSender.make receiver.transcript pool ⟨receiver.sender.point⟩ delta secrets
    Started receiver made.1 made.2 :=
  ⟨hpoint, fun i => ⟨secrets.get i, get_make ..⟩⟩

namespace Started

variable [LawfulPointGroup P] {receiver : SetupReceiver P} {sender : SetupSender}
  {choices : SetupChoices P}

/-- The pad that the sender keeps in an instance is the one of the receiver's pads that the bit of
`Δ` selects. -/
theorem pads_get (started : Started receiver sender choices) (i : Fin baseCount) :
    ((receiver.challenge choices).1.states.get i).pads.get (sender.delta.getLsbD i) =
      (sender.states.get i).pad := by
  obtain ⟨secret, hstate, hpoint⟩ := started.chosen i
  rw [(get_challenge receiver choices i).1, hstate, hpoint]
  exact pads_get_chooseWith started.point _ _ _

/-- What is sent later has no influence on the keys. -/
theorem agree (started : Started receiver sender choices) {challenges : SetupChallenges}
    {responses : SetupResponses} {openings delivered : SetupOpenings} {receiveSetup : ReceiveSetup}
    {sendSetup : SendSetup}
    (hreveal : (receiver.challenge choices).1.reveal responses = .ok (receiveSetup, openings))
    (hfinish : (sender.respond challenges).1.finish delivered = .ok sendSetup) :
    sendSetup.delta = sender.delta ∧ Agree sendSetup receiveSetup := by
  obtain ⟨(hdelta : sendSetup.delta = sender.delta), hkeys⟩ :=
    (SetupSenderResponded.finish_eq_ok_iff ..).1 hfinish
  refine ⟨hdelta, fun i => ?_⟩
  have hpads := SetupReceiverChallenged.pads_eq_keys hreveal i
  have hkey : (sender.states.get i).pad = sendSetup.key i := by
    have hpad := ((Responded.verify_eq_ok_iff ..).1 (hkeys i)).2.2
    rwa [(get_respond sender challenges i).1] at hpad
  calc sendSetup.key i
      = ((receiver.challenge choices).1.states.get i).pads.get (sender.delta.getLsbD i) := by
        rw [started.pads_get, hkey]
    _ = receiveSetup.key i (sendSetup.delta.getLsbD i) := by
        rw [hpads, hdelta]
        cases sender.delta.getLsbD i <;> rfl

/-- In an honest run both sides accept every instance. -/
theorem accepts_instance (started : Started receiver sender choices) (i : Fin baseCount) :
    let challenged := receiver.challenge choices
    let responded := sender.respond challenged.2
    let state := challenged.1.states.get i
    state.reveal (responded.2.responses.get i) = .ok (state.pads, state.opening) ∧
      (responded.1.states.get i).verify state.opening = .ok (sender.states.get i).pad := by
  intro challenged responded state
  obtain ⟨secret, hstate, hpoint⟩ := started.chosen i
  obtain ⟨hchallenged, hchallenge⟩ := get_challenge receiver choices i
  obtain ⟨hresponded, hresponse⟩ := get_respond sender challenged.2 i
  rw [hpoint] at hchallenged hchallenge
  rw [hstate, hchallenge] at hresponded hresponse
  rw [hresponded, hresponse, hstate, show state = _ from hchallenged]
  exact ⟨reveal_respond started.point _ _ _, verify_reveal started.point _ _ _⟩

/-- An honest run is accepted by both sides. -/
theorem accepts (started : Started receiver sender choices) :
    let challenged := receiver.challenge choices
    let responded := sender.respond challenged.2
    ∃ receiveSetup openings sendSetup,
      challenged.1.reveal responded.2 = .ok (receiveSetup, openings) ∧
      responded.1.finish openings = .ok sendSetup := by
  intro challenged responded
  let state (i : Fin baseCount) := challenged.1.states.get i
  refine ⟨⟨.ofFn fun i => (state i).pads.pad0, .ofFn fun i => (state i).pads.pad1⟩,
    ⟨.ofFn fun i => (state i).opening⟩, ⟨sender.delta, .ofFn fun i => (sender.states.get i).pad⟩,
    (SetupReceiverChallenged.reveal_eq_ok_iff ..).2 fun i => ?_,
    (SetupSenderResponded.finish_eq_ok_iff ..).2 ⟨rfl, fun i => ?_⟩⟩
  · simp only [ReceiveSetup.key, Fin.getElem_fin, Vector.getElem_ofFn, Vector.get_ofFn]
    exact (started.accepts_instance i).1
  · simp only [SendSetup.key, Fin.getElem_fin, Vector.getElem_ofFn, Vector.get_ofFn]
    exact (started.accepts_instance i).2

end Started

end Instances

/-! ## From the first message on -/

section Runs

variable {P σ τ : Type} [PointGroup P] [DecidableEq P] [ByteStream σ] [ByteStream τ]

theorem finds_receiver [LawfulPointGroup P] (t : Transcript) (pool : Pool) (source : Source σ) :
    (SetupReceiver.init t pool : Draw σ (SetupReceiver P × SetupMessage P)).Finds
      [.search, .search] source fun start =>
      start.1.transcript = t.fork setupDomain [] ∧
      start.1.sender.point = start.1.sender.secret • PointGroup.generator ∧
      Receiver.init start.1.transcript start.2 = .ok ⟨start.1.sender.point⟩ :=
  Draw.finds_bind_pure (finds_sender (t.fork setupDomain []) source) fun _ hstart => ⟨rfl, hstart⟩

/-- The sender that has received the message of a receiver starts the instances with it. -/
theorem finds_started {t : Transcript} {receiver : SetupReceiver P} {message : SetupMessage P}
    (htranscript : receiver.transcript = t.fork setupDomain [])
    (hpoint : receiver.sender.point = receiver.sender.secret • PointGroup.generator)
    (hbase : Receiver.init receiver.transcript message = .ok ⟨receiver.sender.point⟩)
    (pool : Pool) (source : Source τ) :
    (SetupSender.init t pool message : Draw τ _).Finds
      (.request 32 :: List.replicate baseCount .search) source fun result =>
      ∃ sender choices, result = .ok (sender, choices) ∧ Started receiver sender choices := by
  have hinit : (SetupSender.init t pool message : Draw τ _) = do
      let delta ← Draw.block
      let secrets ← Vector.ofFnM fun _ => Draw.nonzeroScalar
      return .ok
        (SetupSender.make receiver.transcript pool ⟨receiver.sender.point⟩ delta secrets) := by
    simp only [SetupSender.init, ← htranscript, hbase]
  rw [hinit, ← List.singleton_append]
  refine Draw.finds_bind (Draw.finds_block source) fun delta rest _ => ?_
  refine Draw.finds_bind_pure (Draw.finds_ofFnM (fun _ => Draw.finds_nonzeroScalar) rest)
    fun secrets _ => ⟨_, _, rfl, ?_⟩
  exact started_make hpoint pool delta secrets

/-- An undisturbed setup is accepted by both sides, unless a source is to blame: the receiver
searches for two scalars, and the sender asks for its `Δ` and searches for one scalar for each base
index. If the setup message and the choice message arrive as they were sent, then whatever is
delivered after them, two setups that are accepted agree. -/
theorem setups_agree_if_accepted [LawfulPointGroup P] (t : Transcript)
    (receiverPool senderPool : Pool) (receiverSource : Source σ) (senderSource : Source τ) :
    (SetupReceiver.init t receiverPool : Draw σ (SetupReceiver P × SetupMessage P)).Finds
      [.search, .search] receiverSource fun (receiver, setupMessage) =>
        (SetupSender.init t senderPool setupMessage : Draw τ _).Finds
          (.request 32 :: List.replicate baseCount .search) senderSource fun result =>
          ∃ sender choices, result = .ok (sender, choices) ∧
            let challenged := receiver.challenge choices
            let responded := sender.respond challenged.2
            (∃ receiveSetup openings sendSetup,
              challenged.1.reveal responded.2 = .ok (receiveSetup, openings) ∧
              responded.1.finish openings = .ok sendSetup) ∧
            ∀ challenges responses openings receiveSetup revealed sendSetup,
              challenged.1.reveal responses = .ok (receiveSetup, revealed) →
              (sender.respond challenges).1.finish openings = .ok sendSetup →
              sendSetup.delta = sender.delta ∧ Agree sendSetup receiveSetup := by
  refine (finds_receiver t receiverPool receiverSource).mono ?_
  rintro ⟨receiver, setupMessage⟩ ⟨htranscript, hpoint, hbase⟩
  refine (finds_started htranscript hpoint hbase senderPool senderSource).mono ?_
  rintro result ⟨sender, choices, hresult, started⟩
  exact ⟨sender, choices, hresult, started.accepts, fun _ _ _ _ _ _ => started.agree⟩

/-- Two parties that draw from different sources, over points with known logarithms, are in
agreement. -/
theorem setups_agree_over_exponents :
    let t := Transcript.new [7]
    ∃ (receiver : SetupReceiver Exponent) (setupMessage : SetupMessage Exponent)
      (receiverRest : Source Repeated) (sender : SetupSender) (choices : SetupChoices Exponent)
      (senderRest : Source Repeated) (receiveSetup : ReceiveSetup) (openings : SetupOpenings)
      (sendSetup : SendSetup),
      (SetupReceiver.init t .sequential).run.run (Source.repeated 1) =
        (.ok (receiver, setupMessage), receiverRest) ∧
      (SetupSender.init t (.parallel 3) setupMessage).run.run (Source.repeated 0x65) =
        (.ok (.ok (sender, choices)), senderRest) ∧
      (receiver.challenge choices).1.reveal (sender.respond (receiver.challenge choices).2).2 =
        .ok (receiveSetup, openings) ∧
      (sender.respond (receiver.challenge choices).2).1.finish openings = .ok sendSetup ∧
      Agree sendSetup receiveSetup := by
  intro t
  have hones : Acceptable (candidate (Repeated.mk 1) 0) := ⟨_, rfl, by decide⟩
  have hothers : Acceptable (candidate (Repeated.mk 0x65) 0) := ⟨_, rfl, by decide⟩
  obtain ⟨⟨receiver, setupMessage⟩, receiverRest, hreceiver, hsender⟩ := Draw.exists_run_of_finds
    (setups_agree_if_accepted (P := Exponent) t .sequential (.parallel 3) (Source.repeated 1)
      (Source.repeated 0x65))
    (Source.not_causes_repeated hones _)
  obtain ⟨_, senderRest, hsender, sender, choices, rfl,
    ⟨receiveSetup, openings, sendSetup, hreveal, hfinish⟩, hagree⟩ :=
      Draw.exists_run_of_finds hsender (Source.not_causes_repeated hothers _)
  exact ⟨receiver, setupMessage, receiverRest, sender, choices, senderRest, receiveSetup, openings,
    sendSetup, hreceiver, hsender, hreveal, hfinish, (hagree _ _ _ _ _ _ hreveal hfinish).2⟩

end Runs

end Correlated

end ObliviousTransfer
