import Mathlib
import ObliviousTransfer.Curve.Group
import ObliviousTransfer.Proofs.ExtensionVerdicts
import ObliviousTransfer.Proofs.Multiplication
import ObliviousTransfer.Proofs.Verdicts

/-!
# No message makes a party read outside of its lists

Every operation on a received message can be carried out by single accesses that all succeed
(`AnswersEveryMessage`): whatever was sent, the party ends with a result or with an error. The
errors that name sizes come exactly with wrong sizes (`SizesAreExact`).

A party that waits for an answer has lists of its own beside those of the message. Their lengths are
known for every state that a constructor ends with (`Receiver.Reachable`): there is an output for
each choice, and for a multiplication there are as many as the gadget vector has entries.
-/

namespace ObliviousTransfer

open Bits

namespace AdditiveTransfer

open Correlated

/-- The sender's errors are those of the extension. -/
theorem send_eq_error_iff (t : Transcript) (setup : SendSetup) (batch : Extension.BatchSize)
    (alpha : ScalarPair) (message : Extension.Message) (pool : Pool) (e : OTError) :
    send t setup batch alpha message pool = .error e ↔
      Extension.send t setup batch message pool = .error e := by
  unfold send
  exact bind_eq_error_iff (fun _ => ⟨_, rfl⟩) e

theorem send?_eq_some (t : Transcript) (setup : SendSetup) (batch : Extension.BatchSize)
    (alpha : ScalarPair) (message : Extension.Message) (pool : Pool) :
    send? t setup batch alpha message pool = some (send t setup batch alpha message pool) := by
  rw [send?, send, Extension.send?_eq_some]
  cases houtput : Extension.send t setup batch message pool with
  | error e => rfl
  | ok output =>
    obtain ⟨hv0, hv1⟩ := Extension.length_of_send_eq_ok houtput
    have hresults : (pool.mapRange? output.v0.length fun j => do
        return sendShare (padSalt t) alpha (← output.v0[j]?) (← output.v1[j]?)) =
          some (pool.mapList (fun item => sendShare (padSalt t) alpha item.1 item.2)
            (output.v0.zip output.v1)) := by
      rw [Pool.mapList_eq_map]
      refine pool.mapRange?_eq_some (by simp [hv0, hv1]) fun j hj => ?_
      rw [List.length_map, List.length_zip, hv0, hv1, Nat.min_self] at hj
      rw [List.getElem?_eq_getElem (hv0 ▸ hj), List.getElem?_eq_getElem (hv1 ▸ hj),
        List.getElem_map, List.getElem_zip]
      rfl
    rw [some_bind_eq]
    dsimp only
    rw [hresults]
    rfl

/-- The receiver looks at as many choices, outputs and ciphertexts as it has outputs. -/
theorem Receiver.finish?_eq_some {receiver : Receiver}
    (houtputs : receiver.outputs.length = 8 * receiver.choices.length) (message : Message) :
    receiver.finish? message = some (receiver.finish message) := by
  by_cases hlength : message.ciphertexts.length ≠ receiver.outputs.length
  · rw [finish?, finish, if_pos hlength, if_pos hlength]
  rw [finish?, finish, if_neg hlength, if_neg hlength]
  have hciphertexts := not_not.1 hlength
  have hunpack : (unpack receiver.choices).length = receiver.outputs.length := by
    rw [length_unpack, houtputs]
  let share (item : Bool × Block × ScalarPair) :=
    receiveShare receiver.salt item.1 item.2.1 item.2.2
  have hshares : (receiver.pool.mapRange? receiver.outputs.length fun j => do
      return receiveShare receiver.salt (← bit? receiver.choices j) (← receiver.outputs[j]?)
        (← message.ciphertexts[j]?)) =
      some (receiver.pool.mapList share
        ((unpack receiver.choices).zip (receiver.outputs.zip message.ciphertexts))) := by
    rw [Pool.mapList_eq_map]
    refine receiver.pool.mapRange?_eq_some (by simp [hunpack, hciphertexts]) fun j hj => ?_
    rw [List.length_map, List.length_zip, List.length_zip, hunpack, hciphertexts, Nat.min_self,
      Nat.min_self] at hj
    have hchoice := bit?_eq_some_getElem (hunpack ▸ hj)
    rw [hchoice, List.getElem?_eq_getElem hj, List.getElem?_eq_getElem (hciphertexts ▸ hj),
      List.getElem_map, List.getElem_zip, List.getElem_zip]
    rfl
  rw [hshares]
  rfl

/-- A receiver that a run of the constructor ends with. -/
def Receiver.Reachable (receiver : Receiver) : Prop :=
  ∃ (σ : Type) (_ : ByteStream σ) (source behind : Source σ) (t : Transcript) (setup : ReceiveSetup)
    (choices : Bytes) (pool : Pool) (message : Extension.Message),
    (Receiver.init t setup choices pool).run.run source = (.ok (.ok (receiver, message)), behind)

/-- A constructed receiver has an output for each of its choices. -/
theorem length_of_initWith_eq_ok {t : Transcript} {setup : ReceiveSetup} {choices padding : Bytes}
    (hchoices : choices.length ≠ 0) {pool : Pool} {receiver : Receiver}
    {message : Extension.Message}
    (h : Receiver.initWith t setup choices padding pool = .ok (receiver, message)) :
    receiver.choices = choices ∧ receiver.outputs.length = 8 * choices.length := by
  rw [initWith_eq_map, Extension.receiveWith_eq t setup hchoices pool] at h
  rw [← (Prod.mk.inj (Except.ok.inj h)).1]
  exact ⟨rfl, (List.length_map ..).trans List.length_range⟩

theorem Receiver.Reachable.length_outputs {receiver : Receiver} (h : receiver.Reachable) :
    receiver.outputs.length = 8 * receiver.choices.length := by
  obtain ⟨σ, _, source, behind, t, setup, choices, pool, message, hrun⟩ := h
  by_cases hchoices : choices.length = 0
  · -- an empty batch ends without a receiver
    rw [Receiver.init, Extension.receive, if_pos hchoices] at hrun
    cases hrun
  · rw [run_init t setup hchoices pool source] at hrun
    split at hrun
    · obtain ⟨rfl, houtputs⟩ :=
        length_of_initWith_eq_ok hchoices (Except.ok.inj (Prod.mk.inj hrun).1)
      exact houtputs
    · cases hrun

/-- The receiver has as many shares as outputs. -/
theorem Receiver.length_of_finish_eq_ok {receiver : Receiver}
    (houtputs : receiver.outputs.length = 8 * receiver.choices.length) {message : Message}
    {shares : List ScalarPair} (h : receiver.finish message = .ok shares) :
    shares.length = receiver.outputs.length := by
  by_cases hlength : message.ciphertexts.length ≠ receiver.outputs.length
  · rw [finish, if_pos hlength] at h
    cases h
  · rw [finish, if_neg hlength] at h
    cases h
    simp [not_not.1 hlength, houtputs]

end AdditiveTransfer

namespace Multiply

open AdditiveTransfer Correlated

/-- The sender has a share for each entry of the gadget vector. -/
theorem length_of_send_eq_ok {t : Transcript} {setup : SendSetup} {alpha : ScalarPair}
    {message : Extension.Message} {pool : Pool} {shares : List ScalarPair}
    {additive : AdditiveTransfer.Message}
    (h : AdditiveTransfer.send t setup batch alpha message pool = .ok (shares, additive)) :
    shares.length = gadgetSize ∧ additive.ciphertexts.length = gadgetSize := by
  cases houtput : Extension.send t setup batch message pool with
  | error e =>
    rw [AdditiveTransfer.send, houtput] at h
    cases h
  | ok output =>
    obtain ⟨hv0, hv1⟩ := Extension.length_of_send_eq_ok houtput
    have hbatch : 8 * batch.bytes = gadgetSize := by decide
    rw [AdditiveTransfer.send, houtput] at h
    cases h
    simp [hv0, hv1, hbatch]

theorem Sender.send?_eq_some (sender : Sender) (setup : SendSetup) (message : Extension.Message) :
    sender.send? setup message = some (sender.send setup message) := by
  rw [Sender.send?, Sender.send]
  dsimp only
  rw [AdditiveTransfer.send?_eq_some]
  cases hshares : AdditiveTransfer.send sender.transcript setup batch
      (sender.alpha, sender.alphaHat) message sender.pool with
  | error e => rfl
  | ok result =>
    obtain ⟨shares, additive⟩ := result
    have hlength := (length_of_send_eq_ok hshares).1
    let c := challenges sender.transcript additive
    have hentries : (sender.pool.mapRange? gadgetSize fun j => do return c.combine (← shares[j]?)) =
        some (sender.pool.mapList c.combine shares) := by
      rw [Pool.mapList_eq_map]
      refine sender.pool.mapRange?_eq_some (by simp [hlength]) fun j hj => ?_
      rw [List.length_map] at hj
      rw [List.getElem?_eq_getElem hj, List.getElem_map]
      rfl
    rw [some_bind_eq]
    dsimp only
    rw [hentries]
    rfl

/-- There is a pair of ciphertexts for each entry of the gadget vector. -/
theorem Sender.length_ciphertexts {sender : Sender} {setup : SendSetup}
    {request : Extension.Message} {result : Scalar × Message}
    (h : sender.send setup request = .ok result) :
    result.2.additive.ciphertexts.length = gadgetSize := by
  unfold Sender.send at h
  dsimp only at h
  cases hshares : AdditiveTransfer.send sender.transcript setup batch
      (sender.alpha, sender.alphaHat) request sender.pool with
  | error e =>
    rw [hshares] at h
    cases h
  | ok shares =>
    rw [hshares] at h
    rw [← Except.ok.inj h]
    exact (length_of_send_eq_ok hshares).2

/-- The sender's errors are those of the extension. -/
theorem Sender.send_eq_error_iff (sender : Sender) (setup : SendSetup) (message : Extension.Message)
    (e : OTError) :
    sender.send setup message = .error e ↔
      Extension.send sender.transcript setup batch message sender.pool = .error e := by
  rw [← AdditiveTransfer.send_eq_error_iff _ _ _ (sender.alpha, sender.alphaHat)]
  unfold Sender.send
  exact bind_eq_error_iff (fun _ => ⟨_, rfl⟩) e

/-- A receiver that a run of the constructor ends with. -/
def Receiver.Reachable (receiver : Receiver) : Prop :=
  ∃ (σ : Type) (_ : ByteStream σ) (source behind : Source σ) (t : Transcript) (setup : ReceiveSetup)
    (beta : Scalar) (pool : Pool) (message : Extension.Message),
    (Receiver.init t setup beta pool).run.run source = (.ok (.ok (receiver, message)), behind)

/-- Whatever was drawn, the receiver waits with as many choices and outputs as the gadget vector has
entries. -/
theorem Receiver.Reachable.exists_eq_waiting {receiver : Receiver} (h : receiver.Reachable) :
    ∃ t choices v0 v1 pool, choices.length = gadgetBytes ∧
      receiver = Receiver.waiting t choices v0 v1 pool := by
  obtain ⟨σ, _, source, behind, t, setup, beta, pool, message, hrun⟩ := h
  have hyields : (Receiver.init t setup beta pool : Draw σ _).Yields source fun result =>
      ∀ receiver message, result = .ok (receiver, message) →
        ∃ t choices v0 v1 pool, choices.length = gadgetBytes ∧
          receiver = Receiver.waiting t choices v0 v1 pool := by
    refine init_yields (agree_select 0 setup) t beta pool source ?_
    intro choices request v0 v1 hchoices _ _ receiver message hresult
    exact ⟨t, choices, v0, v1, pool, hchoices, (Prod.mk.inj (Except.ok.inj hresult)).1.symm⟩
  unfold Draw.Yields at hyields
  rw [hrun] at hyields
  exact hyields receiver message rfl

theorem Receiver.Reachable.lengths {receiver : Receiver} (h : receiver.Reachable) :
    8 * receiver.choices.length = gadgetSize ∧ receiver.additive.choices = receiver.choices ∧
      receiver.additive.outputs.length = gadgetSize := by
  obtain ⟨t, choices, v0, v1, pool, hchoices, rfl⟩ := h.exists_eq_waiting
  refine ⟨?_, rfl, (List.length_map ..).trans List.length_range⟩
  exact congrArg (8 * ·) hchoices

/-- The receiver looks at as many choices and shares as the gadget vector has entries. -/
theorem Receiver.finish?_eq_some {receiver : Receiver} (h : receiver.Reachable)
    (message : Message) : receiver.finish? message = some (receiver.finish message) := by
  obtain ⟨hchoices, hsame, houtputs⟩ := h.lengths
  have hadditive : receiver.additive.outputs.length = 8 * receiver.additive.choices.length := by
    rw [houtputs, hsame, hchoices]
  rw [Receiver.finish?, Receiver.finish, AdditiveTransfer.Receiver.finish?_eq_some hadditive]
  cases hshares : receiver.additive.finish message.additive with
  | error e => rfl
  | ok shares =>
    have hlength : shares.length = gadgetSize :=
      (AdditiveTransfer.Receiver.length_of_finish_eq_ok hadditive hshares).trans houtputs
    have hunpack : (unpack receiver.choices).length = gadgetSize :=
      (length_unpack receiver.choices).trans hchoices
    let c := challenges receiver.transcript message.additive
    have hentries : (receiver.pool.mapRange? gadgetSize fun j => do
        return c.recompute message.verifyU (← bit? receiver.choices j) (← shares[j]?)) =
        some (receiver.pool.mapList (fun item => c.recompute message.verifyU item.1 item.2)
          ((unpack receiver.choices).zip shares)) := by
      rw [Pool.mapList_eq_map]
      refine receiver.pool.mapRange?_eq_some (by simp [hunpack, hlength]) fun j hj => ?_
      rw [List.length_map, List.length_zip, hunpack, hlength, Nat.min_self] at hj
      rw [bit?_eq_some_getElem (hunpack.symm ▸ hj), List.getElem?_eq_getElem (hlength.symm ▸ hj),
        List.getElem_map, List.getElem_zip]
      rfl
    rw [some_bind_eq]
    dsimp only
    rw [hentries, some_bind_eq]
    simp only [bind, Except.bind]
    split <;> rfl

/-- A wrong number of ciphertexts is refused, and nothing else is refused as a wrong number. -/
theorem Receiver.finish_eq_batchSizeMismatch_iff {receiver : Receiver} (h : receiver.Reachable)
    (message : Message) (expected actual : Nat) :
    receiver.finish message = .error (.batchSizeMismatch expected actual) ↔
      message.additive.ciphertexts.length ≠ gadgetSize ∧ expected = gadgetSize ∧
        actual = message.additive.ciphertexts.length := by
  obtain ⟨-, -, houtputs⟩ := h.lengths
  rw [Receiver.finish, AdditiveTransfer.Receiver.finish, houtputs]
  by_cases hlength : message.additive.ciphertexts.length ≠ gadgetSize
  · rw [if_pos hlength]
    show Except.error (OTError.batchSizeMismatch gadgetSize _) = _ ↔ _
    rw [Except.error.injEq, OTError.batchSizeMismatch.injEq, eq_comm (b := expected),
      eq_comm (b := actual)]
    exact ⟨fun h => ⟨hlength, h⟩, fun h => h.2⟩
  · rw [if_neg hlength]
    refine ⟨fun hfinish => ?_, fun hfinish => absurd hfinish.1 hlength⟩
    simp only [bind, Except.bind, pure, Except.pure] at hfinish
    split at hfinish <;> cases hfinish

end Multiply

/-! ## Every message is answered -/

section

open Correlated

/-- Each receiving operation, carried out by single accesses, has all of them succeed, whatever the
message, the setup and the transcript are. For the operations that need the state of an earlier
step, the state is any that the earlier step ends with. -/
structure AnswersEveryMessage (P : Type) [PointGroup P] : Prop where
  make (t : Transcript) (pool : Pool) (base : RandomTransfer.Receiver P) (delta : Block)
    (secrets : Vector Scalar baseCount) :
    SetupSender.make? t pool base delta secrets = some (SetupSender.make t pool base delta secrets)
  challenge (receiver : SetupReceiver P) (message : SetupChoices P) :
    receiver.challenge? message = some (receiver.challenge message)
  respond (sender : SetupSender) (message : SetupChallenges) :
    sender.respond? message = some (sender.respond message)
  reveal (receiver : SetupReceiverChallenged) (message : SetupResponses) :
    receiver.reveal? message = some (receiver.reveal message)
  finishSetup (sender : SetupSenderResponded) (message : SetupOpenings) :
    sender.finish? message = some (sender.finish message)
  sendCorrelated (t : Transcript) (setup : SendSetup) (rowLength : RowLength)
    (message : ExtendMessage) (pool : Pool) :
    Correlated.send? t setup rowLength message pool =
      some (Correlated.send t setup rowLength message pool)
  sendExtended (t : Transcript) (setup : SendSetup) (batch : Extension.BatchSize)
    (message : Extension.Message) (pool : Pool) :
    Extension.send? t setup batch message pool = some (Extension.send t setup batch message pool)
  sendAdditive (t : Transcript) (setup : SendSetup) (batch : Extension.BatchSize)
    (alpha : AdditiveTransfer.ScalarPair) (message : Extension.Message) (pool : Pool) :
    AdditiveTransfer.send? t setup batch alpha message pool =
      some (AdditiveTransfer.send t setup batch alpha message pool)
  finishAdditive (receiver : AdditiveTransfer.Receiver) (message : AdditiveTransfer.Message) :
    receiver.Reachable → receiver.finish? message = some (receiver.finish message)
  sendProduct (sender : Multiply.Sender) (setup : SendSetup) (message : Extension.Message) :
    sender.send? setup message = some (sender.send setup message)
  finishProduct (receiver : Multiply.Receiver) (message : Multiply.Message) :
    receiver.Reachable → receiver.finish? message = some (receiver.finish message)

/-- The errors about sizes come exactly with the wrong sizes, and name them. -/
structure SizesAreExact : Prop where
  sendExtended (t : Transcript) (setup : SendSetup) (batch : Extension.BatchSize)
    (message : Extension.Message) (pool : Pool) :
    Extension.HasVerdict batch message (Extension.send t setup batch message pool)
  sendAdditive (t : Transcript) (setup : SendSetup) (batch : Extension.BatchSize)
    (alpha : AdditiveTransfer.ScalarPair) (message : Extension.Message) (pool : Pool)
    (e : OTError) :
    AdditiveTransfer.send t setup batch alpha message pool = .error e ↔
      Extension.send t setup batch message pool = .error e
  batch_bytes : Multiply.batch.bytes = 52
  sendProduct (sender : Multiply.Sender) (setup : SendSetup) (message : Extension.Message)
    (e : OTError) :
    sender.send setup message = .error e ↔
      Extension.send sender.transcript setup Multiply.batch message sender.pool = .error e
  finishProduct (receiver : Multiply.Receiver) (message : Multiply.Message)
    (expected actual : Nat) :
    receiver.Reachable →
      (receiver.finish message = .error (.batchSizeMismatch expected actual) ↔
        message.additive.ciphertexts.length ≠ 416 ∧ expected = 416 ∧
          actual = message.additive.ciphertexts.length)

end

/-- No message makes a party read outside of its lists, and wrong sizes are reported exactly. -/
theorem messages_answered_and_sizes_exact (P : Type) [PointGroup P] :
    AnswersEveryMessage P ∧ SizesAreExact where
  left :=
    { make := Correlated.SetupSender.make?_eq_some
      challenge := Correlated.SetupReceiver.challenge?_eq_some
      respond := Correlated.SetupSender.respond?_eq_some
      reveal := Correlated.SetupReceiverChallenged.reveal?_eq_some
      finishSetup := Correlated.SetupSenderResponded.finish?_eq_some
      sendCorrelated := Correlated.send?_eq_some
      sendExtended := Extension.send?_eq_some
      sendAdditive := AdditiveTransfer.send?_eq_some
      finishAdditive := fun _ message h =>
        AdditiveTransfer.Receiver.finish?_eq_some h.length_outputs message
      sendProduct := Multiply.Sender.send?_eq_some
      finishProduct := fun _ message h => Multiply.Receiver.finish?_eq_some h message }
  right :=
    { sendExtended := Extension.hasVerdict_send
      sendAdditive := AdditiveTransfer.send_eq_error_iff
      batch_bytes := rfl
      sendProduct := Multiply.Sender.send_eq_error_iff
      finishProduct := fun _ message expected actual h =>
        Multiply.Receiver.finish_eq_batchSizeMismatch_iff h message expected actual }

open Correlated in
/-- A message without ciphertexts, and one without a matrix. -/
theorem empty_messages_answered :
    (∃ receiver : Multiply.Receiver, receiver.Reachable ∧
      receiver.finish? ⟨⟨[]⟩, 0, 0⟩ = some (.error (.batchSizeMismatch 416 0))) ∧
    Extension.send? (Transcript.new [7]) (SendSetup.select 1 countedKeys) ⟨1, by decide⟩
      ⟨⟨[]⟩, 0, Extension.Sums.zero⟩ .sequential = some (.error (.batchSizeMismatch 11008 0)) := by
  obtain ⟨hanswers, hsizes⟩ := messages_answered_and_sizes_exact Point
  constructor
  · have hyields : (Multiply.Receiver.init (Transcript.new [7]) countedKeys 3 .sequential :
        Draw Tape _).Yields (Source.ofTape [0xFF, 1] [] 254) fun result =>
          ∃ receiver message, result = .ok (receiver, message) :=
      Multiply.init_yields (agree_select 0 countedKeys) _ 3 .sequential _
        fun _ request _ _ _ _ _ => ⟨_, request, rfl⟩
    obtain ⟨_, rest, hrun, receiver, message, rfl⟩ :=
      Draw.exists_run_of_yields hyields (show 254 < maxAttempts by decide)
    have hreachable : receiver.Reachable :=
      ⟨Tape, inferInstance, _, rest, _, countedKeys, 3, .sequential, message, hrun⟩
    refine ⟨receiver, hreachable, (hanswers.finishProduct receiver _ hreachable).trans ?_⟩
    exact congrArg some ((hsizes.finishProduct receiver ⟨⟨[]⟩, 0, 0⟩ 416 0 hreachable).2
      ⟨by decide, rfl, rfl⟩)
  · rw [hanswers.sendExtended]
    exact congrArg some ((((hsizes.sendExtended _ _ _ _ _).2 (by decide)).1 11008 0).2
      ⟨by decide, rfl, rfl⟩)

end ObliviousTransfer
