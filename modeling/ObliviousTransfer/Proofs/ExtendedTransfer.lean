import Mathlib
import ObliviousTransfer.Proofs.ConsistencyCheck

/-!
# Correctness of the extension

If both parties are honest, the receiver's matrix has no deviations, so the sender accepts, and the
receiver ends with the chosen one of the sender's outputs for every item.

## Shape of the proof

`receiveWith_eq` shows that an honest receiver is one that sticks to reference choices, namely its
own, in the sense of the consistency check. `exists_outputs` puts both parties together for given
padding; `run_receive` adds the draw of the padding.
-/

namespace ObliviousTransfer.Extension

open Correlated Bits

/-- The message of an honest receiver. -/
def honestMessage (setup : ReceiveSetup) (t : Transcript) (padded : Bytes) : Message :=
  referenceMessage setup t padded.length (honestMatrix t setup padded) (bit padded)

/-- What an honest receiver ends with and sends. -/
theorem receiveWith_eq (t : Transcript) (setup : ReceiveSetup) {choices padding : Bytes}
    (hchoices : choices.length ≠ 0) (pool : Pool) :
    let padded := choices ++ padding
    receiveWith t setup choices padding pool =
      .ok ((List.range (8 * choices.length)).map fun j =>
          output t j (receiverBlock setup t padded.length j),
        honestMessage setup t padded) := by
  intro padded
  have hle : choices.length ≤ padded.length := by
    rw [List.length_append]
    exact Nat.le_add_right ..
  have hpadded : padded.length ≠ 0 := by omega
  have hchallenges := length_challenges t (honestMatrix t setup padded) (8 * padded.length)
  change (Correlated.receive t setup padded pool >>= _) = _
  rw [receive_eq_ok t setup hpadded pool]
  simp only [bind, Except.bind, List.length_map, List.length_range]
  rw [choiceSum_eq padded hchallenges, checkSums_map_range _ hchallenges.ge,
    take_map_range (Nat.mul_le_mul_left 8 hle), outputs_map_range]
  rfl

/-- An empty batch aside, the receiver needs one request for its padding. -/
theorem run_receive {σ : Type} [ByteStream σ] (t : Transcript) (setup : ReceiveSetup)
    {choices : Bytes} (hchoices : choices.length ≠ 0) (pool : Pool) (source : Source σ) :
    (receive t setup choices pool).run.run source =
      if source.failures < maxAttempts then
        (.ok (receiveWith t setup choices (ByteStream.take paddingBytes source.stream).1 pool),
          { source.advance paddingBytes with failures := 0 })
      else (.error .sourceFailed, { source with failures := source.failures - maxAttempts }) := by
  rw [receive, if_neg hchoices]
  exact Draw.run_bind_ite (Draw.run_filled paddingBytes source)

section

variable {sendSetup : SendSetup} {receiveSetup : ReceiveSetup}

/-- An honest matrix has no deviations from the choices that it was made for. -/
theorem deviation_honestMatrix (setup : ReceiveSetup) (t : Transcript) (choices : Bytes) (j : Nat) :
    deviation setup t choices.length (honestMatrix t setup choices) (bit choices) j = 0 := by
  rw [deviation, appliedChoices_honestMatrix]
  exact BitVec.xor_self

/-- The sender accepts the message of an honest receiver. -/
theorem send_honestMessage (agree : Agree sendSetup receiveSetup) (t : Transcript)
    {batch : BatchSize} (hpos : batch.bytes ≠ 0) {padded : Bytes}
    (hpadded : padded.length = batch.bytes + paddingBytes) (pool : Pool) :
    send t sendSetup batch (honestMessage receiveSetup t padded) pool =
      .ok (sendOutput t sendSetup.delta (senderBlock sendSetup receiveSetup t padded.length
        (honestMatrix t receiveSetup padded)) batch) := by
  have hlength := length_honestMatrix t receiveSetup padded
  have hsend := send_referenceMessage agree t hpos (hpadded ▸ hlength) (bit padded) pool
  have hnone : ∀ j < 8 * padded.length, deviation receiveSetup t padded.length
      (honestMatrix t receiveSetup padded) (bit padded) j &&& sendSetup.delta = 0 := by
    intro j _
    rw [deviation_honestMatrix]
    exact BitVec.zero_and
  simp only [← hpadded] at hsend
  rw [honestMessage, hsend, if_pos (blockSums_eq_zero hnone)]

/-- With given padding, the sender accepts the message of an honest receiver, and each output of the
receiver is the one that its choice selects. -/
theorem exists_outputs (agree : Agree sendSetup receiveSetup) (t : Transcript) {batch : BatchSize}
    (hpos : batch.bytes ≠ 0) {choices padding : Bytes} (hchoices : choices.length = batch.bytes)
    (hpadding : padding.length = paddingBytes) :
    ∃ (message : Message) (v0 v1 : Nat → Block),
      (∀ pool, receiveWith t receiveSetup choices padding pool =
        .ok ((List.range (8 * batch.bytes)).map fun j => if bit choices j then v1 j else v0 j,
          message)) ∧
      ∀ pool, send t sendSetup batch message pool =
        .ok ⟨(List.range (8 * batch.bytes)).map v0, (List.range (8 * batch.bytes)).map v1⟩ := by
  let padded := choices ++ padding
  let block :=
    senderBlock sendSetup receiveSetup t padded.length (honestMatrix t receiveSetup padded)
  have hpadded : padded.length = batch.bytes + paddingBytes := by
    rw [List.length_append, hchoices, hpadding]
  have chosen : ∀ j ∈ List.range (8 * batch.bytes),
      output t j (receiverBlock receiveSetup t padded.length j) =
        if bit choices j then output t j (block j ^^^ sendSetup.delta)
        else output t j (block j) := by
    intro j hj
    -- the items of the padding are dropped, so these are the receiver's choices
    have hkept : j < 8 * choices.length := hchoices ▸ List.mem_range.1 hj
    have hbit : bit padded j = bit choices j := by rw [bit_append, if_pos hkept]
    have hblock := senderBlock_honestMatrix sendSetup receiveSetup t padded j
    rw [hbit] at hblock
    cases hchoice : bit choices j with
    | false => simp [block, hblock, hchoice]
    | true => simp [block, hblock, hchoice]
  refine ⟨honestMessage receiveSetup t padded, fun j => output t j (block j),
    fun j => output t j (block j ^^^ sendSetup.delta), fun pool => ?_, fun pool => ?_⟩
  · rw [← List.map_congr_left chosen, ← hchoices]
    exact receiveWith_eq t receiveSetup (by omega) pool
  · exact send_honestMessage agree t hpos hpadded pool

/-- **Correctness of the extension.** The receiver fails only with its source. Otherwise the sender
accepts its message, both have an output (the sender two) for each choice, and the receiver's is the
one that the choice selects. -/
theorem receive_then_send {σ : Type} [ByteStream σ] (agree : Agree sendSetup receiveSetup)
    (t : Transcript) {choices : Bytes} (hpos : choices.length ≠ 0) {batch : BatchSize}
    (hbatch : choices.length = batch.bytes) (receiverPool senderPool : Pool) (source : Source σ) :
    (receive t receiveSetup choices receiverPool).Yields source fun result =>
      ∃ outputs message sent, result = .ok (outputs, message) ∧
        send t sendSetup batch message senderPool = .ok sent ∧
        outputs.length = 8 * choices.length ∧ sent.v0.length = 8 * choices.length ∧
        sent.v1.length = 8 * choices.length ∧
        ∀ j choice, bit? choices j = some choice →
          outputs[j]? = if choice then sent.v1[j]? else sent.v0[j]? := by
  refine Draw.yields_of_run (run_receive t receiveSetup hpos receiverPool source) ?_
  obtain ⟨message, v0, v1, hreceive, hsend⟩ := exists_outputs agree t (hbatch ▸ hpos) hbatch
    (ByteStream.length_take paddingBytes source.stream)
  refine ⟨_, message, _, hreceive receiverPool, hsend senderPool, ?_, ?_, ?_,
    fun j choice hchoice => ?_⟩
  · rw [List.length_map, List.length_range, hbatch]
  · rw [List.length_map, List.length_range, hbatch]
  · rw [List.length_map, List.length_range, hbatch]
  · obtain ⟨hj, rfl⟩ := (bit?_eq_some_iff choices j choice).1 hchoice
    rw [hbatch] at hj
    cases hbit : bit choices j <;> simp [hj, hbit]

/-- Two failures of the source do not matter, and the first two choices are 0 and 1. -/
theorem receive_then_send_two_bytes :
    let t := Transcript.new [7]
    let setup := SendSetup.select 0x15#256 countedKeys
    let choices : Bytes := [0xA6, 0x01]
    let batch : BatchSize := ⟨2, by decide⟩
    Agree setup countedKeys ∧ choices.length ≠ 0 ∧ choices.length = batch.bytes ∧
      ∃ outputs message rest sent,
        (receive t countedKeys choices (.parallel 4)).run.run (Source.ofTape [1, 2, 3] [] 2) =
          (.ok (.ok (outputs, message)), rest) ∧
        send t setup batch message .sequential = .ok sent ∧
        outputs[0]? = sent.v0[0]? ∧ outputs[1]? = sent.v1[1]? := by
  intro t setup choices batch
  have agree : Agree setup countedKeys := agree_select _ _
  obtain ⟨_, rest, hrun, outputs, message, sent, rfl, hsend, -, -, -, chosen⟩ :=
    Draw.exists_run_of_yields (receive_then_send agree t (show choices.length ≠ 0 by decide)
      (show choices.length = batch.bytes from rfl) (.parallel 4) .sequential
      (Source.ofTape [1, 2, 3] [] 2)) (show 2 < maxAttempts by decide)
  exact ⟨agree, by decide, rfl, outputs, message, rest, sent, hrun, hsend, chosen 0 false rfl,
    chosen 1 true rfl⟩

end

end ObliviousTransfer.Extension
