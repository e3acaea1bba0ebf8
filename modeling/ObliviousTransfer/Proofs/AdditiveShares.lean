import Mathlib
import ObliviousTransfer.AdditiveTransfer
import ObliviousTransfer.Proofs.ExtendedTransfer

/-!
# The shares of an additive transfer

A sender can only put some input into each ciphertext (`sealInput`), the same one for all items if
it is honest. Whatever the inputs are, the shares of both parties add up to the chosen ones
(`receiveShare_sealInput`).

Seen from the other side, whatever ciphertexts the receiver gets in place of the sender's, the sum
of the shares of a chosen item changes as its ciphertext does, and that of any other item stays zero
(`padShare_add_receiveShare`, and for a whole run `shares_follow_delivered_ciphertexts`).
-/

namespace ObliviousTransfer.AdditiveTransfer

open Bits Correlated
open scoped Fin.CommRing

/-! ## One item -/

/-- The sender's share of an item: the negative of the first pads. -/
def padShare (salt output0 : Block) : ScalarPair :=
  (-(pads salt output0).1, -(pads salt output0).2)

/-- The ciphertext of an input under the pads of both outputs. -/
def sealInput (salt output0 output1 : Block) (input : ScalarPair) : ScalarPair :=
  ((pads salt output0).1 + (pads salt output1).1 + input.1,
    (pads salt output0).2 + (pads salt output1).2 + input.2)

/-- The receiver's share is the input, if it is chosen, less the sender's share. -/
theorem receiveShare_sealInput (salt output0 output1 : Block) (choice : Bool) (input : ScalarPair) :
    receiveShare salt choice (if choice then output1 else output0)
        (sealInput salt output0 output1 input) =
      ((if choice then input.1 else 0) - (padShare salt output0).1,
        (if choice then input.2 else 0) - (padShare salt output0).2) := by
  cases choice with
  | false =>
    simp only [receiveShare, padShare, Bool.false_eq_true, if_false, zero_sub, neg_neg]
  | true =>
    simp only [receiveShare, padShare, sealInput, if_true]
    refine Prod.ext ?_ ?_ <;> ring

/-- Whatever ciphertext the receiver gets for an item, the shares add up to the input, if it is
chosen, plus the change of the ciphertext. -/
theorem padShare_add_receiveShare (salt output0 output1 : Block) (choice : Bool)
    (input delivered : ScalarPair) :
    padShare salt output0 +
        receiveShare salt choice (if choice then output1 else output0) delivered =
      if choice then input + delivered - sealInput salt output0 output1 input else 0 := by
  cases choice with
  | false =>
    simp only [receiveShare, padShare, Bool.false_eq_true, if_false]
    exact Prod.ext (neg_add_cancel _) (neg_add_cancel _)
  | true =>
    simp only [receiveShare, padShare, sealInput, if_true]
    refine Prod.ext ?_ ?_
    · simp only [Prod.fst_add, Prod.fst_sub]
      ring
    · simp only [Prod.snd_add, Prod.snd_sub]
      ring

/-! ## All items -/

/-- The receiver's shares for as many ciphertexts as choices. -/
theorem finish_map_range (t : Transcript) {choices : Bytes} {count : Nat}
    (hcount : 8 * choices.length = count) (outputs : Nat → Block) (ciphertexts : Nat → ScalarPair)
    (pool : Pool) :
    (Receiver.make t choices ((List.range count).map outputs) pool).finish
        ⟨(List.range count).map ciphertexts⟩ =
      .ok ((List.range count).map fun j =>
        receiveShare (padSalt t) (bit choices j) (outputs j) (ciphertexts j)) := by
  have hlength : ((List.range count).map ciphertexts).length =
      ((List.range count).map outputs).length := by
    rw [List.length_map, List.length_map]
  rw [Receiver.finish, Receiver.make, if_neg (not_not.2 hlength)]
  simp only [Pool.mapList_eq_map, unpack_eq_map, hcount, List.zip_map', List.map_map]
  rfl

/-- The receiver's answer to any list of ciphertexts. -/
theorem finish_eq (t : Transcript) {choices : Bytes} {count : Nat}
    (hcount : 8 * choices.length = count) (outputs : Nat → Block) (message : Message)
    (pool : Pool) :
    (Receiver.make t choices ((List.range count).map outputs) pool).finish message =
      if message.ciphertexts.length = count then
        .ok ((List.range count).map fun j =>
          receiveShare (padSalt t) (bit choices j) (outputs j) (message.ciphertexts.getD j 0))
      else .error (.batchSizeMismatch count message.ciphertexts.length) := by
  split
  · next hlength =>
    have hmessage : message = ⟨(List.range count).map (message.ciphertexts.getD · 0)⟩ :=
      congrArg Message.mk (eq_map_range hlength 0)
    exact (congrArg _ hmessage).trans (finish_map_range t hcount outputs _ pool)
  · next hlength =>
    have houtputs : ((List.range count).map outputs).length = count := by
      rw [List.length_map, List.length_range]
    rw [Receiver.finish, Receiver.make, houtputs, if_pos hlength]
    rfl

/-- The receiver's share of an item that is not chosen does not depend on the ciphertexts. -/
theorem getElem?_finish_of_not_chosen (t : Transcript) {choices : Bytes} {count : Nat}
    (hcount : 8 * choices.length = count) (outputs : Nat → Block) (pool : Pool) {message : Message}
    {own : List ScalarPair}
    (h : (Receiver.make t choices ((List.range count).map outputs) pool).finish message = .ok own)
    {j : Nat} (hj : bit? choices j = some false) :
    own[j]? = some (pads (padSalt t) (outputs j)) := by
  obtain ⟨hlt, hbit⟩ := (bit?_eq_some_iff choices j false).1 hj
  rw [finish_eq t hcount] at h
  split at h
  · cases h
    rw [getElem?_map_range_eq_some_iff, hbit]
    exact ⟨hcount ▸ hlt, rfl⟩
  · cases h

/-- The sender's shares and ciphertexts for the outputs of an extension. -/
theorem send_map_range {t : Transcript} {setup : SendSetup} {batch : Extension.BatchSize}
    {message : Extension.Message} {pool : Pool} {count : Nat} {v0 v1 : Nat → Block}
    (houtput : Extension.send t setup batch message pool =
      .ok ⟨(List.range count).map v0, (List.range count).map v1⟩) (alpha : ScalarPair) :
    send t setup batch alpha message pool =
      .ok ((List.range count).map fun j => padShare (padSalt t) (v0 j),
        ⟨(List.range count).map fun j => sealInput (padSalt t) (v0 j) (v1 j) alpha⟩) := by
  rw [send, houtput]
  simp only [bind, Except.bind, Pool.mapList_eq_map, List.zip_map', List.map_map]
  rfl

/-! ## The run of the receiver -/

theorem initWith_eq_map (t : Transcript) (setup : ReceiveSetup) (choices padding : Bytes)
    (pool : Pool) :
    Receiver.initWith t setup choices padding pool =
      (Extension.receiveWith t setup choices padding pool).map fun (outputs, message) =>
        (Receiver.make t choices outputs pool, message) := by
  cases h : Extension.receiveWith t setup choices padding pool with
  | error e => rw [Receiver.initWith, h]; rfl
  | ok result => rw [Receiver.initWith, h]; rfl

/-- The receiver draws nothing but the padding of the extension. -/
theorem run_init {σ : Type} [ByteStream σ] (t : Transcript) (setup : ReceiveSetup)
    {choices : Bytes} (hchoices : choices.length ≠ 0) (pool : Pool) (source : Source σ) :
    (Receiver.init t setup choices pool).run.run source =
      if source.failures < maxAttempts then
        (.ok (Receiver.initWith t setup choices
            (ByteStream.take paddingBytes source.stream).1 pool),
          { source.advance paddingBytes with failures := 0 })
      else (.error .sourceFailed, { source with failures := source.failures - maxAttempts }) := by
  rw [Receiver.init, initWith_eq_map]
  exact Draw.run_bind_ite (Extension.run_receive t setup hchoices pool source)

/-! ## Both sides -/

section

variable {sendSetup : SendSetup} {receiveSetup : ReceiveSetup}

/-- With given padding, the receiver waits with the chosen ones of two outputs for each item, both
of which the sender has. -/
theorem exists_receiver (agree : Agree sendSetup receiveSetup) (t : Transcript)
    {batch : Extension.BatchSize} (hpos : batch.bytes ≠ 0) {choices padding : Bytes}
    (hchoices : choices.length = batch.bytes) (hpadding : padding.length = paddingBytes) :
    ∃ (message : Extension.Message) (v0 v1 : Nat → Block),
      (∀ pool, Receiver.initWith t receiveSetup choices padding pool =
        .ok (Receiver.make t choices ((List.range (8 * batch.bytes)).map fun j =>
          if bit choices j then v1 j else v0 j) pool, message)) ∧
      ∀ pool, Extension.send t sendSetup batch message pool =
        .ok ⟨(List.range (8 * batch.bytes)).map v0, (List.range (8 * batch.bytes)).map v1⟩ := by
  obtain ⟨message, v0, v1, hreceive, hsend⟩ :=
    Extension.exists_outputs agree t hpos hchoices hpadding
  refine ⟨message, v0, v1, fun pool => ?_, hsend⟩
  rw [initWith_eq_map, hreceive pool]
  rfl

/-- **Shares under any ciphertexts.** After an honest extension, the receiver refuses a list of
ciphertexts if and only if it has another length than the batch. Otherwise the shares of a chosen
item add up to the sender's input plus the change of the ciphertext, and those of any other item to
zero. So the sender's own ciphertexts give shares of the chosen inputs, and where nothing is chosen
the receiver's share does not depend on the ciphertexts. -/
theorem shares_follow_delivered_ciphertexts {σ : Type} [ByteStream σ]
    (agree : Agree sendSetup receiveSetup) (t : Transcript) {choices : Bytes}
    (hpos : choices.length ≠ 0) {batch : Extension.BatchSize}
    (hbatch : choices.length = batch.bytes) (alpha : ScalarPair)
    (senderPool receiverPool : Pool) (source : Source σ) :
    (Receiver.init t receiveSetup choices receiverPool).Yields source fun result =>
      ∃ receiver request shares sent, result = .ok (receiver, request) ∧
        send t sendSetup batch alpha request senderPool = .ok (shares, sent) ∧
        shares.length = 8 * choices.length ∧ sent.ciphertexts.length = 8 * choices.length ∧
        (∀ delivered : Message,
          (receiver.finish delivered =
              .error (.batchSizeMismatch (8 * choices.length) delivered.ciphertexts.length) ↔
            delivered.ciphertexts.length ≠ 8 * choices.length) ∧
          (delivered.ciphertexts.length = 8 * choices.length →
            ∃ own, receiver.finish delivered = .ok own ∧ own.length = 8 * choices.length ∧
              ∀ j choice, bit? choices j = some choice →
                shares.getD j 0 + own.getD j 0 =
                  if choice then alpha + delivered.ciphertexts.getD j 0 - sent.ciphertexts.getD j 0
                  else 0)) ∧
        (∃ own, receiver.finish sent = .ok own ∧
          ∀ j choice, bit? choices j = some choice →
            shares.getD j 0 + own.getD j 0 = if choice then alpha else 0) ∧
        ∀ delivered delivered' own own', receiver.finish delivered = .ok own →
          receiver.finish delivered' = .ok own' →
          ∀ j, bit? choices j = some false → own[j]? = own'[j]? := by
  refine Draw.yields_of_run (run_init t receiveSetup hpos receiverPool source) ?_
  obtain ⟨request, v0, v1, hinit, hextend⟩ := exists_receiver agree t (hbatch ▸ hpos) hbatch
    (ByteStream.length_take paddingBytes source.stream)
  rw [← hbatch] at hinit hextend
  let outputs (j : Nat) : Block := if bit choices j then v1 j else v0 j
  let shares := (List.range (8 * choices.length)).map fun j => padShare (padSalt t) (v0 j)
  let sent : Message :=
    ⟨(List.range (8 * choices.length)).map fun j => sealInput (padSalt t) (v0 j) (v1 j) alpha⟩
  let receiver :=
    Receiver.make t choices ((List.range (8 * choices.length)).map outputs) receiverPool
  have hsend : send t sendSetup batch alpha request senderPool = .ok (shares, sent) :=
    send_map_range (hextend senderPool) alpha
  have hsent : sent.ciphertexts.length = 8 * choices.length := by
    rw [List.length_map, List.length_range]
  have hcount : 8 * choices.length = 8 * choices.length := rfl
  have hfinish (delivered : Message) := finish_eq t hcount outputs delivered receiverPool
  have accepted : ∀ delivered : Message, delivered.ciphertexts.length = 8 * choices.length →
      ∃ own, receiver.finish delivered = .ok own ∧ own.length = 8 * choices.length ∧
        ∀ j choice, bit? choices j = some choice →
          shares.getD j 0 + own.getD j 0 =
            if choice then alpha + delivered.ciphertexts.getD j 0 - sent.ciphertexts.getD j 0
            else 0 := by
    intro delivered hlength
    refine ⟨_, (hfinish delivered).trans (if_pos hlength), ?_, fun j choice hchoice => ?_⟩
    · rw [List.length_map, List.length_range]
    · obtain ⟨hj, rfl⟩ := (bit?_eq_some_iff choices j choice).1 hchoice
      rw [getD_map_range _ hj, getD_map_range _ hj, getD_map_range _ hj, padShare_add_receiveShare]
  refine ⟨receiver, request, shares, sent, hinit receiverPool, hsend, ?_, hsent,
    fun delivered => ⟨⟨fun hrefused hlength => ?_, fun hlength => ?_⟩, accepted delivered⟩, ?_,
    fun delivered delivered' own own' h h' j hj => ?_⟩
  · rw [List.length_map, List.length_range]
  · obtain ⟨own, hown, -⟩ := accepted delivered hlength
    cases hown.symm.trans hrefused
  · exact (hfinish delivered).trans (if_neg hlength)
  · obtain ⟨own, hown, -, hsum⟩ := accepted sent hsent
    refine ⟨own, hown, fun j choice hchoice => (hsum j choice hchoice).trans ?_⟩
    rw [add_sub_cancel_right]
  · rw [getElem?_finish_of_not_chosen t hcount outputs receiverPool h hj,
      getElem?_finish_of_not_chosen t hcount outputs receiverPool h' hj]

/-- Eight equal ciphertexts in place of the sender's, for choices that begin with 0 and 1; seven are
refused. -/
theorem shares_follow_equal_ciphertexts :
    let t := Transcript.new [7]
    let setup := SendSetup.select 0x15#256 countedKeys
    let choices : Bytes := [0xA6]
    let batch : Extension.BatchSize := ⟨1, by decide⟩
    Agree setup countedKeys ∧ choices.length ≠ 0 ∧ choices.length = batch.bytes ∧
      ∃ (receiver : Receiver) (request : Extension.Message) (rest : Source Tape)
        (shares : List ScalarPair) (sent : Message) (own : List ScalarPair),
        (Receiver.init t countedKeys choices (.parallel 4)).run.run (Source.ofTape [1, 2, 3] [] 2) =
          (.ok (.ok (receiver, request)), rest) ∧
        send t setup batch (5, 9) request .sequential = .ok (shares, sent) ∧
        receiver.finish ⟨List.replicate 7 (1, 2)⟩ = .error (.batchSizeMismatch 8 7) ∧
        receiver.finish ⟨List.replicate 8 (1, 2)⟩ = .ok own ∧
        shares.getD 0 0 + own.getD 0 0 = 0 ∧
        shares.getD 1 0 + own.getD 1 0 = (5, 9) + (1, 2) - sent.ciphertexts.getD 1 0 := by
  intro t setup choices batch
  have agree : Agree setup countedKeys := agree_select _ _
  obtain ⟨_, rest, hrun, receiver, request, shares, sent, rfl, hsend, -, -, hany, -, -⟩ :=
    Draw.exists_run_of_yields (shares_follow_delivered_ciphertexts agree t
      (show choices.length ≠ 0 by decide) (show choices.length = batch.bytes from rfl) (5, 9)
      .sequential (.parallel 4) (Source.ofTape [1, 2, 3] [] 2)) (show 2 < maxAttempts by decide)
  have hrefused := (hany ⟨List.replicate 7 (1, 2)⟩).1.2 (by decide)
  obtain ⟨own, hown, -, hsum⟩ := (hany ⟨List.replicate 8 (1, 2)⟩).2 rfl
  exact ⟨agree, by decide, rfl, receiver, request, rest, shares, sent, own, hrun, hsend, hrefused,
    hown, hsum 0 false rfl, hsum 1 true rfl⟩

end

end ObliviousTransfer.AdditiveTransfer
