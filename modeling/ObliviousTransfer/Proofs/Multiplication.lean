import Mathlib
import ObliviousTransfer.Proofs.AdditiveShares
import ObliviousTransfer.Proofs.GadgetEncoding
import ObliviousTransfer.Proofs.SaltedHash

/-!
# Multiplication

The receiver's verdict on a sender that puts any inputs into its ciphertexts, and the sum of the
shares.

## Shape of the proof

* `exists_receiver` describes the receiver behind an honest extension: for every item it holds one
  of two outputs, both of which the sender has. `init_yields` adds what is drawn.
* `finish_sealed` is the answer of this receiver to any inputs, with any other content of the
  message. It compares hashes of what it demands of the sender, item by item (`demanded`).
* An honest sender uses one input for all items, and then what is demanded is what it has hashed
  (`demanded_combine`).
-/

namespace ObliviousTransfer.Multiply

open AdditiveTransfer Bits Correlated
open scoped Fin.CommRing

/-! ## The string of the check -/

/-- What the receiver demands that the sender has hashed for an item with a given input, if the
sender's share of it is `share`. -/
def Challenges.demanded (c : Challenges) (verifyU : Scalar) (choice : Bool)
    (input share : ScalarPair) : Scalar :=
  c.combine share + if choice then verifyU - c.combine input else 0

/-- What the receiver recomputes for an item is what it demands. -/
theorem recompute_receiveShare (c : Challenges) (verifyU : Scalar) (salt output0 output1 : Block)
    (choice : Bool) (input : ScalarPair) :
    c.recompute verifyU choice (receiveShare salt choice (if choice then output1 else output0)
        (sealInput salt output0 output1 input)) =
      c.demanded verifyU choice input (padShare salt output0) := by
  rw [receiveShare_sealInput]
  cases choice with
  | false =>
    simp only [Challenges.recompute, Challenges.demanded, Challenges.combine, Bool.false_eq_true,
      if_false]
    ring
  | true =>
    simp only [Challenges.recompute, Challenges.demanded, Challenges.combine, if_true]
    ring

/-- A sender with one input for all items is asked for the combinations of its shares. -/
theorem demanded_combine (c : Challenges) (choice : Bool) (input share : ScalarPair) :
    c.demanded (c.combine input) choice input share = c.combine share := by
  cases choice <;> simp [Challenges.demanded]

/-- The ciphertexts of a sender with an input for each item. -/
def sealedMessage (t : Transcript) (v0 v1 : Nat → Block) (inputs : Nat → ScalarPair) :
    AdditiveTransfer.Message :=
  ⟨(List.range gadgetSize).map fun j => sealInput (padSalt t) (v0 j) (v1 j) (inputs j)⟩

/-! ## The receiver behind an honest extension -/

/-- The receiver with given choices that waits for the sender's message. -/
def Receiver.waiting (t : Transcript) (choices : Bytes) (v0 v1 : Nat → Block) (pool : Pool) :
    Receiver where
  transcript := t
  gadget := publicGadget t
  choices
  additive := AdditiveTransfer.Receiver.make t choices
    ((List.range gadgetSize).map fun j => if bit choices j then v1 j else v0 j) pool
  pool

section

variable {sendSetup : SendSetup} {receiveSetup : ReceiveSetup}

theorem initWith_eq_map (t : Transcript) (setup : ReceiveSetup) (beta : Scalar)
    (noise padding : Bytes) (pool : Pool) :
    Receiver.initWith t setup beta noise padding pool =
      (AdditiveTransfer.Receiver.initWith t setup (encodeWith beta (publicGadget t) noise) padding
        pool).map fun (additive, message) =>
          (⟨t, publicGadget t, encodeWith beta (publicGadget t) noise, additive, pool⟩,
            message) := by
  cases h : AdditiveTransfer.Receiver.initWith t setup (encodeWith beta (publicGadget t) noise)
      padding pool with
  | error e => simp only [Receiver.initWith, h]; rfl
  | ok result => simp only [Receiver.initWith, h]; rfl

theorem exists_receiver (agree : Agree sendSetup receiveSetup) (t : Transcript) (beta : Scalar)
    {noise padding : Bytes} (hnoise : noise.length = noiseBits / 8)
    (hpadding : padding.length = paddingBytes) :
    ∃ (message : Extension.Message) (v0 v1 : Nat → Block),
      (∀ pool, Receiver.initWith t receiveSetup beta noise padding pool =
        .ok (Receiver.waiting t (encodeWith beta (publicGadget t) noise) v0 v1 pool, message)) ∧
      ∀ pool, Extension.send t sendSetup batch message pool =
        .ok ⟨(List.range gadgetSize).map v0, (List.range gadgetSize).map v1⟩ := by
  have hchoices : (encodeWith beta (publicGadget t) noise).length = batch.bytes := by
    rw [length_encodeWith, hnoise]
    rfl
  obtain ⟨message, v0, v1, hinit, hsend⟩ :=
    AdditiveTransfer.exists_receiver agree t (by decide) hchoices hpadding
  refine ⟨message, v0, v1, fun pool => ?_, hsend⟩
  rw [initWith_eq_map, hinit pool]
  rfl

/-- The receiver draws the bits for the random entries, which cannot fail, and the padding. -/
theorem run_init {σ : Type} [ByteStream σ] (t : Transcript) (setup : ReceiveSetup) (beta : Scalar)
    (pool : Pool) (source : Source σ) :
    let noise := pack ((List.range noiseBits).map (Draw.wordBit source.stream))
    let behind := source.advance (4 * noiseBits)
    (Receiver.init t setup beta pool).run.run source =
      if source.failures < maxAttempts then
        (.ok (Receiver.initWith t setup beta noise
          (ByteStream.take paddingBytes behind.stream).1 pool),
          { behind.advance paddingBytes with failures := 0 })
      else (.error .sourceFailed, { behind with failures := source.failures - maxAttempts }) := by
  intro noise behind
  have hchoices := length_encodeWith_ne_zero beta (publicGadget t) noise
  have hinit := AdditiveTransfer.run_init t setup hchoices pool behind
  have hfailures : behind.failures = source.failures := Source.failures_advance ..
  rw [Receiver.init, Draw.run_bind (Draw.run_packedBits noiseBits source), initWith_eq_map]
  rw [hfailures] at hinit
  exact Draw.run_bind_ite hinit

theorem length_noise (s : Nat → Bool) :
    (pack ((List.range noiseBits).map s)).length = noiseBits / 8 := by
  rw [length_pack, List.length_map, List.length_range]
  rfl

/-- Whatever is drawn, the receiver waits with choices for `beta` and with the chosen ones of two
outputs for each item, both of which the sender has. -/
theorem init_yields {σ : Type} [ByteStream σ] (agree : Agree sendSetup receiveSetup)
    (t : Transcript) (beta : Scalar) (pool : Pool) (source : Source σ)
    {property : Except OTError (Receiver × Extension.Message) → Prop}
    (h : ∀ (choices : Bytes) (request : Extension.Message) (v0 v1 : Nat → Block),
      choices.length = gadgetBytes →
      (∑ j ∈ Finset.range gadgetSize, if bit choices j then (publicGadget t).getD j 0 else 0) =
        beta →
      (∀ pool, Extension.send t sendSetup batch request pool =
        .ok ⟨(List.range gadgetSize).map v0, (List.range gadgetSize).map v1⟩) →
      property (.ok (Receiver.waiting t choices v0 v1 pool, request))) :
    (Receiver.init t receiveSetup beta pool).Yields source property := by
  refine Draw.yields_of_run (run_init t receiveSetup beta pool source) ?_
  have hnoise := length_noise (Draw.wordBit source.stream)
  obtain ⟨request, v0, v1, hinit, hextend⟩ := exists_receiver agree t beta hnoise
    (ByteStream.length_take paddingBytes (source.advance (4 * noiseBits)).stream)
  rw [hinit pool]
  refine h _ request v0 v1 ?_ (sum_chosen_entries t beta hnoise) hextend
  rw [length_encodeWith, hnoise]
  rfl

/-! ## The receiver's answer -/

/-- The receiver's answer to a message with any ciphertexts. -/
theorem finish_waiting (t : Transcript) {choices : Bytes} (hchoices : choices.length = gadgetBytes)
    (v0 v1 : Nat → Block) (ciphertexts : Nat → ScalarPair) (verifyU : Scalar) (verifyR : Block)
    (pool : Pool) :
    let additive : AdditiveTransfer.Message := ⟨(List.range gadgetSize).map ciphertexts⟩
    let c := challenges t additive
    let share j := receiveShare (padSalt t) (bit choices j) (if bit choices j then v1 j else v0 j)
      (ciphertexts j)
    (Receiver.waiting t choices v0 v1 pool).finish ⟨additive, verifyU, verifyR⟩ =
      if c.hash ((List.range gadgetSize).map fun j =>
        c.recompute verifyU (bit choices j) (share j)) = verifyR
      then .ok (∑ j ∈ Finset.range gadgetSize, (publicGadget t).getD j 0 * (share j).1)
      else .error .multiplicationCheckFailed := by
  intro additive c share
  have hcount : 8 * choices.length = gadgetSize := by
    rw [hchoices]
    rfl
  have hshares : (Receiver.waiting t choices v0 v1 pool).additive.finish additive =
      .ok ((List.range gadgetSize).map share) :=
    AdditiveTransfer.finish_map_range t hcount _ ciphertexts pool
  have hexpected : pool.mapList (fun item => c.recompute verifyU item.1 item.2)
      ((unpack choices).zip ((List.range gadgetSize).map share)) =
        (List.range gadgetSize).map fun j => c.recompute verifyU (bit choices j) (share j) := by
    rw [Pool.mapList_eq_map, unpack_eq_map, hcount, List.zip_map', List.map_map]
    rfl
  have hfinish : (Receiver.waiting t choices v0 v1 pool).finish ⟨additive, verifyU, verifyR⟩ =
      if c.hash (pool.mapList (fun item => c.recompute verifyU item.1 item.2)
        ((unpack choices).zip ((List.range gadgetSize).map share))) ≠ verifyR
      then .error .multiplicationCheckFailed
      else .ok (weightedSum (publicGadget t) ((List.range gadgetSize).map share)) := by
    unfold Receiver.finish
    rw [hshares]
    simp only [bind, Except.bind]
    rfl
  rw [hfinish, hexpected, weightedSum_eq_sum (length_publicGadget t), ite_not]

/-- The receiver's answer to any inputs of the sender. -/
theorem finish_sealed (t : Transcript) {choices : Bytes} (hchoices : choices.length = gadgetBytes)
    (v0 v1 : Nat → Block) (inputs : Nat → ScalarPair) (verifyU : Scalar) (verifyR : Block)
    (pool : Pool) :
    let share j := padShare (padSalt t) (v0 j)
    let additive := sealedMessage t v0 v1 inputs
    let c := challenges t additive
    (Receiver.waiting t choices v0 v1 pool).finish ⟨additive, verifyU, verifyR⟩ =
      if c.hash ((List.range gadgetSize).map fun j =>
        c.demanded verifyU (bit choices j) (inputs j) (share j)) = verifyR
      then .ok (∑ j ∈ Finset.range gadgetSize, (publicGadget t).getD j 0 *
        ((if bit choices j then (inputs j).1 else 0) - (share j).1))
      else .error .multiplicationCheckFailed := by
  intro share additive c
  have hfinish := finish_waiting t hchoices v0 v1
    (fun j => sealInput (padSalt t) (v0 j) (v1 j) (inputs j)) verifyU verifyR pool
  -- in this order: the second lemma would also rewrite the shares that the first one is about
  simp only [recompute_receiveShare] at hfinish
  simp only [receiveShare_sealInput] at hfinish
  exact hfinish

/-- Both parties' shares add up to the chosen inputs. -/
theorem sum_add_sum_sub (entry share chosen : Nat → Scalar) (count : Nat) :
    ∑ j ∈ Finset.range count, entry j * share j +
        ∑ j ∈ Finset.range count, entry j * (chosen j - share j) =
      ∑ j ∈ Finset.range count, entry j * chosen j := by
  rw [← Finset.sum_add_distrib]
  refine Finset.sum_congr rfl fun j _ => ?_
  ring

/-! ## An honest sender -/

/-- The message of an honest sender for the outputs of an extension. -/
theorem send_map_range {t : Transcript} {setup : SendSetup} {request : Extension.Message}
    {pool : Pool} {v0 v1 : Nat → Block}
    (houtput : Extension.send t setup batch request pool =
      .ok ⟨(List.range gadgetSize).map v0, (List.range gadgetSize).map v1⟩)
    (alpha alphaHat : Scalar) :
    let share j := padShare (padSalt t) (v0 j)
    let additive := sealedMessage t v0 v1 fun _ => (alpha, alphaHat)
    let c := challenges t additive
    (Sender.make t alpha alphaHat pool).send setup request =
      .ok (∑ j ∈ Finset.range gadgetSize, (publicGadget t).getD j 0 * (share j).1,
        ⟨additive, c.combine (alpha, alphaHat),
          c.hash ((List.range gadgetSize).map fun j => c.combine (share j))⟩) := by
  intro share additive c
  have hshares := AdditiveTransfer.send_map_range houtput (alpha, alphaHat)
  rw [← weightedSum_eq_sum (length_publicGadget t)]
  unfold Sender.send Sender.make
  simp only [hshares, bind, Except.bind, Pool.mapList_eq_map, List.map_map]
  rfl

/-- The receiver accepts what an honest sender has sent. -/
theorem finish_honest (t : Transcript) {choices : Bytes} (hchoices : choices.length = gadgetBytes)
    (v0 v1 : Nat → Block) (alpha alphaHat : Scalar) (pool : Pool) :
    let share j := padShare (padSalt t) (v0 j)
    let additive := sealedMessage t v0 v1 fun _ => (alpha, alphaHat)
    let c := challenges t additive
    (Receiver.waiting t choices v0 v1 pool).finish ⟨additive, c.combine (alpha, alphaHat),
        c.hash ((List.range gadgetSize).map fun j => c.combine (share j))⟩ =
      .ok (∑ j ∈ Finset.range gadgetSize, (publicGadget t).getD j 0 *
        ((if bit choices j then alpha else 0) - (share j).1)) := by
  intro share additive c
  have hdemanded : ((List.range gadgetSize).map fun j =>
      c.demanded (c.combine (alpha, alphaHat)) (bit choices j) (alpha, alphaHat) (share j)) =
        (List.range gadgetSize).map fun j => c.combine (share j) :=
    List.map_congr_left fun j _ => demanded_combine ..
  have hfinish := finish_sealed t hchoices v0 v1 (fun _ => (alpha, alphaHat))
    (c.combine (alpha, alphaHat))
    (c.hash ((List.range gadgetSize).map fun j => c.combine (share j)))
    pool
  exact hfinish.trans (if_pos (congrArg c.hash hdemanded))

/-- **Correctness of the multiplication.** The receiver fails only with its source. Otherwise
nothing is refused, and the two shares add up to the product. -/
theorem shares_add_up_to_product {σ : Type} [ByteStream σ] (agree : Agree sendSetup receiveSetup)
    (t : Transcript) (alpha alphaHat beta : Scalar) (senderPool receiverPool : Pool)
    (source : Source σ) :
    (Receiver.init t receiveSetup beta receiverPool).Yields source fun result =>
      ∃ receiver request senderShare answer receiverShare,
        result = .ok (receiver, request) ∧
        (Sender.make t alpha alphaHat senderPool).send sendSetup request =
          .ok (senderShare, answer) ∧
        receiver.finish answer = .ok receiverShare ∧
        senderShare + receiverShare = alpha * beta := by
  refine init_yields agree t beta receiverPool source
    fun choices request v0 v1 hchoices hbeta hextend => ?_
  have hentries : ∀ j ∈ Finset.range gadgetSize,
      (publicGadget t).getD j 0 * (if bit choices j then alpha else 0) =
        alpha * if bit choices j then (publicGadget t).getD j 0 else 0 := by
    intro j _
    rw [mul_ite, mul_ite, mul_zero, mul_zero, mul_comm]
  refine ⟨_, _, _, _, _, rfl, send_map_range (hextend senderPool) alpha alphaHat,
    finish_honest t hchoices v0 v1 alpha alphaHat receiverPool, ?_⟩
  rw [sum_add_sum_sub, Finset.sum_congr rfl hentries, ← Finset.mul_sum, hbeta]

/-- The source fails as often as it may. -/
theorem shares_add_up_to_thirty_five :
    let t := Transcript.new [7]
    let setup := SendSetup.select 0x15#256 countedKeys
    Agree setup countedKeys ∧
      ∃ receiver request rest senderShare answer receiverShare,
        (Receiver.init t countedKeys 7 (.parallel 4)).run.run (Source.ofTape [0xFF, 1] [] 254) =
          (.ok (.ok (receiver, request)), rest) ∧
        (Sender.make t 5 9 .sequential).send setup request = .ok (senderShare, answer) ∧
        receiver.finish answer = .ok receiverShare ∧
        senderShare + receiverShare = 35 := by
  intro t setup
  have agree : Agree setup countedKeys := agree_select _ _
  obtain ⟨_, rest, hrun, receiver, request, senderShare, answer, receiverShare, rfl, hsend, hfinish,
      hsum⟩ :=
    Draw.exists_run_of_yields (shares_add_up_to_product agree t 5 9 7 .sequential (.parallel 4)
      (Source.ofTape [0xFF, 1] [] 254)) (show 254 < maxAttempts by decide)
  exact ⟨agree, receiver, request, rest, senderShare, answer, receiverShare, hrun, hsend, hfinish,
    hsum.trans (by decide)⟩

/-! ## A malicious sender -/

end

end ObliviousTransfer.Multiply
