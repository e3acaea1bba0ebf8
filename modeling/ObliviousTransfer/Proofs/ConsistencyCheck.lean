import Mathlib
import ObliviousTransfer.Extension
import ObliviousTransfer.Proofs.CarrylessProduct
import ObliviousTransfer.Proofs.Correlation
import ObliviousTransfer.Proofs.Draws
import ObliviousTransfer.Proofs.Verdicts

/-!
# The consistency check of an extension

The sums of the check form a group in which every element is its own negative, and the product of a
challenge and a block is linear in both factors. So the sender's test
`∑ χⱼ * qⱼ + x * Δ = t` can be computed with: it is one linear equation in the sender's blocks.

## Shape of the proof

* `checkSums_map_range` turns the chunked sums into one sum over the items.
* `send_eq` is the sender's answer to any message with a matrix of the right size.
* A receiver that sticks to reference choices reveals `referenceMessage`. The terms of its own
  blocks cancel, and so do those of the choices; what is left over are the deviations under the mask
  `Δ` (`check_referenceMessage`).
-/

namespace ObliviousTransfer.Extension

open Correlated Bits

/-! ## Sums of products -/

namespace Sums

instance : Zero Sums := ⟨zero⟩

instance : Add Sums := ⟨add⟩

/-- Every sum is its own negative. -/
instance : Neg Sums := ⟨id⟩

@[ext]
theorem ext {a b : Sums} (hlow : a.low = b.low) (hhigh : a.high = b.high) : a = b := by
  cases a; cases b; simp_all

@[simp]
theorem low_zero : (0 : Sums).low = 0 := rfl

@[simp]
theorem high_zero : (0 : Sums).high = 0 := rfl

@[simp]
theorem low_add (a b : Sums) : (a + b).low = a.low ^^^ b.low := rfl

@[simp]
theorem high_add (a b : Sums) : (a + b).high = a.high ^^^ b.high := rfl

@[simp]
theorem neg_eq (a : Sums) : -a = a := rfl

instance : AddCommGroup Sums where
  add_assoc a b c := by ext1 <;> simp [BitVec.xor_assoc]
  zero_add a := by ext1 <;> simp
  add_zero a := by ext1 <;> simp
  add_comm a b := by ext1 <;> simp [BitVec.xor_comm]
  neg_add_cancel a := by ext1 <;> simp
  nsmul := nsmulRec
  zsmul := zsmulRec

theorem add_self (a : Sums) : a + a = 0 :=
  neg_add_cancel a

/-- A challenge times both halves of a block. -/
def product (challenge : HalfBlock) (block : Block) : Sums :=
  ⟨BinaryPolynomial.mul challenge block.low, BinaryPolynomial.mul challenge block.high⟩

@[simp]
theorem low_product (challenge : HalfBlock) (block : Block) :
    (product challenge block).low = BinaryPolynomial.mul challenge block.low := by
  rw [product]

@[simp]
theorem high_product (challenge : HalfBlock) (block : Block) :
    (product challenge block).high = BinaryPolynomial.mul challenge block.high := by
  rw [product]

theorem accumulate_eq (sums : Sums) (challenge : HalfBlock) (block : Block) :
    sums.accumulate challenge block = sums + product challenge block := by
  ext1
  · simp only [accumulate, BinaryPolynomial.accumulate_eq, low_add, low_product]
  · simp only [accumulate, BinaryPolynomial.accumulate_eq, high_add, high_product]

theorem product_xor (challenge : HalfBlock) (a b : Block) :
    product challenge (a ^^^ b) = product challenge a + product challenge b := by
  ext1
  · simp only [low_add, low_product, Block.low_xor, BinaryPolynomial.mul_xor]
  · simp only [high_add, high_product, Block.high_xor, BinaryPolynomial.mul_xor]

theorem xor_product (a b : HalfBlock) (block : Block) :
    product (a ^^^ b) block = product a block + product b block := by
  ext1
  · simp only [low_add, low_product, BinaryPolynomial.xor_mul]
  · simp only [high_add, high_product, BinaryPolynomial.xor_mul]

/-- Products have no zero divisors. -/
theorem product_eq_zero_iff (challenge : HalfBlock) (block : Block) :
    product challenge block = 0 ↔ challenge = 0 ∨ block = 0 := by
  rw [Block.eq_zero_iff_halves, Sums.ext_iff]
  simp only [low_product, high_product, low_zero, high_zero, BinaryPolynomial.mul_eq_zero_iff]
  tauto

@[simp]
theorem product_zero (challenge : HalfBlock) : product challenge 0#256 = 0 :=
  (product_eq_zero_iff challenge 0).2 (Or.inr rfl)

@[simp]
theorem zero_product (block : Block) : product 0#128 block = 0 :=
  (product_eq_zero_iff 0 block).2 (Or.inl rfl)

end Sums

/-! ## Sums over the items -/

/-- The sum of the challenges times the blocks, over the first `count` items. -/
def blockSums (challenge : Nat → HalfBlock) (block : Nat → Block) (count : Nat) : Sums :=
  ∑ j ∈ Finset.range count, Sums.product (challenge j) (block j)

/-- The sum of the challenges at the items that are chosen. -/
def chosenSum (challenge : Nat → HalfBlock) (choice : Nat → Bool) (count : Nat) : HalfBlock :=
  ((List.range count).filter choice).foldl (fun sum j => sum ^^^ challenge j) 0

theorem blockSums_xor (challenge : Nat → HalfBlock) (a b : Nat → Block) (count : Nat) :
    blockSums challenge (fun j => a j ^^^ b j) count =
      blockSums challenge a count + blockSums challenge b count := by
  simp only [blockSums, Sums.product_xor, Finset.sum_add_distrib]

theorem blockSums_congr {challenge : Nat → HalfBlock} {a b : Nat → Block} {count : Nat}
    (h : ∀ j < count, a j = b j) : blockSums challenge a count = blockSums challenge b count :=
  Finset.sum_congr rfl fun j hj => by rw [h j (Finset.mem_range.1 hj)]

theorem blockSums_eq_zero {challenge : Nat → HalfBlock} {block : Nat → Block} {count : Nat}
    (h : ∀ j < count, block j = 0) : blockSums challenge block count = 0 := by
  refine Finset.sum_eq_zero fun j hj => ?_
  rw [h j (Finset.mem_range.1 hj)]
  exact Sums.product_zero _

/-- Blocks that are zero at all items but one leave one product. -/
theorem blockSums_eq_single {challenge : Nat → HalfBlock} {block : Nat → Block} {count k : Nat}
    (hk : k < count) (h : ∀ j < count, j ≠ k → block j = 0) :
    blockSums challenge block count = Sums.product (challenge k) (block k) := by
  refine Finset.sum_eq_single_of_mem k (Finset.mem_range.2 hk) fun j hj hne => ?_
  rw [h j (Finset.mem_range.1 hj) hne]
  exact Sums.product_zero _

/-- The sum of the chosen challenges times a block is the sum of the challenges times what the
choices leave of the block. -/
theorem product_chosenSum (challenge : Nat → HalfBlock) (choice : Nat → Bool) (count : Nat)
    (block : Block) :
    Sums.product (chosenSum challenge choice count) block =
      blockSums challenge (fun j => block &&& Block.fill (choice j)) count := by
  induction count with
  | zero => exact Sums.zero_product block
  | succ count ih =>
    -- the last item adds its challenge to the one sum and its product to the other, or nothing to
    -- both
    rw [blockSums, Finset.sum_range_succ, ← blockSums, ← ih, Block.and_fill, chosenSum,
      List.range_succ, List.filter_append, List.foldl_append, ← chosenSum]
    cases h : choice count with
    | false => simp [h]
    | true => simp [h, Sums.xor_product]

/-! ## The sums as they are computed -/

/-- Summing up chunk by chunk makes no difference. -/
theorem checkSums_eq_sum (blocks : List Block) (challenges : List HalfBlock) (pool : Pool) :
    checkSums blocks challenges pool =
      ((blocks.zip challenges).map fun entry => Sums.product entry.2 entry.1).sum := by
  let term (entry : Block × HalfBlock) : Sums := Sums.product entry.2 entry.1
  let chunks := slices chunkSize (blocks.zip challenges)
  have chunk (entries : List (Block × HalfBlock)) :
      entries.foldl (fun sums entry => sums.accumulate entry.2 entry.1) Sums.zero =
        (entries.map term).sum := by
    rw [List.sum_eq_foldl, List.foldl_map]
    simp only [Sums.accumulate_eq]
    rfl
  have total (parts : List Sums) : parts.foldl Sums.add Sums.zero = parts.sum :=
    List.sum_eq_foldl.symm
  unfold checkSums
  simp only [chunk, Pool.mapList_eq_map, total]
  calc (chunks.map fun entries => (entries.map term).sum).sum
      = ((chunks.map (List.map term)).map List.sum).sum := by rw [List.map_map]; rfl
    _ = (chunks.flatten.map term).sum := by rw [← List.sum_flatten, List.map_flatten]
    _ = ((blocks.zip challenges).map term).sum := by rw [flatten_slices]

theorem checkSums_map_range (block : Nat → Block) {challenges : List HalfBlock} {count : Nat}
    (hcount : count ≤ challenges.length) (pool : Pool) :
    checkSums ((List.range count).map block) challenges pool =
      blockSums (challenges.getD · 0) block count := by
  rw [checkSums_eq_sum, zip_map_range block hcount 0, List.map_map]
  rfl

theorem choiceSum_eq (choices : Bytes) {challenges : List HalfBlock}
    (hcount : challenges.length = 8 * choices.length) :
    choiceSum choices challenges =
      chosenSum (challenges.getD · 0) (bit choices) (8 * choices.length) := by
  rw [choiceSum, unpack_eq_map, zip_map_range _ hcount.ge 0, List.foldl_map, chosenSum,
    List.foldl_filter]

/-- The challenge for an item of a batch. -/
def challenge (t : Transcript) (extend : ExtendMessage) (count j : Nat) : HalfBlock :=
  (challenges t extend count).getD j 0

@[simp]
theorem length_challenges (t : Transcript) (extend : ExtendMessage) (count : Nat) :
    (challenges t extend count).length = count :=
  Reading.length_times ..

/-- The output for a block at a position. -/
def output (t : Transcript) (j : Nat) (block : Block) : Block :=
  hashParts [Bytes.lengthField j, block.toBytes]
    ((t.fork outputDomain []).read Reading.block).toBytes

theorem outputs_map_range (t : Transcript) (block : Nat → Block) (count : Nat) (pool : Pool) :
    outputs t ((List.range count).map block) pool =
      (List.range count).map fun j => output t j (block j) := by
  unfold outputs
  simp only [Pool.mapList_eq_map]
  apply List.ext_getElem
  · simp
  · intro j h₁ h₂
    simp [output]

/-! ## Both parties -/

/-- The number of items of a batch, padding included. -/
def BatchSize.items (batch : BatchSize) : Nat :=
  8 * batch.rowLength.bytes

/-- The sender's result for the blocks of a batch. -/
def sendOutput (t : Transcript) (delta : Block) (block : Nat → Block) (batch : BatchSize) :
    SendOutput :=
  ⟨(List.range (8 * batch.bytes)).map fun j => output t j (block j),
    (List.range (8 * batch.bytes)).map fun j => output t j (block j ^^^ delta)⟩

section

variable {sendSetup : SendSetup} {receiveSetup : ReceiveSetup}

/-- The sender's answer to a message with a matrix of the right size. -/
theorem send_eq (agree : Agree sendSetup receiveSetup) (t : Transcript) {batch : BatchSize}
    (hpos : batch.bytes ≠ 0) {message : Message}
    (hlength : message.extend.u.length = baseCount * (batch.bytes + paddingBytes)) (pool : Pool) :
    let block := senderBlock sendSetup receiveSetup t batch.rowLength.bytes message.extend
    send t sendSetup batch message pool =
      if blockSums (challenge t message.extend batch.items) block batch.items +
          Sums.product message.x sendSetup.delta = message.t then
        .ok (sendOutput t sendSetup.delta block batch)
      else .error .consistencyCheckFailed := by
  intro block
  have hrow : batch.rowLength.bytes ≠ 0 := Nat.ne_of_gt (Nat.add_pos_right _ (by decide))
  have hblocks : Correlated.send t sendSetup batch.rowLength message.extend pool =
      .ok ((List.range batch.items).map block) := Correlated.send_eq_ok agree t hrow hlength pool
  have hsums : checkSums ((List.range batch.items).map block)
      (challenges t message.extend batch.items) pool =
        blockSums (challenge t message.extend batch.items) block batch.items :=
    checkSums_map_range block (length_challenges ..).ge pool
  have hkept : 8 * batch.bytes ≤ batch.items :=
    Nat.mul_le_mul_left 8 (Nat.le_add_right batch.bytes paddingBytes)
  unfold send
  rw [if_neg hpos, hblocks]
  simp only [bind, Except.bind, List.length_map, List.length_range]
  rw [hsums, Sums.accumulate_eq, take_map_range hkept, List.map_map, outputs_map_range,
    outputs_map_range, ite_not]
  rfl

/-! ## A receiver that sticks to reference choices -/

/-- The message of a receiver that sends any matrix and reveals the sums for reference choices. -/
def referenceMessage (setup : ReceiveSetup) (t : Transcript) (length : Nat) (extend : ExtendMessage)
    (reference : Nat → Bool) : Message where
  extend
  x := chosenSum (challenge t extend (8 * length)) reference (8 * length)
  t := blockSums (challenge t extend (8 * length)) (receiverBlock setup t length) (8 * length)

/-- Where the choices that the matrix applies to an item are not the reference choice. -/
def deviation (setup : ReceiveSetup) (t : Transcript) (length : Nat) (extend : ExtendMessage)
    (reference : Nat → Bool) (j : Nat) : Block :=
  appliedChoices setup t length extend j ^^^ Block.fill (reference j)

/-- The sender's test is a linear equation in the deviations under the mask `Δ`. -/
theorem check_referenceMessage (sendSetup : SendSetup) (receiveSetup : ReceiveSetup)
    (t : Transcript) (length : Nat) (extend : ExtendMessage) (reference : Nat → Bool) :
    let message := referenceMessage receiveSetup t length extend reference
    let χ := challenge t extend (8 * length)
    blockSums χ (senderBlock sendSetup receiveSetup t length extend) (8 * length) +
        Sums.product message.x sendSetup.delta = message.t ↔
      blockSums χ
        (fun j => deviation receiveSetup t length extend reference j &&& sendSetup.delta)
        (8 * length) = 0 := by
  intro message χ
  let own := blockSums χ (receiverBlock receiveSetup t length) (8 * length)
  let chosen := blockSums χ (fun j => sendSetup.delta &&& Block.fill (reference j)) (8 * length)
  let left := blockSums χ (fun j =>
    deviation receiveSetup t length extend reference j &&& sendSetup.delta) (8 * length)
  have masked (j : Nat) : sendSetup.delta &&& appliedChoices receiveSetup t length extend j =
      (deviation receiveSetup t length extend reference j &&& sendSetup.delta) ^^^
        (sendSetup.delta &&& Block.fill (reference j)) := by
    apply BitVec.eq_of_getLsbD_eq
    intro i hi
    simp only [deviation, BitVec.getLsbD_and, BitVec.getLsbD_xor]
    cases sendSetup.delta.getLsbD i <;> simp
  have hblocks : blockSums χ (senderBlock sendSetup receiveSetup t length extend) (8 * length) =
      own + (left + chosen) := by
    rw [← blockSums_xor, ← blockSums_xor]
    exact blockSums_congr fun j _ => by rw [senderBlock, masked]
  have hx : Sums.product message.x sendSetup.delta = chosen := product_chosenSum ..
  -- the receiver's own sums stand on both sides, and the sums for its choices stand twice on the
  -- left
  change _ = own ↔ left = 0
  rw [hblocks, hx, add_assoc, add_assoc, Sums.add_self, add_zero, add_eq_left]

/-- The sender's answer to a receiver that sticks to reference choices. -/
theorem send_referenceMessage (agree : Agree sendSetup receiveSetup) (t : Transcript)
    {batch : BatchSize} (hpos : batch.bytes ≠ 0) {extend : ExtendMessage}
    (hlength : extend.u.length = baseCount * (batch.bytes + paddingBytes)) (reference : Nat → Bool)
    (pool : Pool) :
    let length := batch.bytes + paddingBytes
    send t sendSetup batch (referenceMessage receiveSetup t length extend reference) pool =
      if blockSums (challenge t extend (8 * length)) (fun j =>
          deviation receiveSetup t length extend reference j &&& sendSetup.delta) (8 * length) = 0
      then .ok (sendOutput t sendSetup.delta
        (senderBlock sendSetup receiveSetup t length extend) batch)
      else .error .consistencyCheckFailed := by
  intro length
  refine (send_eq agree t hpos hlength pool).trans ?_
  simp only [← check_referenceMessage sendSetup receiveSetup t length extend reference]
  rfl

/-- **Selective failures.** A receiver that sticks to reference choices passes the check if and only
if its deviations under the mask `Δ` cancel. A deviation in one column passes if `Δ` masks it or if
the challenge is zero, and nothing is ever seen of deviations in rows in which `Δ` has no bit. -/
theorem send_accepts_iff_masked_deviations_cancel (agree : Agree sendSetup receiveSetup)
    (t : Transcript) {batch : BatchSize} (hpos : batch.bytes ≠ 0) {extend : ExtendMessage}
    (hlength : extend.u.length = baseCount * (batch.bytes + paddingBytes)) (reference : Nat → Bool)
    (pool : Pool) :
    let length := batch.bytes + paddingBytes
    let count := 8 * length
    let χ := challenge t extend count
    let deviates := deviation receiveSetup t length extend reference
    let result :=
      send t sendSetup batch (referenceMessage receiveSetup t length extend reference) pool
    ((∃ output, result = .ok output) ↔
      blockSums χ (fun j => deviates j &&& sendSetup.delta) count = 0) ∧
    ((¬∃ output, result = .ok output) → result = .error .consistencyCheckFailed) ∧
    (∀ k < count, (∀ j < count, j ≠ k → deviates j = 0) →
      ((∃ output, result = .ok output) ↔ deviates k &&& sendSetup.delta = 0 ∨ χ k = 0)) ∧
    ((∀ j < count, ∀ i : Fin baseCount,
        (deviates j).getLsbD i = true → sendSetup.delta.getLsbD i = false) →
      ∃ output, result = .ok output) := by
  intro length count χ deviates result
  have hresult : result =
      if blockSums χ (fun j => deviates j &&& sendSetup.delta) count = 0
      then .ok (sendOutput t sendSetup.delta
        (senderBlock sendSetup receiveSetup t length extend) batch)
      else .error .consistencyCheckFailed :=
    send_referenceMessage agree t hpos hlength reference pool
  have accepted := exists_ok_iff hresult
  refine ⟨accepted, eq_error_of_not_exists_ok hresult, fun k hk hothers => ?_, fun hmasked => ?_⟩
  · have hsingle : blockSums χ (fun j => deviates j &&& sendSetup.delta) count =
        Sums.product (χ k) (deviates k &&& sendSetup.delta) :=
      blockSums_eq_single hk fun j hj hne => by
        rw [hothers j hj hne]
        exact BitVec.zero_and
    rw [accepted, hsingle, Sums.product_eq_zero_iff, or_comm]
  · have hnone (j : Nat) (hj : j < count) : deviates j &&& sendSetup.delta = 0 :=
      Block.and_eq_zero (hmasked j hj)
    exact accepted.2 (blockSums_eq_zero hnone)

/-- A receiver that chooses nothing but claims a choice for item 5 passes only if the challenge of
this item is zero. -/
theorem send_accepts_one_false_claim_iff :
    let t := Transcript.new []
    let setup := SendSetup.select 0x15#256 countedKeys
    let batch : BatchSize := ⟨1, by decide⟩
    let extend := honestMatrix t countedKeys (List.replicate 43 0)
    let message := referenceMessage countedKeys t 43 extend fun j => decide (j = 5)
    Agree setup countedKeys ∧ batch.bytes ≠ 0 ∧
      extend.u.length = baseCount * (batch.bytes + paddingBytes) ∧
      ((∃ output, send t setup batch message (.parallel 3) = .ok output) ↔
        challenge t extend 344 5 = 0) := by
  intro t setup batch extend message
  have agree : Agree setup countedKeys := agree_select _ _
  have hlength : extend.u.length = baseCount * (batch.bytes + paddingBytes) :=
    length_honestMatrix t countedKeys (List.replicate 43 0)
  have deviates (j : Nat) : deviation countedKeys t 43 extend (fun j => decide (j = 5)) j =
      Block.fill (decide (j = 5)) := by
    have hbit : bit (List.replicate 43 0) j = false := by
      rw [bit_eq_getD, List.getD_eq_getElem?_getD, List.getElem?_getD_replicate_default_eq]
      exact Nat.zero_testBit _
    have happlied : appliedChoices countedKeys t 43 extend j = Block.fill false := by
      rw [← hbit]
      exact appliedChoices_honestMatrix t countedKeys (List.replicate 43 0) j
    rw [deviation, happlied, Block.fill_false, BitVec.zero_xor]
  have verdict := (send_accepts_iff_masked_deviations_cancel agree t (by decide) hlength
    (fun j => decide (j = 5)) (.parallel 3)).2.2.1 5 (by decide) fun j _ hne =>
      by
        refine (deviates j).trans ?_
        rw [decide_eq_false hne]
        exact Block.fill_false
  -- a deviation in all rows is not masked, so only the challenge is left to hide it
  have hvisible : deviation countedKeys t 43 extend (fun j => decide (j = 5)) 5 &&&
      setup.delta ≠ 0 := by
    rw [deviates 5, BitVec.and_comm, Block.and_fill]
    decide
  exact ⟨agree, by decide, hlength, verdict.trans (or_iff_right hvisible)⟩

end

end ObliviousTransfer.Extension
