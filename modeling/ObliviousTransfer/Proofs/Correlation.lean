import Mathlib
import ObliviousTransfer.Correlated.Extend
import ObliviousTransfer.Proofs.Transposition

/-!
# The correlation of an extension

For every matrix, honest or not, the sender's blocks differ from the receiver's by `Δ` at exactly
the places where the matrix makes the receiver choose: with `tⱼ` the receiver's block for item `j`
and `eⱼ` the choices that the rows of the matrix apply to this item, the sender's block is
`tⱼ ⊕ (Δ ∧ eⱼ)` (`send_eq_ok`). An honest matrix applies the choice of the item in all its rows
(`appliedChoices_honestMatrix`). `blocks_differ_by_applied_choices` puts both sides together.
-/

namespace ObliviousTransfer.Correlated

open BitMatrix Bits

/-! ## Setups that agree -/

/-- The sender's setup that a receiver's setup leaves for a block `Δ`. -/
def SendSetup.select (delta : Block) (setup : ReceiveSetup) : SendSetup :=
  ⟨delta, Vector.ofFn fun i => setup.key i (delta.getLsbD i)⟩

/-- Every receiver's setup and every `Δ` belong to setups that agree. -/
theorem agree_select (delta : Block) (setup : ReceiveSetup) :
    Agree (SendSetup.select delta setup) setup := by
  intro i
  simp [SendSetup.select, SendSetup.key]

/-- A receiver's setup whose 512 keys are all different. -/
def countedKeys : ReceiveSetup :=
  ⟨Vector.ofFn fun i => BitVec.ofNat 256 i, Vector.ofFn fun i => BitVec.ofNat 256 (baseCount + i)⟩

/-! ## Both parties' rows -/

/-- A key of the receiver at a base index, stretched to a row. -/
def stretchedRow (setup : ReceiveSetup) (t : Transcript) (length : Nat) (choice : Bool)
    (i : Fin baseCount) : Bytes :=
  Prg.expand (setup.key i choice) (extendNonce t) i length

/-- The receiver's block for an item: a column of the stretched first keys. -/
def receiverBlock (setup : ReceiveSetup) (t : Transcript) (length j : Nat) : Block :=
  column (List.ofFn (stretchedRow setup t length false)) j

/-- The choices that a row of the matrix applies: what is left of it without the stretched keys. -/
def appliedRow (setup : ReceiveSetup) (t : Transcript) (length : Nat) (message : ExtendMessage)
    (i : Fin baseCount) : Bytes :=
  Bytes.xorInto (Bytes.xorInto (message.row i) (stretchedRow setup t length false i))
    (stretchedRow setup t length true i)

/-- The choices that the rows of the matrix apply to an item. -/
def appliedChoices (setup : ReceiveSetup) (t : Transcript) (length : Nat) (message : ExtendMessage)
    (j : Nat) : Block :=
  column (List.ofFn (appliedRow setup t length message)) j

/-- The sender's block for an item: the receiver's, plus `Δ` where the matrix applies a choice. -/
def senderBlock (sendSetup : SendSetup) (receiveSetup : ReceiveSetup) (t : Transcript)
    (length : Nat) (message : ExtendMessage) (j : Nat) : Block :=
  receiverBlock receiveSetup t length j ^^^
    (sendSetup.delta &&& appliedChoices receiveSetup t length message j)

@[simp]
theorem length_expand (key nonce : Block) (index length : Nat) :
    (Prg.expand key nonce index length).length = length :=
  ByteStream.length_take ..

@[simp]
theorem length_stretchedRow (setup : ReceiveSetup) (t : Transcript) (length : Nat) (choice : Bool)
    (i : Fin baseCount) : (stretchedRow setup t length choice i).length = length :=
  length_expand ..

/-- Each bit of a column is a bit of one row. -/
theorem getLsbD_column_ofFn (rows : Fin baseCount → Bytes) (j : Nat) (i : Fin baseCount) :
    (column (List.ofFn rows) j).getLsbD i = bit (rows i) j := by
  have hi : i.val < (List.ofFn rows).length := by rw [List.length_ofFn]; exact i.isLt
  rw [column, Block.getLsbD_ofBits _ i.isLt, List.getD_eq_getElem _ _ hi, List.getElem_ofFn]

/-- Columns with the same bits are equal. -/
theorem eq_column_ofFn {block : Block} {rows : Fin baseCount → Bytes} {j : Nat}
    (h : ∀ i : Fin baseCount, block.getLsbD i = bit (rows i) j) :
    block = column (List.ofFn rows) j := by
  apply BitVec.eq_of_getLsbD_eq
  intro i hi
  rw [h ⟨i, hi⟩]
  exact (getLsbD_column_ofFn rows j ⟨i, hi⟩).symm

/-! ## The matrix -/

section

variable {message : ExtendMessage} {length : Nat}

theorem batchBytes_eq (hlength : message.u.length = baseCount * length) :
    message.batchBytes = length := by
  rw [ExtendMessage.batchBytes, hlength, Nat.mul_div_cancel_left _ (by decide)]

theorem length_row (hlength : message.u.length = baseCount * length) (i : Fin baseCount) :
    (message.row i).length = length := by
  have hi : (i + 1) * length ≤ baseCount * length := Nat.mul_le_mul_right _ i.isLt
  rw [Nat.add_mul, Nat.one_mul] at hi
  rw [ExtendMessage.row, batchBytes_eq hlength, List.length_take, List.length_drop, hlength]
  omega

/-- Such a message has a row at every base index. -/
theorem row?_eq_some (hlength : message.u.length = baseCount * length) (i : Fin baseCount) :
    message.row? i = some (message.row i) := by
  have hlimit : i.val + 1 < sizeLimit := Nat.lt_of_le_of_lt i.isLt (by decide)
  have hrow : (i.val + 1) * message.batchBytes ≤ message.u.length := by
    rw [batchBytes_eq hlength, hlength]
    exact Nat.mul_le_mul_right length i.isLt
  rw [ExtendMessage.row?, if_pos ⟨hlimit, hrow⟩]

theorem getLsbD_appliedChoices (setup : ReceiveSetup) (t : Transcript)
    (hlength : message.u.length = baseCount * length) (j : Nat) (i : Fin baseCount) :
    (appliedChoices setup t length message j).getLsbD i =
      (bit (message.row i) j ^^ bit (stretchedRow setup t length false i) j ^^
        bit (stretchedRow setup t length true i) j) := by
  have hrow := length_row hlength i
  rw [appliedChoices, getLsbD_column_ofFn, appliedRow, bit_xorInto (by simp [hrow]),
    bit_xorInto (by simp [hrow])]

end

/-- Cutting rows of one length out of the string of all of them. -/
theorem take_drop_flatten {rows : List Bytes} {length : Nat}
    (hrows : ∀ row ∈ rows, row.length = length) {i : Nat} (hi : i < rows.length) :
    (rows.flatten.drop (i * length)).take length = rows[i] := by
  induction rows generalizing i with
  | nil => exact absurd hi (by simp)
  | cons row rows ih =>
    have hrow : row.length = length := hrows row List.mem_cons_self
    rw [List.flatten_cons]
    cases i with
    | zero => rw [Nat.zero_mul, List.drop_zero, ← hrow, List.take_left, List.getElem_cons_zero]
    | succ i =>
      have hskip : (i + 1) * length = row.length + i * length := by
        rw [hrow, Nat.succ_mul, Nat.add_comm]
      rw [hskip, ← List.drop_drop, List.drop_left, List.getElem_cons_succ]
      exact ih (fun r hr => hrows r (List.mem_cons_of_mem row hr)) (by simpa using hi)

/-! ## The sender's side -/

section

variable {sendSetup : SendSetup} {receiveSetup : ReceiveSetup}

/-- The sender's row is the receiver's first row, plus the applied choices if the bit of `Δ` is
set. -/
theorem bit_sendRow (agree : Agree sendSetup receiveSetup) (t : Transcript)
    {message : ExtendMessage} {length : Nat} (hlength : message.u.length = baseCount * length)
    (j : Nat) (i : Fin baseCount) :
    bit (sendRow sendSetup (extendNonce t) length message i) j =
      (bit (stretchedRow receiveSetup t length false i) j ^^
        (sendSetup.delta.getLsbD i &&
          (appliedChoices receiveSetup t length message j).getLsbD i)) := by
  rw [sendRow, bit_xorIf (by simp [length_row hlength]), agree i,
    getLsbD_appliedChoices _ _ hlength]
  change (bit (stretchedRow receiveSetup t length (sendSetup.delta.getLsbD i) i) j ^^ _) = _
  cases sendSetup.delta.getLsbD i
  · simp
  · -- the sender has stretched the second key, and the row takes it back to the first
    cases bit (stretchedRow receiveSetup t length false i) j <;>
      cases bit (stretchedRow receiveSetup t length true i) j <;> simp

/-- The sender's blocks for a matrix of the right size. -/
theorem send_eq_ok (agree : Agree sendSetup receiveSetup) (t : Transcript) {rowLength : RowLength}
    (hpos : rowLength.bytes ≠ 0) {message : ExtendMessage}
    (hlength : message.u.length = baseCount * rowLength.bytes) (pool : Pool) :
    send t sendSetup rowLength message pool =
      .ok ((List.range (8 * rowLength.bytes)).map
        (senderBlock sendSetup receiveSetup t rowLength.bytes message)) := by
  have hrows : ∀ row ∈ List.ofFn (sendRow sendSetup (extendNonce t) rowLength.bytes message),
      row.length = rowLength.bytes := by
    refine List.forall_mem_ofFn_iff.2 fun i => ?_
    rw [sendRow, length_xorIf, length_expand]
  rw [send, if_neg hpos, if_neg (by simpa using hlength)]
  simp only [Pool.tabulate_eq_ofFn, Vector.toList_ofFn]
  rw [transposeBits_eq_ok List.length_ofFn hrows]
  congr 1
  apply List.map_congr_left
  intro j _
  symm
  apply eq_column_ofFn
  intro i
  rw [senderBlock, BitVec.getLsbD_xor, BitVec.getLsbD_and, bit_sendRow agree t hlength,
    receiverBlock, getLsbD_column_ofFn]

end

/-! ## The receiver's side -/

/-- The matrix of an honest receiver. -/
def honestMatrix (t : Transcript) (setup : ReceiveSetup) (choices : Bytes) : ExtendMessage :=
  ⟨(List.ofFn fun i => (receiveRow setup (extendNonce t) choices i).2).flatten⟩

section

variable (t : Transcript) (setup : ReceiveSetup) (choices : Bytes)

theorem receiveRow_fst (i : Fin baseCount) :
    (receiveRow setup (extendNonce t) choices i).1 = stretchedRow setup t choices.length false i :=
  rfl

theorem receiveRow_snd (i : Fin baseCount) :
    (receiveRow setup (extendNonce t) choices i).2 =
      Bytes.xorInto (Bytes.xorInto (stretchedRow setup t choices.length true i)
        (stretchedRow setup t choices.length false i)) choices :=
  rfl

end

/-- The receiver's blocks and its matrix. -/
theorem receive_eq_ok (t : Transcript) (setup : ReceiveSetup) {choices : Bytes}
    (hchoices : choices.length ≠ 0) (pool : Pool) :
    receive t setup choices pool =
      .ok ((List.range (8 * choices.length)).map (receiverBlock setup t choices.length),
        honestMatrix t setup choices) := by
  have hrows : ∀ row ∈ List.ofFn (stretchedRow setup t choices.length false),
      row.length = choices.length :=
    List.forall_mem_ofFn_iff.2 fun i => length_stretchedRow ..
  have hfst : (List.ofFn (receiveRow setup (extendNonce t) choices)).map Prod.fst =
      List.ofFn (stretchedRow setup t choices.length false) := by
    simp only [List.map_ofFn, Function.comp_def, receiveRow_fst]
  have hsnd : (List.ofFn (receiveRow setup (extendNonce t) choices)).flatMap Prod.snd =
      (honestMatrix t setup choices).u := by
    simp only [honestMatrix, List.flatMap, List.map_ofFn, Function.comp_def]
  rw [receive, if_neg hchoices]
  simp only [Pool.tabulate_eq_ofFn, Vector.toList_ofFn, hfst, hsnd]
  rw [transposeBits_eq_ok List.length_ofFn hrows]
  rfl

section

variable (t : Transcript) (setup : ReceiveSetup) (choices : Bytes)

private theorem length_of_mem_honestRows :
    ∀ row ∈ List.ofFn fun i => (receiveRow setup (extendNonce t) choices i).2,
      row.length = choices.length := by
  refine List.forall_mem_ofFn_iff.2 fun i => ?_
  rw [receiveRow_snd, length_xorInto, length_xorInto, length_stretchedRow]

theorem length_honestMatrix :
    (honestMatrix t setup choices).u.length = baseCount * choices.length := by
  have hlengths : ∀ n ∈ (List.ofFn fun i => (receiveRow setup (extendNonce t) choices i).2).map
      List.length, n = choices.length := by
    intro n hn
    obtain ⟨row, hrow, rfl⟩ := List.mem_map.1 hn
    exact length_of_mem_honestRows t setup choices row hrow
  rw [honestMatrix, List.length_flatten, List.sum_eq_card_nsmul _ _ hlengths, List.length_map,
    List.length_ofFn, smul_eq_mul]

/-- Cutting an honest matrix gives back the rows that it was put together from. -/
theorem row_honestMatrix (i : Fin baseCount) :
    (honestMatrix t setup choices).row i = (receiveRow setup (extendNonce t) choices i).2 := by
  have hi : i.val < (List.ofFn fun i => (receiveRow setup (extendNonce t) choices i).2).length := by
    rw [List.length_ofFn]
    exact i.isLt
  rw [ExtendMessage.row, batchBytes_eq (length_honestMatrix t setup choices), honestMatrix,
    take_drop_flatten (length_of_mem_honestRows t setup choices) hi, List.getElem_ofFn]

/-- An honest matrix applies the choice of an item in all its rows. -/
theorem appliedChoices_honestMatrix (j : Nat) :
    appliedChoices setup t choices.length (honestMatrix t setup choices) j =
      Block.fill (bit choices j) := by
  apply BitVec.eq_of_getLsbD_eq
  intro i hi
  have hbits := getLsbD_appliedChoices setup t (length_honestMatrix t setup choices) j ⟨i, hi⟩
  have hrow : bit ((honestMatrix t setup choices).row i) j =
      (bit (stretchedRow setup t choices.length true ⟨i, hi⟩) j ^^
        bit (stretchedRow setup t choices.length false ⟨i, hi⟩) j ^^ bit choices j) := by
    rw [row_honestMatrix t setup choices ⟨i, hi⟩, receiveRow_snd, bit_xorInto (by simp),
      bit_xorInto (by simp)]
  rw [hbits, hrow, Block.getLsbD_fill _ hi]
  cases bit (stretchedRow setup t choices.length true ⟨i, hi⟩) j <;>
    cases bit (stretchedRow setup t choices.length false ⟨i, hi⟩) j <;> simp

end

/-! ## Both sides -/

section

variable {sendSetup : SendSetup} {receiveSetup : ReceiveSetup}

/-- The sender's blocks for an honest matrix. -/
theorem senderBlock_honestMatrix (sendSetup : SendSetup) (receiveSetup : ReceiveSetup)
    (t : Transcript) (choices : Bytes) (j : Nat) :
    senderBlock sendSetup receiveSetup t choices.length (honestMatrix t receiveSetup choices) j =
      receiverBlock receiveSetup t choices.length j ^^^
        if bit choices j then sendSetup.delta else 0 := by
  rw [senderBlock, appliedChoices_honestMatrix, Block.and_fill]

/-- **The correlation law.** Each party has a block for each item, whatever matrix of the right size
the sender gets. The blocks differ at the bits of `Δ` at which the row of the matrix, without the
stretched keys, has a bit for the item. For the receiver's own matrix they are equal if the item is
not chosen, and differ by `Δ` if it is. -/
theorem blocks_differ_by_applied_choices (agree : Agree sendSetup receiveSetup) (t : Transcript)
    {rowLength : RowLength} (hpos : rowLength.bytes ≠ 0) {choices : Bytes}
    (hchoices : choices.length = rowLength.bytes) (senderPool receiverPool : Pool) :
    ∃ (own : List Block) (honest : ExtendMessage),
      receive t receiveSetup choices receiverPool = .ok (own, honest) ∧
      own.length = 8 * rowLength.bytes ∧
      (∀ message : ExtendMessage, message.u.length = baseCount * rowLength.bytes →
        ∃ blocks, send t sendSetup rowLength message senderPool = .ok blocks ∧
          blocks.length = 8 * rowLength.bytes ∧
          ∀ j q r, blocks[j]? = some q → own[j]? = some r → ∀ i : Fin baseCount,
            ∃ u, message.row? i = some u ∧
              q.getLsbD i = (r.getLsbD i ^^ (sendSetup.delta.getLsbD i &&
                (bit u j ^^ bit (stretchedRow receiveSetup t rowLength.bytes false i) j ^^
                  bit (stretchedRow receiveSetup t rowLength.bytes true i) j)))) ∧
      ∃ blocks, send t sendSetup rowLength honest senderPool = .ok blocks ∧
        ∀ j choice, bit? choices j = some choice →
          blocks[j]? = if choice then own[j]?.map (· ^^^ sendSetup.delta) else own[j]? := by
  refine ⟨_, _, receive_eq_ok t receiveSetup (hchoices ▸ hpos) receiverPool, ?_, ?_, ?_⟩
  · rw [List.length_map, List.length_range, hchoices]
  · intro message hlength
    refine ⟨_, send_eq_ok agree t hpos hlength senderPool, ?_, fun j q r hq hr i => ?_⟩
    · rw [List.length_map, List.length_range]
    · obtain ⟨-, rfl⟩ := (getElem?_map_range_eq_some_iff ..).1 hq
      obtain ⟨-, rfl⟩ := (getElem?_map_range_eq_some_iff ..).1 hr
      refine ⟨message.row i, row?_eq_some hlength i, ?_⟩
      rw [senderBlock, hchoices, BitVec.getLsbD_xor, BitVec.getLsbD_and,
        getLsbD_appliedChoices _ _ hlength]
  · have hlength := length_honestMatrix t receiveSetup choices
    rw [hchoices] at hlength
    refine ⟨_, send_eq_ok agree t hpos hlength senderPool, fun j choice hchoice => ?_⟩
    obtain ⟨hj, rfl⟩ := (bit?_eq_some_iff choices j choice).1 hchoice
    have hblock := senderBlock_honestMatrix sendSetup receiveSetup t choices j
    rw [hchoices] at hj hblock
    cases hbit : bit choices j <;> simp [hj, hblock, hbit, hchoices]

/-- With choices 0 and 1 for the first two items; and whatever the sender gets, a matrix of zeros
here, the blocks agree at base index 1, where `Δ` has no bit. -/
theorem blocks_differ_by_second_choice :
    let t := Transcript.new [7]
    let setup := SendSetup.select 0x15#256 countedKeys
    let rowLength : RowLength := ⟨2, by decide⟩
    let choices : Bytes := [0xA6, 0x01]
    let zeros : ExtendMessage := ⟨List.replicate 512 0⟩
    Agree setup countedKeys ∧ rowLength.bytes ≠ 0 ∧ choices.length = rowLength.bytes ∧
      zeros.u.length = baseCount * rowLength.bytes ∧
      ∃ (own : List Block) (honest : ExtendMessage) (blocks blocks' : List Block),
        receive t countedKeys choices (.parallel 4) = .ok (own, honest) ∧
        send t setup rowLength honest .sequential = .ok blocks ∧
        blocks[0]? = own[0]? ∧ blocks[1]? = own[1]?.map (· ^^^ 0x15#256) ∧
        send t setup rowLength zeros .sequential = .ok blocks' ∧
        ∀ (j : Nat) (q r : Block), blocks'[j]? = some q → own[j]? = some r →
          q.getLsbD 1 = r.getLsbD 1 := by
  intro t setup rowLength choices zeros
  have agree : Agree setup countedKeys := agree_select _ _
  have hzeros : zeros.u.length = baseCount * rowLength.bytes := List.length_replicate
  obtain ⟨own, honest, hreceive, -, hany, blocks, hsend, hchosen⟩ :=
    blocks_differ_by_applied_choices agree t (show rowLength.bytes ≠ 0 by decide)
      (show choices.length = rowLength.bytes from rfl) .sequential (.parallel 4)
  obtain ⟨blocks', hsend', -, hbits⟩ := hany zeros hzeros
  refine ⟨agree, by decide, rfl, hzeros, own, honest, blocks, blocks', hreceive, hsend,
    hchosen 0 false rfl, hchosen 1 true rfl, hsend', fun j q r hq hr => ?_⟩
  obtain ⟨u, -, hbit⟩ := hbits j q r hq hr 1
  have hmasked : setup.delta.getLsbD (1 : Fin baseCount) = false := by decide
  rwa [hmasked, Bool.false_and, Bool.xor_false] at hbit

end

end ObliviousTransfer.Correlated
