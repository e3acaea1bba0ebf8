import Mathlib
import ObliviousTransfer.BitMatrix
import ObliviousTransfer.Proofs.IndexedLists
import ObliviousTransfer.Proofs.PackedBits

/-!
# The transpose, bit by bit

`transposeBits` moves bits in squares of eight by eight. Here it is shown to be the plain transpose:
bit `i` of the block `column rows j` is bit `j` of row `i`, and a matrix of the right shape becomes
the list of its columns.

## Shape of the proof

An exchange moves each bit of a word to one place (`exchangeIndex`), and three of them together take
place `8 * r + c` to place `8 * c + r`, which is a check of 64 places. The rest follows the bytes of
a column of the matrix into the words and out again.

A matrix of another shape is refused: for its number of rows, or else for its first row of another
length (`FirstMisfit`). There is no other outcome (`exists_transposeBits_eq_ok_iff`,
`transposeBits_eq_error_iff`).
-/

namespace ObliviousTransfer.BitMatrix

/-! ## Squares -/

private theorem getLsbD_shiftRight_ofNat (x : UInt64) {d : Nat} (hd : d < 64) (k : Nat) :
    (x >>> UInt64.ofNat d).toBitVec.getLsbD k = x.toBitVec.getLsbD (k + d) := by
  simp [Nat.mod_eq_of_lt hd, Nat.add_comm k d]

private theorem getLsbD_shiftLeft_ofNat (x : UInt64) {d k : Nat} (hd : d < 64) (hk : k < 64) :
    (x <<< UInt64.ofNat d).toBitVec.getLsbD k =
      (decide (d ≤ k) && x.toBitVec.getLsbD (k - d)) := by
  have hnot : (!decide (k < d)) = decide (d ≤ k) := by simp only [← decide_not, Nat.not_lt]
  rw [UInt64.toBitVec_shiftLeft, UInt64.toBitVec_ofNat']
  simp only [BitVec.shiftLeft_eq', BitVec.getLsbD_shiftLeft, decide_eq_true hk, Bool.true_and]
  simp [Nat.mod_eq_of_lt hd, hnot]

private theorem getLsbD_ofNat (n : Nat) {k : Nat} (hk : k < 64) :
    (UInt64.ofNat n).toBitVec.getLsbD k = n.testBit k := by
  rw [UInt64.toBitVec_ofNat', BitVec.getLsbD_ofNat, decide_eq_true hk, Bool.true_and]

/-- Where bit `k` of a word comes from when the bits selected by `mask` change places with those
`distance` above them. -/
def exchangeIndex (mask distance k : Nat) : Nat :=
  if mask.testBit k then k + distance
  else if distance ≤ k ∧ mask.testBit (k - distance) then k - distance
  else k

/-- An exchange moves bits, if it does not move any of them twice. -/
theorem getLsbD_exchange (mask distance : Nat) (hdistance : distance < 64)
    (once : ∀ k < 64, mask.testBit k → distance ≤ k → mask.testBit (k - distance) = false)
    (x : UInt64) {k : Nat} (hk : k < 64) :
    (exchange x (UInt64.ofNat mask) (UInt64.ofNat distance)).toBitVec.getLsbD k =
      x.toBitVec.getLsbD (exchangeIndex mask distance k) := by
  have hsub : k - distance < 64 := by omega
  simp only [exchange, UInt64.toBitVec_xor, UInt64.toBitVec_and, BitVec.getLsbD_xor,
    BitVec.getLsbD_and, getLsbD_shiftLeft_ofNat _ hdistance hk, getLsbD_ofNat _ hk,
    getLsbD_ofNat _ hsub, getLsbD_shiftRight_ofNat _ hdistance]
  rw [exchangeIndex]
  by_cases hmask : mask.testBit k
  · -- the bit is replaced by the one above it
    have hbelow : (decide (distance ≤ k) && mask.testBit (k - distance)) = false := by
      by_cases h : distance ≤ k
      · rw [once k hk hmask h, Bool.and_false]
      · rw [decide_eq_false h, Bool.false_and]
    rw [if_pos hmask, hmask, Bool.and_left_comm, hbelow]
    simp
  · by_cases hbelow : distance ≤ k ∧ mask.testBit (k - distance)
    · -- the bit is replaced by the one below it
      have hback : k - distance + distance = k := by omega
      rw [if_neg hmask, if_pos hbelow, hback, hbelow.2, decide_eq_true hbelow.1,
        Bool.eq_false_of_not_eq_true hmask]
      cases x.toBitVec.getLsbD k <;> simp
    · rw [if_neg hmask, if_neg hbelow]
      rw [not_and_or] at hbelow
      rcases hbelow with h | h <;> simp [hmask, h]

/-- Bit `8 * r + c` of a transposed square is bit `8 * c + r`. -/
theorem getLsbD_transposeSquare (x : UInt64) {r c : Nat} (hr : r < 8) (hc : c < 8) :
    (transposeSquare x).toBitVec.getLsbD (8 * r + c) = x.toBitVec.getLsbD (8 * c + r) := by
  have inside : ∀ k < 64, exchangeIndex 0x00000000F0F0F0F0 28 k < 64 ∧
      exchangeIndex 0x0000CCCC0000CCCC 14 (exchangeIndex 0x00000000F0F0F0F0 28 k) < 64 := by
    decide
  have moved : ∀ r < 8, ∀ c < 8,
      exchangeIndex 0x00AA00AA00AA00AA 7 (exchangeIndex 0x0000CCCC0000CCCC 14
        (exchangeIndex 0x00000000F0F0F0F0 28 (8 * r + c))) = 8 * c + r := by
    decide
  have hk : 8 * r + c < 64 := by omega
  obtain ⟨h₂₈, h₁₄⟩ := inside _ hk
  have step28 := getLsbD_exchange 0x00000000F0F0F0F0 28 (by decide)
    (by decide) (exchange (exchange x 0x00AA00AA00AA00AA 7) 0x0000CCCC0000CCCC 14) hk
  have step14 := getLsbD_exchange 0x0000CCCC0000CCCC 14 (by decide)
    (by decide) (exchange x 0x00AA00AA00AA00AA 7) h₂₈
  have step7 := getLsbD_exchange 0x00AA00AA00AA00AA 7 (by decide)
    (by decide) x h₁₄
  rw [moved r hr c hc] at step7
  exact step28.trans (step14.trans step7)

/-- A word of bytes holds their bits in order. -/
theorem getLsbD_toWord64 (bytes : Bytes) {i : Nat} (hi : i < 64) :
    (Bytes.toWord64 bytes).toBitVec.getLsbD i = Bits.bit bytes i := by
  induction bytes generalizing i with
  | nil => simp [Bytes.toWord64]
  | cons byte bytes ih =>
    have hcons : Bytes.toWord64 (byte :: bytes) =
        (Bytes.toWord64 bytes <<< UInt64.ofNat 8) ||| byte.toUInt64 := rfl
    have hbyte : byte.toUInt64.toBitVec.getLsbD i = byte.toNat.testBit i := by
      rw [← BitVec.testBit_toNat, UInt64.toNat_toBitVec, UInt8.toNat_toUInt64]
    rw [hcons, UInt64.toBitVec_or, BitVec.getLsbD_or, getLsbD_shiftLeft_ofNat _ (by decide) hi,
      hbyte, Bits.bit_cons]
    by_cases h : i < 8
    · rw [if_pos h, decide_eq_false (by omega), Bool.false_and, Bool.false_or]
    · have hzero : byte.toNat.testBit i = false := by
        apply Nat.testBit_lt_two_pow
        exact Nat.lt_of_lt_of_le byte.toNat_lt (Nat.pow_le_pow_right (by decide) (by omega))
      rw [if_neg h, ih (by omega), hzero, decide_eq_true (by omega), Bool.true_and, Bool.or_false]

theorem testBit_squareRow (square : UInt64) {k i : Nat} (hk : k < 8) (hi : i < 8) :
    (squareRow square k).toNat.testBit i = square.toBitVec.getLsbD (8 * k + i) := by
  rw [squareRow, UInt64.toNat_toUInt8, Nat.testBit_mod_two_pow, decide_eq_true hi, Bool.true_and,
    ← UInt64.toNat_toBitVec, BitVec.testBit_toNat, getLsbD_shiftRight_ofNat _ (by omega),
    Nat.add_comm]

/-! ## Columns -/

/-- Column `j` of a matrix of rows: bit `i` of the block is bit `j` of row `i`. -/
def column (rows : List Bytes) (j : Nat) : Block :=
  Block.ofBits fun i => Bits.bit (rows.getD i []) j

/-- The string of the bytes at a place of eight rows, of which a square is made. -/
private def gathered (rows : List Bytes) (c r : Nat) : Bytes :=
  (List.range 8).map fun k => (rows.getD (8 * r + k) []).getD c 0

/-- Bit `8 * m + k` of a gathered string is bit `k` of the byte from row `m`. -/
private theorem bit_gathered (rows : List Bytes) (c r : Nat) {m k : Nat} (hm : m < 8) (hk : k < 8) :
    Bits.bit (gathered rows c r) (8 * m + k) = Bits.bit (rows.getD (8 * r + m) []) (8 * c + k) := by
  have hbyte : (8 * m + k) / 8 = m := by omega
  have hbit : (8 * m + k) % 8 = k := by omega
  have hcolumn : (8 * c + k) / 8 = c := by omega
  have hplace : (8 * c + k) % 8 = k := by omega
  rw [Bits.bit_eq_getD, hbyte, hbit, gathered, getD_map_range _ hm, Bits.bit_eq_getD, hcolumn,
    hplace]

private theorem transposeColumn_eq_gathered (rows : List Bytes) (c : Nat) :
    transposeColumn (rows.map List.toArray).toArray c = (List.range 8).map fun k =>
      Block.ofBytes ((List.range securityBytes).map fun r =>
        squareRow (transposeSquare (Bytes.toWord64 (gathered rows c r))) k) := by
  have entry (i : Nat) : ((rows.map List.toArray).toArray.getD i #[]).getD c 0 =
      (rows.getD i []).getD c 0 := by
    by_cases h : i < rows.length
    · simp [h]
    · simp [h]
  unfold transposeColumn
  simp only [entry, List.map_map]
  rfl

/-- The rows that a column of bytes becomes are columns of the matrix. -/
theorem transposeColumn_eq (rows : List Bytes) (c : Nat) :
    transposeColumn (rows.map List.toArray).toArray c =
      (List.range 8).map fun k => column rows (8 * c + k) := by
  rw [transposeColumn_eq_gathered]
  apply List.map_congr_left
  intro k hk
  have hk : k < 8 := List.mem_range.1 hk
  apply Block.eq_ofBits
  intro i hi
  -- bit `i` of the block comes from square `i / 8`, and there from row `i % 8`
  have hsquare : i / 8 < securityBytes := Nat.div_lt_of_lt_mul hi
  have hrow : i % 8 < 8 := Nat.mod_lt _ (by decide)
  let square := transposeSquare (Bytes.toWord64 (gathered rows c (i / 8)))
  calc (Block.ofBytes ((List.range securityBytes).map fun r =>
        squareRow (transposeSquare (Bytes.toWord64 (gathered rows c r))) k)).getLsbD i
      = (squareRow square k).toNat.testBit (i % 8) := by
        rw [Block.getLsbD_ofBytes _ hi, Bits.bit_eq_getD, getD_map_range _ hsquare]
    _ = (Bytes.toWord64 (gathered rows c (i / 8))).toBitVec.getLsbD (8 * (i % 8) + k) := by
        rw [testBit_squareRow _ hk hrow, getLsbD_transposeSquare _ hk hrow]
    _ = Bits.bit (rows.getD (8 * (i / 8) + i % 8) []) (8 * c + k) := by
        rw [getLsbD_toWord64 _ (by omega), bit_gathered rows c _ hrow hk]
    _ = Bits.bit (rows.getD i []) (8 * c + k) := by rw [Nat.div_add_mod]

/-- A matrix of the right shape becomes the list of its columns, whatever the pool. -/
theorem transposeBits_eq_ok {rows : List Bytes} {batchBytes : Nat}
    (hcount : rows.length = baseCount)
    (hlength : ∀ row ∈ rows, row.length = batchBytes) (pool : Pool) :
    transposeBits rows batchBytes pool =
      .ok ((List.range (8 * batchBytes)).map (column rows)) := by
  have hnone : rows.find? (·.length ≠ batchBytes) = none := by
    rw [List.find?_eq_none]
    intro row hrow
    simpa using hlength row hrow
  rw [transposeBits, if_neg (by simpa using hcount), hnone, ← flatten_map_range (column rows) 8]
  simp only [Pool.mapList_eq_map, funext (transposeColumn_eq rows)]
  rfl

/-! ## Refused matrices -/

/-- A row of another length, behind rows of the length only. -/
def FirstMisfit (rows : List Bytes) (length : Nat) (row : Bytes) : Prop :=
  ∃ front rest, rows = front ++ row :: rest ∧ (∀ r ∈ front, r.length = length) ∧ row.length ≠ length

theorem find?_eq_some_iff_firstMisfit (rows : List Bytes) (length : Nat) (row : Bytes) :
    rows.find? (·.length ≠ length) = some row ↔ FirstMisfit rows length row := by
  rw [List.find?_eq_some_iff_append, FirstMisfit]
  constructor
  · rintro ⟨hrow, front, rest, hrows, hfront⟩
    exact ⟨front, rest, hrows, by simpa using hfront, by simpa using hrow⟩
  · rintro ⟨front, rest, hrows, hfront, hrow⟩
    exact ⟨by simpa using hrow, front, rest, hrows, by simpa using hfront⟩

theorem exists_firstMisfit {rows : List Bytes} {length : Nat}
    (h : ¬∀ row ∈ rows, row.length = length) : ∃ row, FirstMisfit rows length row := by
  cases hfind : rows.find? (·.length ≠ length) with
  | some row => exact ⟨row, (find?_eq_some_iff_firstMisfit ..).1 hfind⟩
  | none => exact absurd (by simpa using hfind) h

/-- The number of rows is looked at first. -/
theorem transposeBits_eq_error_of_count {rows : List Bytes} (h : rows.length ≠ baseCount)
    (batchBytes : Nat) (pool : Pool) :
    transposeBits rows batchBytes pool = .error (.batchSizeMismatch baseCount rows.length) := by
  rw [transposeBits, if_pos h]
  rfl

/-- Then the first row of another length is reported. -/
theorem transposeBits_eq_error_of_firstMisfit {rows : List Bytes} {batchBytes : Nat} {row : Bytes}
    (hcount : rows.length = baseCount) (hmisfit : FirstMisfit rows batchBytes row) (pool : Pool) :
    transposeBits rows batchBytes pool = .error (.batchSizeMismatch batchBytes row.length) := by
  rw [transposeBits, if_neg (not_not.2 hcount), (find?_eq_some_iff_firstMisfit ..).2 hmisfit]
  rfl

/-! ## The transpose of a matrix of any shape -/

/-- `blocks` holds the columns of `rows`: one row of 32 bytes for each bit of a row of `length`
bytes, and bit `i` of row `j` is bit `j` of row `i`. -/
structure IsTranspose (rows : List Bytes) (length : Nat) (blocks : List Block) : Prop where
  count : blocks.length = 8 * length
  width : ∀ block ∈ blocks, block.toBytes.length = 32
  bits : ∀ i < 256, ∀ j < 8 * length, ∃ block row value,
    blocks[j]? = some block ∧ rows[i]? = some row ∧
      Bits.bit? block.toBytes i = some value ∧ Bits.bit? row j = some value

theorem isTranspose_columns {rows : List Bytes} {length : Nat} (hcount : rows.length = baseCount)
    (hlength : ∀ row ∈ rows, row.length = length) :
    IsTranspose rows length ((List.range (8 * length)).map (column rows)) where
  count := by rw [List.length_map, List.length_range]
  width block _ := block.length_toBytes
  bits i hi j hj := by
    have hrow : i < rows.length := hcount ▸ hi
    refine ⟨column rows j, rows[i], Bits.bit rows[i] j, ?_, List.getElem?_eq_getElem hrow, ?_, ?_⟩
    · exact (getElem?_map_range_eq_some_iff ..).2 ⟨hj, rfl⟩
    · rw [Block.bit?_toBytes _ hi, column, Block.getLsbD_ofBits _ hi, List.getD_eq_getElem _ _ hrow]
    · rw [Bits.bit?_eq_some_iff, hlength _ (List.getElem_mem hrow)]
      exact ⟨hj, rfl⟩

theorem exists_transposeBits_eq_ok_iff (rows : List Bytes) (batchBytes : Nat) (pool : Pool) :
    (∃ blocks, transposeBits rows batchBytes pool = .ok blocks) ↔
      rows.length = baseCount ∧ ∀ row ∈ rows, row.length = batchBytes := by
  refine ⟨?_, fun h => ⟨_, transposeBits_eq_ok h.1 h.2 pool⟩⟩
  rintro ⟨blocks, hok⟩
  by_contra hshape
  by_cases hcount : rows.length = baseCount
  · obtain ⟨row, hmisfit⟩ := exists_firstMisfit fun hlength => hshape ⟨hcount, hlength⟩
    exact nomatch hok.symm.trans (transposeBits_eq_error_of_firstMisfit hcount hmisfit pool)
  · exact nomatch hok.symm.trans (transposeBits_eq_error_of_count hcount batchBytes pool)

theorem transposeBits_eq_error_iff (rows : List Bytes) (batchBytes : Nat) (pool : Pool)
    (error : OTError) :
    transposeBits rows batchBytes pool = .error error ↔
      (rows.length ≠ baseCount ∧ error = .batchSizeMismatch baseCount rows.length) ∨
      (rows.length = baseCount ∧ ∃ row, FirstMisfit rows batchBytes row ∧
        error = .batchSizeMismatch batchBytes row.length) := by
  constructor
  · intro herror
    by_cases hcount : rows.length = baseCount
    · right
      have hlength : ¬∀ row ∈ rows, row.length = batchBytes := fun hlength =>
        nomatch herror.symm.trans (transposeBits_eq_ok hcount hlength pool)
      obtain ⟨row, hmisfit⟩ := exists_firstMisfit hlength
      have hreported := transposeBits_eq_error_of_firstMisfit hcount hmisfit pool
      exact ⟨hcount, row, hmisfit, Except.error.inj (herror.symm.trans hreported)⟩
    · have hreported := transposeBits_eq_error_of_count hcount batchBytes pool
      exact Or.inl ⟨hcount, Except.error.inj (herror.symm.trans hreported)⟩
  · rintro (⟨hcount, rfl⟩ | ⟨hcount, row, hmisfit, rfl⟩)
    · exact transposeBits_eq_error_of_count hcount batchBytes pool
    · exact transposeBits_eq_error_of_firstMisfit hcount hmisfit pool

/-- **The transpose.** A matrix is transposed, with any pool, if and only if it has 256 rows of the
given length, which may be zero. Otherwise the number of rows is reported if it is another one, and
else the length of the first row of another length. -/
theorem transposeBits_verdict (rows : List Bytes) (batchBytes : Nat) (pool : Pool) :
    ((∃ blocks, transposeBits rows batchBytes pool = .ok blocks) ↔
      rows.length = 256 ∧ ∀ row ∈ rows, row.length = batchBytes) ∧
    (∀ blocks, transposeBits rows batchBytes pool = .ok blocks →
      IsTranspose rows batchBytes blocks) ∧
    ∀ error, transposeBits rows batchBytes pool = .error error ↔
      (rows.length ≠ 256 ∧ error = .batchSizeMismatch 256 rows.length) ∨
      (rows.length = 256 ∧ ∃ row, FirstMisfit rows batchBytes row ∧
        error = .batchSizeMismatch batchBytes row.length) := by
  refine ⟨exists_transposeBits_eq_ok_iff rows batchBytes pool, fun blocks hok => ?_,
    transposeBits_eq_error_iff rows batchBytes pool⟩
  obtain ⟨hcount, hlength⟩ := (exists_transposeBits_eq_ok_iff rows batchBytes pool).1 ⟨blocks, hok⟩
  obtain rfl := Except.ok.inj (hok.symm.trans (transposeBits_eq_ok hcount hlength pool))
  exact isTranspose_columns hcount hlength

/-- A matrix of two bytes to a row is transposed by three workers; with its last row cut to one byte
it is refused. -/
theorem transposeBits_two_bytes :
    let rows := (List.range 256).map fun i => [UInt8.ofNat i, 1]
    let ragged := (List.range 255).map (fun i => [UInt8.ofNat i, 1]) ++ [[7]]
    (∃ blocks, transposeBits rows 2 (.parallel 3) = .ok blocks ∧ IsTranspose rows 2 blocks) ∧
      transposeBits ragged 2 (.parallel 3) = .error (.batchSizeMismatch 2 1) := by
  intro rows ragged
  obtain ⟨hok, htranspose, -⟩ := transposeBits_verdict rows 2 (.parallel 3)
  obtain ⟨blocks, hblocks⟩ := hok.2 ⟨by simp [rows], by simp [rows]⟩
  refine ⟨⟨blocks, hblocks, htranspose blocks hblocks⟩, ?_⟩
  obtain ⟨-, -, herror⟩ := transposeBits_verdict ragged 2 (.parallel 3)
  exact (herror _).2 (Or.inr ⟨by simp [ragged], [7], ⟨_, [], rfl, by simp, by decide⟩, rfl⟩)

end ObliviousTransfer.BitMatrix
