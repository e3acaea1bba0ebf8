import Mathlib
import ObliviousTransfer.Proofs.CheckedLookups

/-!
# Sums in chunks

The sums of the check are computed in chunks of 256 rows, one piece of work each. Chunk `k` has the
indices from `256 * k` up to `256 * k + 256` or to the number of rows, and as many chunks are taken
as it needs. So every index is in exactly one chunk, in order (`flatten_map_chunkIndices_eq_range`),
and what is computed is the plain sum of all products, whatever the number of rows
(`chunked_sums_are_plain_sums`).
-/

namespace ObliviousTransfer.Extension

open BinaryPolynomial Polynomial

/-! ## The indices of the chunks -/

/-- The indices below `count` that belong to a chunk. -/
def chunkIndices (size count chunk : Nat) : List Nat :=
  List.range' (chunk * size) (min count (chunk * size + size) - chunk * size)

theorem lt_of_mem_chunkIndices {size count chunk j : Nat} (hj : j ∈ chunkIndices size count chunk) :
    j < count := by
  have := List.mem_range'_1.1 hj
  omega

/-- The first chunks, one after the other, are the first indices. -/
theorem flatten_map_chunkIndices (size count chunks : Nat) :
    ((List.range chunks).map (chunkIndices size count)).flatten =
      List.range (min count (chunks * size)) := by
  induction chunks with
  | zero => simp
  | succ chunks ih =>
    rw [List.range_succ, List.map_append, List.flatten_append, ih, List.map_singleton,
      List.flatten_singleton, Nat.succ_mul, chunkIndices]
    generalize chunks * size = start
    rcases Nat.le_total count start with h | h
    · -- The indices are used up.
      have hnone : min count (start + size) - start = 0 := by omega
      rw [hnone, List.range'_zero, List.append_nil, Nat.min_eq_left h, Nat.min_eq_left (by omega)]
    · have hjoin :=
        List.range'_append_1 (s := 0) (m := start) (n := min count (start + size) - start)
      rw [Nat.zero_add] at hjoin
      rw [Nat.min_eq_right h, List.range_eq_range', List.range_eq_range', hjoin]
      congr 1
      omega

/-- As many chunks as it takes hold all indices. -/
theorem flatten_map_chunkIndices_eq_range {size : Nat} (hsize : 0 < size) (count : Nat) :
    ((List.range ((count + size - 1) / size)).map (chunkIndices size count)).flatten =
      List.range count := by
  have hcount : count ≤ (count + size - 1) / size * size := by
    have hdiv := Nat.div_add_mod' (count + size - 1) size
    have hmod := Nat.mod_lt (count + size - 1) hsize
    omega
  rw [flatten_map_chunkIndices, Nat.min_eq_left hcount]

/-! ## The sums of the chunks -/

/-- What an index of the batch contributes to the sums. -/
def checkTerm (blocks : List Block) (challenges : List HalfBlock) (j : Nat) : Sums :=
  Sums.product (challenges.getD j 0) (blocks.getD j 0)

section

variable {blocks : List Block} {challenges : List HalfBlock}
  (hlength : blocks.length ≤ challenges.length)

include hlength

/-- The sum over any indices of the batch, on top of what is there. -/
theorem foldlM_accumulate_eq_some {indices : List Nat} (hindices : ∀ j ∈ indices, j < blocks.length)
    (sums : Sums) :
    indices.foldlM (fun sums j => do return sums.accumulate (← challenges[j]?) (← blocks[j]?))
        sums =
      some (sums + (indices.map (checkTerm blocks challenges)).sum) := by
  induction indices generalizing sums with
  | nil => exact congrArg some (add_zero sums).symm
  | cons j indices ih =>
    obtain ⟨hj, hindices⟩ := List.forall_mem_cons.1 hindices
    have hchallenge : challenges[j]? = some (challenges.getD j 0) := by simp [hj.trans_le hlength]
    have hblock : blocks[j]? = some (blocks.getD j 0) := by simp [hj]
    rw [List.foldlM_cons, hchallenge, hblock, List.map_cons, List.sum_cons, ← add_assoc, checkTerm,
      ← Sums.accumulate_eq]
    exact ih hindices _

theorem sumBetween?_eq_some (chunk : Nat) :
    sumBetween? blocks challenges (chunk * chunkSize)
        (min blocks.length (chunk * chunkSize + chunkSize)) =
      some ((chunkIndices chunkSize blocks.length chunk).map
        (checkTerm blocks challenges)).sum := by
  have hindices : ∀ j ∈ chunkIndices chunkSize blocks.length chunk, j < blocks.length :=
    fun _ => lt_of_mem_chunkIndices
  exact (foldlM_accumulate_eq_some hlength hindices Sums.zero).trans (congrArg some (zero_add _))

/-- The sums, as they are computed, are the plain ones over all indices. -/
theorem checkSums_eq_blockSums (pool : Pool) :
    checkSums blocks challenges pool =
      blockSums (challenges.getD · 0) (blocks.getD · 0) blocks.length := by
  have hblocks := eq_map_range (rfl : blocks.length = blocks.length) 0
  exact (congrArg (checkSums · challenges pool) hblocks).trans (checkSums_map_range _ hlength pool)

omit hlength in
/-- The sums over chunks add up to the sum over all of their indices. -/
theorem foldl_add_chunks (term : Nat → Sums) (chunks : List (List Nat)) :
    (chunks.map fun chunk => (chunk.map term).sum).foldl Sums.add Sums.zero =
      (chunks.flatten.map term).sum := by
  have hparts (parts : List Sums) : parts.foldl Sums.add Sums.zero = parts.sum :=
    List.sum_eq_foldl.symm
  rw [hparts, List.map_flatten, List.sum_flatten, List.map_map]
  rfl

/-- Every row and every challenge is found, and the result is the same. -/
theorem checkSums?_eq_some (pool : Pool) :
    checkSums? blocks challenges pool = some (checkSums blocks challenges pool) := by
  let chunks := (List.range ((blocks.length + chunkSize - 1) / chunkSize)).map
    (chunkIndices chunkSize blocks.length)
  have hsums : pool.mapRange? ((blocks.length + chunkSize - 1) / chunkSize) (fun chunk =>
      sumBetween? blocks challenges (chunk * chunkSize)
        (min blocks.length (chunk * chunkSize + chunkSize))) =
        some (chunks.map fun chunk => (chunk.map (checkTerm blocks challenges)).sum) := by
    refine pool.mapRange?_eq_some (by simp [chunks]) fun chunk _ => ?_
    rw [List.getElem_map, List.getElem_map, List.getElem_range]
    exact sumBetween?_eq_some hlength chunk
  have htotal : (chunks.map fun chunk => (chunk.map (checkTerm blocks challenges)).sum).foldl
      Sums.add Sums.zero = checkSums blocks challenges pool := by
    rw [foldl_add_chunks, flatten_map_chunkIndices_eq_range (by decide),
      checkSums_eq_blockSums hlength]
    rfl
  rw [checkSums?, hsums]
  exact congrArg some htotal

end

/-! ## The sums as polynomials -/

/-- One part of the sums, as a polynomial: the sum of the challenges times one half of the
blocks. -/
theorem toPoly_blockSums {part : Sums → BinaryPolynomial} {half : Block → HalfBlock}
    (hzero : part 0 = 0) (hadd : ∀ a b, part (a + b) = part a ^^^ part b)
    (hproduct : ∀ challenge block, part (Sums.product challenge block) = mul challenge (half block))
    (challenge : Nat → HalfBlock) (block : Nat → Block) (count : Nat) :
    toPoly (part (blockSums challenge block count)) =
      ∑ j ∈ Finset.range count, toPoly (challenge j) * toPoly (half (block j)) := by
  induction count with
  | zero => exact (congrArg toPoly hzero).trans (toPoly_zero 256)
  | succ count ih =>
    rw [blockSums, Finset.sum_range_succ, Finset.sum_range_succ, ← blockSums, hadd, toPoly_xor,
      hproduct, toPoly_mul, ih]

/-! ## Sums of two lists of blocks -/

/-- The exclusive or of two lists of blocks has the sums of both. -/
theorem checkSums_zipWith_xor {blocks others : List Block} {challenges : List HalfBlock}
    (hlength : blocks.length ≤ challenges.length) (hothers : others.length = blocks.length)
    (pool : Pool) :
    checkSums (List.zipWith (· ^^^ ·) blocks others) challenges pool =
      checkSums blocks challenges pool + checkSums others challenges pool := by
  have hcount : (List.zipWith (· ^^^ ·) blocks others).length = blocks.length := by
    rw [List.length_zipWith, hothers, Nat.min_self]
  have hentry : ∀ j < blocks.length,
      (List.zipWith (· ^^^ ·) blocks others).getD j 0 = blocks.getD j 0 ^^^ others.getD j 0 := by
    intro j hj
    simp [hj, hothers]
  rw [checkSums_eq_blockSums (hcount.trans_le hlength), checkSums_eq_blockSums hlength,
    checkSums_eq_blockSums (hothers.trans_le hlength), hcount, hothers, blockSums_congr hentry]
  exact blockSums_xor _ (blocks.getD · 0) (others.getD · 0) _

/-- Blocks behind other blocks, with their challenges behind the others, add their sums: where the
chunks begin makes no difference. -/
theorem checkSums_append {front : List Block} {frontChallenges : List HalfBlock}
    (hfront : frontChallenges.length = front.length) (blocks : List Block)
    (challenges : List HalfBlock) (pool : Pool) :
    checkSums (front ++ blocks) (frontChallenges ++ challenges) pool =
      checkSums front frontChallenges pool + checkSums blocks challenges pool := by
  simp only [checkSums_eq_sum, List.zip_append hfront.symm, List.map_append, List.sum_append]

/-- For any number of rows the chunks are all found, and their sums are those of all products. So
sums of equally many rows add up under exclusive or, and sums of any rows under concatenation. -/
theorem chunked_sums_are_plain_sums {blocks : List Block} {challenges : List HalfBlock}
    (hlength : blocks.length ≤ challenges.length) (pool : Pool) :
    checkSums? blocks challenges pool = some (checkSums blocks challenges pool) ∧
      toPoly (checkSums blocks challenges pool).low =
        ∑ j ∈ Finset.range blocks.length,
          toPoly (challenges.getD j 0) * toPoly (blocks.getD j 0).low ∧
      toPoly (checkSums blocks challenges pool).high =
        ∑ j ∈ Finset.range blocks.length,
          toPoly (challenges.getD j 0) * toPoly (blocks.getD j 0).high ∧
      (∀ others : List Block, others.length = blocks.length →
        checkSums (List.zipWith (· ^^^ ·) blocks others) challenges pool =
          (checkSums blocks challenges pool).add (checkSums others challenges pool)) ∧
      ∀ (front : List Block) (frontChallenges : List HalfBlock),
        frontChallenges.length = front.length →
          checkSums (front ++ blocks) (frontChallenges ++ challenges) pool =
            (checkSums front frontChallenges pool).add (checkSums blocks challenges pool) := by
  refine ⟨checkSums?_eq_some hlength pool, ?low, ?high, ?xor, ?append⟩
  case low =>
    rw [checkSums_eq_blockSums hlength]
    exact toPoly_blockSums Sums.low_zero Sums.low_add Sums.low_product _ _ _
  case high =>
    rw [checkSums_eq_blockSums hlength]
    exact toPoly_blockSums Sums.high_zero Sums.high_add Sums.high_product _ _ _
  case xor =>
    intro others hothers
    exact checkSums_zipWith_xor hlength hothers pool
  case append =>
    intro front frontChallenges hfront
    exact checkSums_append hfront blocks challenges pool

/-- The last chunk has a single row, and 43 challenges are left over: 257 equal products have the
sum of one of them. -/
theorem sums_with_last_chunk_of_one_row :
    (List.replicate 257 (3 : Block)).length ≤ (List.replicate 300 (5 : HalfBlock)).length ∧
      checkSums? (List.replicate 257 3) (List.replicate 300 5) (.parallel 3) =
        some ⟨mul 5 3, 0⟩ := by
  have hlength :
      (List.replicate 257 (3 : Block)).length ≤ (List.replicate 300 (5 : HalfBlock)).length := by
    rw [List.length_replicate, List.length_replicate]
    decide
  obtain ⟨hfound, hlow, hhigh, -, -⟩ := chunked_sums_are_plain_sums hlength (.parallel 3)
  have hodd (poly : (ZMod 2)[X]) : ∑ _ ∈ Finset.range 257, poly = poly := by
    rw [Finset.sum_const, Finset.card_range, succ_nsmul, mul_nsmul' poly 128 2,
      ZModModule.char_nsmul_eq_zero 2, nsmul_zero, zero_add]
  have hsum (half : Block → HalfBlock) :
      ∑ j ∈ Finset.range (List.replicate 257 (3 : Block)).length,
          toPoly ((List.replicate 300 (5 : HalfBlock)).getD j 0) *
            toPoly (half ((List.replicate 257 3).getD j 0)) =
        toPoly (mul 5 (half 3)) := by
    rw [List.length_replicate, ← hodd (toPoly (mul 5 (half 3))), toPoly_mul]
    refine Finset.sum_congr rfl fun j hj => ?_
    have hj := Finset.mem_range.1 hj
    rw [List.getD_replicate _ (hj.trans (by decide)), List.getD_replicate _ hj]
  have hlow3 : (3 : Block).low = 3 := by decide
  have hhigh3 : (3 : Block).high = 0 := by decide
  have hsums : checkSums (List.replicate 257 3) (List.replicate 300 5) (.parallel 3) =
      ⟨mul 5 3, 0⟩ := by
    ext1
    · rw [toPoly_injective (hlow.trans (hsum Block.low)), hlow3]
    · rw [toPoly_injective (hhigh.trans (hsum Block.high)), hhigh3,
        (mul_eq_zero_iff 5 0).2 (.inr rfl)]
  exact ⟨hlength, hfound.trans (congrArg some hsums)⟩

end ObliviousTransfer.Extension
