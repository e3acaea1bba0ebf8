import Mathlib
import ObliviousTransfer.Proofs.ScalarDraws

/-!
# The search for a scalar other than zero

A scalar other than zero is drawn by two loops, one in the other: the inner one goes on while a
candidate is too large for a scalar, the outer one while the scalar is zero. Together they are one
search through the stream for the first candidate in the range above zero and below the group order
(`first_candidate_in_range_is_drawn`), and the source stands right behind it afterwards.

The number of candidates that a search looks at is bounded, and the bound has no part in what is
found: it only has to reach the first candidate in the range.
-/

namespace ObliviousTransfer

variable {σ : Type} [ByteStream σ]

/-- The number that a candidate writes, most significant byte first. -/
def candidateValue (s : σ) (k : Nat) : Nat :=
  Bytes.toNatBE (candidate s k)

theorem ofBytes?_candidate (s : σ) (k : Nat) (value : Scalar) :
    Scalar.ofBytes? (candidate s k) = some value ↔ value.val = candidateValue s k := by
  unfold Scalar.ofBytes?
  split
  · next hlt => rw [Option.some.injEq, Fin.ext_iff, eq_comm]; rfl
  · next hlarge =>
    refine ⟨nofun, fun hvalue => absurd value.isLt ?_⟩
    rw [hvalue]
    exact hlarge

/-- The acceptable candidates are those in the range above zero and below the order. -/
theorem acceptable_candidate_iff (s : σ) (k : Nat) :
    Acceptable (candidate s k) ↔ 0 < candidateValue s k ∧ candidateValue s k < groupOrder := by
  simp only [Acceptable, ofBytes?_candidate]
  constructor
  · rintro ⟨value, hvalue, hne⟩
    rw [← hvalue]
    exact ⟨Fin.pos_iff_ne_zero.2 hne, value.isLt⟩
  · rintro ⟨hpos, hlt⟩
    exact ⟨⟨_, hlt⟩, rfl, Fin.pos_iff_ne_zero.1 hpos⟩

namespace Draw

/-- From every position from which some candidate is in the range, the first of them is drawn: it is
not zero, and the source stands right behind it. Zeros and numbers that are too large may come
before it in any order. -/
theorem first_candidate_in_range_is_drawn (stream : σ)
    (hexists : ∃ k, 0 < candidateValue stream k ∧ candidateValue stream k < groupOrder) :
    ∃ (m : Nat) (value : Scalar),
      IsLeast {k | 0 < candidateValue stream k ∧ candidateValue stream k < groupOrder} m ∧
      value.val = candidateValue stream m ∧ value ≠ 0 ∧
      ∀ taken failures patience, m < patience →
        (nonzeroScalar : Draw σ Scalar).run.run ⟨stream, taken, failures, patience⟩ =
          (.ok value,
            ⟨ByteStream.skip (32 * (m + 1)) stream, taken + 32 * (m + 1), failures, patience⟩) := by
  classical
  have hleast := Nat.isLeast_find hexists
  generalize Nat.find hexists = m at hleast
  obtain ⟨value, hvalue, hne⟩ := (acceptable_candidate_iff stream m).2 hleast.1
  refine ⟨m, value, hleast, (ofBytes?_candidate ..).1 hvalue, hne,
    fun taken failures patience hpatience => ?_⟩
  have hfirst : ∀ k < m, ¬Acceptable (candidate stream k) := fun k hk haccept =>
    Nat.not_le.2 hk (hleast.2 ((acceptable_candidate_iff stream k).1 haccept))
  exact run_nonzeroScalar_of_first ⟨stream, taken, failures, patience⟩ hvalue hne hfirst hpatience

/-- A zero and a number that is too large are passed over, whatever failures are pending. -/
theorem five_is_drawn_behind_zero_and_large_number :
    let stream : Tape :=
      ⟨List.replicate 32 0x00 ++ List.replicate 32 0xff ++ Scalar.toBytes 5, Shake256.reader []⟩
    (∃ k, 0 < candidateValue stream k ∧ candidateValue stream k < groupOrder) ∧
      ∀ patience, 2 < patience →
        (nonzeroScalar : Draw Tape Scalar).run.run ⟨stream, 7, 300, patience⟩ =
          (.ok 5, ⟨ByteStream.skip (32 * (2 + 1)) stream, 7 + 32 * (2 + 1), 300, patience⟩) := by
  intro stream
  have hzero : candidateValue stream 0 = 0 := by decide +kernel
  have hlarge : groupOrder ≤ candidateValue stream 1 := by decide +kernel
  have hfive : candidateValue stream 2 = 5 := by decide +kernel
  -- from here on the recorded bytes must not be read again
  clear_value stream
  have hinRange : 0 < candidateValue stream 2 ∧ candidateValue stream 2 < groupOrder := by
    rw [hfive]
    decide
  obtain ⟨m, value, hleast, hvalue, -, hrun⟩ :=
    first_candidate_in_range_is_drawn stream ⟨2, hinRange⟩
  obtain rfl : m = 2 := by
    refine Nat.le_antisymm (hleast.2 hinRange) (Nat.not_lt.1 fun hlt => ?_)
    obtain ⟨hpos, hlt'⟩ := hleast.1
    obtain rfl | rfl : m = 0 ∨ m = 1 := by omega
    · exact Nat.ne_of_gt hpos hzero
    · exact Nat.not_lt.2 hlarge hlt'
  obtain rfl : value = 5 := Fin.ext (hvalue.trans hfive)
  exact ⟨⟨2, hinRange⟩, hrun 7 300⟩

end Draw

end ObliviousTransfer
