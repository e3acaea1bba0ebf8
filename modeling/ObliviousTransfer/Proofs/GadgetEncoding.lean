import Mathlib
import ObliviousTransfer.Multiply
import ObliviousTransfer.Proofs.IndexedLists
import ObliviousTransfer.Proofs.PackedBits
import ObliviousTransfer.Proofs.ScalarDraws

/-!
# Scalars as sums of gadget entries

The receiver of a multiplication writes its scalar as the sum of the entries of a gadget vector that
its choices select. The binary digits of a number select powers of two that add up to the number
(`selectedSum_powers`); the random entries, whatever bits select them, are made up for by a change
of the number (`selectedSum_encodeWith`).

The bits for the random entries are drawn, a word for each (`run_encode`). What they select is
subtracted from the scalar first, and the choices for the powers of two write the remainder modulo
the group order (`isRemainder_sub`). The random entries may be any scalars (`IsGadget`).

Scalars are computed with in the ring of integers modulo the group order.
-/

namespace ObliviousTransfer.Multiply

open Bits
open scoped Fin.CommRing

/-! ## Sums of lists -/

theorem sum_eq (scalars : List Scalar) : Scalar.sum scalars = scalars.sum :=
  List.sum_eq_foldl.symm

/-- The entries selected by the bits of a packed string. -/
theorem selectedSum_eq_sum {entries : List Scalar} {bytes : Bytes}
    (hlength : entries.length = 8 * bytes.length) :
    selectedSum entries (unpack bytes) =
      ∑ j ∈ Finset.range (8 * bytes.length), if bit bytes j then entries.getD j 0 else 0 := by
  rw [selectedSum, sum_eq, unpack_eq_map, zipWith_map_range _ hlength _ 0]
  rfl

theorem weightedSum_eq_sum {gadget : List Scalar} {count : Nat} (hlength : gadget.length = count)
    (share : Nat → AdditiveTransfer.ScalarPair) :
    weightedSum gadget ((List.range count).map share) =
      ∑ j ∈ Finset.range count, gadget.getD j 0 * (share j).1 := by
  rw [weightedSum, sum_eq, zipWith_map_range _ hlength _ 0]
  rfl

theorem selectedSum_append {entries entries' : List Scalar} {bits bits' : List Bool}
    (hlength : entries.length = bits.length) :
    selectedSum (entries ++ entries') (bits ++ bits') =
      selectedSum entries bits + selectedSum entries' bits' := by
  rw [selectedSum, List.zipWith_append hlength, sum_eq, List.sum_append, ← sum_eq, ← sum_eq,
    ← selectedSum, ← selectedSum]

/-! ## Powers of two -/

/-- The powers of two at the beginning of every gadget vector. -/
def powers : List Scalar :=
  (List.range securityBits).map fun i => Scalar.reduce (1 <<< i)

theorem length_powers : powers.length = securityBits := by
  rw [powers, List.length_map, List.length_range]

theorem reduce_eq_natCast (n : Nat) : Scalar.reduce n = (n : Scalar) := rfl

/-- The powers of two are what doubling one again and again yields. -/
theorem powers_eq_iterate : powers = List.iterate (fun power => power + power) 1 securityBits := by
  have hdouble (i : Nat) :
      (fun power : Scalar => power + power)^[i] 1 = Scalar.reduce (1 <<< i) := by
    induction i with
    | zero => rfl
    | succ i ih =>
      rw [Function.iterate_succ_apply', ih, reduce_eq_natCast, reduce_eq_natCast, ← Nat.cast_add,
        Nat.one_shiftLeft, Nat.one_shiftLeft, pow_succ, Nat.mul_two]
  apply List.ext_getElem
  · rw [length_powers, List.length_iterate]
  · intro i _ _
    rw [List.getElem_iterate, hdouble]
    simp only [powers, List.getElem_map, List.getElem_range]

/-- The lowest digits of a number, as powers of two. -/
theorem sum_digits (n count : Nat) :
    ∑ i ∈ Finset.range count, (if n.testBit i then 2 ^ i else 0) = n % 2 ^ count := by
  induction count with
  | zero => rw [Finset.sum_range_zero, pow_zero, Nat.mod_one]
  | succ count ih =>
    rw [Finset.sum_range_succ, ih, pow_succ, Nat.mod_mul, ← Nat.toNat_testBit]
    cases n.testBit count <;> simp

/-- The powers of two at the digits of a number add up to the number. -/
theorem selectedSum_powers {n : Nat} (hn : n < 2 ^ securityBits) :
    selectedSum powers (unpack (Bytes.ofNatLE securityBytes n)) = (n : Scalar) := by
  have hlength : powers.length = 8 * (Bytes.ofNatLE securityBytes n).length := by
    rw [length_powers, Bytes.length_ofNatLE]
    rfl
  have digit : ∀ j ∈ Finset.range securityBits,
      (if bit (Bytes.ofNatLE securityBytes n) j then powers.getD j 0 else 0) =
        ((if n.testBit j then 2 ^ j else 0 : Nat) : Scalar) := by
    intro j hj
    have hj : j < securityBits := Finset.mem_range.1 hj
    have hpower : powers.getD j 0 = ((2 ^ j : Nat) : Scalar) := by
      rw [List.getD_eq_getElem _ _ (by rwa [length_powers])]
      simp only [powers, List.getElem_map, List.getElem_range, Nat.one_shiftLeft, reduce_eq_natCast]
    rw [bit_ofNatLE, decide_eq_true (show j < 8 * securityBytes from hj), Bool.true_and, hpower]
    split
    · rfl
    · rw [Nat.cast_zero]
  calc selectedSum powers (unpack (Bytes.ofNatLE securityBytes n))
      = ∑ j ∈ Finset.range securityBits,
          (if bit (Bytes.ofNatLE securityBytes n) j then powers.getD j 0 else 0) := by
        rw [selectedSum_eq_sum hlength, Bytes.length_ofNatLE]
        rfl
    _ = ((∑ j ∈ Finset.range securityBits, (if n.testBit j then 2 ^ j else 0) : Nat) : Scalar) := by
        rw [Finset.sum_congr rfl digit, Nat.cast_sum]
    _ = n := by rw [sum_digits, Nat.mod_eq_of_lt hn]

/-- **The encoding.** Whatever bits are given for the random entries, the choices select entries
that add up to the scalar. -/
theorem selectedSum_encodeWith (beta : Scalar) {random : List Scalar} (noise : Bytes) :
    selectedSum (powers ++ random) (unpack (encodeWith beta (powers ++ random) noise)) = beta := by
  -- the random entries contribute `offset`, and the digits what is left of `beta`
  let offset := selectedSum random (unpack noise)
  have hdrop : (powers ++ random).drop securityBits = random := by
    rw [← length_powers, List.drop_left]
  have hlength : powers.length =
      (unpack (Bytes.ofNatLE securityBytes (beta - offset).val)).length := by
    rw [length_powers, length_unpack, Bytes.length_ofNatLE]
    rfl
  have hlt : (beta - offset).val < 2 ^ securityBits :=
    Nat.lt_trans (beta - offset).isLt (by decide)
  rw [encodeWith, hdrop, unpack_append, selectedSum_append hlength, selectedSum_powers hlt,
    Fin.cast_val_eq_self, sub_add_cancel]

/-- The first bytes of the choices write what is left of the scalar. -/
theorem take_encodeWith (beta : Scalar) (gadget : List Scalar) (noise : Bytes) :
    (encodeWith beta gadget noise).take securityBytes = Bytes.ofNatLE securityBytes
      (beta - selectedSum (gadget.drop securityBits) (unpack noise)).val :=
  List.take_left' (Bytes.length_ofNatLE ..)

theorem drop_encodeWith (beta : Scalar) (gadget : List Scalar) (noise : Bytes) :
    (encodeWith beta gadget noise).drop securityBytes = noise :=
  List.drop_left' (Bytes.length_ofNatLE ..)

/-- The length of the choices. -/
theorem length_encodeWith (beta : Scalar) (gadget : List Scalar) (noise : Bytes) :
    (encodeWith beta gadget noise).length = securityBytes + noise.length := by
  rw [encodeWith, List.length_append, Bytes.length_ofNatLE]

/-- An encoding is never an empty batch. -/
theorem length_encodeWith_ne_zero (beta : Scalar) (gadget : List Scalar) (noise : Bytes) :
    (encodeWith beta gadget noise).length ≠ 0 := by
  rw [length_encodeWith]
  exact Nat.ne_of_gt (Nat.add_pos_left (show 0 < securityBytes by decide) _)

/-! ## Any vector that begins with the powers of two -/

/-- The first 256 entries are the powers of two; the other 160 may be any scalars. -/
structure IsGadget (gadget : List Scalar) : Prop where
  length : gadget.length = 416
  power : ∀ i < 256, gadget[i]? = some (Scalar.reduce (2 ^ i))

theorem IsGadget.eq_append {gadget : List Scalar} (h : IsGadget gadget) :
    gadget = powers ++ gadget.drop securityBits := by
  have htake : gadget.take securityBits = powers := by
    apply List.ext_getElem?
    intro i
    by_cases hi : i < securityBits
    · rw [List.getElem?_take_of_lt hi, h.power i hi, powers, List.getElem?_map,
        List.getElem?_range hi, Option.map_some, Nat.one_shiftLeft]
    · rw [List.getElem?_eq_none, List.getElem?_eq_none]
      · exact length_powers ▸ Nat.not_lt.1 hi
      · exact (List.length_take_le ..).trans (Nat.not_lt.1 hi)
  rw [← htake, List.take_append_drop]

/-- The entries at the choices for a scalar add up to the scalar. -/
theorem IsGadget.sum_chosen {gadget : List Scalar} (h : IsGadget gadget) (beta : Scalar)
    {noise : Bytes} (hnoise : noise.length = noiseBits / 8) :
    ∑ j ∈ Finset.range gadgetSize,
      (if bit (encodeWith beta gadget noise) j then gadget.getD j 0 else 0) = beta := by
  have hbytes : 8 * (encodeWith beta gadget noise).length = gadgetSize := by
    rw [length_encodeWith, hnoise]
    rfl
  rw [← hbytes, ← selectedSum_eq_sum (h.length.trans hbytes.symm), h.eq_append,
    selectedSum_encodeWith]

/-! ## The public vector -/

theorem publicGadget_eq (t : Transcript) :
    ∃ random : List Scalar, random.length = noiseBits ∧ publicGadget t = powers ++ random :=
  ⟨_, Reading.length_times .., rfl⟩

theorem length_publicGadget (t : Transcript) : (publicGadget t).length = gadgetSize := by
  obtain ⟨random, hlength, heq⟩ := publicGadget_eq t
  rw [heq, List.length_append, length_powers, hlength]

theorem isGadget_publicGadget (t : Transcript) : IsGadget (publicGadget t) where
  length := length_publicGadget t
  power i hi := by
    obtain ⟨random, -, hgadget⟩ := publicGadget_eq t
    rw [hgadget, List.getElem?_append_left (by rwa [length_powers]), powers, List.getElem?_map,
      List.getElem?_range hi, Option.map_some, Nat.one_shiftLeft]

theorem sum_chosen_entries (t : Transcript) (beta : Scalar) {noise : Bytes}
    (hnoise : noise.length = noiseBits / 8) :
    ∑ j ∈ Finset.range gadgetSize, (if bit (encodeWith beta (publicGadget t) noise) j
      then (publicGadget t).getD j 0 else 0) = beta :=
  (isGadget_publicGadget t).sum_chosen beta hnoise

/-! ## The drawn encoding -/

/-- The random bits that the encoding draws: one word each. -/
def drawnNoise {σ : Type} [ByteStream σ] (s : σ) : Bytes :=
  pack ((List.range noiseBits).map (Draw.wordBit s))

section Drawn

variable {σ : Type} [ByteStream σ]

theorem length_drawnNoise (s : σ) : (drawnNoise s).length = 20 := by
  rw [drawnNoise, length_pack, List.length_map, List.length_range]
  rfl

theorem bit_drawnNoise (s : σ) {k : Nat} (hk : k < noiseBits) :
    bit (drawnNoise s) k = Draw.wordBit s k := by
  rw [drawnNoise, bit_pack, getD_map_range _ hk]

/-- Drawing the bits cannot fail. -/
theorem run_encode (beta : Scalar) (gadget : List Scalar) (source : Source σ) :
    (encode beta gadget : Draw σ Bytes).run.run source =
      (.ok (encodeWith beta gadget (drawnNoise source.stream)), source.advance (4 * noiseBits)) :=
  Draw.run_bind (Draw.run_packedBits noiseBits source)

/-- A new receiver of a multiplication draws its choices as an encoding for the public vector. -/
theorem Receiver.init_eq_encode (t : Transcript) (setup : Correlated.ReceiveSetup) (beta : Scalar)
    (pool : Pool) :
    (Receiver.init t setup beta pool : Draw σ _) = do
      let choices ← encode beta (publicGadget t)
      return (← AdditiveTransfer.Receiver.init t setup choices pool).map fun (additive, message) =>
        (⟨t, publicGadget t, choices, additive, pool⟩, message) := by
  rw [encode, bind_assoc]
  rfl

/-- The random entries that the drawn bits select. -/
theorem selectedSum_drawnNoise {gadget : List Scalar} (hgadget : IsGadget gadget) (s : σ) :
    selectedSum (gadget.drop securityBits) (unpack (drawnNoise s)) =
      ∑ k ∈ Finset.range noiseBits,
        if Draw.wordBit s k then gadget.getD (securityBits + k) 0 else 0 := by
  have hlength : (gadget.drop securityBits).length = 8 * (drawnNoise s).length := by
    rw [List.length_drop, hgadget.length, length_drawnNoise]
    rfl
  rw [selectedSum_eq_sum hlength, length_drawnNoise]
  refine Finset.sum_congr rfl fun k hk => ?_
  rw [bit_drawnNoise s (Finset.mem_range.1 hk), List.getD_eq_getElem?_getD, List.getElem?_drop,
    ← List.getD_eq_getElem?_getD]

end Drawn

/-- The number below the group order that is congruent to `beta` less the random entries that bits
select. -/
def IsRemainder (beta : Scalar) (gadget : List Scalar) (bits : Nat → Bool) (m : Nat) : Prop :=
  m < groupOrder ∧
    (m : Int) ≡ (beta.val : Int) - (∑ k ∈ Finset.range 160,
      (bits k).toNat * (gadget.getD (256 + k) 0).val : Nat) [ZMOD groupOrder]

theorem IsRemainder.unique {beta : Scalar} {gadget : List Scalar} {bits : Nat → Bool} {m m' : Nat}
    (h : IsRemainder beta gadget bits m) (h' : IsRemainder beta gadget bits m') : m = m' := by
  have hmod : m ≡ m' [MOD groupOrder] := Int.natCast_modEq_iff.1 (h.2.trans h'.2.symm)
  exact hmod.eq_of_lt_of_lt h.1 h'.1

/-- The scalar that is left of `beta` writes the remainder. -/
theorem isRemainder_sub (beta : Scalar) (gadget : List Scalar) (bits : Nat → Bool) :
    IsRemainder beta gadget bits (beta - ∑ k ∈ Finset.range noiseBits,
      if bits k then gadget.getD (securityBits + k) 0 else 0).val := by
  refine ⟨Fin.isLt _, (CharP.intCast_eq_intCast Scalar groupOrder).1 ?_⟩
  have term (k : Nat) : (if bits k then gadget.getD (securityBits + k) 0 else 0 : Scalar) =
      ((bits k).toNat : Scalar) * ((gadget.getD (256 + k) 0).val : Scalar) := by
    rw [Fin.cast_val_eq_self]
    cases bits k <;> simp
  rw [Int.cast_natCast, Fin.cast_val_eq_self, Int.cast_sub, Int.cast_natCast, Int.cast_natCast,
    Fin.cast_val_eq_self, Nat.cast_sum]
  exact congrArg (beta - ·) (Finset.sum_congr rfl fun k _ => (term k).trans (Nat.cast_mul ..).symm)

/-- **The drawn encoding.** Drawing cannot fail, and takes 160 words. Behind the choices' first 32
bytes stand the lowest bits of the words; the first 32 bytes write the remainder of `beta` without
the random entries that these bits select, least significant byte first; and the entries at all set
bits add up to `beta`. -/
theorem encode_represents_scalar {σ : Type} [ByteStream σ] {gadget : List Scalar}
    (hgadget : IsGadget gadget) (beta : Scalar) (source : Source σ) :
    ∃ choices : Bytes,
      (encode beta gadget : Draw σ Bytes).run.run source = (.ok choices, source.advance (4 * 160)) ∧
      choices.length = 52 ∧
      (∑ j ∈ Finset.range 416, if bit choices j then gadget.getD j 0 else 0) = beta ∧
      (Draw.packedBits 160 : Draw σ Bytes).run.run source =
        (.ok (choices.drop 32), source.advance (4 * 160)) ∧
      (∀ k < 160, bit? (choices.drop 32) k = some (Draw.wordBit source.stream k)) ∧
      (∃! m, IsRemainder beta gadget (Draw.wordBit source.stream) m) ∧
      ∀ m, IsRemainder beta gadget (Draw.wordBit source.stream) m →
        choices.take 32 = Bytes.ofNatLE 32 m := by
  let noise := drawnNoise source.stream
  let offset := selectedSum (gadget.drop securityBits) (unpack noise)
  have hnoise : noise.length = noiseBits / 8 := length_drawnNoise source.stream
  have hdrop : (encodeWith beta gadget noise).drop 32 = noise := drop_encodeWith ..
  have hremainder : IsRemainder beta gadget (Draw.wordBit source.stream) (beta - offset).val := by
    have hoffset : offset = _ := selectedSum_drawnNoise hgadget source.stream
    rw [hoffset]
    exact isRemainder_sub beta gadget _
  refine ⟨encodeWith beta gadget noise, run_encode beta gadget source, ?_,
    hgadget.sum_chosen beta hnoise, ?_, ?_, ⟨_, hremainder, fun m hm => hm.unique hremainder⟩,
    fun m hm => ?_⟩
  · rw [length_encodeWith, hnoise]
    rfl
  · rw [hdrop]
    exact Draw.run_packedBits noiseBits source
  · intro k hk
    rw [hdrop, bit?_eq_some_iff, hnoise, bit_drawnNoise _ hk]
    exact ⟨hk, rfl⟩
  · rw [hm.unique hremainder]
    exact take_encodeWith ..

/-- The number 5 is encoded for a public vector from a source that repeats the byte 7. -/
theorem encode_represents_five :
    let gadget := publicGadget (Transcript.new [7])
    let source := Source.repeated 7
    IsGadget gadget ∧ ∃ choices : Bytes,
      (encode 5 gadget : Draw Repeated Bytes).run.run source =
        (.ok choices, source.advance (4 * 160)) ∧
      (∑ j ∈ Finset.range 416, if bit choices j then gadget.getD j 0 else 0) = 5 := by
  intro gadget source
  have hgadget : IsGadget gadget := isGadget_publicGadget _
  obtain ⟨choices, hrun, -, hsum, -⟩ := encode_represents_scalar hgadget 5 source
  exact ⟨hgadget, choices, hrun, hsum⟩

end ObliviousTransfer.Multiply
