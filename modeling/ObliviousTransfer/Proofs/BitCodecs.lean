import Mathlib
import ObliviousTransfer.Proofs.PackedBits

/-!
# Three ways at a packed string

Bits are packed, unpacked from the start, and looked up one by one. The three agree: what was packed
is read back by the other two, with zeros behind it up to the end of the last byte, and a string of
bytes is the same after unpacking and packing it.

The same holds of the codecs on words of eight bits. A writer begins with zeros and shifts one bit
after the other to its place in its byte (`writeBits`), and a reader shifts a bit to the lowest
place (`shiftedBit`). That the writer packs is an induction on the bits that are left; what it
carries is that the bits behind the place of writing are still zero, so that the disjunction of the
old byte and the new bit sets exactly this one (`bit_foldl_setBit`).
-/

namespace ObliviousTransfer.Bits

/-! ## Strings given by their bits -/

theorem byte_eq_of_testBit_eq {x y : UInt8} (h : ∀ i < 8, x.toNat.testBit i = y.toNat.testBit i) :
    x = y := by
  have hhigh (byte : UInt8) {i : Nat} (hi : 8 ≤ i) : byte.toNat.testBit i = false :=
    Nat.testBit_lt_two_pow (byte.toNat_lt.trans_le (Nat.pow_le_pow_right (by decide) hi))
  apply UInt8.toNat_inj.1
  apply Nat.eq_of_testBit_eq
  intro i
  by_cases hi : i < 8
  · exact h i hi
  · rw [hhigh x (Nat.not_lt.1 hi), hhigh y (Nat.not_lt.1 hi)]

/-- Strings of one length with the same bits are equal. -/
theorem eq_of_bit_eq {a b : Bytes} (hlength : a.length = b.length) (h : ∀ i, bit a i = bit b i) :
    a = b := by
  induction a generalizing b with
  | nil => exact (List.length_eq_zero_iff.1 hlength.symm).symm
  | cons x a ih =>
    obtain ⟨y, b, rfl⟩ := List.exists_cons_of_length_eq_add_one hlength.symm
    have hbyte : x = y := byte_eq_of_testBit_eq fun i hi => by simpa [bit_cons, hi] using h i
    have hrest : a = b := ih (Nat.succ.inj hlength) fun i => by simpa [bit_cons] using h (i + 8)
    rw [hbyte, hrest]

/-- Unpacking reads what single lookups find, and ends where they do. -/
theorem getElem?_unpack (bytes : Bytes) (i : Nat) : (unpack bytes)[i]? = bit? bytes i := by
  by_cases hi : i < 8 * bytes.length
  · have hunpack : i < (unpack bytes).length := by rwa [length_unpack]
    rw [List.getElem?_eq_getElem hunpack, getElem_unpack, (bit?_eq_some_iff bytes i _).2 ⟨hi, rfl⟩]
  · have hunpack : (unpack bytes).length ≤ i := by rw [length_unpack]; exact Nat.not_lt.1 hi
    rw [List.getElem?_eq_none hunpack, (bit?_eq_none_iff bytes i).2 (Nat.not_lt.1 hi)]

theorem pack_unpack (bytes : Bytes) : pack (unpack bytes) = bytes := by
  apply eq_of_bit_eq
  · rw [length_pack, length_unpack]
    omega
  · intro i
    rw [bit_pack, List.getD_eq_getElem?_getD, getElem?_unpack]
    rfl

/-- The number of bits that fill up the last byte. -/
def fillCount (bits : List Bool) : Nat :=
  8 * ((bits.length + 7) / 8) - bits.length

theorem fillCount_lt (bits : List Bool) : fillCount bits < 8 := by
  unfold fillCount
  omega

theorem unpack_pack (bits : List Bool) :
    unpack (pack bits) = bits ++ List.replicate (fillCount bits) false := by
  have hlength : 8 * ((bits.length + 7) / 8) = bits.length + fillCount bits := by
    unfold fillCount
    omega
  apply List.ext_getElem
  · rw [length_unpack, length_pack, hlength, List.length_append, List.length_replicate]
  · intro i _ _
    rw [getElem_unpack, bit_pack]
    by_cases hi : i < bits.length
    · simp [hi]
    · simp [hi, Nat.not_lt.1 hi]

theorem bit?_pack (bits : List Bool) {i : Nat} (hi : i < bits.length) :
    bit? (pack bits) i = some bits[i] := by
  rw [bit?_eq_some_iff, length_pack, bit_pack, List.getD_eq_getElem _ _ hi]
  exact ⟨by omega, rfl⟩

/-! ## Codecs on words -/

/-- The lowest bit of a byte that has been shifted to the right. -/
def shiftedBit (byte : UInt8) (count : Nat) : Bool :=
  (byte >>> UInt8.ofNat count) &&& 1 == 1

/-- Shifts a bit to its place and adds it to what is there. -/
def setBit (bytes : Bytes) (index : Nat) (value : Bool) : Bytes :=
  bytes.modify (index / 8) (· ||| UInt8.ofNat value.toNat <<< UInt8.ofNat (index % 8))

/-- Writes bits to a string of zeros, one after the other. -/
def writeBits (bits : List Bool) : Bytes :=
  bits.zipIdx.foldl (fun bytes entry => setBit bytes entry.2 entry.1)
    (List.replicate ((bits.length + 7) / 8) 0)

theorem toNat_ofNat_mod {count : Nat} (h : count < 8) : (UInt8.ofNat count).toNat % 8 = count := by
  rw [UInt8.toNat_ofNat']
  omega

theorem shiftedBit_eq (byte : UInt8) {count : Nat} (h : count < 8) :
    shiftedBit byte count = byte.toNat.testBit count := by
  rw [Bool.eq_iff_iff, shiftedBit, beq_iff_eq, ← UInt8.toNat_inj, UInt8.toNat_and,
    UInt8.toNat_shiftRight, toNat_ofNat_mod h, UInt8.toNat_one, Nat.and_one_is_mod,
    Nat.testBit_eq_decide_div_mod_eq, decide_eq_true_iff, Nat.shiftRight_eq_div_pow]

/-- A bit that has been shifted to a place of a byte is there and nowhere else. -/
theorem testBit_shifted (value : Bool) {place i : Nat} (hplace : place < 8) (hi : i < 8) :
    (UInt8.ofNat value.toNat <<< UInt8.ofNat place).toNat.testBit i =
      (decide (i = place) && value) := by
  have hvalue : (UInt8.ofNat value.toNat).toNat = value.toNat := by cases value <;> rfl
  rw [UInt8.toNat_shiftLeft, toNat_ofNat_mod hplace, hvalue, Nat.testBit_mod_two_pow,
    decide_eq_true hi, Bool.true_and, Nat.testBit_shiftLeft]
  cases value with
  | false => simp
  | true =>
    rw [Bool.toNat_true, Bool.and_true, Bool.eq_iff_iff, Bool.and_eq_true, decide_eq_true_iff,
      decide_eq_true_iff, Nat.testBit_one_eq_true_iff_self_eq_zero]
    omega

/-- Setting a bit changes no other one. -/
theorem bit_setBit {bytes : Bytes} {index : Nat} (hindex : index < 8 * bytes.length) (value : Bool)
    (i : Nat) :
    bit (setBit bytes index value) i = (bit bytes i || decide (i = index) && value) := by
  rw [bit_eq_getD, bit_eq_getD, setBit, List.getD_eq_getElem?_getD, List.getD_eq_getElem?_getD,
    List.getElem?_modify]
  by_cases hbyte : index / 8 = i / 8
  · have hi : i / 8 < bytes.length := by omega
    have hplace : i % 8 = index % 8 ↔ i = index := by omega
    rw [List.getElem?_eq_getElem hi]
    simp only [hbyte, if_true, Option.map_eq_map, Option.map_some, Option.getD_some]
    rw [UInt8.toNat_or, Nat.testBit_or,
      testBit_shifted value (Nat.mod_lt index (by decide)) (Nat.mod_lt i (by decide))]
    simp only [hplace]
  · have hne : i ≠ index := by rintro rfl; exact hbyte rfl
    simp [hbyte, hne]

/-- Writing leaves what is there and adds the bits from the place of writing on. -/
theorem bit_foldl_setBit (bits : List Bool) {start : Nat} {bytes : Bytes}
    (hlength : start + bits.length ≤ 8 * bytes.length) (i : Nat) :
    bit ((bits.zipIdx start).foldl (fun bytes entry => setBit bytes entry.2 entry.1) bytes) i =
      (bit bytes i || decide (start ≤ i) && bits.getD (i - start) false) := by
  induction bits generalizing start bytes with
  | nil => simp
  | cons b bits ih =>
    rw [List.length_cons] at hlength
    have hrest : start + 1 + bits.length ≤ 8 * (setBit bytes start b).length := by
      rw [setBit, List.length_modify]
      omega
    rw [List.zipIdx_cons, List.foldl_cons, ih hrest, bit_setBit (by omega)]
    rcases Nat.lt_trichotomy i start with hi | rfl | hi
    · simp [Nat.ne_of_lt hi, Nat.not_le.2 hi, Nat.not_le.2 (Nat.lt_succ_of_lt hi)]
    · simp
    · have hindex : i - start = i - (start + 1) + 1 := by omega
      simp [Nat.ne_of_gt hi, Nat.le_of_lt hi, Nat.succ_le_of_lt hi, hindex]

theorem writeBits_eq_pack (bits : List Bool) : writeBits bits = pack bits := by
  have hlength (bits : List (Bool × Nat)) (bytes : Bytes) :
      (bits.foldl (fun bytes entry => setBit bytes entry.2 entry.1) bytes).length =
        bytes.length := by
    induction bits generalizing bytes with
    | nil => rfl
    | cons entry bits ih => rw [List.foldl_cons, ih, setBit, List.length_modify]
  have hzeros (count i : Nat) : bit (List.replicate count 0) i = false := by
    rw [bit_eq_getD]
    simp
  apply eq_of_bit_eq
  · rw [writeBits, hlength, List.length_replicate, length_pack]
  · intro i
    rw [writeBits, bit_foldl_setBit bits (by rw [List.length_replicate]; omega), hzeros, bit_pack]
    simp

theorem unpack_eq_flatMap_shiftedBit (bytes : Bytes) :
    unpack bytes = bytes.flatMap fun byte => (List.range 8).map (shiftedBit byte) := by
  have hbyte (byte : UInt8) : (List.range 8).map (shiftedBit byte) = ofByte byte :=
    List.map_congr_left fun i hi => shiftedBit_eq byte (List.mem_range.1 hi)
  simp only [hbyte]
  rfl

theorem bit?_eq_map_shiftedBit (bytes : Bytes) (i : Nat) :
    bit? bytes i = bytes[i / 8]?.map fun byte => shiftedBit byte (i % 8) := by
  rw [bit?]
  congr 1
  funext byte
  exact (shiftedBit_eq byte (Nat.mod_lt i (by decide))).symm

/-- Bits that are packed take an eighth of their number in bytes, rounded up; they are found again
by looking up each place and by unpacking, which has fewer than eight zeros more. A string of bytes
is the same after unpacking and packing it, and unpacking it gives the bit at each place, of which
there are eight for each byte and no more. A writer and two readers that work on words with shifts
are the same codecs. -/
theorem codecs_agree :
    (∀ bits : List Bool,
      (pack bits).length = bits.length ⌈/⌉ 8 ∧
      (∀ (i : Nat) (hi : i < bits.length), bit? (pack bits) i = some bits[i]) ∧
      (∃ zeros, zeros < 8 ∧ unpack (pack bits) = bits ++ List.replicate zeros false) ∧
      pack bits = writeBits bits) ∧
    ∀ bytes : Bytes,
      pack (unpack bytes) = bytes ∧
      (∀ i, (unpack bytes)[i]? = bit? bytes i) ∧
      (∀ i, bit? bytes i = none ↔ 8 * bytes.length ≤ i) ∧
      unpack bytes = (bytes.flatMap fun byte => (List.range 8).map (shiftedBit byte)) ∧
      ∀ i, bit? bytes i = bytes[i / 8]?.map fun byte => shiftedBit byte (i % 8) := by
  refine ⟨fun bits => ⟨?_, fun i hi => bit?_pack bits hi, ?_, (writeBits_eq_pack bits).symm⟩,
    fun bytes => ?_⟩
  · rw [length_pack, Nat.ceilDiv_eq_add_pred_div]
    rfl
  · exact ⟨fillCount bits, fillCount_lt bits, unpack_pack bits⟩
  · exact ⟨pack_unpack bytes, getElem?_unpack bytes, bit?_eq_none_iff bytes,
      unpack_eq_flatMap_shiftedBit bytes, bit?_eq_map_shiftedBit bytes⟩

/-- Eleven bits take two bytes, and five zeros follow them. -/
theorem codecs_agree_on_eleven_bits :
    let bits := [true, true, true, false, false, false, false, false, true, false, true]
    pack bits = [7, 5] ∧ writeBits bits = [7, 5] ∧
      bit? [7, 5] 10 = some true ∧ bit? [7, 5] 16 = none ∧
      ∃ zeros, zeros < 8 ∧ unpack [7, 5] = bits ++ List.replicate zeros false := by
  intro bits
  have hpack : pack bits = [7, 5] := by
    rw [(codecs_agree.1 bits).2.2.2]
    decide
  obtain ⟨-, hlookup, hunpack, hwrite⟩ := codecs_agree.1 bits
  obtain ⟨-, -, hend, -⟩ := codecs_agree.2 [7, 5]
  rw [hpack] at hlookup hunpack hwrite
  exact ⟨hpack, hwrite.symm, hlookup 10 (by decide), (hend 16).2 (by decide), hunpack⟩

end ObliviousTransfer.Bits
