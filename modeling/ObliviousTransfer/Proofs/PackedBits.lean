import Mathlib
import ObliviousTransfer.Bits
import ObliviousTransfer.Block

/-!
# The bits of packed strings

`Bits.bit` looks a bit of a packed string up and is total, and every operation on byte strings is
described by its effect on these bits: the number that the bytes write, a string put together from
two, the masking operations, and blocks. All later modules argue about single bits through this
view, so that the order of bits within bytes is settled here once.
-/

namespace ObliviousTransfer

/-- The number of slices, the last of which may be shorter than the others. -/
theorem length_slices {α : Type} {size : Nat} (hsize : 0 < size) (xs : List α) :
    (slices size xs).length = (xs.length + size - 1) / size := by
  fun_induction slices size xs with
  | case1 => exact (Nat.div_eq_of_lt (by simp; omega)).symm
  | case2 x xs ih =>
    rw [List.length_cons, ih, List.length_drop, List.length_cons]
    by_cases h : size - 1 ≤ xs.length
    · have hsum : xs.length + 1 + size - 1 = xs.length - (size - 1) + size - 1 + size := by omega
      rw [hsum, Nat.add_div_right _ hsize]
    · have hnone : xs.length - (size - 1) + size - 1 < size := by omega
      have hone : xs.length + 1 + size - 1 = xs.length + size := by omega
      rw [Nat.div_eq_of_lt hnone, hone, Nat.add_div_right _ hsize, Nat.div_eq_of_lt (by omega)]

namespace Bits

/-- Bit `index` of a packed string, and `false` behind its end. -/
def bit (bytes : Bytes) (index : Nat) : Bool :=
  (bit? bytes index).getD false

@[simp]
theorem bit_nil (i : Nat) : bit [] i = false := by
  simp [bit, bit?]

theorem bit_cons (byte : UInt8) (bytes : Bytes) (i : Nat) :
    bit (byte :: bytes) i = if i < 8 then byte.toNat.testBit i else bit bytes (i - 8) := by
  by_cases hi : i < 8
  · have hdiv : i / 8 = 0 := by omega
    have hmod : i % 8 = i := by omega
    rw [if_pos hi, bit, bit?, hdiv, hmod]
    rfl
  · have hdiv : i / 8 = (i - 8) / 8 + 1 := by omega
    have hmod : i % 8 = (i - 8) % 8 := by omega
    rw [if_neg hi, bit, bit, bit?, bit?, hdiv, hmod, List.getElem?_cons_succ]

theorem bit_eq_getD (bytes : Bytes) (i : Nat) :
    bit bytes i = (bytes.getD (i / 8) 0).toNat.testBit (i % 8) := by
  rw [bit, bit?, List.getD_eq_getElem?_getD]
  cases bytes[i / 8]? with
  | none => simp
  | some byte => rfl

theorem bit?_eq_none_iff (bytes : Bytes) (i : Nat) :
    bit? bytes i = none ↔ 8 * bytes.length ≤ i := by
  rw [bit?, Option.map_eq_none_iff, List.getElem?_eq_none_iff]
  omega

theorem bit?_eq_some_iff (bytes : Bytes) (i : Nat) (b : Bool) :
    bit? bytes i = some b ↔ i < 8 * bytes.length ∧ bit bytes i = b := by
  cases h : bit? bytes i with
  | none =>
    have hlength := (bit?_eq_none_iff bytes i).1 h
    simp [Nat.not_lt.2 hlength]
  | some c =>
    have hlength : i < 8 * bytes.length := by
      rw [← Nat.not_le, ← bit?_eq_none_iff, h]
      exact Option.some_ne_none c
    simp [bit, h, hlength]

/-- Packing eight bits to a byte. -/
theorem length_pack (bits : List Bool) : (pack bits).length = (bits.length + 7) / 8 := by
  rw [pack, List.length_map, length_slices (by decide)]
  rfl

/-- The number that a list of bits writes has these bits. -/
private theorem testBit_foldr (bits : List Bool) (i : Nat) :
    (bits.foldr (fun (b : Bool) n => b.toNat + 2 * n) 0).testBit i = bits.getD i false := by
  induction bits generalizing i with
  | nil => simp
  | cons b bits ih =>
    rw [List.foldr_cons]
    generalize bits.foldr (fun (b : Bool) n => b.toNat + 2 * n) 0 = rest at ih
    cases i with
    | zero => cases b <;> simp [Nat.testBit_zero]
    | succ i =>
      have hbit : b.toNat < 2 := b.toNat_lt
      have hhalf : (b.toNat + 2 * rest) / 2 = rest := by omega
      rw [Nat.testBit_succ, hhalf, ih, List.getD_cons_succ]

theorem testBit_toByte (bits : List Bool) {i : Nat} (hi : i < 8) :
    (toByte bits).toNat.testBit i = bits.getD i false := by
  rw [toByte, UInt8.toNat_ofNat', Nat.testBit_mod_two_pow, decide_eq_true hi, Bool.true_and,
    testBit_foldr]

/-- A packed string holds the bits in their order, and zeros behind them. -/
theorem bit_pack (bits : List Bool) (i : Nat) : bit (pack bits) i = bits.getD i false := by
  rw [pack]
  fun_induction slices 8 bits generalizing i with
  | case1 => simp
  | case2 b bits ih =>
    rw [List.map_cons, bit_cons]
    split
    · next hi =>
      rw [testBit_toByte _ hi, List.getD_eq_getElem?_getD, List.getD_eq_getElem?_getD,
        ← List.take_succ_cons, List.getElem?_take_of_lt hi]
    · next hi =>
      have hindex : 8 + (i - 8) = i := by omega
      rw [ih, List.getD_eq_getElem?_getD, List.getD_eq_getElem?_getD,
        ← List.drop_succ_cons (a := b), List.getElem?_drop, hindex]

/-! ## Reading from the start -/

@[simp]
theorem length_ofByte (byte : UInt8) : (ofByte byte).length = 8 := by
  simp [ofByte]

theorem unpack_cons (byte : UInt8) (bytes : Bytes) :
    unpack (byte :: bytes) = ofByte byte ++ unpack bytes := rfl

@[simp]
theorem length_unpack (bytes : Bytes) : (unpack bytes).length = 8 * bytes.length := by
  induction bytes with
  | nil => rfl
  | cons byte bytes ih =>
    rw [unpack_cons, List.length_append, length_ofByte, ih, List.length_cons]
    omega

theorem unpack_append (a b : Bytes) : unpack (a ++ b) = unpack a ++ unpack b :=
  List.flatMap_append

@[simp]
theorem getElem_unpack (bytes : Bytes) (i : Nat) (hi : i < (unpack bytes).length) :
    (unpack bytes)[i] = bit bytes i := by
  induction bytes generalizing i with
  | nil => exact absurd hi (by simp [unpack])
  | cons byte bytes ih =>
    simp only [unpack_cons, bit_cons, List.getElem_append, length_ofByte]
    split
    · simp [ofByte]
    · exact ih _ _

/-- The bits in their order are the bits looked up one by one. -/
theorem unpack_eq_map (bytes : Bytes) :
    unpack bytes = (List.range (8 * bytes.length)).map (bit bytes) := by
  apply List.ext_getElem
  · simp
  · intro i h₁ h₂
    simp

/-! ## Numbers and joined strings -/

/-- A packed string holds the bits of the number that its bytes write, least significant first. -/
theorem bit_eq_testBit (bytes : Bytes) (i : Nat) :
    bit bytes i = (Bytes.toNatLE bytes).testBit i := by
  induction bytes generalizing i with
  | nil => simp
  | cons byte bytes ih =>
    have hbyte : byte.toNat < 2 ^ 8 := byte.toNat_lt
    rw [Bytes.toNatLE_cons, Nat.add_comm, show 256 = 2 ^ 8 by rfl,
      Nat.testBit_two_pow_mul_add _ hbyte, ← ih, bit_cons]

theorem bit_ofNatLE (width n i : Nat) :
    bit (Bytes.ofNatLE width n) i = (decide (i < 8 * width) && n.testBit i) := by
  rw [bit_eq_testBit, Bytes.toNatLE_ofNatLE, BitVec.toNat_ofNat, Nat.testBit_mod_two_pow]

theorem bit_append (a b : Bytes) (i : Nat) :
    bit (a ++ b) i = if i < 8 * a.length then bit a i else bit b (i - 8 * a.length) := by
  induction a generalizing i with
  | nil => simp
  | cons byte a ih =>
    simp only [List.cons_append, bit_cons, List.length_cons]
    by_cases hi : i < 8
    · rw [if_pos hi, if_pos hi, if_pos (by omega)]
    · rw [if_neg hi, if_neg hi, ih]
      have hsub : i - 8 - 8 * a.length = i - 8 * (a.length + 1) := by omega
      by_cases ha : i - 8 < 8 * a.length
      · rw [if_pos ha, if_pos (by omega)]
      · rw [if_neg ha, if_neg (by omega), hsub]

/-! ## Masking -/

@[simp]
theorem length_xorInto (dest other : Bytes) :
    (Bytes.xorInto dest other).length = dest.length := by
  simp only [Bytes.xorInto, List.length_append, List.length_zipWith, List.length_drop]
  omega

/-- Adding a string that is not too long adds its bits. -/
theorem bit_xorInto {dest other : Bytes} (h : other.length ≤ dest.length) (i : Nat) :
    bit (Bytes.xorInto dest other) i = (bit dest i ^^ bit other i) := by
  induction other generalizing dest i with
  | nil => simp [Bytes.xorInto]
  | cons o other ih =>
    cases dest with
    | nil => simp at h
    | cons d dest =>
      have hcons : Bytes.xorInto (d :: dest) (o :: other) =
          (d ^^^ o) :: Bytes.xorInto dest other := rfl
      rw [hcons, bit_cons, bit_cons, bit_cons, ih (by simpa using h)]
      split
      · rw [UInt8.toNat_xor, Nat.testBit_xor]
      · rfl

/-- A selected addition adds the bits that the choice lets through. -/
theorem bit_xorIf {dest other : Bytes} (h : other.length ≤ dest.length) (choice : Bool) (i : Nat) :
    bit (Bytes.xorIf choice dest other) i = (bit dest i ^^ (choice && bit other i)) := by
  cases choice with
  | false => simp [Bytes.xorIf]
  | true => simp [Bytes.xorIf, bit_xorInto h]

@[simp]
theorem length_xorIf (choice : Bool) (dest other : Bytes) :
    (Bytes.xorIf choice dest other).length = dest.length := by
  cases choice <;> simp [Bytes.xorIf]

end Bits

/-! ## Blocks -/

namespace Block

/-- The block with given bits. -/
def ofBits (bits : Nat → Bool) : Block :=
  BitVec.ofFnLE fun i : Fin 256 => bits i

theorem getLsbD_ofBits (bits : Nat → Bool) {i : Nat} (hi : i < 256) :
    (ofBits bits).getLsbD i = bits i := by
  rw [ofBits, BitVec.getLsbD_ofFnLE, dif_pos hi]

/-- Blocks with the same bits are equal. -/
theorem eq_ofBits {block : Block} {bits : Nat → Bool} (h : ∀ i < 256, block.getLsbD i = bits i) :
    block = ofBits bits := by
  apply BitVec.eq_of_getLsbD_eq
  intro i hi
  rw [h i hi, getLsbD_ofBits bits hi]

/-- The block whose bits are all equal. -/
def fill (value : Bool) : Block :=
  ofBits fun _ => value

theorem getLsbD_fill (value : Bool) {i : Nat} (hi : i < 256) : (fill value).getLsbD i = value :=
  getLsbD_ofBits _ hi

theorem fill_false : fill false = 0#256 := by
  apply BitVec.eq_of_getLsbD_eq
  intro i hi
  rw [getLsbD_fill false hi, BitVec.getLsbD_zero]

/-- What a block keeps under a mask of equal bits. -/
theorem and_fill (block : Block) (value : Bool) :
    block &&& fill value = if value then block else 0 := by
  apply BitVec.eq_of_getLsbD_eq
  intro i hi
  rw [BitVec.getLsbD_and, getLsbD_fill value hi]
  cases value <;> simp

/-- Blocks without a common bit mask each other. -/
theorem and_eq_zero {a b : Block}
    (h : ∀ i : Fin 256, a.getLsbD i = true → b.getLsbD i = false) : a &&& b = 0 := by
  apply BitVec.eq_of_getLsbD_eq
  intro i hi
  rw [BitVec.getLsbD_and]
  cases hbit : a.getLsbD i with
  | false => simp
  | true => simp [h ⟨i, hi⟩ hbit]

theorem getLsbD_ofBytes (bytes : Bytes) {i : Nat} (hi : i < 256) :
    (ofBytes bytes).getLsbD i = Bits.bit bytes i := by
  rw [ofBytes, Bits.bit_eq_testBit, BitVec.getLsbD_ofNat, decide_eq_true hi, Bool.true_and]

/-- The bits of a block are those of its bytes. -/
theorem bit?_toBytes (block : Block) {i : Nat} (hi : i < 256) :
    Bits.bit? block.toBytes i = some (block.getLsbD i) := by
  rw [Bits.bit?_eq_some_iff, length_toBytes, toBytes, Bits.bit_ofNatLE]
  refine ⟨hi, ?_⟩
  rw [decide_eq_true (show i < 8 * 32 from hi), Bool.true_and]
  rfl

/-! ### Halves -/

theorem low_xor (a b : Block) : (a ^^^ b).low = a.low ^^^ b.low :=
  BitVec.extractLsb'_xor

theorem high_xor (a b : Block) : (a ^^^ b).high = a.high ^^^ b.high :=
  BitVec.extractLsb'_xor

/-- No block but zero has two halves that are zero. -/
theorem eq_zero_iff_halves (block : Block) : block = 0 ↔ block.low = 0 ∧ block.high = 0 := by
  refine ⟨by rintro rfl; exact ⟨rfl, rfl⟩, fun ⟨hlow, hhigh⟩ => ?_⟩
  apply BitVec.eq_of_getLsbD_eq
  intro i hi
  by_cases h : i < 128
  · have hbit := congrArg (BitVec.getLsbD · i) hlow
    simpa [low, h] using hbit
  · have hbit := congrArg (BitVec.getLsbD · (i - 128)) hhigh
    have hindex : 128 + (i - 128) = i := by omega
    have hrange : i - 128 < 128 := by omega
    simpa [high, hindex, hrange] using hbit

end Block

end ObliviousTransfer
