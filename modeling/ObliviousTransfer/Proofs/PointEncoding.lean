import Mathlib
import ObliviousTransfer.Curve.Group
import ObliviousTransfer.Proofs.FieldPrime

/-!
# Written points are read back

A written point shows its first coordinate and the parity of the second. Both conventions lose
nothing: `ofCompressed?_compressed` and `ofSec1?_sec1` read back exactly the point that was written,
so that different points are written differently (`compressed_injective`).

## Shape of the proof

The computed power of a square is a square root of it (`exists_sqrt?_mul_self`, by Fermat's little
theorem). In a field a square `y²` has no roots but `y` and `-y`, and since the modulus is odd these
two differ in parity (`isOdd_neg`). So the parity selects the right one (`decompress?_isOdd`).
-/

namespace ObliviousTransfer

open scoped Fin.CommRing

namespace Coordinate

instance : Fact fieldPrime.Prime := ⟨prime_fieldPrime⟩

/-! ## Bytes -/

theorem toNatBE_toBytes (x : Coordinate) : Bytes.toNatBE x.toBytes = x.val := by
  have hlt : x.val < 2 ^ (8 * 32) := Nat.lt_trans x.isLt (by decide)
  rw [toBytes, Bytes.toNatBE_ofNatBE, BitVec.toNat_ofNat, Nat.mod_eq_of_lt hlt]

@[simp]
theorem ofBytes?_toBytes (x : Coordinate) : ofBytes? x.toBytes = some x := by
  simp [ofBytes?, toNatBE_toBytes]

/-! ## The field -/

instance : IsDomain Coordinate :=
  (ZMod.finEquiv fieldPrime).toMulEquiv.isDomain (ZMod fieldPrime)

/-- Fermat's little theorem. -/
theorem pow_fieldPrime (x : Coordinate) : x ^ fieldPrime = x := by
  apply (ZMod.finEquiv fieldPrime).injective
  rw [map_pow, ZMod.pow_card]

/-- Squaring and multiplying computes the power. -/
theorem pow_eq (x : Coordinate) {exponent : Nat} (h : exponent < 2 ^ 256) :
    pow x exponent = x ^ exponent := by
  -- behind the bits from `n` on, the power is that of the exponent without its lower `n` bits
  have steps (n : Nat) : (List.range n).foldr
      (fun i power => if exponent.testBit i then power * power * x else power * power)
      (x ^ (exponent >>> n)) = x ^ exponent := by
    induction n with
    | zero => rfl
    | succ n ih =>
      have hshift : exponent >>> n = 2 * (exponent >>> (n + 1)) + (exponent.testBit n).toNat := by
        rw [Nat.shiftRight_succ, Nat.toNat_testBit, ← Nat.shiftRight_eq_div_pow, Nat.div_add_mod]
      rw [List.range_succ, List.foldr_append, List.foldr_cons, List.foldr_nil, ← ih, hshift]
      cases exponent.testBit n with
      | false => simp [two_mul, pow_add]
      | true => simp [two_mul, pow_add]
  have hnone : exponent >>> 256 = 0 := by rw [Nat.shiftRight_eq_div_pow, Nat.div_eq_of_lt h]
  rw [← steps 256, hnone, pow_zero, pow]

/-- A square root of a square is found. -/
theorem exists_sqrt?_mul_self (y : Coordinate) :
    ∃ root, sqrt? (y * y) = some root ∧ root * root = y * y := by
  have hexponent : (fieldPrime + 1) / 4 < 2 ^ 256 := by decide
  have hfour : 4 * ((fieldPrime + 1) / 4) = fieldPrime + 1 := by decide
  have hroot : pow (y * y) ((fieldPrime + 1) / 4) * pow (y * y) ((fieldPrime + 1) / 4) = y * y := by
    rw [pow_eq _ hexponent]
    generalize (fieldPrime + 1) / 4 = quarter at hfour
    calc (y * y) ^ quarter * (y * y) ^ quarter = y ^ (4 * quarter) := by ring
      _ = y * y := by rw [hfour, pow_succ, pow_fieldPrime]
  unfold sqrt?
  generalize pow (y * y) ((fieldPrime + 1) / 4) = root at hroot
  exact ⟨root, if_pos hroot, hroot⟩

/-- The parity tells the roots of a square apart. -/
theorem isOdd_neg {y : Coordinate} (hy : y ≠ 0) : (-y).isOdd = !y.isOdd := by
  have hodd : fieldPrime % 2 = 1 := by decide
  have hlt : y.val < fieldPrime := y.isLt
  have hpos : y.val ≠ 0 := fun h => hy (Fin.ext h)
  have hneg : (-y).val = fieldPrime - y.val := by
    rw [Fin.val_neg', Nat.mod_eq_of_lt (by omega)]
  rw [isOdd, isOdd, hneg]
  grind

end Coordinate

namespace Point

open Coordinate

/-- A point is determined by its first coordinate and the parity of the second. -/
theorem decompress?_isOdd {x y : Coordinate} (h : OnCurve x y) :
    decompress? x y.isOdd = some (affine x y h) := by
  obtain ⟨root, hsqrt, hroot⟩ := exists_sqrt?_mul_self y
  have hselected : (if root.isOdd = y.isOdd then root else -root) = y := by
    rcases mul_self_eq_mul_self_iff.1 hroot with rfl | rfl
    · exact if_pos rfl
    · by_cases hy : y = 0
      · simp [hy]
      · rw [isOdd_neg hy, if_neg (by simp), neg_neg]
  rw [decompress?, ← h, hsqrt]
  change ofCoordinates? x (if root.isOdd = y.isOdd then root else -root) = _
  rw [hselected, ofCoordinates?, dif_pos h]

/-- The first byte of a written point tells the parity. -/
def tag (y : Coordinate) : UInt8 :=
  if y.isOdd then 0x03 else 0x02

theorem tag_ne_zero (y : Coordinate) : tag y ≠ 0 := by
  unfold tag
  split <;> decide

theorem compressed_affine {x y : Coordinate} (h : OnCurve x y) :
    compressed (affine x y h) = tag y :: x.toBytes := rfl

theorem ofTagged?_tag {x y : Coordinate} (h : OnCurve x y) :
    ofTagged? (tag y) x.toBytes = some (affine x y h) := by
  unfold ofTagged?
  rw [ofBytes?_toBytes, ← decompress?_isOdd h, Option.bind_eq_bind, Option.bind_some]
  cases hodd : y.isOdd with
  | false =>
    have htag : tag y = 0x02 := by rw [tag, hodd]; rfl
    rw [htag, if_pos (Or.inl rfl)]
  | true =>
    have htag : tag y = 0x03 := by rw [tag, hodd]; rfl
    rw [htag, if_neg (by decide), if_pos rfl]

/-- The form of fixed length is read back. -/
theorem ofCompressed?_compressed (p : Point) : ofCompressed? p.compressed = some p := by
  cases p with
  | infinity => rfl
  | affine x y h =>
    have hne : tag y :: x.toBytes ≠ List.replicate 33 0 :=
      fun heq => tag_ne_zero y (List.cons.inj heq).1
    rw [compressed_affine, ofCompressed?, if_neg hne]
    exact (if_pos (length_toBytes x)).trans (ofTagged?_tag h)

/-- Different points are written differently. -/
theorem compressed_injective {p q : Point} (h : p.compressed = q.compressed) : p = q := by
  rw [← Option.some_inj, ← ofCompressed?_compressed p, h, ofCompressed?_compressed]

/-- The form with the length in front is read back. -/
theorem ofSec1?_sec1 (p : Point) : ofSec1? p.sec1 = some p := by
  cases p with
  | infinity => rfl
  | affine x y h =>
    have hlength : x.toBytes.length = 32 := length_toBytes x
    change ofSec1? (tag y :: x.toBytes) = _
    rw [ofSec1?.eq_def]
    split
    · next heq => exact absurd (List.cons.inj heq).1 (tag_ne_zero y)
    · next heq =>
      obtain ⟨rfl, rfl⟩ := List.cons.inj heq
      rw [if_pos hlength, ofTagged?_tag h]
    · next heq => cases heq

theorem length_sec1_le (p : Point) : p.sec1.length ≤ 33 := by
  cases p with
  | infinity => decide
  | affine x y h =>
    change x.toBytes.length + 1 ≤ 33
    rw [length_toBytes]

end Point

end ObliviousTransfer
