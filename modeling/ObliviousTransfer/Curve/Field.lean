import ObliviousTransfer.Bytes

/-!
# The coordinate field

The integers modulo the prime of secp256k1. Powers, inverses and square roots are computed by
squaring and multiplying: an inverse is the power `p - 2`, and since `p` leaves 3 modulo 4, the
square root of a square is its power `(p + 1) / 4`.
-/

namespace ObliviousTransfer

/-- The prime of the coordinate field of secp256k1. -/
def fieldPrime : Nat :=
  0xfffffffffffffffffffffffffffffffffffffffffffffffffffffffefffffc2f

instance : @NeZero Nat .ofOfNat0 fieldPrime := ⟨by decide⟩

/-- A coordinate of a point: an integer modulo the field's prime. -/
abbrev Coordinate := Fin fieldPrime

namespace Coordinate

/-- The power of `x` with an exponent below `2²⁵⁶`: the square of the power so far for each bit of
the exponent, from the highest one, and once more `x` if the bit is set. -/
def pow (x : Coordinate) (exponent : Nat) : Coordinate :=
  (List.range 256).foldr
    (fun i power => if exponent.testBit i then power * power * x else power * power) 1

/-- The inverse of a coordinate other than zero; the inverse of zero is zero. -/
def inverse (x : Coordinate) : Coordinate :=
  pow x (fieldPrime - 2)

/-- A square root, if there is one. -/
def sqrt? (x : Coordinate) : Option Coordinate :=
  let root := pow x ((fieldPrime + 1) / 4)
  if root * root = x then some root else none

/-- Whether the number below the prime is odd; a coordinate and its negative differ in this. -/
def isOdd (x : Coordinate) : Bool :=
  x.val % 2 == 1

/-- The 32 bytes of a coordinate, most significant first. -/
def toBytes (x : Coordinate) : Bytes :=
  Bytes.ofNatBE 32 x.val

/-- The coordinate of a big-endian number below the prime. -/
def ofBytes? (bytes : Bytes) : Option Coordinate :=
  if h : Bytes.toNatBE bytes < fieldPrime then some ⟨Bytes.toNatBE bytes, h⟩ else none

@[simp]
theorem length_toBytes (x : Coordinate) : x.toBytes.length = 32 :=
  Bytes.length_ofNatBE ..

end Coordinate

end ObliviousTransfer
