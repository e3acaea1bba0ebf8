import ObliviousTransfer.Bytes

/-!
# Scalars

The integers modulo the order of the curve group. Addition, subtraction, negation and
multiplication are those of `Fin`; this module adds the reading and writing of 32 bytes, most
significant first. Two readings exist: `ofBytes` reduces any number, `ofBytes?` refuses a number
that is not below the order.
-/

namespace ObliviousTransfer

/-- The order of the group of secp256k1, a prime. -/
def groupOrder : Nat :=
  0xfffffffffffffffffffffffffffffffebaaedce6af48a03bbfd25e8cd0364141

instance : @NeZero Nat .ofOfNat0 groupOrder := ⟨by decide⟩

/-- An integer modulo the group order. -/
abbrev Scalar := Fin groupOrder

namespace Scalar

/-- The 32 bytes of a scalar, most significant first. -/
def toBytes (s : Scalar) : Bytes :=
  Bytes.ofNatBE 32 s.val

/-- The scalar of a number of any size. -/
def reduce (n : Nat) : Scalar :=
  Fin.ofNat groupOrder n

/-- The scalar of a big-endian number, reduced. -/
def ofBytes (bytes : Bytes) : Scalar :=
  reduce (Bytes.toNatBE bytes)

/-- The scalar of a big-endian number below the group order. -/
def ofBytes? (bytes : Bytes) : Option Scalar :=
  if h : Bytes.toNatBE bytes < groupOrder then some ⟨Bytes.toNatBE bytes, h⟩ else none

/-- The sum of a list of scalars. -/
def sum (scalars : List Scalar) : Scalar :=
  scalars.foldl (· + ·) 0

@[simp]
theorem length_toBytes (s : Scalar) : s.toBytes.length = 32 :=
  Bytes.length_ofNatBE ..

/-- A scalar is below `2²⁵⁶`, so its bytes hold all of it. -/
theorem toNatBE_toBytes (s : Scalar) : Bytes.toNatBE s.toBytes = s.val := by
  have hlt : s.val < 2 ^ (8 * 32) := Nat.lt_trans s.isLt (by decide)
  rw [toBytes, Bytes.toNatBE_ofNatBE, BitVec.toNat_ofNat, Nat.mod_eq_of_lt hlt]

/-- The strict reading accepts what was written. -/
@[simp]
theorem ofBytes?_toBytes (s : Scalar) : ofBytes? s.toBytes = some s := by
  simp [ofBytes?, toNatBE_toBytes]

/-- Different scalars have different bytes. -/
theorem toBytes_injective {s t : Scalar} (h : s.toBytes = t.toBytes) : s = t := by
  apply Fin.ext
  rw [← toNatBE_toBytes s, h, toNatBE_toBytes]

end Scalar

end ObliviousTransfer
