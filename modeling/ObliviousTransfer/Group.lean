import ObliviousTransfer.Scalar

/-!
# The group of the protocols

The protocols need a group with an action of the scalars, a generator, and a way to write an element
as a string of bytes. `PointGroup` collects these operations.

`LawfulPointGroup` collects what the statements about the protocols rest on: the elements form an
abelian group, the scalars act on it, every element is a multiple of the generator by exactly one
scalar, and different elements are written differently, in 33 bytes each.
-/

namespace ObliviousTransfer

/-- The operations on the elements of a group of points. -/
class PointGroup (P : Type) extends Zero P, Add P, Neg P, Sub P, SMul Scalar P where
  /-- The element that public points are multiples of. -/
  generator : P
  /-- The bytes of an element. -/
  encode : P → Bytes

/-- The laws of a group of points. -/
class LawfulPointGroup (P : Type) [PointGroup P] : Prop where
  add_assoc (a b c : P) : a + b + c = a + (b + c)
  add_comm (a b : P) : a + b = b + a
  zero_add (a : P) : 0 + a = a
  neg_add (a : P) : -a + a = 0
  sub_eq_add_neg (a b : P) : a - b = a + -b
  add_smul (s t : Scalar) (a : P) : (s + t) • a = s • a + t • a
  mul_smul (s t : Scalar) (a : P) : (s * t) • a = s • t • a
  smul_add (s : Scalar) (a b : P) : s • (a + b) = s • a + s • b
  one_smul (a : P) : (1 : Scalar) • a = a
  /-- The generator reaches every element. -/
  exists_smul_generator (a : P) : ∃ s : Scalar, a = s • (PointGroup.generator : P)
  /-- It reaches each of them once. -/
  smul_generator_injective (s t : Scalar) :
    s • (PointGroup.generator : P) = t • PointGroup.generator → s = t
  length_encode (a : P) : (PointGroup.encode a).length = 33
  encode_injective (a b : P) : PointGroup.encode a = PointGroup.encode b → a = b

end ObliviousTransfer
