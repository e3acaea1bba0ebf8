import Mathlib
import ObliviousTransfer.Group
import ObliviousTransfer.Proofs.OrderPrime

/-!
# Points as vectors over the scalars

By its laws a group of points is a module over the scalars, so that equations between points can be
computed with. The instances are for proofs only and have to be opened.

`Exponent` is a group of points in which the discrete logarithm of every element is known. It is of
no use for the protocols, but it has all the laws, so what is concluded from them is not empty.
-/

namespace ObliviousTransfer

open scoped Fin.CommRing

/-! ## The module of a group of points -/

namespace PointGroup

variable {P : Type} [PointGroup P] [LawfulPointGroup P]

scoped instance addCommGroup : AddCommGroup P where
  add_assoc := LawfulPointGroup.add_assoc
  zero_add := LawfulPointGroup.zero_add
  add_zero a := (LawfulPointGroup.add_comm a 0).trans (LawfulPointGroup.zero_add a)
  neg_add_cancel := LawfulPointGroup.neg_add
  add_comm := LawfulPointGroup.add_comm
  sub_eq_add_neg := LawfulPointGroup.sub_eq_add_neg
  nsmul := nsmulRec
  zsmul := zsmulRec

scoped instance module : Module Scalar P where
  one_smul := LawfulPointGroup.one_smul
  mul_smul := LawfulPointGroup.mul_smul
  smul_add := LawfulPointGroup.smul_add
  add_smul := LawfulPointGroup.add_smul
  smul_zero s := by
    have h : s • (0 : P) + s • (0 : P) = s • (0 : P) := by
      rw [← LawfulPointGroup.smul_add, add_zero]
    exact add_eq_left.1 h
  zero_smul a := by
    have h : (0 : Scalar) • a + (0 : Scalar) • a = (0 : Scalar) • a := by
      rw [← LawfulPointGroup.add_smul, add_zero]
    exact add_eq_left.1 h

/-- The generator is not killed by any scalar but zero. -/
theorem smul_generator_eq_zero_iff (s : Scalar) :
    s • (generator : P) = 0 ↔ s = 0 := by
  constructor
  · intro h
    exact LawfulPointGroup.smul_generator_injective s 0 (h.trans (zero_smul Scalar _).symm)
  · rintro rfl
    exact zero_smul Scalar _

/-- A scalar other than zero can be cancelled. -/
theorem smul_left_cancel_of_ne_zero {s : Scalar} (hs : s ≠ 0) {p q : P} (h : s • p = s • q) :
    p = q := by
  have hinverse : s.inverse * s = 1 := Scalar.inverse_mul_cancel hs
  calc p = (s.inverse * s) • p := by rw [hinverse, one_smul]
    _ = (s.inverse * s) • q := by rw [mul_smul, h, ← mul_smul]
    _ = q := by rw [hinverse, one_smul]

end PointGroup

/-! ## Known logarithms -/

/-- A multiple of the generator, given by its discrete logarithm. -/
structure Exponent where
  log : Scalar
deriving DecidableEq

namespace Exponent

instance : PointGroup Exponent where
  zero := ⟨0⟩
  add a b := ⟨a.log + b.log⟩
  neg a := ⟨-a.log⟩
  sub a b := ⟨a.log - b.log⟩
  smul s a := ⟨s * a.log⟩
  generator := ⟨1⟩
  encode a := 0 :: a.log.toBytes

instance : LawfulPointGroup Exponent where
  add_assoc a b c := congrArg mk (add_assoc a.log b.log c.log)
  add_comm a b := congrArg mk (add_comm a.log b.log)
  zero_add a := congrArg mk (zero_add a.log)
  neg_add a := congrArg mk (neg_add_cancel a.log)
  sub_eq_add_neg a b := congrArg mk (sub_eq_add_neg a.log b.log)
  add_smul s t a := congrArg mk (add_mul s t a.log)
  mul_smul s t a := congrArg mk (mul_assoc s t a.log)
  smul_add s a b := congrArg mk (mul_add s a.log b.log)
  one_smul a := congrArg mk (one_mul a.log)
  exists_smul_generator a := ⟨a.log, congrArg mk (mul_one a.log).symm⟩
  smul_generator_injective s t h := by
    rw [← mul_one s, ← mul_one t]
    exact congrArg log h
  length_encode a := congrArg Nat.succ (Scalar.length_toBytes a.log)
  encode_injective a b h := congrArg mk (Scalar.toBytes_injective (List.cons.inj h).2)

end Exponent

end ObliviousTransfer
