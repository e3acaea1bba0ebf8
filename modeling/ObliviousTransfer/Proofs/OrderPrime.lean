import Mathlib
import ObliviousTransfer.Scalar
import ObliviousTransfer.Proofs.FieldPrime

/-!
# The order of the group

The order of the group of points is a prime, by Lucas's test down to factors that trial division
settles. So a scalar other than zero has an inverse and can be cancelled in products.
-/

namespace ObliviousTransfer

/-! The factors are named by their numbers of digits. -/

private theorem prime_factor_9 : Nat.Prime 545358713 := by
  refine prime_of_powers 5 [2, 2, 2, 41, 59, 28181] (by norm_num) ?_ (by reduce_mod_char) ?_
  · simp only [List.forall_mem_cons]
    norm_num
  · simp only [List.forall_mem_cons]
    norm_num
    reduce_mod_char
    decide

private theorem prime_factor_12 : Nat.Prime 297159362677 := by
  refine prime_of_powers 2 [2, 2, 3, 3, 11, 461, 1627771] (by norm_num) ?_ (by reduce_mod_char) ?_
  · simp only [List.forall_mem_cons]
    norm_num
  · simp only [List.forall_mem_cons]
    norm_num
    reduce_mod_char
    decide

private theorem prime_factor_18 : Nat.Prime 107361793816595537 := by
  refine prime_of_powers 3 [2, 2, 2, 2, 16699, 85831, 4681609] (by norm_num) ?_
    (by reduce_mod_char) ?_
  · simp only [List.forall_mem_cons]
    norm_num
  · simp only [List.forall_mem_cons]
    norm_num
    reduce_mod_char
    decide

private theorem prime_factor_21 : Nat.Prime 174723607534414371449 := by
  refine prime_of_powers 3 [2, 2, 2, 17, 59, 4051, 120233, 44706919] (by norm_num) ?_
    (by reduce_mod_char) ?_
  · simp only [List.forall_mem_cons]
    norm_num
  · simp only [List.forall_mem_cons]
    norm_num
    reduce_mod_char
    decide

private theorem prime_factor_29 : Nat.Prime 29047611873442575647497758179 := by
  refine prime_of_powers 2 [2, 293, 305873, 545358713, 297159362677] (by norm_num) ?_
    (by reduce_mod_char) ?_
  · simp only [List.forall_mem_cons, prime_factor_9, prime_factor_12]
    norm_num
  · simp only [List.forall_mem_cons]
    norm_num
    reduce_mod_char
    decide

private theorem prime_factor_33 : Nat.Prime 341948486974166000522343609283189 := by
  refine prime_of_powers 2 [2, 2, 3, 3, 3, 109, 29047611873442575647497758179] (by norm_num) ?_
    (by reduce_mod_char) ?_
  · simp only [List.forall_mem_cons, prime_factor_29]
    norm_num
  · simp only [List.forall_mem_cons]
    norm_num
    reduce_mod_char
    decide

theorem prime_groupOrder : groupOrder.Prime := by
  rw [groupOrder]
  refine prime_of_powers 7
    [2, 2, 2, 2, 2, 2, 3, 149, 631, 107361793816595537, 174723607534414371449,
      341948486974166000522343609283189]
    (by norm_num) ?_ (by reduce_mod_char) ?_
  · simp only [List.forall_mem_cons, prime_factor_18, prime_factor_21, prime_factor_33]
    norm_num
  · simp only [List.forall_mem_cons]
    norm_num
    reduce_mod_char
    decide

open scoped Fin.CommRing

namespace Scalar

/-- The inverse of a scalar other than zero, by Bézout's equation with the order. -/
def inverse (s : Scalar) : Scalar :=
  (s.val.gcdA groupOrder : ℤ)

theorem inverse_mul_cancel {s : Scalar} (hs : s ≠ 0) : s.inverse * s = 1 := by
  have hcoprime : s.val.Coprime groupOrder := by
    refine ((prime_groupOrder.coprime_iff_not_dvd).2 fun hdvd => hs ?_).symm
    exact Fin.ext (Nat.eq_zero_of_dvd_of_lt hdvd s.isLt)
  have hbezout : (1 : ℤ) =
      s.val * s.val.gcdA groupOrder + groupOrder * s.val.gcdB groupOrder := by
    rw [← Nat.gcd_eq_gcd_ab, hcoprime, Nat.cast_one]
  -- modulo the order the second product is zero
  have hcast := congrArg (Int.cast : ℤ → Scalar) hbezout
  rw [Int.cast_one, Int.cast_add, Int.cast_mul, Int.cast_mul, Int.cast_natCast, Int.cast_natCast,
    Fin.cast_val_eq_self, Fin.natCast_self, zero_mul, add_zero] at hcast
  rw [mul_comm]
  exact hcast.symm

/-- A scalar other than zero can be cancelled in a product. -/
theorem mul_right_cancel_iff {s : Scalar} (hs : s ≠ 0) (a b : Scalar) : a * s = b * s ↔ a = b :=
  (IsUnit.of_mul_eq_one_right s.inverse (inverse_mul_cancel hs)).mul_left_inj

end Scalar

end ObliviousTransfer
