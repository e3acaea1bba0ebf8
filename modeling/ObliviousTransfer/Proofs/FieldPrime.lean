import Mathlib
import ObliviousTransfer.Curve.Field

/-!
# The coordinate field

The modulus of the coordinates is a prime, so that they form a field. Lucas's test shows it: some
`a` has `a ^ (p - 1) = 1`, and `a ^ ((p - 1) / q) ≠ 1` for every prime factor `q` of `p - 1`. The
large factors of `p - 1` are shown to be primes in the same way, down to factors that trial division
settles.
-/

namespace ObliviousTransfer

/-- Lucas's test for a number whose predecessor is the product of known primes. -/
theorem prime_of_powers {p : Nat} (a : ZMod p) (factors : List Nat)
    (hproduct : factors.prod = p - 1) (hprime : ∀ q ∈ factors, q.Prime) (hone : a ^ (p - 1) = 1)
    (hne : ∀ q ∈ factors, a ^ ((p - 1) / q) ≠ 1) : p.Prime := by
  refine lucas_primality p a hone fun q hq hdvd => ?_
  rw [← hproduct, hq.prime.dvd_prod_iff] at hdvd
  obtain ⟨r, hr, hqr⟩ := hdvd
  obtain rfl : q = r := (Nat.prime_dvd_prime_iff_eq hq (hprime r hr)).1 hqr
  exact hne q hr

/-! The factors are named by their numbers of digits. -/

private theorem prime_18 : Nat.Prime 173378833005251801 := by
  refine prime_of_powers 6 [2, 2, 2, 5, 5, 2621, 24809, 13331831] (by norm_num) ?_
    (by reduce_mod_char) ?_
  · simp only [List.forall_mem_cons]
    norm_num
  · simp only [List.forall_mem_cons]
    norm_num
    reduce_mod_char
    decide

private theorem prime_23 : Nat.Prime 22149492674086928081353 := by
  refine prime_of_powers 5 [2, 2, 2, 3, 5323, 173378833005251801] (by norm_num) ?_
    (by reduce_mod_char) ?_
  · simp only [List.forall_mem_cons, prime_18]
    norm_num
  · simp only [List.forall_mem_cons]
    norm_num
    reduce_mod_char
    decide

private theorem prime_24 : Nat.Prime 132896956044521568488119 := by
  refine prime_of_powers 6 [2, 3, 22149492674086928081353] (by norm_num) ?_ (by reduce_mod_char) ?_
  · simp only [List.forall_mem_cons, prime_23]
    norm_num
  · simp only [List.forall_mem_cons]
    norm_num
    reduce_mod_char
    decide

private theorem prime_39 : Nat.Prime 255515944373312847190720520512484175977 := by
  refine prime_of_powers 3
    [2, 2, 2, 7, 7, 11, 1627, 2657, 4423, 41201, 96557, 7240687, 107590001]
    (by norm_num) ?_ (by reduce_mod_char) ?_
  · simp only [List.forall_mem_cons]
    norm_num
  · simp only [List.forall_mem_cons]
    norm_num
    reduce_mod_char
    decide

private theorem prime_72 :
    Nat.Prime 205115282021455665897114700593932402728804164701536103180137503955397371 := by
  refine prime_of_powers 10
    [2, 3, 5, 29, 29, 31, 7723, 132896956044521568488119, 255515944373312847190720520512484175977]
    (by norm_num) ?_ (by reduce_mod_char) ?_
  · simp only [List.forall_mem_cons, prime_24, prime_39]
    norm_num
  · simp only [List.forall_mem_cons]
    norm_num
    reduce_mod_char
    decide

theorem prime_fieldPrime : fieldPrime.Prime := by
  rw [fieldPrime]
  refine prime_of_powers 3
    [2, 3, 7, 13441, 205115282021455665897114700593932402728804164701536103180137503955397371]
    (by norm_num) ?_ (by reduce_mod_char) ?_
  · simp only [List.forall_mem_cons, prime_72]
    norm_num
  · simp only [List.forall_mem_cons]
    norm_num
    reduce_mod_char
    decide

end ObliviousTransfer
