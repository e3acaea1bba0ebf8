import Mathlib
import ObliviousTransfer.BinaryPolynomial.Limbs

/-!
# Products of binary polynomials

`mul` is the product by its coefficients: coefficient `k` is the parity of the number of pairs
`i + j = k` with both coefficients set. `accumulate` adds this product (`accumulate_eq`), no bit of
which falls out of the 256 coefficients.

The laws of the product are those of the polynomial ring over the field of two elements, which is a
domain: `toPoly` reads the bits of a word as coefficients, and takes sums to sums and products to
products.
-/

namespace ObliviousTransfer.BinaryPolynomial

open Polynomial

/-- The product of two polynomials of degree below 128. -/
def mul (a b : HalfBlock) : BinaryPolynomial :=
  BitVec.ofFnLE fun k : Fin 256 =>
    decide ((List.range (k + 1)).countP (fun i => a.getLsbD i && b.getLsbD (k - i)) % 2 = 1)

/-! ## Bits as coefficients -/

/-- The polynomial over the field of two elements whose coefficients are the bits of a word. -/
noncomputable def toPoly {w : Nat} (v : BitVec w) : (ZMod 2)[X] :=
  ∑ i ∈ Finset.range w, if v.getLsbD i then X ^ i else 0

theorem coeff_toPoly {w : Nat} (v : BitVec w) (k : Nat) :
    (toPoly v).coeff k = if v.getLsbD k then 1 else 0 := by
  have term (i : Nat) : (if v.getLsbD i then (X ^ i : (ZMod 2)[X]) else 0).coeff k =
      if k = i then (if v.getLsbD k then 1 else 0) else 0 := by
    by_cases h : k = i
    · subst h; by_cases hv : v.getLsbD k <;> simp [hv]
    · by_cases hv : v.getLsbD i <;> simp [hv, h, coeff_X_pow]
  simp only [toPoly, finsetSum_coeff, term, Finset.sum_ite_eq, Finset.mem_range]
  by_cases hk : k < w
  · rw [if_pos hk]
  · rw [if_neg hk, BitVec.getLsbD_of_ge v k (by omega)]
    rfl

/-- Different words have different polynomials. -/
theorem toPoly_injective {w : Nat} {a b : BitVec w} (h : toPoly a = toPoly b) : a = b := by
  apply BitVec.eq_of_getLsbD_eq
  intro i hi
  have hcoeff := congrArg (fun p => p.coeff i) h
  simp only [coeff_toPoly] at hcoeff
  cases ha : a.getLsbD i <;> cases hb : b.getLsbD i <;> simp_all

@[simp]
theorem toPoly_zero (w : Nat) : toPoly 0#w = 0 := by
  ext k
  simp [coeff_toPoly]

theorem toPoly_eq_zero_iff {w : Nat} (v : BitVec w) : toPoly v = 0 ↔ v = 0 := by
  constructor
  · intro h
    exact toPoly_injective (h.trans (toPoly_zero w).symm)
  · rintro rfl
    exact toPoly_zero w

theorem toPoly_xor {w : Nat} (a b : BitVec w) : toPoly (a ^^^ b) = toPoly a + toPoly b := by
  ext k
  rw [coeff_add, coeff_toPoly, coeff_toPoly, coeff_toPoly, BitVec.getLsbD_xor]
  cases a.getLsbD k <;> cases b.getLsbD k <;> decide

/-- The multiples that the comb method goes through lose no bit. -/
theorem toPoly_shiftLeft_ofHalf (a : HalfBlock) {n : Nat} (hn : n ≤ 128) :
    toPoly (ofHalf a <<< n) = X ^ n * toPoly a := by
  ext k
  rw [coeff_X_pow_mul', coeff_toPoly, coeff_toPoly, BitVec.getLsbD_shiftLeft, ofHalf,
    BitVec.getLsbD_setWidth]
  by_cases h : n ≤ k
  · by_cases hk : k < 256
    · have hwindow : k - n < 256 := by omega
      simp [h, hk, hwindow]
    · have hhigh : a.getLsbD (k - n) = false := BitVec.getLsbD_of_ge a _ (by omega)
      simp [hk, hhigh]
  · simp [h]

/-! ## The comb method multiplies -/

/-- The comb method after `n` coefficients of the second factor. -/
private theorem comb_steps (f : BinaryPolynomial) (a b : HalfBlock) {n : Nat} (hn : n ≤ 128) :
    let state := (List.range n).foldl (fun state i => combStep (b.getLsbD i) state) (f, ofHalf a)
    toPoly state.1 =
        toPoly f + toPoly a * ∑ i ∈ Finset.range n, (if b.getLsbD i then X ^ i else 0) ∧
      state.2 = ofHalf a <<< n := by
  -- the sum alone is no invariant: the step adds the second component
  induction n with
  | zero => simp
  | succ n ih =>
    obtain ⟨hsum, hshifted⟩ := ih (by omega)
    rw [List.range_succ, List.foldl_append, List.foldl_cons, List.foldl_nil]
    generalize (List.range n).foldl (fun state i => combStep (b.getLsbD i) state) (f, ofHalf a) =
      state at hsum hshifted
    refine ⟨?_, ?_⟩
    · rw [Finset.sum_range_succ, mul_add, ← add_assoc, ← hsum, combStep]
      by_cases hb : b.getLsbD n
      · rw [if_pos hb, if_pos hb, toPoly_xor, hshifted, toPoly_shiftLeft_ofHalf a (by omega),
          mul_comm (X ^ n)]
      · rw [if_neg hb, if_neg hb, mul_zero, add_zero]
    · rw [combStep, hshifted, timesX, BitVec.shiftLeft_add]

theorem toPoly_accumulate (f : BinaryPolynomial) (a b : HalfBlock) :
    toPoly (accumulate f a b) = toPoly f + toPoly a * toPoly b := by
  rw [accumulate_eq_comb, comb]
  exact (comb_steps f a b (Nat.le_refl 128)).1

private theorem natCast_countP (p : Nat → Bool) (n : Nat) :
    (((List.range n).countP p : Nat) : ZMod 2) = ∑ i ∈ Finset.range n, if p i then 1 else 0 := by
  induction n with
  | zero => simp
  | succ n ih =>
    rw [List.range_succ, List.countP_append, Nat.cast_add, ih, Finset.sum_range_succ]
    cases h : p n <;> simp [h]

private theorem natCast_eq_parity (n : Nat) : (n : ZMod 2) = if n % 2 = 1 then 1 else 0 := by
  rw [← ZMod.natCast_mod]
  rcases Nat.mod_two_eq_zero_or_one n with h | h <;> rw [h] <;> rfl

theorem toPoly_mul (a b : HalfBlock) : toPoly (mul a b) = toPoly a * toPoly b := by
  ext k
  rw [coeff_mul, Finset.Nat.sum_antidiagonal_eq_sum_range_succ
    (fun i j => (toPoly a).coeff i * (toPoly b).coeff j)]
  have pair (i : Nat) : (toPoly a).coeff i * (toPoly b).coeff (k - i) =
      if a.getLsbD i && b.getLsbD (k - i) then 1 else 0 := by
    rw [coeff_toPoly, coeff_toPoly]
    cases a.getLsbD i <;> cases b.getLsbD (k - i) <;> simp
  simp only [pair]
  rw [← natCast_countP (fun i => a.getLsbD i && b.getLsbD (k - i)), natCast_eq_parity, coeff_toPoly,
    mul, BitVec.getLsbD_ofFnLE]
  by_cases hk : k < 256
  · rw [dif_pos hk]
    simp only [decide_eq_true_eq]
  · -- one of the two factors has no coefficient there
    have hnone : (List.range (k + 1)).countP (fun i => a.getLsbD i && b.getLsbD (k - i)) = 0 := by
      rw [List.countP_eq_zero]
      intro i _
      by_cases hi : i < 128
      · rw [BitVec.getLsbD_of_ge b (k - i) (by omega), Bool.and_false]
        exact Bool.false_ne_true
      · rw [BitVec.getLsbD_of_ge a i (by omega), Bool.false_and]
        exact Bool.false_ne_true
    rw [dif_neg hk, hnone]
    rfl

/-- `accumulate` adds the product. -/
theorem accumulate_eq (f : BinaryPolynomial) (a b : HalfBlock) :
    accumulate f a b = f ^^^ mul a b := by
  apply toPoly_injective
  rw [toPoly_accumulate, toPoly_xor, toPoly_mul]

/-! ## Laws of the product -/

theorem mul_xor (a b c : HalfBlock) : mul a (b ^^^ c) = mul a b ^^^ mul a c := by
  apply toPoly_injective
  simp only [toPoly_mul, toPoly_xor, mul_add]

theorem xor_mul (a b c : HalfBlock) : mul (a ^^^ b) c = mul a c ^^^ mul b c := by
  apply toPoly_injective
  simp only [toPoly_mul, toPoly_xor, add_mul]

/-- There are no zero divisors. -/
theorem mul_eq_zero_iff (a b : HalfBlock) : mul a b = 0 ↔ a = 0 ∨ b = 0 := by
  rw [← toPoly_eq_zero_iff, toPoly_mul, mul_eq_zero, toPoly_eq_zero_iff, toPoly_eq_zero_iff]

end ObliviousTransfer.BinaryPolynomial
