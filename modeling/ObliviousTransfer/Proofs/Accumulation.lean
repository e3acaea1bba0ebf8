import Mathlib
import ObliviousTransfer.Proofs.CarrylessProduct

/-!
# Accumulated products

The comb method in words has no branch on the coefficients of the second factor: it adds the shifted
first factor under a mask, which is the coefficient in all 64 places. `maskedSteps` is this loop. It
ends with what `accumulate` returns (`toPolynomial_maskedSteps_fst`), and none of its 128 shifts
loses a bit, because the first factor has degree below 128 (`getLsbD_maskedSteps_snd`,
`toNat_timesX_maskedSteps_snd`).

So every call adds a product that does not depend on the sum so far, and a sum of polynomials and
products is the same in every order (`sumUp_perm`).
-/

namespace ObliviousTransfer.BinaryPolynomial

/-! ## The loop without branches -/

/-- The words of a polynomial of degree below 128. -/
def Limbs.ofHalf (a : HalfBlock) : Limbs :=
  ⟨⟨a.extractLsb' 0 64⟩, ⟨a.extractLsb' 64 64⟩, 0, 0⟩

/-- A polynomial plus what a mask keeps of another. -/
def Limbs.xorMasked (l m : Limbs) (mask : UInt64) : Limbs :=
  ⟨l.w0 ^^^ (m.w0 &&& mask), l.w1 ^^^ (m.w1 &&& mask), l.w2 ^^^ (m.w2 &&& mask),
    l.w3 ^^^ (m.w3 &&& mask)⟩

/-- The word that has a coefficient in all places: the coefficient, subtracted from zero. -/
def coefficientMask (b : HalfBlock) (i : Nat) : UInt64 :=
  0 - UInt64.ofNat ((b >>> i) &&& 1#128).toNat

/-- The words of the sum and of the shifted first factor after a number of steps. -/
def maskedSteps (l : Limbs) (a b : HalfBlock) : (steps : Nat) → Limbs × Limbs
  | 0 => (l, Limbs.ofHalf a)
  | i + 1 =>
    let state := maskedSteps l a b i
    (state.1.xorMasked state.2 (coefficientMask b i), state.2.timesX)

@[simp]
theorem Limbs.toPolynomial_ofHalf (a : HalfBlock) :
    (Limbs.ofHalf a).toPolynomial = BinaryPolynomial.ofHalf a := by
  apply BitVec.eq_of_getLsbD_eq
  intro i _
  have high (h : 128 ≤ i) : a.getLsbD i = false := BitVec.getLsbD_of_ge a i h
  simp only [Limbs.getLsbD_toPolynomial, Limbs.ofHalf, BinaryPolynomial.ofHalf,
    BitVec.getLsbD_setWidth, BitVec.getLsbD_extractLsb', UInt64.toBitVec_ofNat, BitVec.getLsbD_zero]
  grind

theorem coefficientMask_eq (b : HalfBlock) (i : Nat) :
    coefficientMask b i = if b.getLsbD i then 0xFFFFFFFFFFFFFFFF else 0 := by
  rw [coefficientMask, BitVec.and_one_eq_setWidth_ofBool_getLsbD, BitVec.getLsbD_ushiftRight,
    Nat.add_zero]
  cases b.getLsbD i <;> rfl

/-- Under the mask the whole other polynomial is added, or nothing. -/
theorem xorMasked_coefficientMask (l m : Limbs) (b : HalfBlock) (i : Nat) :
    l.xorMasked m (coefficientMask b i) = if b.getLsbD i then l.xor m else l := by
  have hones (w : UInt64) : w &&& 0xFFFFFFFFFFFFFFFF = w := UInt64.and_neg_one
  rw [coefficientMask_eq]
  split
  · simp only [Limbs.xorMasked, Limbs.xor, hones]
  · simp only [Limbs.xorMasked, UInt64.and_zero, UInt64.xor_zero]

/-- The words run the comb method. -/
theorem toPolynomial_maskedSteps (l : Limbs) (a b : HalfBlock) (steps : Nat) :
    ((maskedSteps l a b steps).1.toPolynomial, (maskedSteps l a b steps).2.toPolynomial) =
      (List.range steps).foldl (fun state i => combStep (b.getLsbD i) state)
        (l.toPolynomial, ofHalf a) := by
  induction steps with
  | zero => simp [maskedSteps]
  | succ i ih =>
    rw [List.range_succ, List.foldl_append, ← ih, List.foldl_cons, List.foldl_nil, maskedSteps,
      xorMasked_coefficientMask, combStep]
    split
    · rw [Limbs.toPolynomial_xor, Limbs.toPolynomial_timesX]
    · rw [Limbs.toPolynomial_timesX]

theorem toPolynomial_maskedSteps_fst (l : Limbs) (a b : HalfBlock) :
    (maskedSteps l a b 128).1.toPolynomial = accumulate l.toPolynomial a b := by
  rw [accumulate_eq_comb, comb, ← toPolynomial_maskedSteps]

theorem toPolynomial_maskedSteps_snd (l : Limbs) (a b : HalfBlock) (steps : Nat) :
    (maskedSteps l a b steps).2.toPolynomial = ofHalf a <<< steps := by
  induction steps with
  | zero => simp [maskedSteps]
  | succ i ih => rw [maskedSteps, Limbs.toPolynomial_timesX, ih, timesX, BitVec.shiftLeft_add]

/-- Before each shift, the coefficient that the shift would drop is not set. -/
theorem getLsbD_maskedSteps_snd (l : Limbs) (a b : HalfBlock) {i : Nat} (hi : i < 128) :
    (maskedSteps l a b i).2.toPolynomial.getLsbD 255 = false := by
  have hhigh : a.getLsbD (255 - i) = false := BitVec.getLsbD_of_ge a _ (by omega)
  rw [toPolynomial_maskedSteps_snd, BitVec.getLsbD_shiftLeft, ofHalf, BitVec.getLsbD_setWidth,
    hhigh, Bool.and_false, Bool.and_false]

/-- A shift that drops no coefficient doubles the number that the words write. -/
theorem toNat_timesX_maskedSteps_snd (l : Limbs) (a b : HalfBlock) {i : Nat}
    (hi : i < 128) :
    (maskedSteps l a b i).2.timesX.toPolynomial.toNat =
      2 * (maskedSteps l a b i).2.toPolynomial.toNat := by
  have hdrop := getLsbD_maskedSteps_snd l a b hi
  generalize (maskedSteps l a b i).2 = shifted at hdrop
  have hfits : 2 * shifted.toPolynomial.toNat < 2 ^ 256 :=
    BitVec.msb_eq_false_iff_two_mul_lt.1 (BitVec.msb_eq_getLsbD_last _ ▸ hdrop)
  rw [Limbs.toPolynomial_timesX, timesX, BitVec.toNat_shiftLeft, Nat.shiftLeft_eq, pow_one,
    Nat.mul_comm, Nat.mod_eq_of_lt hfits]

/-! ## The product by pairs of coefficients -/

/-- The places of a coefficient of each factor that meet in coefficient `k` of the product. -/
def pairs (a b : HalfBlock) (k : Nat) : Finset (Nat × Nat) :=
  (Finset.HasAntidiagonal.antidiagonal k).filter fun place => a.getLsbD place.1 ∧ b.getLsbD place.2

/-- A coefficient of the product is the parity of the number of pairs that meet there. -/
theorem getLsbD_mul (a b : HalfBlock) (k : Nat) :
    (mul a b).getLsbD k = decide (Odd (pairs a b k).card) := by
  have pair (place : Nat × Nat) : (toPoly a).coeff place.1 * (toPoly b).coeff place.2 =
      if a.getLsbD place.1 ∧ b.getLsbD place.2 then 1 else 0 := by
    rw [coeff_toPoly, coeff_toPoly]
    cases a.getLsbD place.1 <;> cases b.getLsbD place.2 <;> simp
  have hcard : ((pairs a b k).card : ZMod 2) = if (mul a b).getLsbD k then 1 else 0 := by
    rw [← coeff_toPoly, toPoly_mul, Polynomial.coeff_mul, pairs, Finset.natCast_card_filter]
    exact Finset.sum_congr rfl fun place _ => (pair place).symm
  have hodd : (mul a b).getLsbD k = true ↔ Odd (pairs a b k).card := by
    rw [← ZMod.natCast_eq_one_iff_odd, hcard]
    cases (mul a b).getLsbD k <;> decide
  exact Bool.eq_iff_iff.2 (hodd.trans decide_eq_true_iff.symm)

protected theorem mul_comm (a b : HalfBlock) : mul a b = mul b a := by
  apply toPoly_injective
  rw [toPoly_mul, toPoly_mul, mul_comm]

/-! ## Sums in any order -/

/-- What is added to a sum in one call. -/
inductive Addend where
  | polynomial (g : BinaryPolynomial)
  | product (a b : HalfBlock)
deriving DecidableEq, Repr

/-- The sum with one more addend. -/
def Addend.addTo (f : BinaryPolynomial) : Addend → BinaryPolynomial
  | polynomial g => f ^^^ g
  | product a b => accumulate f a b

/-- The polynomial that an addend stands for. -/
def Addend.value : Addend → BinaryPolynomial
  | polynomial g => g
  | product a b => mul a b

/-- The sum with the addends of a list, one call after the other. -/
def sumUp (f : BinaryPolynomial) (addends : List Addend) : BinaryPolynomial :=
  addends.foldl Addend.addTo f

theorem Addend.addTo_eq (f : BinaryPolynomial) (addend : Addend) :
    addend.addTo f = f ^^^ addend.value := by
  cases addend with
  | polynomial g => rfl
  | product a b => exact accumulate_eq f a b

/-- Two calls may change places, so all of them may. -/
theorem sumUp_perm {addends addends' : List Addend} (h : addends.Perm addends')
    (f : BinaryPolynomial) : sumUp f addends = sumUp f addends' := by
  refine h.foldl_eq' (fun x _ y _ sum => ?_) f
  rw [Addend.addTo_eq, Addend.addTo_eq, Addend.addTo_eq, Addend.addTo_eq, BitVec.xor_assoc,
    BitVec.xor_comm x.value, BitVec.xor_assoc]

/-! ## Accumulation -/

/-- **Accumulation.** A call adds the full product to whatever four words it is given, and no shift
of its loop drops a bit. The product is commutative, linear in both factors and without zero
divisors, and a sum of any polynomials and products is the same in every order of the calls. -/
theorem accumulate_adds_full_product :
    (∀ (l : Limbs) (a b : HalfBlock),
      accumulate l.toPolynomial a b = l.toPolynomial ^^^ mul a b ∧
      (maskedSteps l a b 128).1.toPolynomial = accumulate l.toPolynomial a b ∧
      ∀ i < 128, (maskedSteps l a b i).2.toPolynomial.getLsbD 255 = false ∧
        (maskedSteps l a b i).2.timesX.toPolynomial.toNat =
          2 * (maskedSteps l a b i).2.toPolynomial.toNat) ∧
    (∀ (a b : HalfBlock) (k : Nat), (mul a b).getLsbD k = decide (Odd (pairs a b k).card)) ∧
    (∀ a b : HalfBlock, mul a b = mul b a) ∧
    (∀ a b c : HalfBlock, mul a (b ^^^ c) = mul a b ^^^ mul a c ∧
      mul (a ^^^ b) c = mul a c ^^^ mul b c) ∧
    (∀ a b : HalfBlock, mul a b = 0 ↔ a = 0 ∨ b = 0) ∧
    ∀ (f : BinaryPolynomial) (addends addends' : List Addend), addends.Perm addends' →
      sumUp f addends = sumUp f addends' := by
  refine ⟨fun l a b => ⟨accumulate_eq _ a b, toPolynomial_maskedSteps_fst l a b, fun i hi => ?_⟩,
    getLsbD_mul, BinaryPolynomial.mul_comm, fun a b c => ⟨mul_xor a b c, xor_mul a b c⟩,
    mul_eq_zero_iff, fun f _ _ h => sumUp_perm h f⟩
  exact ⟨getLsbD_maskedSteps_snd l a b hi, toNat_timesX_maskedSteps_snd l a b hi⟩

/-- The last shift of a factor with all coefficients, and `X + 1` squared in two sums. -/
theorem accumulate_all_ones_and_square :
    let ones : HalfBlock := BitVec.allOnes 128
    let addends : List Addend := [.product 3 3, .polynomial 7, .product ones ones]
    let reordered : List Addend := [.product ones ones, .product 3 3, .polynomial 7]
    127 < 128 ∧ (maskedSteps ⟨1, 2, 3, 4⟩ ones ones 127).2.toPolynomial.getLsbD 255 = false ∧
      addends.Perm reordered ∧ sumUp 1 addends = sumUp 1 reordered ∧ accumulate 0 3 3 = 5 := by
  intro ones addends reordered
  have hlast : 127 < 128 := by decide
  have hperm : addends.Perm reordered := by decide
  obtain ⟨hwords, -, -, -, -, hsum⟩ := accumulate_adds_full_product
  obtain ⟨-, -, hshifts⟩ := hwords ⟨1, 2, 3, 4⟩ ones ones
  exact ⟨hlast, (hshifts 127 hlast).1, hperm, hsum 1 _ _ hperm, by decide +kernel⟩

end ObliviousTransfer.BinaryPolynomial
