import ObliviousTransfer.BinaryPolynomial.Basic

/-!
# Binary polynomials in words

The comb method takes 128 shifts and additions for each product, and an extension takes thousands of
products. This module holds a polynomial as four words of 64 coefficients, on which a step is a few
word operations, and runs the method there.

## Shape of the proof

`Limbs.toPolynomial` reads four words as a polynomial. Addition and multiplication by `X` commute
with this reading (`toPolynomial_xor`, `toPolynomial_timesX`), so each step does, and
`accumulate_eq_comb` says that `accumulate` is the comb method.
-/

namespace ObliviousTransfer.BinaryPolynomial

/-- The coefficients of a polynomial in four words, the lowest ones first. -/
structure Limbs where
  w0 : UInt64
  w1 : UInt64
  w2 : UInt64
  w3 : UInt64
deriving DecidableEq, Repr

namespace Limbs

/-- The polynomial with the coefficients of four words. -/
def toPolynomial (l : Limbs) : BinaryPolynomial :=
  l.w3.toBitVec ++ l.w2.toBitVec ++ l.w1.toBitVec ++ l.w0.toBitVec

/-- The four words of a polynomial. -/
def ofPolynomial (f : BinaryPolynomial) : Limbs :=
  ⟨⟨f.extractLsb' 0 64⟩, ⟨f.extractLsb' 64 64⟩, ⟨f.extractLsb' 128 64⟩, ⟨f.extractLsb' 192 64⟩⟩

/-- The sum of two polynomials. -/
def xor (l m : Limbs) : Limbs :=
  ⟨l.w0 ^^^ m.w0, l.w1 ^^^ m.w1, l.w2 ^^^ m.w2, l.w3 ^^^ m.w3⟩

/-- A polynomial times `X`: the highest coefficient of each word moves into the next one. -/
def timesX (l : Limbs) : Limbs :=
  ⟨l.w0 <<< 1, (l.w1 <<< 1) ||| (l.w0 >>> 63), (l.w2 <<< 1) ||| (l.w1 >>> 63),
    (l.w3 <<< 1) ||| (l.w2 >>> 63)⟩

/-- Each coefficient is a bit of one of the words. -/
theorem getLsbD_toPolynomial (l : Limbs) (i : Nat) :
    l.toPolynomial.getLsbD i =
      if i < 64 then l.w0.toBitVec.getLsbD i
      else if i < 128 then l.w1.toBitVec.getLsbD (i - 64)
      else if i < 192 then l.w2.toBitVec.getLsbD (i - 128)
      else l.w3.toBitVec.getLsbD (i - 192) := by
  simp only [toPolynomial, BitVec.getLsbD_append, Nat.sub_sub]
  by_cases h0 : i < 64
  · simp only [h0, ↓reduceIte]
  by_cases h1 : i < 128
  · have : i - 64 < 64 := by omega
    simp only [h0, h1, this, ↓reduceIte]
  by_cases h2 : i < 192
  · have h3 : ¬i - 64 < 64 := by omega
    have h4 : i - (64 + 64) < 64 := by omega
    simp only [h0, h1, h2, h3, h4, ↓reduceIte]
  · have h3 : ¬i - 64 < 64 := by omega
    have h4 : ¬i - (64 + 64) < 64 := by omega
    simp only [h0, h1, h2, h3, h4, ↓reduceIte]

@[simp]
theorem toPolynomial_ofPolynomial (f : BinaryPolynomial) : (ofPolynomial f).toPolynomial = f := by
  apply BitVec.eq_of_getLsbD_eq
  intro i hi
  simp only [getLsbD_toPolynomial, ofPolynomial, BitVec.getLsbD_extractLsb']
  by_cases h0 : i < 64
  · simp only [h0, ↓reduceIte, decide_true, Bool.true_and, Nat.zero_add]
  by_cases h1 : i < 128
  · have : i - 64 < 64 := by omega
    have h : 64 + (i - 64) = i := by omega
    simp only [h0, h1, this, h, ↓reduceIte, decide_true, Bool.true_and]
  by_cases h2 : i < 192
  · have : i - 128 < 64 := by omega
    have h : 128 + (i - 128) = i := by omega
    simp only [h0, h1, h2, this, h, ↓reduceIte, decide_true, Bool.true_and]
  · have : i - 192 < 64 := by omega
    have h : 192 + (i - 192) = i := by omega
    simp only [h0, h1, h2, this, h, ↓reduceIte, decide_true, Bool.true_and]

@[simp]
theorem toPolynomial_xor (l m : Limbs) :
    (l.xor m).toPolynomial = l.toPolynomial ^^^ m.toPolynomial := by
  apply BitVec.eq_of_getLsbD_eq
  intro i hi
  simp only [BitVec.getLsbD_xor, getLsbD_toPolynomial, xor, UInt64.toBitVec_xor]
  grind

private theorem getLsbD_shiftLeft_one (w : UInt64) (i : Nat) :
    (w <<< 1).toBitVec.getLsbD i =
      (decide (i < 64) && !decide (i < 1) && w.toBitVec.getLsbD (i - 1)) := by
  simp

private theorem getLsbD_shiftRight_63 (w : UInt64) (i : Nat) :
    (w >>> 63).toBitVec.getLsbD i = w.toBitVec.getLsbD (63 + i) := by
  simp

@[simp]
theorem toPolynomial_timesX (l : Limbs) : l.timesX.toPolynomial = l.toPolynomial.timesX := by
  apply BitVec.eq_of_getLsbD_eq
  intro i hi
  have high (w : UInt64) (k : Nat) (h : 64 ≤ k) : w.toBitVec.getLsbD k = false :=
    BitVec.getLsbD_of_ge _ _ h
  simp only [BinaryPolynomial.timesX, BitVec.getLsbD_shiftLeft, getLsbD_toPolynomial, timesX,
    UInt64.toBitVec_or, BitVec.getLsbD_or, getLsbD_shiftLeft_one, getLsbD_shiftRight_63]
  by_cases h0 : i = 0
  · subst h0; simp
  have hpos : ¬i < 1 := by omega
  by_cases h1 : i < 64
  · have : i - 1 < 64 := by omega
    simp [*]
  by_cases h2 : i < 128
  · by_cases edge : i = 64
    · subst edge; simp
    · have h3 : ¬i - 1 < 64 := by omega
      have h4 : i - 1 < 128 := by omega
      have h5 : i - 64 < 64 := by omega
      have h6 : ¬i - 64 < 1 := by omega
      have h7 : i - 64 - 1 = i - 1 - 64 := by omega
      rw [high l.w0 (63 + (i - 64)) (by omega)]
      simp [*]
  by_cases h3 : i < 192
  · by_cases edge : i = 128
    · subst edge; simp
    · have h4 : ¬i - 1 < 64 := by omega
      have h5 : ¬i - 1 < 128 := by omega
      have h6 : i - 1 < 192 := by omega
      have h7 : i - 128 < 64 := by omega
      have h8 : ¬i - 128 < 1 := by omega
      have h9 : i - 128 - 1 = i - 1 - 128 := by omega
      rw [high l.w1 (63 + (i - 128)) (by omega)]
      simp [*]
  · by_cases edge : i = 192
    · subst edge; simp
    · have h4 : ¬i - 1 < 64 := by omega
      have h5 : ¬i - 1 < 128 := by omega
      have h6 : ¬i - 1 < 192 := by omega
      have h7 : i - 192 < 64 := by omega
      have h8 : ¬i - 192 < 1 := by omega
      have h9 : i - 192 - 1 = i - 1 - 192 := by omega
      rw [high l.w2 (63 + (i - 192)) (by omega)]
      simp [*]

/-- One step of the comb method, for coefficient `i` of a word of the second factor. -/
def combStep (word : UInt64) (state : Limbs × Limbs) (i : Nat) : Limbs × Limbs :=
  (if (word >>> UInt64.ofNat i) &&& 1 = 1 then state.1.xor state.2 else state.1, state.2.timesX)

/-- The steps for all coefficients of a word of the second factor. -/
def combWord (state : Limbs × Limbs) (word : UInt64) : Limbs × Limbs :=
  (List.range 64).foldl (combStep word) state

end Limbs

/-- `f` plus the product of `a` and `b`. -/
def accumulate (f : BinaryPolynomial) (a b : HalfBlock) : BinaryPolynomial :=
  let start := (Limbs.ofPolynomial f, Limbs.ofPolynomial (ofHalf a))
  let low : UInt64 := ⟨b.extractLsb' 0 64⟩
  let high : UInt64 := ⟨b.extractLsb' 64 64⟩
  (Limbs.combWord (Limbs.combWord start low) high).1.toPolynomial

/-- The coefficients of a polynomial in four words, the lowest ones first. -/
def words (f : BinaryPolynomial) : Vector UInt64 4 :=
  let l := Limbs.ofPolynomial f
  #v[l.w0, l.w1, l.w2, l.w3]

/-- The polynomial with the coefficients of four words. -/
def ofWords (words : Vector UInt64 4) : BinaryPolynomial :=
  Limbs.toPolynomial ⟨words[0], words[1], words[2], words[3]⟩

@[simp]
theorem ofWords_words (f : BinaryPolynomial) : ofWords (words f) = f :=
  Limbs.toPolynomial_ofPolynomial f

/-! ## The words run the comb method -/

private theorem word_bit (w : UInt64) {i : Nat} (hi : i < 64) :
    ((w >>> UInt64.ofNat i) &&& 1 = 1) ↔ w.toBitVec.getLsbD i := by
  rw [← UInt64.toBitVec_inj]
  simp only [UInt64.toBitVec_and, UInt64.toBitVec_shiftRight, UInt64.toBitVec_ofNat,
    BitVec.and_one_eq_setWidth_ofBool_getLsbD]
  simp [Nat.mod_eq_of_lt hi]
  cases w.toBitVec.getLsbD i <;> simp

/-- Both parts of a state, read as polynomials. -/
private def readState (state : Limbs × Limbs) : BinaryPolynomial × BinaryPolynomial :=
  (state.1.toPolynomial, state.2.toPolynomial)

private theorem readState_combStep (word : UInt64) (state : Limbs × Limbs) {i : Nat} (hi : i < 64) :
    readState (Limbs.combStep word state i) =
      combStep (word.toBitVec.getLsbD i) (readState state) := by
  by_cases h : word.toBitVec.getLsbD i
  · simp [Limbs.combStep, combStep, readState, word_bit word hi, h]
  · simp [Limbs.combStep, combStep, readState, word_bit word hi, h]

private theorem readState_combWord (word : UInt64) (state : Limbs × Limbs) :
    readState (Limbs.combWord state word) =
      (List.range 64).foldl (fun s i => combStep (word.toBitVec.getLsbD i) s)
        (readState state) := by
  have steps (is : List Nat) (h : ∀ i ∈ is, i < 64) (state : Limbs × Limbs) :
      readState (is.foldl (Limbs.combStep word) state) =
        is.foldl (fun s i => combStep (word.toBitVec.getLsbD i) s) (readState state) := by
    induction is generalizing state with
    | nil => rfl
    | cons i is ih =>
      simp only [List.foldl_cons]
      rw [ih (fun j hj => h j (List.mem_cons_of_mem i hj)),
        readState_combStep word state (h i (List.mem_cons_self ..))]
  exact steps _ (fun i hi => List.mem_range.1 hi) state

private theorem foldl_combStep_congr {g h : Nat → Bool} (is : List Nat)
    (hgh : ∀ i ∈ is, g i = h i) (s : BinaryPolynomial × BinaryPolynomial) :
    is.foldl (fun s i => combStep (g i) s) s = is.foldl (fun s i => combStep (h i) s) s := by
  induction is generalizing s with
  | nil => rfl
  | cons i is ih =>
    simp only [List.foldl_cons]
    rw [hgh i (List.mem_cons_self ..), ih fun j hj => hgh j (List.mem_cons_of_mem i hj)]

/-- `accumulate` is the comb method. -/
theorem accumulate_eq_comb (f : BinaryPolynomial) (a b : HalfBlock) :
    accumulate f a b = comb f a b := by
  have split : List.range 128 = List.range 64 ++ (List.range 64).map (64 + ·) := by decide
  have part (start i : Nat) (hi : i ∈ List.range 64) :
      (b.extractLsb' start 64).getLsbD i = b.getLsbD (start + i) := by
    simp [List.mem_range.1 hi]
  let first := Limbs.combWord (Limbs.ofPolynomial f, Limbs.ofPolynomial (ofHalf a))
    ⟨b.extractLsb' 0 64⟩
  have low : readState first =
      (List.range 64).foldl (fun s i => combStep (b.getLsbD i) s) (f, ofHalf a) := by
    rw [readState_combWord, foldl_combStep_congr _ (part 0)]
    simp [readState]
  have high : readState (Limbs.combWord first ⟨b.extractLsb' 64 64⟩) =
      (List.range 64).foldl (fun s i => combStep (b.getLsbD (64 + i)) s) (readState first) := by
    rw [readState_combWord, foldl_combStep_congr _ (part 64)]
  rw [comb, split, List.foldl_append, List.foldl_map, ← low, ← high]
  rfl

end ObliviousTransfer.BinaryPolynomial
