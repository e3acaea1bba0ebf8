import Mathlib
import ObliviousTransfer.Proofs.ConsistencyCheck

/-!
# Binding of the revealed sums

With the matrix fixed, the sender's test is one equation `own + x * Δ = t` in what the receiver
reveals, where `own` are the sender's sums over its blocks. The matrix leaves the receiver one `t`
for each `x`, and two accepted pairs `(x, t)` differ by a multiple of `Δ`. Whoever knows two of them
with different `x` knows `Δ`.

## Shape of the proof

* The sender's answer depends on its own setup only, and every such setup agrees with some
  receiver's (`agree_doubled`), so that what is known of the check can be used (`exists_send_eq`).
* A product determines each of its factors if the other one is not zero (`product_left_injective`,
  `product_right_injective`).
-/

namespace ObliviousTransfer

namespace Correlated

/-- The receiver's setup in which both keys at a base index are the sender's. -/
def SendSetup.doubled (setup : SendSetup) : ReceiveSetup :=
  ⟨setup.keys, setup.keys⟩

/-- Every sender's setup agrees with some receiver's. -/
theorem agree_doubled (setup : SendSetup) : Agree setup setup.doubled := by
  intro i
  rw [ReceiveSetup.key, SendSetup.key, SendSetup.doubled, ite_self]

end Correlated

namespace Extension

open Correlated

/-! ## Factors of a product -/

namespace Sums

theorem add_eq_zero_iff (a b : Sums) : a + b = 0 ↔ a = b := by
  rw [add_eq_zero_iff_eq_neg, neg_eq]

/-- A block is determined by its product with a challenge that is not zero. -/
theorem product_right_injective {challenge : HalfBlock} (hchallenge : challenge ≠ 0) {a b : Block}
    (h : product challenge a = product challenge b) : a = b := by
  rw [← add_eq_zero_iff, ← product_xor, product_eq_zero_iff] at h
  exact BitVec.xor_eq_zero_iff.1 (h.resolve_left hchallenge)

/-- A challenge is determined by its product with a block that is not zero. -/
theorem product_left_injective {block : Block} (hblock : block ≠ 0) {a b : HalfBlock}
    (h : product a block = product b block) : a = b := by
  rw [← add_eq_zero_iff, ← xor_product, product_eq_zero_iff] at h
  exact BitVec.xor_eq_zero_iff.1 (h.resolve_right hblock)

end Sums

/-! ## Two messages with one matrix -/

/-- The sender accepts a matrix with the given values revealed. -/
def Accepts (t : Transcript) (setup : SendSetup) (batch : BatchSize) (pool : Pool)
    (extend : ExtendMessage) (x : HalfBlock) (sums : Sums) : Prop :=
  ∃ output, send t setup batch ⟨extend, x, sums⟩ pool = .ok output

/-- The sums revealed with `x` and with `x'` differ by the products of the difference with `Δ`. -/
def DifferBy (delta : Block) (x x' : HalfBlock) (sums sums' : Sums) : Prop :=
  sums.low ^^^ sums'.low = BinaryPolynomial.mul (x ^^^ x') delta.low ∧
    sums.high ^^^ sums'.high = BinaryPolynomial.mul (x ^^^ x') delta.high

theorem differBy_iff (delta : Block) (x x' : HalfBlock) (sums sums' : Sums) :
    DifferBy delta x x' sums sums' ↔ sums + sums' = Sums.product (x ^^^ x') delta := by
  rw [DifferBy, Sums.ext_iff, Sums.low_add, Sums.high_add, Sums.low_product, Sums.high_product]

section

variable (t : Transcript) (setup : SendSetup) {batch : BatchSize} (hpos : batch.bytes ≠ 0)
  {extend : ExtendMessage}
  (hlength : extend.u.length = baseCount * (batch.bytes + paddingBytes)) (pool : Pool)

include hpos hlength

/-- The sender compares with its own sums, and what it returns if they fit does not depend on what
is revealed. -/
theorem exists_send_eq : ∃ (own : Sums) (output : SendOutput), ∀ x sums,
    send t setup batch ⟨extend, x, sums⟩ pool =
      if own + Sums.product x setup.delta = sums then .ok output
      else .error .consistencyCheckFailed := by
  let block := senderBlock setup setup.doubled t batch.rowLength.bytes extend
  refine ⟨blockSums (challenge t extend batch.items) block batch.items,
    sendOutput t setup.delta block batch, fun x sums => ?_⟩
  let message : Message := ⟨extend, x, sums⟩
  have hmessage : message.extend.u.length = baseCount * (batch.bytes + paddingBytes) := hlength
  exact send_eq (agree_doubled setup) t hpos hmessage pool

/-- **Binding.** For each `x` the sender accepts exactly one `t`. Two accepted pairs differ by the
product of the difference of both `x` with `Δ`. So one `t` is not accepted with two different `x`
unless `Δ` is zero, and two accepted pairs with different `x` leave only one possible `Δ`. The
outputs are the same for all accepted pairs. -/
theorem accepted_sums_bind :
    (∀ x, ∃! sums, Accepts t setup batch pool extend x sums) ∧
    (∀ x x' sums sums', Accepts t setup batch pool extend x sums →
      Accepts t setup batch pool extend x' sums' → DifferBy setup.delta x x' sums sums') ∧
    (setup.delta ≠ 0 → ∀ x x' sums, Accepts t setup batch pool extend x sums →
      Accepts t setup batch pool extend x' sums → x = x') ∧
    (∀ x x' sums sums', Accepts t setup batch pool extend x sums →
      Accepts t setup batch pool extend x' sums' → x ≠ x' →
      ∀ delta, DifferBy delta x x' sums sums' → delta = setup.delta) ∧
    ∃ output, ∀ x sums, Accepts t setup batch pool extend x sums →
      send t setup batch ⟨extend, x, sums⟩ pool = .ok output := by
  obtain ⟨own, output, hsend⟩ := exists_send_eq t setup hpos hlength pool
  have accepts_iff (x : HalfBlock) (sums : Sums) :
      Accepts t setup batch pool extend x sums ↔ own + Sums.product x setup.delta = sums :=
    exists_ok_iff (hsend x sums)
  -- the own sums stand in both accepted values and cancel
  have differ : ∀ x x' sums sums', Accepts t setup batch pool extend x sums →
      Accepts t setup batch pool extend x' sums' →
      sums + sums' = Sums.product (x ^^^ x') setup.delta := by
    intro x x' sums sums' h h'
    rw [← (accepts_iff x sums).1 h, ← (accepts_iff x' sums').1 h', Sums.xor_product,
      add_add_add_comm, Sums.add_self, zero_add]
  refine ⟨fun x => ?_, fun x x' sums sums' h h' => ?_, fun hdelta x x' sums h h' => ?_,
    fun x x' sums sums' h h' hne delta hdelta => ?_, output, fun x sums h => ?_⟩
  · exact ⟨_, (accepts_iff x _).2 rfl, fun sums h => ((accepts_iff x sums).1 h).symm⟩
  · exact (differBy_iff ..).2 (differ x x' sums sums' h h')
  · have hproduct := ((accepts_iff x sums).1 h).trans ((accepts_iff x' sums).1 h').symm
    exact Sums.product_left_injective hdelta (add_left_cancel hproduct)
  · have hnonzero : x ^^^ x' ≠ 0 := mt BitVec.xor_eq_zero_iff.1 hne
    have hproduct := ((differBy_iff ..).1 hdelta).symm.trans (differ x x' sums sums' h h')
    exact Sums.product_right_injective hnonzero hproduct
  · rw [hsend, if_pos ((accepts_iff x sums).1 h)]

end

/-- With a `Δ` whose high half is zero: the sums for two values of `x` differ in the low half only,
and the sums for the one are not accepted for the other. -/
theorem accepted_sums_differ_in_low_half :
    let t := Transcript.new []
    let setup := SendSetup.select 0x15#256 countedKeys
    let batch : BatchSize := ⟨1, by decide⟩
    let extend : ExtendMessage := ⟨List.replicate 11008 0⟩
    let accepts := Accepts t setup batch (.parallel 3) extend
    batch.bytes ≠ 0 ∧ extend.u.length = baseCount * (batch.bytes + paddingBytes) ∧
      ∃ sums sums', accepts 1 sums ∧ accepts 2 sums' ∧ sums.low ^^^ sums'.low = 0x3F#256 ∧
        sums.high = sums'.high ∧ ¬accepts 2 sums := by
  intro t setup batch extend accepts
  have hlength : extend.u.length = baseCount * (batch.bytes + paddingBytes) := List.length_replicate
  obtain ⟨haccepted, hdiffer, hunique, -, -⟩ :=
    accepted_sums_bind t setup (show batch.bytes ≠ 0 by decide) hlength (.parallel 3)
  obtain ⟨sums, h, -⟩ := haccepted 1
  obtain ⟨sums', h', -⟩ := haccepted 2
  obtain ⟨hlow, hhigh⟩ := hdiffer 1 2 sums sums' h h'
  have hproduct : BinaryPolynomial.mul (1 ^^^ 2) setup.delta.low = 0x3F#256 := by
    rw [← BitVec.zero_xor (x := BinaryPolynomial.mul _ _), ← BinaryPolynomial.accumulate_eq]
    decide
  have hzero : BinaryPolynomial.mul (1 ^^^ 2) setup.delta.high = 0#256 :=
    (BinaryPolynomial.mul_eq_zero_iff ..).2 (Or.inr (by decide))
  have hdelta : setup.delta ≠ 0 := by decide
  refine ⟨by decide, hlength, sums, sums', h, h', hlow.trans hproduct,
    BitVec.xor_eq_zero_iff.1 (hhigh.trans hzero), fun hsame => ?_⟩
  exact absurd (hunique hdelta 1 2 sums h hsame) (by decide)

end Extension

end ObliviousTransfer
