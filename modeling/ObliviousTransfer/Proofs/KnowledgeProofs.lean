import Mathlib
import ObliviousTransfer.DLogProof
import ObliviousTransfer.Proofs.PointGroups
import ObliviousTransfer.Proofs.ScalarDraws

/-!
# What a proof of knowledge proves

Every point and every commitment has a logarithm, whoever made the proof. With `s` and `k` for the
two logarithms, a proof verifies under a challenge `c` if `s` is not zero and the response is
`k - c * s` (`verify_smul_eq_true_iff`). The group is not needed any more after this:

* a response made for one challenge fits another one only if the two are equal
  (`verify_make_eq_true_iff`), so that a proof is bound to what its transcript has taken in;
* each transcript leaves one response for a point and a commitment, and the responses to two
  different challenges determine `s` (`one_response_verifies_and_two_extract`).
-/

namespace ObliviousTransfer.DLogProof

open scoped PointGroup Fin.CommRing

variable {P : Type} [PointGroup P]

/-! ## Verification as an equation between scalars -/

theorem verify_eq_true_iff [DecidableEq P] (proof : DLogProof P) (t : Transcript) :
    proof.verify t = true ↔ proof.point ≠ 0 ∧
      proof.response • PointGroup.generator +
        challenge t proof.point proof.commitment • proof.point = proof.commitment := by
  rw [verify]
  by_cases hpoint : proof.point = 0 <;> simp [hpoint]

/-- For known logarithms there is one response that verifies, provided that the secret is not
zero. -/
theorem verify_smul_eq_true_iff [LawfulPointGroup P] [DecidableEq P]
    (secret nonce response : Scalar) (t : Transcript) :
    let point : P := secret • PointGroup.generator
    let commitment : P := nonce • PointGroup.generator
    (DLogProof.mk point commitment response).verify t = true ↔
      secret ≠ 0 ∧ response = nonce - challenge t point commitment * secret := by
  intro point commitment
  generalize hc : challenge t point commitment = c
  have hsum : response • (PointGroup.generator : P) + c • point =
      (response + c * secret) • PointGroup.generator := by
    rw [add_smul, mul_smul]
  have hequation : response • (PointGroup.generator : P) + c • point = commitment ↔
      response = nonce - c * secret := by
    rw [hsum, eq_sub_iff_add_eq]
    exact ⟨LawfulPointGroup.smul_generator_injective _ _, fun h => by rw [h]⟩
  rw [verify_eq_true_iff, hc, hequation]
  exact and_congr_left' (PointGroup.smul_generator_eq_zero_iff secret).not

/-! ## Honest proofs -/

section Honest

variable [LawfulPointGroup P] [DecidableEq P]

/-- An honest proof verifies where the challenge is the one that it was made for. -/
theorem verify_make_eq_true_iff (secret nonce : Scalar) (t t' : Transcript) :
    let point : P := secret • PointGroup.generator
    let commitment : P := nonce • PointGroup.generator
    (make secret nonce t : DLogProof P).verify t' = true ↔
      secret ≠ 0 ∧ challenge t point commitment = challenge t' point commitment := by
  intro point commitment
  refine (verify_smul_eq_true_iff secret nonce _ t').trans (and_congr_right fun hsecret => ?_)
  rw [sub_right_inj, Scalar.mul_right_cancel_iff hsecret]

/-- An honest proof for a secret other than zero verifies under its own transcript. -/
theorem verify_make {secret : Scalar} (hsecret : secret ≠ 0) (nonce : Scalar) (t : Transcript) :
    (make secret nonce t : DLogProof P).verify t = true :=
  (verify_make_eq_true_iff secret nonce t t).2 ⟨hsecret, rfl⟩

/-- A proof for the secret zero verifies nowhere. -/
theorem verify_make_zero (nonce : Scalar) (t t' : Transcript) :
    (make 0 nonce t : DLogProof P).verify t' = false :=
  Bool.eq_false_iff.2 fun h => ((verify_make_eq_true_iff 0 nonce t t').1 h).1 rfl

end Honest

/-- A proof is made with a nonce other than zero. -/
theorem finds_prove {σ : Type} [ByteStream σ] (secret : Scalar) (t : Transcript)
    (source : Source σ) :
    (prove secret t : Draw σ (DLogProof P)).Finds [.search] source fun proof =>
      ∃ nonce ≠ 0, proof = make secret nonce t :=
  Draw.finds_bind_pure (Draw.finds_nonzeroScalar source) fun nonce hnonce => ⟨nonce, hnonce, rfl⟩

/-- Every nonce other than zero is the one of some proof. -/
theorem exists_run_prove (secret : Scalar) {nonce : Scalar} (hnonce : nonce ≠ 0) (t : Transcript) :
    ∃ source rest, (prove secret t : Draw Tape (DLogProof P)).run.run source =
      (.ok (make secret nonce t), rest) := by
  have hdrawn := Draw.run_nonzeroScalar_ofTape hnonce [] 0
  exact ⟨_, _, Draw.run_bind hdrawn⟩

/-- **Completeness.** Whatever the nonce, a proof verifies under exactly those transcripts that have
the challenge of its own for the same two points, provided that the secret is not zero. The nonce is
one that the source yields; it is not zero, and may be anything else. -/
theorem proofs_verify_where_challenges_agree [LawfulPointGroup P] [DecidableEq P] {σ : Type}
    [ByteStream σ] (secret : Scalar) (t : Transcript) (source : Source σ) :
    (∀ (nonce : Scalar) (t' : Transcript),
      let point : P := secret • PointGroup.generator
      let commitment : P := nonce • PointGroup.generator
      let proof : DLogProof P := make secret nonce t
      (proof.verify t' = true ↔
        secret ≠ 0 ∧ challenge t point commitment = challenge t' point commitment) ∧
      (secret ≠ 0 → proof.verify t = true) ∧
      (secret = 0 → proof.verify t' = false)) ∧
    ((prove secret t : Draw σ (DLogProof P)).Finds [.search] source fun proof =>
      ∃ nonce ≠ 0, proof = make secret nonce t) ∧
    ∀ nonce ≠ 0, ∃ source rest, (prove secret t : Draw Tape (DLogProof P)).run.run source =
      (.ok (make secret nonce t), rest) := by
  refine ⟨fun nonce t' => ⟨verify_make_eq_true_iff secret nonce t t', fun hsecret => ?_, ?_⟩,
    finds_prove secret t source, fun nonce hnonce => exists_run_prove secret hnonce t⟩
  · exact verify_make hsecret nonce t
  · rintro rfl
    exact verify_make_zero nonce t t'

/-- One byte of the transcript changes the challenge. -/
private theorem challenge_seven_ne_challenge_eight :
    let point : Exponent := (3 : Scalar) • PointGroup.generator
    let commitment : Exponent := (5 : Scalar) • PointGroup.generator
    challenge (Transcript.new [7]) point commitment ≠
      challenge (Transcript.new [8]) point commitment := by
  decide +kernel

/-- A proof for the secret 3 verifies under its own transcript and not under one with another
byte. -/
theorem proof_of_three_verifies_under_own_transcript :
    let t := Transcript.new [7]
    let t' := Transcript.new [8]
    let proof : DLogProof Exponent := make 3 5 t
    (3 : Scalar) ≠ 0 ∧ proof.verify t = true ∧ proof.verify t' = false ∧
      ∃ source rest,
        (prove 3 t : Draw Tape (DLogProof Exponent)).run.run source = (.ok proof, rest) := by
  intro t t' proof
  have hsecret : (3 : Scalar) ≠ 0 := by decide
  obtain ⟨hverifies, -, hdrawn⟩ :=
    proofs_verify_where_challenges_agree (P := Exponent) 3 t (Source.repeated 1)
  refine ⟨hsecret, (hverifies 5 t).2.1 hsecret, ?_, hdrawn 5 (by decide)⟩
  exact Bool.eq_false_iff.2 fun h => challenge_seven_ne_challenge_eight ((hverifies 5 t').1.1 h).2

/-! ## Any proofs -/

/-- The logarithm that the responses to two challenges for one commitment give away: the quotient of
the differences. -/
def extract (c response c' response' : Scalar) : Scalar :=
  (response - response') * (c' - c).inverse

/-- The responses for one secret and one nonce give the secret away. -/
theorem extract_responses {c c' : Scalar} (hne : c ≠ c') (secret nonce : Scalar) :
    extract c (nonce - c * secret) c' (nonce - c' * secret) = secret := by
  have hinverse : (c' - c).inverse * (c' - c) = 1 :=
    Scalar.inverse_mul_cancel (sub_ne_zero.2 hne.symm)
  calc (nonce - c * secret - (nonce - c' * secret)) * (c' - c).inverse
      = secret * ((c' - c).inverse * (c' - c)) := by ring
    _ = secret := by rw [hinverse, mul_one]

/-- **Soundness.** For a point other than zero and any commitment each transcript accepts exactly
one response, so that no response can be changed. The responses that are accepted under two
different challenges give the logarithm of the point away: it is the quotient of the differences. -/
theorem one_response_verifies_and_two_extract [LawfulPointGroup P] [DecidableEq P]
    (point commitment : P) :
    let proof (response : Scalar) : DLogProof P := ⟨point, commitment, response⟩
    let c (t : Transcript) : Scalar := challenge t point commitment
    (point ≠ 0 → ∀ t, ∃! response, (proof response).verify t = true) ∧
    (∀ t response response', (proof response).verify t = true → response' ≠ response →
      (proof response').verify t = false) ∧
    ∀ t t' response response', (proof response).verify t = true →
      (proof response').verify t' = true → c t ≠ c t' →
      let logarithm := extract (c t) response (c t') response'
      logarithm * (c t' - c t) = response - response' ∧
        point = logarithm • PointGroup.generator := by
  obtain ⟨secret, rfl⟩ := LawfulPointGroup.exists_smul_generator point
  obtain ⟨nonce, rfl⟩ := LawfulPointGroup.exists_smul_generator commitment
  intro proof c
  have verifies_iff (response : Scalar) (t : Transcript) :
      (proof response).verify t = true ↔ secret ≠ 0 ∧ response = nonce - c t * secret :=
    verify_smul_eq_true_iff secret nonce response t
  refine ⟨fun hpoint t => ?_, fun t response response' h hne => ?_,
    fun t t' response response' h h' hne => ?_⟩
  · have hsecret : secret ≠ 0 := mt (PointGroup.smul_generator_eq_zero_iff secret).2 hpoint
    exact ⟨nonce - c t * secret, (verifies_iff _ t).2 ⟨hsecret, rfl⟩,
      fun response h => ((verifies_iff response t).1 h).2⟩
  · refine Bool.eq_false_iff.2 fun h' => hne ?_
    exact ((verifies_iff response' t).1 h').2.trans ((verifies_iff response t).1 h).2.symm
  · obtain ⟨-, rfl⟩ := (verifies_iff response t).1 h
    obtain ⟨-, rfl⟩ := (verifies_iff response' t').1 h'
    intro logarithm
    have hlogarithm : logarithm = secret := extract_responses hne secret nonce
    rw [hlogarithm]
    exact ⟨by ring, rfl⟩

/-- The proofs for the secret 3 and the nonce 5 under two transcripts give the secret away, and the
first one does not verify with another response. -/
theorem proofs_under_two_transcripts_extract_three :
    let point : Exponent := (3 : Scalar) • PointGroup.generator
    let commitment : Exponent := (5 : Scalar) • PointGroup.generator
    let proof (response : Scalar) : DLogProof Exponent := ⟨point, commitment, response⟩
    let t := Transcript.new [7]
    let t' := Transcript.new [8]
    let c := challenge t point commitment
    let c' := challenge t' point commitment
    point ≠ 0 ∧ c ≠ c' ∧ (proof (5 - c * 3)).verify t = true ∧
      (proof (5 - c' * 3)).verify t' = true ∧ (proof (6 - c * 3)).verify t = false ∧
      extract c (5 - c * 3) c' (5 - c' * 3) = 3 := by
  intro point commitment proof t t' c c'
  have hpoint : point ≠ 0 := by decide
  have hchallenges : c ≠ c' := challenge_seven_ne_challenge_eight
  have hproof : (proof (5 - c * 3)).verify t = true := verify_make (by decide) 5 t
  have hproof' : (proof (5 - c' * 3)).verify t' = true := verify_make (by decide) 5 t'
  obtain ⟨-, honly, hextract⟩ := one_response_verifies_and_two_extract point commitment
  have hother : 6 - c * 3 ≠ 5 - c * 3 := fun h => absurd (sub_left_inj.1 h) (by decide)
  have hlogarithm := (hextract t t' _ _ hproof hproof' hchallenges).2
  refine ⟨hpoint, hchallenges, hproof, hproof', honly t _ _ hproof hother, ?_⟩
  exact LawfulPointGroup.smul_generator_injective _ _ hlogarithm.symm

end ObliviousTransfer.DLogProof
