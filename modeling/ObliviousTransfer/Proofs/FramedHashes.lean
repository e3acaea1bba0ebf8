import Mathlib
import ObliviousTransfer.Proofs.ConsistencyCheck
import ObliviousTransfer.Proofs.SaltedHash
import ObliviousTransfer.Proofs.TranscriptFraming

/-!
# Hashes of framed parts

What `hashParts` hashes has a frame around each part, but does not say how many parts there are. So
the string of a list of parts begins those of all longer lists that go on from it, and no other
(`saltedParts_isPrefix_iff`), because a frame tells where its part ends. In particular equal strings
come from equal lists, of whatever lengths (`saltedParts_eq_iff`).

An output of an extension is a hash of two parts, the position and the row, so different outputs
have different strings behind them. No statement says that the hashes differ; where they do not, the
strings are a collision.
-/

namespace ObliviousTransfer

section Parts

variable {ps qs : List Bytes} {salt salt' : Bytes} (hps : ∀ p ∈ ps, p.length < sizeLimit)
  (hqs : ∀ q ∈ qs, q.length < sizeLimit) (hsalt : salt.length = salt'.length)

include hps hqs hsalt

theorem saltedParts_isPrefix_iff :
    saltedParts ps salt <+: saltedParts qs salt' ↔ salt = salt' ∧ ps <+: qs := by
  constructor
  · rintro ⟨behind, hbehind⟩
    rw [saltedParts, saltedParts, List.append_assoc] at hbehind
    obtain ⟨rfl, hparts⟩ := List.append_inj hbehind hsalt
    exact ⟨rfl, (Bytes.flatMap_framed_isPrefix_iff hps hqs).1 ⟨behind, hparts⟩⟩
  · rintro ⟨rfl, hparts⟩
    exact (List.prefix_append_right_inj salt).2 (hparts.flatMap Bytes.framed)

theorem saltedParts_eq_iff :
    saltedParts ps salt = saltedParts qs salt' ↔ salt = salt' ∧ ps = qs := by
  constructor
  · intro h
    obtain ⟨heq, hforth⟩ := (saltedParts_isPrefix_iff hps hqs hsalt).1 (h ▸ List.prefix_rfl)
    obtain ⟨-, hback⟩ := (saltedParts_isPrefix_iff hqs hps hsalt.symm).1 (h ▸ List.prefix_rfl)
    exact ⟨heq, hforth.eq_of_length_le hback.length_le⟩
  · rintro ⟨rfl, rfl⟩
    rfl

theorem hashParts_eq_iff :
    hashParts ps salt = hashParts qs salt' ↔
      (salt = salt' ∧ ps = qs) ∨ Sha256.Collide (saltedParts ps salt) (saltedParts qs salt') := by
  rw [← saltedParts_eq_iff hps hqs hsalt]
  constructor
  · exact fun h => or_iff_not_imp_left.2 fun hne => ⟨hne, h⟩
  · rintro (heq | ⟨-, hdigest⟩)
    · exact congrArg Sha256.digest heq
    · exact hdigest

end Parts

namespace Extension

/-- What is hashed into the output for a row at a position. -/
def outputString (salt : Bytes) (j : Nat) (row : Block) : Bytes :=
  saltedParts [Bytes.lengthField j, row.toBytes] salt

/-- The salt of the outputs in a session. -/
def outputSalt (t : Transcript) : Bytes :=
  ((t.fork outputDomain []).read Reading.block).toBytes

theorem getElem?_outputs (t : Transcript) (rows : List Block) (pool : Pool) (j : Nat) :
    (outputs t rows pool)[j]? =
      rows[j]?.map fun row => Sha256.digest (outputString (outputSalt t) j row) := by
  rw [outputs, Pool.mapList_eq_map, List.getElem?_map, List.getElem?_zipIdx, Option.map_map,
    Nat.zero_add]
  rfl

theorem outputString_eq_iff (salt : Bytes) {j j' : Nat} (hj : j < sizeLimit) (hj' : j' < sizeLimit)
    (row row' : Block) :
    outputString salt j row = outputString salt j' row' ↔ j = j' ∧ row = row' := by
  have hparts (k : Nat) (block : Block) :
      ∀ part ∈ [Bytes.lengthField k, block.toBytes], part.length < sizeLimit := by
    rw [List.forall_mem_cons, List.forall_mem_singleton, Bytes.length_lengthField,
      Block.length_toBytes]
    decide
  rw [outputString, outputString, saltedParts_eq_iff (hparts j row) (hparts j' row') rfl]
  constructor
  · rintro ⟨-, h⟩
    obtain ⟨hindex, hrow⟩ := List.cons.inj h
    exact ⟨Bytes.lengthField_injective hj hj' hindex,
      Block.toBytes_injective (List.cons.inj hrow).1⟩
  · rintro ⟨rfl, rfl⟩
    exact ⟨rfl, rfl⟩

end Extension

open Extension in
/-- Two lists of parts are hashed as the same string under salts of one length if and only if the
salts and the lists are equal, and the string of one list begins that of another one only if the
list does. So equal hashes of different lists are a collision of their strings. The outputs of an
extension are digests of such strings, and two of them under one salt are equal only for the same
position and the same row. -/
theorem hashed_strings_determine_salt_and_parts :
    (∀ (ps qs : List Bytes) (salt salt' : Bytes),
      (∀ p ∈ ps, p.length < sizeLimit) → (∀ q ∈ qs, q.length < sizeLimit) →
      salt.length = salt'.length →
      (saltedParts ps salt = saltedParts qs salt' ↔ salt = salt' ∧ ps = qs) ∧
      (saltedParts ps salt <+: saltedParts qs salt' ↔ salt = salt' ∧ ps <+: qs) ∧
      (hashParts ps salt = hashParts qs salt' ↔
        (salt = salt' ∧ ps = qs) ∨ Sha256.Collide (saltedParts ps salt) (saltedParts qs salt'))) ∧
    (∀ (ps : List Bytes) (salt : Bytes), hashParts ps salt = Sha256.digest (saltedParts ps salt)) ∧
    (∀ (salt : Bytes) (j j' : Nat) (row row' : Block), j < sizeLimit → j' < sizeLimit →
      (outputString salt j row = outputString salt j' row' ↔ j = j' ∧ row = row')) ∧
    ∀ (t : Transcript) (rows : List Block) (pool : Pool) (j : Nat),
      (outputs t rows pool)[j]? =
        rows[j]?.map fun row => Sha256.digest (outputString (outputSalt t) j row) := by
  refine ⟨fun ps qs salt salt' hps hqs hsalt => ?_, fun _ _ => rfl, ?_, getElem?_outputs⟩
  · exact ⟨saltedParts_eq_iff hps hqs hsalt, saltedParts_isPrefix_iff hps hqs hsalt,
      hashParts_eq_iff hps hqs hsalt⟩
  · exact fun salt j j' row row' hj hj' => outputString_eq_iff salt hj hj' row row'

/-- Letters divided into parts in two ways, and a part that looks like a frame with what stands in
it. -/
theorem hashed_strings_differ_by_division :
    let parts := [Bytes.ofAscii "ab", Bytes.ofAscii "c"]
    let divided := [Bytes.ofAscii "a", Bytes.ofAscii "bc"]
    let framedPart := [(Bytes.ofAscii "ab").framed, Bytes.ofAscii "c"]
    let salt := Bytes.ofAscii "salt"
    (∀ p ∈ parts, p.length < sizeLimit) ∧ (∀ p ∈ divided, p.length < sizeLimit) ∧
      (∀ p ∈ framedPart, p.length < sizeLimit) ∧
      saltedParts parts salt ≠ saltedParts divided salt ∧
      saltedParts parts salt ≠ saltedParts framedPart salt ∧
      ¬saltedParts [Bytes.ofAscii "a"] salt <+: saltedParts parts salt ∧
      Extension.outputString salt 0 1 ≠ Extension.outputString salt 1 0 := by
  intro parts divided framedPart salt
  have hparts : ∀ p ∈ parts, p.length < sizeLimit := by decide
  have hdivided : ∀ p ∈ divided, p.length < sizeLimit := by decide
  have hframed : ∀ p ∈ framedPart, p.length < sizeLimit := by decide
  obtain ⟨hlists, -, houtputs, -⟩ := hashed_strings_determine_salt_and_parts
  refine ⟨hparts, hdivided, hframed, fun h => ?_, fun h => ?_, fun h => ?_, fun h => ?_⟩
  · exact absurd ((hlists _ _ salt salt hparts hdivided rfl).1.1 h).2 (by decide)
  · exact absurd ((hlists _ _ salt salt hparts hframed rfl).1.1 h).2 (by decide)
  · exact absurd ((hlists _ _ salt salt (by decide) hparts rfl).2.1.1 h).2 (by decide)
  · exact absurd ((houtputs salt 0 1 1 0 (by decide) (by decide)).1 h).1 (by decide)

end ObliviousTransfer
