import Mathlib
import ObliviousTransfer.Wire.Dialogue
import ObliviousTransfer.Proofs.JsonVariants
import ObliviousTransfer.Proofs.PointEncoding

/-!
# Messages and setups are read back from JSON

The JSON text of every message and setup is read back, also after the members of its objects are put
in another order and letters of its hexadecimal strings in the other case.

## Shape of the proof

`Form.ReadsVariants` says that every variant of a written value is printable, so that its text is
parsed as this variant (`Json.parse?_print`), and that the form reads the value from it. The forms
of the parts have this property, each combinator keeps it, and `readsVariants_form` collects the
seventeen kinds. A record needs different names for its fields; `Json.areNames` checks this by
evaluation.
-/

namespace ObliviousTransfer

namespace Wire

open Json (Variant)

variable {α β : Type}

/-- Every variant of the JSON form of a value is printable, and the value is read from it. -/
def Form.ReadsVariants (form : Form α) : Prop :=
  Json.ReadsVariants form.toJson form.ofJson?

/-- The same for the values of the fields of a record. -/
structure Fields.ReadsVariants (fields : Fields α) : Prop where
  length_toJson : ∀ a, (fields.toJson a).length = fields.names.length
  reads : ∀ a values, List.Forall₂ Variant (fields.toJson a) values →
    (∀ value ∈ values, value.Printable) ∧ fields.ofJson? values = some a

namespace Form

/-! ## Parts of fixed size -/

theorem readsVariants_block : block.ReadsVariants := by
  intro b w hw
  obtain ⟨items, rfl, hlength, hprintable, hread⟩ := Json.readsVariants_byte.array hw
  refine ⟨hprintable, ?_⟩
  dsimp only [block]
  rw [Json.itemsOf?_array (hlength.trans b.length_toBytes), some_bind_eq, hread, some_bind_eq,
    Block.ofBytes_toBytes]
  rfl

theorem readsVariants_halfBlock : halfBlock.ReadsVariants := by
  refine Json.readsVariants_ofNat fun h => ?_
  have hlt : h.toNat < 1 <<< 128 := h.isLt
  dsimp only [halfBlock]
  rw [Json.natBelow?_ofNat hlt, some_bind_eq, BitVec.ofNat_toNat]
  rfl

theorem readsVariants_word : word.ReadsVariants := by
  refine Json.readsVariants_ofNat fun w => ?_
  have hlt : w.toNat < 1 <<< 64 := w.toNat_lt
  dsimp only [word]
  rw [Json.natBelow?_ofNat hlt, some_bind_eq, UInt64.ofNat_toNat]
  rfl

theorem readsVariants_scalar : scalar.ReadsVariants := by
  intro s w hw
  obtain ⟨hprintable, hread⟩ := Json.readsVariants_hex s.toBytes w hw
  refine ⟨hprintable, ?_⟩
  dsimp only [scalar]
  rw [hread, some_bind_eq, if_pos s.length_toBytes, Scalar.ofBytes?_toBytes]

theorem readsVariants_point : point.ReadsVariants := by
  intro p w hw
  obtain ⟨hprintable, hread⟩ := Json.readsVariants_hex p.sec1 w hw
  refine ⟨hprintable, ?_⟩
  dsimp only [point]
  rw [hread, some_bind_eq, Point.ofSec1?_sec1]

/-! ## Combinators -/

theorem readsVariants_bytes : bytes.ReadsVariants := by
  intro b w hw
  obtain ⟨items, rfl, -, hprintable, hread⟩ := Json.readsVariants_byte.array hw
  exact ⟨hprintable, hread⟩

theorem ReadsVariants.list {form : Form α} (h : form.ReadsVariants) : form.list.ReadsVariants := by
  intro entries w hw
  obtain ⟨items, rfl, -, hprintable, hread⟩ := Json.ReadsVariants.array h hw
  exact ⟨hprintable, hread⟩

theorem ReadsVariants.vector {form : Form α} (h : form.ReadsVariants) (n : Nat) :
    (form.vector n).ReadsVariants := by
  intro entries w hw
  obtain ⟨items, rfl, hlength, hprintable, hread⟩ := Json.ReadsVariants.array h hw
  refine ⟨hprintable, ?_⟩
  dsimp only [Form.vector]
  rw [Json.itemsOf?_array (hlength.trans entries.length_toList), some_bind_eq, hread, some_bind_eq,
    dif_pos entries.length_toList]
  rfl

theorem ReadsVariants.pair {first : Form α} {second : Form β} (h : first.ReadsVariants)
    (h' : second.ReadsVariants) : (first.pair second).ReadsVariants := by
  intro p w hw
  obtain ⟨items, rfl, hitems⟩ := Json.variant_array hw
  cases hitems with
  | cons hfirst hrest =>
    cases hrest with
    | cons hsecond hnil =>
      cases hnil
      obtain ⟨hprintable, hread⟩ := h _ _ hfirst
      obtain ⟨hprintable', hread'⟩ := h' _ _ hsecond
      refine ⟨.array (by simp [hprintable, hprintable']), ?_⟩
      dsimp only [Form.pair]
      rw [Json.itemsOf?_array (show [_, _].length = 2 from rfl), some_bind_eq]
      dsimp only
      rw [hread, hread']
      rfl

theorem ReadsVariants.imap {form : Form α} (h : form.ReadsVariants) {make : α → β} {parts : β → α}
    (hmake : ∀ b, make (parts b) = b) : (form.imap make parts).ReadsVariants := by
  intro b w hw
  obtain ⟨hprintable, hread⟩ := h (parts b) w hw
  refine ⟨hprintable, ?_⟩
  dsimp only [Form.imap]
  rw [hread, Option.map_some, hmake]

theorem readsVariants_polynomial : polynomial.ReadsVariants :=
  (readsVariants_word.vector 4).imap BinaryPolynomial.ofWords_words

end Form

/-! ## Records -/

namespace Fields

theorem readsVariants_one (name : String) {form : Form α} (h : form.ReadsVariants) :
    (one name form).ReadsVariants where
  length_toJson _ := rfl
  reads a values hvalues := by
    cases hvalues with
    | cons hvalue hnil =>
      cases hnil
      obtain ⟨hprintable, hread⟩ := h _ _ hvalue
      exact ⟨by simp [hprintable], hread⟩

theorem readsVariants_cons (name : String) {form : Form α} (h : form.ReadsVariants)
    {rest : Fields β} (hrest : rest.ReadsVariants) : (cons name form rest).ReadsVariants where
  length_toJson p := congrArg (· + 1) (hrest.length_toJson p.2)
  reads p values hvalues := by
    cases hvalues with
    | cons hvalue hvalues =>
      obtain ⟨hprintable, hread⟩ := h _ _ hvalue
      obtain ⟨hprintables, hreads⟩ := hrest.reads _ _ hvalues
      refine ⟨List.forall_mem_cons.2 ⟨hprintable, hprintables⟩, ?_⟩
      dsimp only [cons]
      rw [hread, hreads]
      rfl

end Fields

open Form Fields

/-- A record reads the variants of its values if its names are different and need no escapes. -/
theorem Form.readsVariants_record {fields : Fields α} (h : fields.ReadsVariants)
    (hnames : Json.areNames fields.names = true) {make : α → β} {parts : β → α}
    (hmake : ∀ b, make (parts b) = b) : (record fields make parts).ReadsVariants := by
  intro b w hw
  obtain ⟨members, values, rfl, hvalues, hmembers⟩ :=
    (Json.variant_ofFields_iff (h.length_toJson _)).1 hw
  obtain ⟨hprintable, hread⟩ := h.reads _ _ hvalues
  have hlength : values.length = fields.names.length := by
    rw [← hvalues.length_eq, h.length_toJson]
  refine ⟨.object (fun member hmember => ?_) (fun member hmember => ?_), ?_⟩
  · obtain ⟨name, hname, hkey⟩ := List.mem_map.1 (List.of_mem_zip (hmembers.mem_iff.1 hmember)).1
    exact ⟨name, hkey.symm, (Json.nodup_and_literal_of_areNames hnames).2 name hname⟩
  · exact hprintable _ (List.of_mem_zip (hmembers.mem_iff.1 hmember)).2
  · dsimp only [record]
    rw [Json.fields?_object hnames hlength hmembers, some_bind_eq, hread, some_bind_eq, hmake]
    rfl

/-! ## Messages and setups -/

theorem readsVariants_dlogProof : dlogProof.ReadsVariants :=
  readsVariants_record (readsVariants_cons "point" readsVariants_point <|
    readsVariants_cons "rand_commitment" readsVariants_point <|
    readsVariants_one "challenge_response" readsVariants_scalar) (by decide) fun _ => rfl

theorem readsVariants_setupMessage : setupMessage.ReadsVariants :=
  readsVariants_record (readsVariants_one "proof" readsVariants_dlogProof) (by decide) fun _ => rfl

theorem readsVariants_choiceMessage : choiceMessage.ReadsVariants :=
  readsVariants_record (readsVariants_one "point" readsVariants_point) (by decide) fun _ => rfl

theorem readsVariants_challengeMessage : challengeMessage.ReadsVariants :=
  readsVariants_record (readsVariants_one "challenge" readsVariants_block) (by decide) fun _ => rfl

theorem readsVariants_responseMessage : responseMessage.ReadsVariants :=
  readsVariants_record (readsVariants_one "response" readsVariants_block) (by decide) fun _ => rfl

theorem readsVariants_openingMessage : openingMessage.ReadsVariants :=
  readsVariants_record (readsVariants_cons "decommit_0" readsVariants_block <|
    readsVariants_one "decommit_1" readsVariants_block) (by decide) fun _ => rfl

theorem readsVariants_setupChoices : setupChoices.ReadsVariants :=
  readsVariants_record (readsVariants_one "points" (readsVariants_choiceMessage.vector baseCount))
    (by decide) fun _ => rfl

theorem readsVariants_setupChallenges : setupChallenges.ReadsVariants :=
  readsVariants_record
    (readsVariants_one "challenges" (readsVariants_challengeMessage.vector baseCount))
    (by decide) fun _ => rfl

theorem readsVariants_setupResponses : setupResponses.ReadsVariants :=
  readsVariants_record
    (readsVariants_one "responses" (readsVariants_responseMessage.vector baseCount))
    (by decide) fun _ => rfl

theorem readsVariants_setupOpenings : setupOpenings.ReadsVariants :=
  readsVariants_record
    (readsVariants_one "openings" (readsVariants_openingMessage.vector baseCount))
    (by decide) fun _ => rfl

theorem readsVariants_sendSetup : sendSetup.ReadsVariants :=
  readsVariants_record (readsVariants_cons "delta" readsVariants_block <|
    readsVariants_one "k_delta" (readsVariants_block.vector baseCount)) (by decide) fun _ => rfl

theorem readsVariants_receiveSetup : receiveSetup.ReadsVariants :=
  readsVariants_record (readsVariants_cons "k_0" (readsVariants_block.vector baseCount) <|
    readsVariants_one "k_1" (readsVariants_block.vector baseCount)) (by decide) fun _ => rfl

theorem readsVariants_extendMessage : extendMessage.ReadsVariants :=
  readsVariants_record (readsVariants_one "u" readsVariants_bytes) (by decide) fun _ => rfl

theorem readsVariants_sums : sums.ReadsVariants :=
  (readsVariants_polynomial.pair readsVariants_polynomial).imap fun _ => rfl

theorem readsVariants_extensionMessage : extensionMessage.ReadsVariants :=
  readsVariants_record (readsVariants_cons "extend" readsVariants_extendMessage <|
    readsVariants_cons "x" readsVariants_halfBlock <| readsVariants_one "t" readsVariants_sums)
    (by decide) fun _ => rfl

theorem readsVariants_additiveMessage : additiveMessage.ReadsVariants :=
  readsVariants_record
    (readsVariants_one "ciphertexts" (readsVariants_scalar.pair readsVariants_scalar).list)
    (by decide) fun _ => rfl

theorem readsVariants_multiplyMessage : multiplyMessage.ReadsVariants :=
  readsVariants_record (readsVariants_cons "additive" readsVariants_additiveMessage <|
    readsVariants_cons "verify_u" readsVariants_scalar <|
    readsVariants_one "verify_r" readsVariants_block)
    (by decide) fun _ => rfl

theorem readsVariants_form (kind : Kind) : kind.form.ReadsVariants := by
  cases kind with
  | dlogProof => exact readsVariants_dlogProof
  | setup => exact readsVariants_setupMessage
  | choice => exact readsVariants_choiceMessage
  | challenge => exact readsVariants_challengeMessage
  | response => exact readsVariants_responseMessage
  | opening => exact readsVariants_openingMessage
  | polynomial => exact readsVariants_polynomial
  | extend => exact readsVariants_extendMessage
  | extension => exact readsVariants_extensionMessage
  | additive => exact readsVariants_additiveMessage
  | multiply => exact readsVariants_multiplyMessage
  | setupChoices => exact readsVariants_setupChoices
  | setupChallenges => exact readsVariants_setupChallenges
  | setupResponses => exact readsVariants_setupResponses
  | setupOpenings => exact readsVariants_setupOpenings
  | sendSetup => exact readsVariants_sendSetup
  | receiveSetup => exact readsVariants_receiveSetup

/-- Reads a value from a JSON text that holds nothing else. -/
def Form.ofText? (form : Form α) (text : List Char) : Option α :=
  Json.parse? text >>= form.ofJson?

theorem Form.ReadsVariants.ofText?_print {form : Form α} (h : form.ReadsVariants) {value : α}
    {w : Json} (hw : (form.toJson value).Variant w) : form.ofText? w.print = some value := by
  obtain ⟨hprintable, hread⟩ := h value w hw
  rw [ofText?, Json.parse?_print hprintable, some_bind_eq, hread]

/-- Every message and setup is read back from its JSON text, and also after the members of its
objects change places and letters of its hexadecimal strings change their case. -/
theorem json_text_read_back (kind : Kind) (value : kind.Value) :
    kind.form.ofText? (kind.form.toJson value).print = some value ∧
      ∀ variant, (kind.form.toJson value).Variant variant →
        kind.form.ofText? variant.print = some value :=
  ⟨(readsVariants_form kind).ofText?_print (.refl _),
    fun _ => (readsVariants_form kind).ofText?_print⟩

theorem reordered_lower_case_proof_read_back :
    (dlogProof.toJson ⟨.infinity, .infinity, 0xef⟩).Variant
      (.object [
        (.ofText "challenge_response".toList, .ofText (Bytes.toHex false (Scalar.toBytes 0xef))),
        (.ofText "rand_commitment".toList, .ofText ['0', '0']),
        (.ofText "point".toList, .ofText ['0', '0'])]) ∧
    dlogProof.ofText? (Json.print
      (.object [
        (.ofText "challenge_response".toList, .ofText (Bytes.toHex false (Scalar.toBytes 0xef))),
        (.ofText "rand_commitment".toList, .ofText ['0', '0']),
        (.ofText "point".toList, .ofText ['0', '0'])])) =
      some ⟨.infinity, .infinity, 0xef⟩ := by
  have hvalues := List.Forall₂.cons (Variant.refl (.ofText ['0', '0']))
    (.cons (.refl (.ofText ['0', '0'])) (.cons (Json.variant_hexJson (Scalar.toBytes 0xef)) .nil))
  have hvariant : (dlogProof.toJson ⟨.infinity, .infinity, 0xef⟩).Variant (.object _) :=
    (Json.variant_ofFields_iff rfl).2 ⟨_, _, rfl, hvalues, List.reverse_perm _⟩
  exact ⟨hvariant, (json_text_read_back .dlogProof ⟨.infinity, .infinity, 0xef⟩).2 _ hvariant⟩

end Wire

end ObliviousTransfer
