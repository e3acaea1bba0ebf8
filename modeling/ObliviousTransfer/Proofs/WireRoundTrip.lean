import Mathlib
import ObliviousTransfer.Wire.Dialogue
import ObliviousTransfer.Proofs.AccessSafety
import ObliviousTransfer.Proofs.TransferVerdicts
import ObliviousTransfer.Proofs.WireBytes

/-!
# Messages and setups are read back

Every form reads back the bytes that it writes, whatever stands behind them, and refuses them when
they are cut off. So no message means two things, and a dialogue over the wire is the direct one.

## Shape of the proof

The forms of the parts are inverted one by one; `Form.readsBack_record` and the lemmas on `Fields`
join them along the definition of each message, and `readsBack_form` collects the seventeen kinds.
The only parts whose size is not fixed stand behind their length (`inverts_length_bind`).
-/

namespace ObliviousTransfer.Wire

open Decoder

variable {α β : Type}

/-! ## Sizes -/

/-- A value that is read from its bytes alone, all of the same number. -/
theorem Decoder.inverts_bytes_bind {count : Nat} {encode : α → Bytes} {next : Bytes → Decoder α}
    (hlength : ∀ a, (encode a).length = count) (hnext : ∀ a, next (encode a) = pure a)
    (hstable : ∀ b, (next b).Stable) : Inverts (bytes count >>= next) encode fun _ => True where
  run_encode_append a _ rest := by
    rw [← hlength a, run_bind_of_eq (run_bytes_append (encode a) rest), hnext]
    rfl
  stable := stable_bind (stable_bytes count) hstable

theorem Decoder.stable_natLE (width : Nat) : (natLE width).Stable :=
  stable_bind (stable_bytes width) fun _ => stable_pure _

/-- A value behind its length. -/
theorem Decoder.inverts_length_bind {encode : α → Bytes} {decode : Nat → Decoder α} {size : α → Nat}
    {fits : α → Prop} (hsize : ∀ a, fits a → size a < sizeLimit)
    (hdecode : ∀ a, fits a → ∀ rest, (decode (size a)).run (encode a ++ rest) = some (a, rest))
    (hstable : ∀ n, (decode n).Stable) :
    Inverts (natLE 8 >>= decode) (fun a => Bytes.ofNatLE 8 (size a) ++ encode a) fits where
  run_encode_append a ha rest := by
    rw [List.append_assoc, run_bind_of_eq (run_natLE_append 8 (hsize a ha) (encode a ++ rest)),
      hdecode a ha]
  stable := stable_bind (stable_natLE 8) hstable

namespace Form

/-- The values with the property `fits` are read back. -/
def ReadsBack (form : Form α) (fits : α → Prop) : Prop :=
  form.decode.Inverts form.encode fits

/-! ## Parts of fixed size -/

theorem readsBack_block : block.ReadsBack fun _ => True :=
  inverts_bytes_bind Block.length_toBytes (fun b => congrArg pure (Block.ofBytes_toBytes b))
    fun _ => stable_pure _

theorem readsBack_halfBlock : halfBlock.ReadsBack fun _ => True := by
  refine inverts_bytes_bind (fun h => Bytes.length_ofNatLE 16 h.toNat) (fun h => congrArg pure ?_)
    fun _ => stable_pure _
  have hread : Bytes.toNatLE (Bytes.ofNatLE 16 h.toNat) = h.toNat := by
    rw [Bytes.toNatLE_ofNatLE, BitVec.toNat_ofNat, Nat.mod_eq_of_lt h.isLt]
  exact (congrArg (BitVec.ofNat 128) hread).trans (BitVec.ofNat_toNat 128 h)

theorem readsBack_word : word.ReadsBack fun _ => True where
  run_encode_append w _ rest := by
    have hlt : w.toNat < 2 ^ (8 * 8) := w.toNat_lt
    refine (run_bind_of_eq (run_natLE_append 8 hlt rest)).trans ?_
    rw [UInt64.ofNat_toNat]
    rfl
  stable := stable_bind (stable_natLE 8) fun _ => stable_pure _

theorem readsBack_scalar : scalar.ReadsBack fun _ => True :=
  inverts_bytes_bind Scalar.length_toBytes (fun s => congrArg require (Scalar.ofBytes?_toBytes s))
    fun _ => stable_require _

theorem readsBack_point : point.ReadsBack fun _ => True := by
  refine inverts_length_bind (fun p _ => Nat.lt_of_le_of_lt (Point.length_sec1_le p) (by decide)) ?_
    fun n => stable_bind (stable_bytes n) fun _ => stable_require _
  intro p _ rest
  rw [run_bind_of_eq (run_bytes_append p.sec1 rest), Point.ofSec1?_sec1]
  rfl

/-! ## Combinators -/

theorem readsBack_bytes : bytes.ReadsBack fun b => b.length < sizeLimit := by
  have h : Inverts (natLE 8 >>= Decoder.bytes) (fun b => Bytes.ofNatLE 8 b.length ++ id b)
      fun b => b.length < sizeLimit :=
    inverts_length_bind (fun _ h => h) (fun b _ rest => run_bytes_append b rest) stable_bytes
  exact h

theorem ReadsBack.list {form : Form α} {fits : α → Prop} (h : form.ReadsBack fits) :
    form.list.ReadsBack fun entries => entries.length < sizeLimit ∧ ∀ a ∈ entries, fits a :=
  inverts_length_bind (fun _ hentries => hentries.1)
    (fun _ hentries rest => Inverts.run_timesOnto h hentries.2 [] rest)
    fun n => stable_timesOnto h.stable n []

theorem ReadsBack.vector {form : Form α} {fits : α → Prop} (h : form.ReadsBack fits) (n : Nat) :
    (form.vector n).ReadsBack fun entries => ∀ a ∈ entries, fits a where
  run_encode_append entries hentries rest := Inverts.run_ofFnM h entries hentries rest
  stable := stable_ofFnM h.stable n

theorem ReadsBack.pair {first : Form α} {second : Form β} {fits : α → Prop} {fits' : β → Prop}
    (h : first.ReadsBack fits) (h' : second.ReadsBack fits') :
    (first.pair second).ReadsBack fun p => fits p.1 ∧ fits' p.2 :=
  Inverts.pair h h'

theorem ReadsBack.imap {form : Form α} {fits : α → Prop} (h : form.ReadsBack fits) {make : α → β}
    {parts : β → α} (hmake : ∀ b, make (parts b) = b) :
    (form.imap make parts).ReadsBack fun b => fits (parts b) :=
  Inverts.imap h hmake

theorem readsBack_polynomial : polynomial.ReadsBack fun _ => True :=
  ((readsBack_word.vector 4).imap BinaryPolynomial.ofWords_words).mono fun _ _ _ _ => trivial

end Form

/-! ## Records -/

namespace Fields

/-- The values of the fields with the property `fits` are read back. -/
def ReadsBack (fields : Fields α) (fits : α → Prop) : Prop :=
  fields.decode.Inverts fields.encode fits

theorem readsBack_one (name : String) {form : Form α} {fits : α → Prop} (h : form.ReadsBack fits) :
    (one name form).ReadsBack fits :=
  h

theorem readsBack_cons (name : String) {form : Form α} {fits : α → Prop} (h : form.ReadsBack fits)
    {rest : Fields β} {fits' : β → Prop} (hrest : rest.ReadsBack fits') :
    (cons name form rest).ReadsBack fun p => fits p.1 ∧ fits' p.2 :=
  Inverts.pair h hrest

end Fields

open Form Fields

/-- A record is read back if its fields are. -/
theorem Form.readsBack_record {fields : Fields α} {fits : α → Prop} (h : fields.ReadsBack fits)
    {make : α → β} {parts : β → α} (hmake : ∀ b, make (parts b) = b) :
    (record fields make parts).ReadsBack fun b => fits (parts b) :=
  Inverts.imap h hmake

/-! ## Messages and setups -/

theorem readsBack_dlogProof : dlogProof.ReadsBack fun _ => True :=
  (readsBack_record (readsBack_cons "point" readsBack_point <|
    readsBack_cons "rand_commitment" readsBack_point <|
    readsBack_one "challenge_response" readsBack_scalar) fun _ => rfl).mono
    fun _ _ => ⟨trivial, trivial, trivial⟩

theorem readsBack_setupMessage : setupMessage.ReadsBack fun _ => True :=
  readsBack_record (readsBack_one "proof" readsBack_dlogProof) fun _ => rfl

theorem readsBack_choiceMessage : choiceMessage.ReadsBack fun _ => True :=
  readsBack_record (readsBack_one "point" readsBack_point) fun _ => rfl

theorem readsBack_challengeMessage : challengeMessage.ReadsBack fun _ => True :=
  readsBack_record (readsBack_one "challenge" readsBack_block) fun _ => rfl

theorem readsBack_responseMessage : responseMessage.ReadsBack fun _ => True :=
  readsBack_record (readsBack_one "response" readsBack_block) fun _ => rfl

theorem readsBack_openingMessage : openingMessage.ReadsBack fun _ => True :=
  (readsBack_record (readsBack_cons "decommit_0" readsBack_block <|
    readsBack_one "decommit_1" readsBack_block) fun _ => rfl).mono fun _ _ => ⟨trivial, trivial⟩

theorem readsBack_setupChoices : setupChoices.ReadsBack fun _ => True :=
  (readsBack_record (readsBack_one "points" (readsBack_choiceMessage.vector baseCount))
    fun _ => rfl).mono fun _ _ _ _ => trivial

theorem readsBack_setupChallenges : setupChallenges.ReadsBack fun _ => True :=
  (readsBack_record (readsBack_one "challenges" (readsBack_challengeMessage.vector baseCount))
    fun _ => rfl).mono fun _ _ _ _ => trivial

theorem readsBack_setupResponses : setupResponses.ReadsBack fun _ => True :=
  (readsBack_record (readsBack_one "responses" (readsBack_responseMessage.vector baseCount))
    fun _ => rfl).mono fun _ _ _ _ => trivial

theorem readsBack_setupOpenings : setupOpenings.ReadsBack fun _ => True :=
  (readsBack_record (readsBack_one "openings" (readsBack_openingMessage.vector baseCount))
    fun _ => rfl).mono fun _ _ _ _ => trivial

theorem readsBack_sendSetup : sendSetup.ReadsBack fun _ => True :=
  (readsBack_record (readsBack_cons "delta" readsBack_block <|
    readsBack_one "k_delta" (readsBack_block.vector baseCount)) fun _ => rfl).mono
    fun _ _ => ⟨trivial, fun _ _ => trivial⟩

theorem readsBack_receiveSetup : receiveSetup.ReadsBack fun _ => True :=
  (readsBack_record (readsBack_cons "k_0" (readsBack_block.vector baseCount) <|
    readsBack_one "k_1" (readsBack_block.vector baseCount)) fun _ => rfl).mono
    fun _ _ => ⟨fun _ _ => trivial, fun _ _ => trivial⟩

theorem readsBack_extendMessage : extendMessage.ReadsBack fun m => m.u.length < sizeLimit :=
  readsBack_record (readsBack_one "u" readsBack_bytes) fun _ => rfl

theorem readsBack_sums : sums.ReadsBack fun _ => True :=
  ((readsBack_polynomial.pair readsBack_polynomial).imap fun _ => rfl).mono
    fun _ _ => ⟨trivial, trivial⟩

theorem readsBack_extensionMessage :
    extensionMessage.ReadsBack fun m => m.extend.u.length < sizeLimit :=
  (readsBack_record (readsBack_cons "extend" readsBack_extendMessage <|
    readsBack_cons "x" readsBack_halfBlock <| readsBack_one "t" readsBack_sums) fun _ => rfl).mono
    fun _ h => ⟨h, trivial, trivial⟩

theorem readsBack_additiveMessage :
    additiveMessage.ReadsBack fun m => m.ciphertexts.length < sizeLimit :=
  (readsBack_record (readsBack_one "ciphertexts" (readsBack_scalar.pair readsBack_scalar).list)
    fun _ => rfl).mono fun _ h => ⟨h, fun _ _ => ⟨trivial, trivial⟩⟩

theorem readsBack_multiplyMessage :
    multiplyMessage.ReadsBack fun m => m.additive.ciphertexts.length < sizeLimit :=
  (readsBack_record (readsBack_cons "additive" readsBack_additiveMessage <|
    readsBack_cons "verify_u" readsBack_scalar <| readsBack_one "verify_r" readsBack_block)
    fun _ => rfl).mono fun _ h => ⟨h, trivial, trivial⟩

theorem readsBack_form (kind : Kind) : kind.form.ReadsBack kind.Fits := by
  cases kind with
  | dlogProof => exact readsBack_dlogProof.mono fun _ _ => trivial
  | setup => exact readsBack_setupMessage.mono fun _ _ => trivial
  | choice => exact readsBack_choiceMessage.mono fun _ _ => trivial
  | challenge => exact readsBack_challengeMessage.mono fun _ _ => trivial
  | response => exact readsBack_responseMessage.mono fun _ _ => trivial
  | opening => exact readsBack_openingMessage.mono fun _ _ => trivial
  | polynomial => exact readsBack_polynomial.mono fun _ _ => trivial
  | extend => exact readsBack_extendMessage
  | extension => exact readsBack_extensionMessage
  | additive => exact readsBack_additiveMessage
  | multiply => exact readsBack_multiplyMessage
  | setupChoices => exact readsBack_setupChoices.mono fun _ _ => trivial
  | setupChallenges => exact readsBack_setupChallenges.mono fun _ _ => trivial
  | setupResponses => exact readsBack_setupResponses.mono fun _ _ => trivial
  | setupOpenings => exact readsBack_setupOpenings.mono fun _ _ => trivial
  | sendSetup => exact readsBack_sendSetup.mono fun _ _ => trivial
  | receiveSetup => exact readsBack_receiveSetup.mono fun _ _ => trivial

/-! ## Dialogues -/

namespace Dialogue

/-- What arrives over the wire is what was sent, so the run goes on as it does directly. -/
theorem overWire_eq_direct (dialogue : Dialogue α) (h : dialogue.Fits) :
    dialogue.overWire = some dialogue.direct := by
  induction dialogue with
  | done result => rfl
  | send kind value next ih =>
    have harrived := (readsBack_form kind).run_encode_append value h.1 []
    rw [List.append_nil] at harrived
    rw [overWire, harrived]
    exact ih value h.2

open RandomTransfer in
/-- The messages of a random transfer have fixed sizes. -/
theorem fits_transfer (sender : Sender Point) (nonce : Block)
    (start : Chosen × ChoiceMessage Point) : (transfer sender nonce start).Fits := by
  have hfixed : 0 < sizeLimit := by decide
  refine ⟨hfixed, hfixed, hfixed, ?_⟩
  dsimp only
  split
  · exact trivial
  · exact ⟨hfixed, trivial⟩

open RandomTransfer in
/-- Carried out directly, a random transfer is an exchange over a line that changes nothing. -/
theorem direct_transfer (sender : Sender Point) (nonce : Block)
    (start : Chosen × ChoiceMessage Point) :
    (transfer sender nonce start).direct =
      (exchange sender nonce Line.faithful start).map Prod.snd := by
  simp only [transfer, direct]
  cases hreveal : (sender.challenge nonce start.2).1.reveal
      (start.1.respond (sender.challenge nonce start.2).2).2 with
  | error e =>
    rw [exchange_eq_of_reveal_eq_error sender nonce Line.faithful start hreveal]
    rfl
  | ok revealed =>
    rw [exchange_eq_of_reveal_eq_ok sender nonce Line.faithful start hreveal rfl]
    simp only [direct, Line.faithful, id]
    generalize (start.1.respond (sender.challenge nonce start.2).2).1.verify revealed.2 = verdict
    cases verdict <;> rfl

open RandomTransfer in
/-- The wire changes nothing in a random transfer. -/
theorem overWire_transfer (sender : Sender Point) (nonce : Block)
    (start : Chosen × ChoiceMessage Point) :
    (transfer sender nonce start).overWire =
      some ((exchange sender nonce Line.faithful start).map Prod.snd) := by
  rw [overWire_eq_direct _ (fits_transfer sender nonce start), direct_transfer]

/-- In a multiplication all sizes follow from the parameters, except that of what the receiver
starts with. -/
theorem fits_product {sender : Multiply.Sender} {setup : Correlated.SendSetup}
    {start : Multiply.Receiver × Extension.Message} (h : start.2.extend.u.length < sizeLimit) :
    (product sender setup start).Fits := by
  refine ⟨h, ?_⟩
  dsimp only
  cases hsend : sender.send setup start.2 with
  | error e => exact trivial
  | ok result =>
    have hciphertexts : result.2.additive.ciphertexts.length < sizeLimit := by
      rw [Multiply.Sender.length_ciphertexts hsend]
      decide
    exact ⟨hciphertexts, trivial⟩

end Dialogue

/-- Every message and setup is read back from its bytes, whatever follows them, and is not read from
less; different values have different bytes. So a run in which everything that is sent goes through
bytes has the result of the direct run. -/
theorem read_back_and_dialogues_unchanged :
    (∀ (kind : Kind) (value : kind.Value), kind.Fits value →
      (∀ rest, kind.form.decode.run (kind.form.encode value ++ rest) = some (value, rest)) ∧
      ∀ front, front <+: kind.form.encode value → front ≠ kind.form.encode value →
        kind.form.decode.run front = none) ∧
    (∀ (kind : Kind) (value value' : kind.Value), kind.Fits value → kind.Fits value' →
      kind.form.encode value = kind.form.encode value' → value = value') ∧
    ∀ (α : Type) (dialogue : Dialogue α), dialogue.Fits →
      dialogue.overWire = some dialogue.direct := by
  refine ⟨fun kind value hfits => ⟨?_, ?_⟩, ?_, ?_⟩
  · exact (readsBack_form kind).run_encode_append value hfits
  · exact fun front hcut hne => (readsBack_form kind).run_eq_none_of_cut hfits hcut hne
  · exact fun kind value value' hfits hfits' heq =>
      (readsBack_form kind).encode_injective hfits hfits' heq
  · exact fun α dialogue hfits => dialogue.overWire_eq_direct hfits

theorem pair_of_ciphertexts_read_back :
    Kind.additive.Fits (AdditiveTransfer.Message.mk [(1, 2)]) ∧
    additiveMessage.decode.run (additiveMessage.encode ⟨[(1, 2)]⟩ ++ [7]) =
      some (⟨[(1, 2)]⟩, [7]) ∧
    additiveMessage.decode.run ((additiveMessage.encode ⟨[(1, 2)]⟩).take 71) = none ∧
    additiveMessage.encode ⟨[(1, 2)]⟩ ≠ additiveMessage.encode ⟨[(2, 1)]⟩ ∧
    (Dialogue.send .additive (AdditiveTransfer.Message.mk [(1, 2)]) fun message =>
      .send .polynomial (1 : BinaryPolynomial) fun _ => .done message).overWire =
        some ⟨[(1, 2)]⟩ := by
  have hfits (a b : Scalar) : Kind.additive.Fits (AdditiveTransfer.Message.mk [(a, b)]) := by
    show 1 < sizeLimit
    decide
  have hne : AdditiveTransfer.Message.mk [(1, 2)] ≠ ⟨[(2, 1)]⟩ := by decide
  have hfixed : 0 < sizeLimit := by decide
  obtain ⟨hread, hinjective, hdialogue⟩ := read_back_and_dialogues_unchanged
  refine ⟨hfits 1 2, (hread .additive _ (hfits 1 2)).1 [7], ?_, fun heq => ?_,
    hdialogue _ _ ⟨hfits 1 2, hfixed, trivial⟩⟩
  · refine (hread .additive _ (hfits 1 2)).2 _ (List.take_prefix ..) fun heq => ?_
    exact absurd (congrArg List.length heq) (by decide +kernel)
  · exact hne (hinjective .additive _ _ (hfits 1 2) (hfits 2 1) heq)

end ObliviousTransfer.Wire
