import Mathlib
import ObliviousTransfer.Wire.Form
import ObliviousTransfer.Proofs.PointEncoding

/-!
# Reading back bytes

A decoder inverts an encoder if it reads back every value from the front of any string
(`run_encode_append`) and if what stands behind a value does not matter to it (`stable`). So a
string that is cut off before its end is never read (`run_eq_none_of_cut`), and different values
have different bytes (`encode_injective`).

The parts of fixed size have this property, and each combinator keeps it. A length is written in
eight bytes, so for strings and lists it is a property of the values whose lengths fit.
-/

namespace ObliviousTransfer.Wire

namespace Decoder

variable {α β : Type}

/-- Whatever stands behind what is read is left over. -/
def Stable (decode : Decoder α) : Prop :=
  ∀ input value rest, decode.run input = some (value, rest) →
    ∀ more, decode.run (input ++ more) = some (value, rest ++ more)

/-- The values with the property `fits` are read back from the bytes that they are written in. -/
structure Inverts (decode : Decoder α) (encode : α → Bytes) (fits : α → Prop) : Prop where
  run_encode_append : ∀ a, fits a → ∀ rest, decode.run (encode a ++ rest) = some (a, rest)
  stable : decode.Stable

/-! ## Stable decoders -/

theorem stable_pure (a : α) : Stable (pure a) := by
  intro input value rest h more
  cases h
  rfl

theorem stable_bind {decode : Decoder α} {next : α → Decoder β} (hdecode : decode.Stable)
    (hnext : ∀ a, (next a).Stable) : Stable (decode >>= next) := by
  intro input value rest h more
  rw [StateT.run_bind] at h ⊢
  obtain ⟨⟨a, behind⟩, ha, hvalue⟩ := Option.bind_eq_some_iff.1 h
  rw [hdecode input a behind ha more]
  exact hnext a behind value rest hvalue more

theorem stable_map {decode : Decoder α} (f : α → β) (hdecode : decode.Stable) :
    Stable (f <$> decode) := by
  rw [map_eq_pure_bind]
  exact stable_bind hdecode fun a => stable_pure (f a)

theorem stable_require (value : Option α) : (require value).Stable := by
  cases value with
  | none => exact fun _ _ _ h => nomatch h
  | some a => exact stable_pure a

theorem stable_bytes (count : Nat) : (bytes count).Stable := by
  intro input value rest h more
  change (if (input.take count).length = count then some (input.take count, input.drop count)
    else none) = some (value, rest) at h
  change (if ((input ++ more).take count).length = count
    then some ((input ++ more).take count, (input ++ more).drop count) else none) = _
  split at h
  · next hlength =>
    cases h
    rw [List.length_take] at hlength
    have hcount : count ≤ input.length := by omega
    rw [List.take_append_of_le_length hcount, List.drop_append_of_le_length hcount,
      List.length_take, if_pos hlength]
  · cases h

theorem run_timesOnto_of_eq_some {decode : Decoder α} {input rest : Bytes} {value : α}
    (h : decode.run input = some (value, rest)) (count : Nat) (read : List α) :
    (timesOnto decode (count + 1) read).run input =
      (timesOnto decode count (value :: read)).run rest := by
  have h' : decode input = some (value, rest) := h
  simp only [StateT.run, timesOnto, h']

theorem run_timesOnto_of_eq_none {decode : Decoder α} {input : Bytes} (h : decode.run input = none)
    (count : Nat) (read : List α) : (timesOnto decode (count + 1) read).run input = none := by
  have h' : decode input = none := h
  simp only [StateT.run, timesOnto, h']

theorem stable_timesOnto {decode : Decoder α} (hdecode : decode.Stable) (count : Nat)
    (read : List α) : (timesOnto decode count read).Stable := by
  induction count generalizing read with
  | zero => exact stable_pure read.reverse
  | succ count ih =>
    intro input values rest h more
    cases hvalue : decode.run input with
    | none =>
      rw [run_timesOnto_of_eq_none hvalue] at h
      cases h
    | some result =>
      rw [run_timesOnto_of_eq_some hvalue] at h
      rw [run_timesOnto_of_eq_some (hdecode input result.1 result.2 hvalue more)]
      exact ih (result.1 :: read) result.2 values rest h more

theorem stable_ofFnM {decode : Decoder α} (hdecode : decode.Stable) (n : Nat) :
    Stable (Vector.ofFnM fun _ : Fin n => decode) := by
  induction n with
  | zero =>
    rw [Vector.ofFnM_zero]
    exact stable_pure _
  | succ n ih =>
    rw [Vector.ofFnM_succ]
    exact stable_bind ih fun values => stable_bind hdecode fun value => stable_pure _

/-! ## Reading what was written -/

/-- A decoder that succeeds hands its value and the rest on to what follows. -/
theorem run_bind_of_eq {decode : Decoder α} {next : α → Decoder β} {input rest : Bytes} {a : α}
    (h : decode.run input = some (a, rest)) : (decode >>= next).run input = (next a).run rest := by
  rw [StateT.run_bind, h]
  rfl

theorem run_map_of_eq {decode : Decoder α} (f : α → β) {input rest : Bytes} {a : α}
    (h : decode.run input = some (a, rest)) : (f <$> decode).run input = some (f a, rest) := by
  rw [map_eq_pure_bind, run_bind_of_eq h]
  rfl

theorem run_bytes_append (head rest : Bytes) :
    (bytes head.length).run (head ++ rest) = some (head, rest) := by
  change (if ((head ++ rest).take head.length).length = head.length
    then some ((head ++ rest).take head.length, (head ++ rest).drop head.length) else none) = _
  rw [List.take_left, List.drop_left, if_pos rfl]

theorem run_natLE_append (width : Nat) {n : Nat} (hn : n < 2 ^ (8 * width)) (rest : Bytes) :
    (natLE width).run (Bytes.ofNatLE width n ++ rest) = some (n, rest) := by
  have hread := run_bytes_append (Bytes.ofNatLE width n) rest
  rw [Bytes.length_ofNatLE] at hread
  have hnat : Bytes.toNatLE (Bytes.ofNatLE width n) = n := by
    rw [Bytes.toNatLE_ofNatLE, BitVec.toNat_ofNat, Nat.mod_eq_of_lt hn]
  rw [natLE, run_bind_of_eq hread, hnat]
  rfl

namespace Inverts

variable {decode : Decoder α} {encode : α → Bytes} {fits : α → Prop}

/-- A string that ends too early is not read. -/
theorem run_eq_none_of_cut (h : decode.Inverts encode fits) {a : α} (ha : fits a) {front : Bytes}
    (hcut : front <+: encode a) (hne : front ≠ encode a) : decode.run front = none := by
  obtain ⟨missing, hmissing⟩ := hcut
  cases hrun : decode.run front with
  | none => rfl
  | some result =>
    -- with the missing bytes put back, they would be left over
    have hstable := h.stable front result.1 result.2 hrun missing
    have hwhole := h.run_encode_append a ha []
    rw [List.append_nil, ← hmissing, hstable] at hwhole
    have hempty : missing = [] :=
      (List.append_eq_nil_iff.1 (Prod.mk.inj (Option.some.inj hwhole)).2).2
    rw [hempty, List.append_nil] at hmissing
    exact absurd hmissing hne

/-- Different values have different bytes. -/
theorem encode_injective (h : decode.Inverts encode fits) {a b : α} (ha : fits a) (hb : fits b)
    (heq : encode a = encode b) : a = b := by
  have hread := h.run_encode_append a ha []
  rw [heq, h.run_encode_append b hb []] at hread
  exact (Prod.mk.inj (Option.some.inj hread)).1.symm

theorem mono (h : decode.Inverts encode fits) {fits' : α → Prop} (hfits : ∀ a, fits' a → fits a) :
    decode.Inverts encode fits' :=
  ⟨fun a ha => h.run_encode_append a (hfits a ha), h.stable⟩

/-! ### Combinators -/

/-- One value after the other. -/
theorem pair (h : decode.Inverts encode fits) {decode' : Decoder β} {encode' : β → Bytes}
    {fits' : β → Prop} (h' : decode'.Inverts encode' fits') :
    Inverts (do let a ← decode; let b ← decode'; return (a, b))
      (fun p => encode p.1 ++ encode' p.2) (fun p => fits p.1 ∧ fits' p.2) where
  run_encode_append p hp rest := by
    rw [List.append_assoc, run_bind_of_eq (h.run_encode_append p.1 hp.1 _),
      run_bind_of_eq (h'.run_encode_append p.2 hp.2 rest)]
    rfl
  stable := stable_bind h.stable fun _ => stable_bind h'.stable fun _ => stable_pure _

/-- A value that is made from another one and taken apart into it. -/
theorem imap (h : decode.Inverts encode fits) {make : α → β} {parts : β → α}
    (hmake : ∀ b, make (parts b) = b) :
    Inverts (make <$> decode) (fun b => encode (parts b)) (fun b => fits (parts b)) where
  run_encode_append b hb rest := by
    rw [run_map_of_eq make (h.run_encode_append (parts b) hb rest), hmake]
  stable := stable_map make h.stable

theorem run_timesOnto (h : decode.Inverts encode fits) {values : List α}
    (hvalues : ∀ a ∈ values, fits a) (read : List α) (rest : Bytes) :
    (timesOnto decode values.length read).run (values.flatMap encode ++ rest) =
      some (read.reverse ++ values, rest) := by
  induction values generalizing read with
  | nil => rw [List.append_nil]; rfl
  | cons a values ih =>
    obtain ⟨ha, hvalues⟩ := List.forall_mem_cons.1 hvalues
    have hread := h.run_encode_append a ha (values.flatMap encode ++ rest)
    rw [List.flatMap_cons, List.append_assoc, List.length_cons, run_timesOnto_of_eq_some hread]
    exact (ih hvalues (a :: read)).trans (by rw [List.reverse_cons, List.append_assoc]; rfl)

theorem run_ofFnM (h : decode.Inverts encode fits) {n : Nat} (values : Vector α n)
    (hvalues : ∀ a ∈ values, fits a) (rest : Bytes) :
    (Vector.ofFnM fun _ : Fin n => decode).run (values.toList.flatMap encode ++ rest) =
      some (values, rest) := by
  induction n generalizing rest with
  | zero =>
    obtain rfl : values = #v[] := Vector.eq_empty
    rw [Vector.ofFnM_zero]
    rfl
  | succ n ih =>
    obtain ⟨values, a, rfl⟩ : ∃ (front : Vector α n) (a : α), values = front.push a :=
      ⟨values.pop, values.back, (Vector.push_pop_back values).symm⟩
    have hfront := ih values fun b hb => hvalues b (Vector.mem_push.2 (Or.inl hb))
    have hlast := h.run_encode_append a (hvalues a (Vector.mem_push.2 (Or.inr rfl)))
    rw [Vector.ofFnM_succ, Vector.toList_push, List.flatMap_append, List.append_assoc,
      run_bind_of_eq (hfront _), List.flatMap_singleton, run_bind_of_eq (hlast rest)]
    rfl

end Inverts

end Decoder

end ObliviousTransfer.Wire
