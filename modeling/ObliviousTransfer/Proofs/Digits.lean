import Mathlib
import ObliviousTransfer.Json.Parser

/-!
# Decimal and hexadecimal digits

A number is read back from its decimal digits, which are a number of the JSON grammar: no sign and
no leading zero. A byte string is read back from its hexadecimal digits whatever the case of each of
them.
-/

namespace ObliviousTransfer

/-! ## Decimal digits -/

namespace Json

/-- Only zero is written with a leading zero. -/
theorem eq_nil_of_toDigits_eq_zero_cons {n : Nat} {rest : List Char}
    (h : Nat.toDigits 10 n = '0' :: rest) : rest = [] := by
  induction n using Nat.strong_induction_on generalizing rest with
  | _ n ih =>
    rw [Nat.toDigits_eq_if (by decide)] at h
    split at h
    · exact (List.cons.inj h).2.symm
    · next hn =>
      have hpos : 0 < n / 10 := by omega
      cases hhead : Nat.toDigits 10 (n / 10) with
      | nil => exact absurd hhead Nat.toDigits_ne_nil
      | cons c others =>
        -- The quotient would begin with a zero, so it would be zero.
        rw [hhead, List.cons_append] at h
        obtain ⟨rfl, -⟩ := List.cons.inj h
        obtain rfl := ih (n / 10) (by omega) hhead
        have hvalue : Nat.ofDigitChars 10 (Nat.toDigits 10 (n / 10)) 0 = n / 10 :=
          Nat.ofDigitChars_ten_toDigits
        rw [hhead] at hvalue
        exact absurd hvalue (Nat.ne_of_lt hpos)

theorem isDigit_of_mem_toDigits_ten {n : Nat} {c : Char} (hc : c ∈ Nat.toDigits 10 n) :
    c.isDigit = true :=
  Nat.isDigit_of_mem_toDigits (by decide) (by decide) hc

/-- Decimal digits are a number of the grammar. -/
theorem isNumber_toDigits (n : Nat) : isNumber (Nat.toDigits 10 n) = true := by
  have hdigits : ∀ c ∈ Nat.toDigits 10 n, c.isDigit = true := fun _ => isDigit_of_mem_toDigits_ten
  have htake := List.takeWhile_eq_self_iff.2 hdigits
  have hdrop := List.dropWhile_eq_nil_iff.2 hdigits
  unfold isNumber
  split
  · next h => exact absurd (hdigits '-' (by simp [h])) (by decide)
  · unfold isUnsigned
    split
    · next h =>
      rw [eq_nil_of_toDigits_eq_zero_cons h]
      rfl
    · rw [htake, hdrop, isDigits, List.all_eq_true.2 hdigits]
      simp [Nat.toDigits_ne_nil, isFraction, isExponent]

/-- A number is read back from its digits. -/
@[simp]
theorem nat?_ofNat (n : Nat) : (ofNat n).nat? = some n := by
  have hdigits : (Nat.toDigits 10 n).all Char.isDigit = true :=
    List.all_eq_true.2 fun _ => isDigit_of_mem_toDigits_ten
  rw [ofNat, nat?, if_pos hdigits]
  exact congrArg some Nat.ofDigitChars_ten_toDigits

theorem natBelow?_ofNat {bound n : Nat} (h : n < bound) : (ofNat n).natBelow? bound = some n := by
  simp [natBelow?, h]

end Json

/-! ## Hexadecimal digits -/

namespace Bytes

theorem hexValue?_hexDigit (upper : Bool) {value : Nat} (h : value < 16) :
    hexValue? (hexDigit upper value) = some value := by
  revert value upper
  decide

/-- The case of a hexadecimal digit does not matter. -/
theorem hexValue?_toLower (c : Char) : hexValue? c.toLower = hexValue? c := by
  have hletters : ∀ i < 26,
      hexValue? (Char.ofNat (65 + i)).toLower = hexValue? (Char.ofNat (65 + i)) := by
    decide
  by_cases h : 65 ≤ c.toNat ∧ c.toNat ≤ 90
  · have hc := hletters (c.toNat - 65) (by omega)
    rwa [Nat.add_sub_of_le h.1, Char.ofNat_toNat] at hc
  · rw [Char.toLower, dif_neg]
    exact h

theorem ofHex?_nil : ofHex? [] = some [] := by
  simp [ofHex?]

theorem ofHex?_singleton (c : Char) : ofHex? [c] = none := by
  simp [ofHex?, slices_cons]

theorem ofHex?_cons_cons (high low : Char) (digits : List Char) :
    ofHex? (high :: low :: digits) = do
      let byte := UInt8.ofNat (16 * (← hexValue? high) + (← hexValue? low))
      return byte :: (← ofHex? digits) := by
  simp [ofHex?, slices_cons, Option.bind_assoc]

/-- Bytes are read back from their digits. -/
theorem ofHex?_toHex (upper : Bool) (bytes : Bytes) : ofHex? (toHex upper bytes) = some bytes := by
  induction bytes with
  | nil => exact ofHex?_nil
  | cons b bytes ih =>
    have hb := b.toNat_lt
    have hhigh : hexValue? (hexDigit upper (b.toNat / 16)) = some (b.toNat / 16) :=
      hexValue?_hexDigit upper (by omega)
    have hlow : hexValue? (hexDigit upper (b.toNat % 16)) = some (b.toNat % 16) :=
      hexValue?_hexDigit upper (by omega)
    have htoHex : toHex upper (b :: bytes) =
        hexDigit upper (b.toNat / 16) :: hexDigit upper (b.toNat % 16) :: toHex upper bytes := rfl
    have hbyte : UInt8.ofNat (16 * (b.toNat / 16) + b.toNat % 16) = b := by
      rw [Nat.div_add_mod, UInt8.ofNat_toNat]
    rw [htoHex, ofHex?_cons_cons, hhigh, hlow, ih]
    exact congrArg (fun byte => some (byte :: bytes)) hbyte

theorem ofHex?_map_toLower (digits : List Char) :
    ofHex? (digits.map Char.toLower) = ofHex? digits :=
  match digits with
  | [] => rfl
  | [c] => by rw [List.map_singleton, ofHex?_singleton, ofHex?_singleton]
  | high :: low :: digits => by
    rw [List.map_cons, List.map_cons, ofHex?_cons_cons, ofHex?_cons_cons, hexValue?_toLower,
      hexValue?_toLower, ofHex?_map_toLower digits]

theorem map_toLower_toHex (upper upper' : Bool) (bytes : Bytes) :
    (toHex upper bytes).map Char.toLower = (toHex upper' bytes).map Char.toLower := by
  have hdigit : ∀ upper upper', ∀ value < 16,
      (hexDigit upper value).toLower = (hexDigit upper' value).toLower := by decide
  induction bytes with
  | nil => rfl
  | cons b bytes ih =>
    have hb := b.toNat_lt
    have htoHex (upper : Bool) : (toHex upper (b :: bytes)).map Char.toLower =
        (hexDigit upper (b.toNat / 16)).toLower :: (hexDigit upper (b.toNat % 16)).toLower ::
          (toHex upper bytes).map Char.toLower := rfl
    rw [htoHex, htoHex, ih, hdigit upper upper' (b.toNat / 16) (by omega),
      hdigit upper upper' (b.toNat % 16) (by omega)]

theorem isSome_hexValue?_of_mem_toHex {upper : Bool} {bytes : Bytes} {c : Char}
    (hc : c ∈ toHex upper bytes) : (hexValue? c).isSome = true := by
  obtain ⟨b, -, hb⟩ := List.mem_flatMap.1 hc
  have hlt := b.toNat_lt
  rcases List.mem_pair.1 hb with rfl | rfl
  · rw [hexValue?_hexDigit upper (by omega), Option.isSome_some]
  · rw [hexValue?_hexDigit upper (by omega), Option.isSome_some]

end Bytes

end ObliviousTransfer
