import Mathlib
import ObliviousTransfer.Json.Parser
import ObliviousTransfer.Json.Printer

/-!
# The text of a JSON value is read back

What the printer writes, the parser reads as the same value (`parse?_print`), if the numbers of the
value are numbers of the grammar and nothing in its strings has to be escaped. The forms of this
library write only such values.

## Shape of the proof

A value is read from the front of its text, whatever follows, as long as that cannot be taken for
more of a number (`isReadBack_of_printable`). The proof is by induction on the value, with one lemma
for each kind of value. Inside an array or an object it is an induction on the items: the parser's
loop is stepped over an item and the comma behind it, and the fuel stays above twice the length of
the text up to the bracket.
-/

namespace ObliviousTransfer

/-! ## Strings -/

namespace JsonString

/-- A character that stands for itself between quotes. -/
def IsLiteral (c : Char) : Prop :=
  c ≠ '"' ∧ c ≠ '\\' ∧ 0x20 ≤ c.toNat

instance (c : Char) : Decidable (IsLiteral c) :=
  inferInstanceAs (Decidable (_ ∧ _ ∧ _))

/-- A string in which nothing is escaped and nothing has to be. -/
def IsLiteralText (content : JsonString) : Prop :=
  ∃ text : List Char, content = ofText text ∧ ∀ c ∈ text, IsLiteral c

theorem codePoints_ofText (text : List Char) : codePoints (ofText text) = text.map Char.toNat := by
  induction text with
  | nil => rfl
  | cons c text ih => exact congrArg (c.toNat :: ·) ih

/-- No character is half of a surrogate pair. -/
theorem not_isSurrogate_toNat (c : Char) :
    (isHighSurrogate c.toNat || isLowSurrogate c.toNat) = false := by
  have hvalid : c.toNat < 0xd800 ∨ 0xdfff < c.toNat ∧ c.toNat < 0x110000 := c.valid
  simp only [isHighSurrogate, isLowSurrogate, Bool.or_eq_false_iff, Bool.and_eq_false_iff,
    decide_eq_false_iff_not]
  omega

/-- The usual reading of a literal text is the text. -/
theorem text?_ofText {text : List Char} (htext : ∀ c ∈ text, IsLiteral c) :
    (ofText text).text? = some text := by
  have hcontrol : (ofText text).any isRawControl = false := by
    rw [List.any_eq_false]
    intro item hitem
    obtain ⟨c, hc, rfl⟩ := List.mem_map.1 hitem
    simpa [isRawControl] using (htext c hc).2.2
  have hsurrogate :
      (text.map Char.toNat).any (fun p => isHighSurrogate p || isLowSurrogate p) = false := by
    rw [List.any_eq_false]
    intro p hp
    obtain ⟨c, -, rfl⟩ := List.mem_map.1 hp
    rw [not_isSurrogate_toNat]
    exact Bool.false_ne_true
  have hmap : (text.map Char.toNat).map Char.ofNat = text := by
    rw [List.map_map]
    exact List.map_id'' Char.ofNat_toNat text
  rw [text?, codePoints_ofText, hcontrol, hsurrogate, hmap]
  rfl

end JsonString

namespace Json

open JsonString

theorem readString?_cons {c : Char} (hc : IsLiteral c) (text : List Char) (read : JsonString) :
    readString? (c :: text) read = readString? text (.char c :: read) := by
  obtain ⟨hquote, hbackslash, -⟩ := hc
  rw [readString?.eq_def]
  split
  · next h => cases h
  · next h => exact absurd (List.cons.inj h).1 hquote
  · next h => exact absurd (List.cons.inj h).1 hbackslash
  · next h => exact absurd (List.cons.inj h).1 hbackslash
  · next h => exact absurd (List.cons.inj h).1 hbackslash
  · next h =>
    obtain ⟨rfl, rfl⟩ := List.cons.inj h
    rfl

theorem printItem_char {c : Char} (hc : IsLiteral c) : printItem (.char c) = [c] := by
  obtain ⟨hquote, hbackslash, hcontrol⟩ := hc
  simp [printItem, hquote, hbackslash, hcontrol]

/-- A literal text is read up to its closing quote. -/
theorem readString?_flatMap_printItem {text : List Char} (htext : ∀ c ∈ text, IsLiteral c)
    (read : JsonString) (rest : List Char) :
    readString? ((JsonString.ofText text).flatMap printItem ++ '"' :: rest) read =
      some (read.reverse ++ JsonString.ofText text, rest) := by
  induction text generalizing read with
  | nil => simp [JsonString.ofText, readString?]
  | cons c text ih =>
    obtain ⟨hc, htext⟩ := List.forall_mem_cons.1 htext
    rw [JsonString.ofText, List.map_cons, List.flatMap_cons, printItem_char hc]
    exact (readString?_cons hc ..).trans ((ih htext _).trans (by simp [JsonString.ofText]))

/-- A string behind its opening quote. -/
theorem readString?_printString {content : JsonString} (hcontent : IsLiteralText content)
    (rest : List Char) : ∃ text, printString content ++ rest = '"' :: text ∧
      readString? text [] = some (content, rest) := by
  obtain ⟨text, rfl, htext⟩ := hcontent
  refine ⟨(JsonString.ofText text).flatMap printItem ++ '"' :: rest, ?_, ?_⟩
  · simp [printString]
  · exact readString?_flatMap_printItem htext [] rest

/-! ## Numbers -/

/-- What follows cannot be taken for more of a number. -/
def Ends (rest : List Char) : Prop :=
  ∀ c ∈ rest.head?, isNumberChar c = false

theorem readNumber?_append {token rest : List Char} (hnumber : isNumber token = true)
    (htoken : ∀ c ∈ token, isNumberChar c = true) (hrest : Ends rest) :
    readNumber? (token ++ rest) = some (number token, rest) := by
  have hnone : rest.takeWhile isNumberChar = [] ∧ rest.dropWhile isNumberChar = rest := by
    cases rest with
    | nil => exact ⟨rfl, rfl⟩
    | cons c rest =>
      have hc : isNumberChar c = false := hrest c rfl
      simp [hc]
  have htake : (token ++ rest).takeWhile isNumberChar = token := by
    rw [List.takeWhile_append_of_pos htoken, hnone.1, List.append_nil]
  have hdrop : (token ++ rest).dropWhile isNumberChar = rest := by
    rw [List.dropWhile_append_of_pos htoken, hnone.2]
  simp only [readNumber?, htake, hdrop, hnumber, if_true]

theorem isBlank_of_isNumberChar {c : Char} (hc : isNumberChar c = true) : isBlank c = false := by
  by_contra hblank
  simp only [isBlank, Bool.not_eq_false, Bool.or_eq_true, decide_eq_true_eq] at hblank
  obtain ((rfl | rfl) | rfl) | rfl := hblank <;> cases hc

/-! ## Values -/

/-- A value whose text is read back: its numbers are numbers of the grammar, and its strings and
keys are literal. -/
inductive Printable : Json → Prop where
  | null : Printable null
  | bool (value : Bool) : Printable (bool value)
  | number {token : List Char} (hnumber : isNumber token = true)
    (htoken : ∀ c ∈ token, isNumberChar c = true) : Printable (number token)
  | string {content : JsonString} (hcontent : IsLiteralText content) : Printable (string content)
  | array {items : List Json} (hitems : ∀ item ∈ items, Printable item) : Printable (array items)
  | object {members : List (JsonString × Json)} (hkeys : ∀ member ∈ members, IsLiteralText member.1)
    (hvalues : ∀ member ∈ members, Printable member.2) : Printable (object members)

/-- The text of a value begins neither with a blank nor with a closing bracket. -/
theorem exists_print_eq_cons {v : Json} (hv : v.Printable) :
    ∃ c text, v.print = c :: text ∧ isBlank c = false ∧ c ≠ ']' := by
  cases hv with
  | null => exact ⟨'n', _, by rw [print]; rfl, rfl, by decide⟩
  | bool value =>
    cases value with
    | false => exact ⟨'f', _, by rw [print]; rfl, rfl, by decide⟩
    | true => exact ⟨'t', _, by rw [print]; rfl, rfl, by decide⟩
  | @number token hnumber htoken =>
    cases token with
    | nil => cases hnumber
    | cons c token =>
      have hc := (List.forall_mem_cons.1 htoken).1
      refine ⟨c, token, by rw [print], ?_, ?_⟩
      · exact isBlank_of_isNumberChar hc
      · rintro rfl
        cases hc
  | string hcontent => exact ⟨'"', _, by rw [print, printString]; rfl, rfl, by decide⟩
  | array hitems => exact ⟨'[', _, by rw [print]; rfl, rfl, by decide⟩
  | object hkeys hvalues => exact ⟨'\x7b', _, by rw [print]; rfl, rfl, by decide⟩

theorem skipBlanks_print {v : Json} (hv : v.Printable) (rest : List Char) :
    skipBlanks (v.print ++ rest) = v.print ++ rest := by
  obtain ⟨c, text, hprint, hblank, -⟩ := exists_print_eq_cons hv
  rw [hprint, List.cons_append, skipBlanks, List.dropWhile_cons_of_neg (by simp [hblank])]

/-- The value is read from the front of its text, given fuel for twice its length. -/
def IsReadBack (v : Json) : Prop :=
  ∀ fuel rest, 2 * v.print.length ≤ fuel → Ends rest →
    readValue? fuel (v.print ++ rest) = some (v, rest)

theorem isReadBack_number {token : List Char} (hnumber : isNumber token = true)
    (htoken : ∀ c ∈ token, isNumberChar c = true) : (number token).IsReadBack := by
  intro fuel rest hfuel hrest
  have hprint : (number token).print = token := by rw [print]
  have hskip := skipBlanks_print (.number hnumber htoken) rest
  rw [hprint] at hfuel hskip ⊢
  obtain ⟨c, text, rfl⟩ : ∃ c text, token = c :: text := by
    cases token with
    | nil => cases hnumber
    | cons c text => exact ⟨c, text, rfl⟩
  have hc := (List.forall_mem_cons.1 htoken).1
  obtain ⟨fuel, rfl⟩ : ∃ k, fuel = k + 1 := ⟨fuel - 1, by rw [List.length_cons] at hfuel; omega⟩
  rw [readValue?, hskip, List.cons_append]
  -- No other value begins with a character of a number.
  split
  case h_7 => exact readNumber?_append hnumber htoken hrest
  all_goals
    next h =>
      rw [(List.cons.inj h).1] at hc
      cases hc

theorem isReadBack_string {content : JsonString} (hcontent : IsLiteralText content) :
    (string content).IsReadBack := by
  intro fuel rest hfuel _
  have hprint : (string content).print = printString content := by rw [print]
  rw [hprint] at hfuel ⊢
  obtain ⟨text, htext, hread⟩ := readString?_printString hcontent rest
  have hpos : 0 < (printString content).length := by simp [printString]
  obtain ⟨fuel, rfl⟩ : ∃ k, fuel = k + 1 := ⟨fuel - 1, by omega⟩
  rw [htext, readValue?]
  simp [skipBlanks, isBlank, hread]

/-! ## Arrays and objects -/

theorem intercalate_comma_cons_cons (part next : List Char) (parts : List (List Char)) :
    List.intercalate [','] (part :: next :: parts) =
      part ++ ',' :: List.intercalate [','] (next :: parts) := by
  simp [List.intercalate]

theorem intercalate_comma_singleton (part : List Char) : List.intercalate [','] [part] = part := by
  simp [List.intercalate]

theorem exists_intercalate_comma_cons (part : List Char) (parts : List (List Char)) :
    ∃ others, List.intercalate [','] (part :: parts) = part ++ others := by
  cases parts with
  | nil => exact ⟨[], by rw [intercalate_comma_singleton, List.append_nil]⟩
  | cons next parts => exact ⟨_, intercalate_comma_cons_cons part next parts⟩

theorem ends_of_not_isNumberChar {c : Char} (hc : isNumberChar c = false) (rest : List Char) :
    Ends (c :: rest) := by
  rintro d hd
  obtain rfl : c = d := by simpa using hd
  exact hc

theorem skipBlanks_of_not_isBlank {c : Char} (hc : isBlank c = false) (rest : List Char) :
    skipBlanks (c :: rest) = c :: rest := by
  rw [skipBlanks, List.dropWhile_cons_of_neg (by simp [hc])]

theorem readItems?_comma {fuel : Nat} {text rest : List Char} {item : Json}
    (h : readValue? fuel text = some (item, ',' :: rest)) (read : List Json) :
    readItems? (fuel + 1) text read = readItems? fuel rest (item :: read) := by
  simp only [readItems?, h, skipBlanks_of_not_isBlank (c := ',') rfl]

theorem readItems?_bracket {fuel : Nat} {text rest : List Char} {item : Json}
    (h : readValue? fuel text = some (item, ']' :: rest)) (read : List Json) :
    readItems? (fuel + 1) text read = some (array (item :: read).reverse, rest) := by
  simp only [readItems?, h, skipBlanks_of_not_isBlank (c := ']') rfl]

/-- The items of an array are read up to its closing bracket. -/
theorem readItems?_intercalate {item : Json} {items : List Json} (hitem : item.IsReadBack)
    (hitems : ∀ next ∈ items, next.IsReadBack) (read : List Json) (fuel : Nat) (rest : List Char)
    (hfuel : 2 * (List.intercalate [','] ((item :: items).map print)).length + 1 ≤ fuel) :
    readItems? fuel (List.intercalate [','] ((item :: items).map print) ++ ']' :: rest) read =
      some (array (read.reverse ++ item :: items), rest) := by
  obtain ⟨fuel, rfl⟩ : ∃ k, fuel = k + 1 := ⟨fuel - 1, by omega⟩
  induction items generalizing item read fuel with
  | nil =>
    rw [List.map_cons, List.map_nil, intercalate_comma_singleton] at hfuel ⊢
    have hread := hitem fuel (']' :: rest) (by omega) (ends_of_not_isNumberChar rfl rest)
    rw [readItems?_bracket hread, List.reverse_cons]
  | cons next items ih =>
    obtain ⟨hnext, hitems⟩ := List.forall_mem_cons.1 hitems
    rw [List.map_cons, List.map_cons, intercalate_comma_cons_cons, ← List.map_cons] at hfuel ⊢
    rw [List.length_append, List.length_cons] at hfuel
    have hread := hitem fuel _ (by omega) (ends_of_not_isNumberChar (c := ',') rfl
      (List.intercalate [','] ((next :: items).map print) ++ ']' :: rest))
    -- The comma alone pays for the call of the loop that reads the next item.
    obtain ⟨fuel, rfl⟩ : ∃ k, fuel = k + 1 := ⟨fuel - 1, by omega⟩
    rw [List.append_assoc, List.cons_append, readItems?_comma hread,
      ih hnext hitems (item :: read) fuel (by omega)]
    simp

/-- The text of a member of an object. -/
def printMember (member : JsonString × Json) : List Char :=
  printString member.1 ++ ':' :: member.2.print

theorem readMembers?_comma {fuel : Nat} {key : JsonString} (hkey : IsLiteralText key)
    {text rest : List Char} {value : Json} (h : readValue? fuel text = some (value, ',' :: rest))
    (read : List (JsonString × Json)) :
    readMembers? (fuel + 1) (printString key ++ ':' :: text) read =
      readMembers? fuel rest ((key, value) :: read) := by
  obtain ⟨inside, htext, hread⟩ := readString?_printString hkey (':' :: text)
  rw [readMembers?, htext, skipBlanks_of_not_isBlank rfl]
  simp only [hread, skipBlanks_of_not_isBlank (c := ':') rfl, h,
    skipBlanks_of_not_isBlank (c := ',') rfl]

theorem readMembers?_brace {fuel : Nat} {key : JsonString} (hkey : IsLiteralText key)
    {text rest : List Char} {value : Json} (h : readValue? fuel text = some (value, '\x7d' :: rest))
    (read : List (JsonString × Json)) :
    readMembers? (fuel + 1) (printString key ++ ':' :: text) read =
      some (object ((key, value) :: read).reverse, rest) := by
  obtain ⟨inside, htext, hread⟩ := readString?_printString hkey (':' :: text)
  rw [readMembers?, htext, skipBlanks_of_not_isBlank rfl]
  simp only [hread, skipBlanks_of_not_isBlank (c := ':') rfl, h,
    skipBlanks_of_not_isBlank (c := '\x7d') rfl]

/-- The members of an object are read up to its closing brace. -/
theorem readMembers?_intercalate {member : JsonString × Json} {members : List (JsonString × Json)}
    (hkey : IsLiteralText member.1) (hvalue : member.2.IsReadBack)
    (hmembers : ∀ next ∈ members, IsLiteralText next.1 ∧ next.2.IsReadBack)
    (read : List (JsonString × Json)) (fuel : Nat) (rest : List Char)
    (hfuel : 2 * (List.intercalate [','] ((member :: members).map printMember)).length + 1 ≤ fuel) :
    readMembers? fuel
        (List.intercalate [','] ((member :: members).map printMember) ++ '\x7d' :: rest) read =
      some (object (read.reverse ++ member :: members), rest) := by
  obtain ⟨fuel, rfl⟩ : ∃ k, fuel = k + 1 := ⟨fuel - 1, by omega⟩
  induction members generalizing member read fuel with
  | nil =>
    rw [List.map_cons, List.map_nil, intercalate_comma_singleton, printMember] at hfuel ⊢
    rw [List.length_append, List.length_cons] at hfuel
    have hread := hvalue fuel ('\x7d' :: rest) (by omega) (ends_of_not_isNumberChar rfl rest)
    rw [List.append_assoc, List.cons_append, readMembers?_brace hkey hread, List.reverse_cons]
  | cons next members ih =>
    obtain ⟨⟨hnextKey, hnextValue⟩, hmembers⟩ := List.forall_mem_cons.1 hmembers
    rw [List.map_cons, List.map_cons, intercalate_comma_cons_cons, ← List.map_cons,
      printMember] at hfuel ⊢
    rw [List.length_append, List.length_append, List.length_cons, List.length_cons] at hfuel
    have hread := hvalue fuel _ (by omega) (ends_of_not_isNumberChar (c := ',') rfl
      (List.intercalate [','] ((next :: members).map printMember) ++ '\x7d' :: rest))
    obtain ⟨fuel, rfl⟩ : ∃ k, fuel = k + 1 := ⟨fuel - 1, by omega⟩
    rw [List.append_assoc, List.append_assoc, List.cons_append, List.cons_append,
      readMembers?_comma hkey hread,
      ih hnextKey hnextValue hmembers (member :: read) fuel (by omega)]
    simp

theorem readValue?_bracket {c : Char} (hblank : isBlank c = false) (hc : c ≠ ']') (fuel : Nat)
    (text : List Char) :
    readValue? (fuel + 1) ('[' :: c :: text) = readItems? fuel (c :: text) [] := by
  simp only [readValue?, skipBlanks_of_not_isBlank (c := '[') rfl, skipBlanks_of_not_isBlank hblank]
  split
  · next h => exact absurd (List.cons.inj h).1 hc
  · rfl

theorem readValue?_brace {c : Char} (hblank : isBlank c = false) (hc : c ≠ '\x7d') (fuel : Nat)
    (text : List Char) :
    readValue? (fuel + 1) ('\x7b' :: c :: text) = readMembers? fuel (c :: text) [] := by
  simp only [readValue?, skipBlanks_of_not_isBlank (c := '\x7b') rfl,
    skipBlanks_of_not_isBlank hblank]
  split
  · next h => exact absurd (List.cons.inj h).1 hc
  · rfl

theorem isReadBack_array {items : List Json} (hprintable : ∀ item ∈ items, item.Printable)
    (hitems : ∀ item ∈ items, item.IsReadBack) : (array items).IsReadBack := by
  intro fuel rest hfuel _
  have hprint : (array items).print = '[' :: List.intercalate [','] (items.map print) ++ [']'] := by
    rw [print]
  rw [hprint] at hfuel ⊢
  simp only [List.length_append, List.length_cons, List.length_nil] at hfuel
  obtain ⟨fuel, rfl⟩ : ∃ k, fuel = k + 1 := ⟨fuel - 1, by omega⟩
  rw [List.cons_append, List.cons_append, List.append_assoc, List.singleton_append]
  cases items with
  | nil => rfl
  | cons item items =>
    obtain ⟨hitem, hnext⟩ := List.forall_mem_cons.1 hitems
    have hread := readItems?_intercalate hitem hnext [] fuel rest (by omega)
    -- The text behind the bracket begins as the first item does.
    obtain ⟨c, text, hfirst, hblank, hc⟩ := exists_print_eq_cons (hprintable item (by simp))
    obtain ⟨others, hothers⟩ := exists_intercalate_comma_cons item.print (items.map print)
    rw [List.map_cons, hothers, hfirst, List.cons_append, List.cons_append] at hread ⊢
    rw [readValue?_bracket hblank hc, hread]
    rfl

theorem isReadBack_object {members : List (JsonString × Json)}
    (hkeys : ∀ member ∈ members, IsLiteralText member.1)
    (hvalues : ∀ member ∈ members, member.2.IsReadBack) : (object members).IsReadBack := by
  intro fuel rest hfuel _
  have hprint : (object members).print =
      '\x7b' :: List.intercalate [','] (members.map printMember) ++ ['\x7d'] := by
    rw [print]
    rfl
  rw [hprint] at hfuel ⊢
  simp only [List.length_append, List.length_cons, List.length_nil] at hfuel
  obtain ⟨fuel, rfl⟩ : ∃ k, fuel = k + 1 := ⟨fuel - 1, by omega⟩
  rw [List.cons_append, List.cons_append, List.append_assoc, List.singleton_append]
  cases members with
  | nil => rfl
  | cons member members =>
    have hnext : ∀ next ∈ members, IsLiteralText next.1 ∧ next.2.IsReadBack := fun next hnext =>
      ⟨hkeys next (List.mem_cons_of_mem _ hnext), hvalues next (List.mem_cons_of_mem _ hnext)⟩
    have hread := readMembers?_intercalate (hkeys member (by simp)) (hvalues member (by simp)) hnext
      [] fuel rest (by omega)
    -- The text behind the brace begins with the quote of the first key.
    obtain ⟨others, hothers⟩ :=
      exists_intercalate_comma_cons (printMember member) (members.map printMember)
    rw [List.map_cons, hothers, printMember, printString, List.cons_append, List.cons_append,
      List.cons_append, List.cons_append] at hread ⊢
    rw [readValue?_brace rfl (by decide), hread]
    rfl

/-- A printable value is read from the front of its text. -/
theorem isReadBack_of_printable {v : Json} (hv : v.Printable) : v.IsReadBack := by
  induction hv with
  | null =>
    intro fuel rest hfuel _
    rw [print] at hfuel ⊢
    obtain ⟨fuel, rfl⟩ : ∃ k, fuel = k + 1 := ⟨fuel - 1, by simp at hfuel; omega⟩
    rfl
  | bool value =>
    intro fuel rest hfuel _
    rw [print] at hfuel ⊢
    cases value with
    | false =>
      obtain ⟨fuel, rfl⟩ : ∃ k, fuel = k + 1 := ⟨fuel - 1, by simp at hfuel; omega⟩
      rfl
    | true =>
      obtain ⟨fuel, rfl⟩ : ∃ k, fuel = k + 1 := ⟨fuel - 1, by simp at hfuel; omega⟩
      rfl
  | number hnumber htoken => exact isReadBack_number hnumber htoken
  | string hcontent => exact isReadBack_string hcontent
  | array hitems ih => exact isReadBack_array hitems ih
  | object hkeys _ ih => exact isReadBack_object hkeys ih

/-- What is printed is read back. -/
theorem parse?_print {v : Json} (hv : v.Printable) : parse? v.print = some v := by
  have hread := isReadBack_of_printable hv (2 * v.print.length + 2) [] (by omega) (by simp [Ends])
  rw [List.append_nil] at hread
  rw [parse?, hread]
  rfl

end Json

end ObliviousTransfer
