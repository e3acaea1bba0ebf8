import Mathlib
import ObliviousTransfer.Wire.Form
import ObliviousTransfer.Proofs.Digits
import ObliviousTransfer.Proofs.IndexedLists
import ObliviousTransfer.Proofs.JsonText

/-!
# Variants of JSON values

The order of the members of an object and the case of the letters in its hexadecimal strings say
nothing: `Variant` relates the values that differ by these alone. The readings of `Json` and of
`Wire.Form` do not tell variants apart. For bytes in hexadecimal digits this is `readsVariants_hex`.
For a record it is `fields?_object`: each name is the key of one member, wherever this stands.
-/

namespace ObliviousTransfer

/-! ## Variants -/

/-- An element of a string, with its letter in lower case. -/
def StringItem.lower : StringItem → StringItem
  | .char c => .char c.toLower
  | .unit value => .unit value

namespace Json

/-- The values differ by the order of the members of objects and by the case of letters in strings
that are not keys. -/
inductive Variant : Json → Json → Prop where
  | null : Variant null null
  | bool (value : Bool) : Variant (bool value) (bool value)
  | number (token : List Char) : Variant (number token) (number token)
  | string {content content' : JsonString}
    (hcase : content'.map StringItem.lower = content.map StringItem.lower) :
    Variant (string content) (string content')
  | array {items items' : List Json} (hitems : List.Forall₂ Variant items items') :
    Variant (array items) (array items')
  | object {members members' permuted : List (JsonString × Json)}
    (hkeys : members'.map Prod.fst = members.map Prod.fst)
    (hvalues : List.Forall₂ Variant (members.map Prod.snd) (members'.map Prod.snd))
    (hperm : permuted.Perm members') : Variant (object members) (object permuted)

/-- By recursion on the value, since the constructors have lists of variants as arguments. -/
theorem Variant.refl : (v : Json) → Variant v v
  | .null => .null
  | .bool value => .bool value
  | .number token => .number token
  | .string _ => .string rfl
  | .array items => .array (List.forall₂_same.2 fun item _ => Variant.refl item)
  | .object members => by
    refine .object rfl (List.forall₂_same.2 fun value hvalue => ?_) (.refl _)
    obtain ⟨member, hmember, rfl⟩ := List.mem_map.1 hvalue
    exact Variant.refl member.2
decreasing_by
  · have := List.sizeOf_lt_of_mem ‹item ∈ items›
    simp only [array.sizeOf_spec]
    omega
  · have := List.sizeOf_lt_of_mem ‹member ∈ members›
    have hmember : sizeOf member = 1 + sizeOf member.1 + sizeOf member.2 := rfl
    simp only [object.sizeOf_spec]
    omega

theorem variant_array {items : List Json} {w : Json} (h : Variant (array items) w) :
    ∃ items', w = array items' ∧ List.Forall₂ Variant items items' := by
  cases h with
  | array hitems => exact ⟨_, rfl, hitems⟩

variable {α β : Type}

/-- Every variant of a written value is printable, and the value is read from it. -/
def ReadsVariants (write : α → Json) (read? : Json → Option α) : Prop :=
  ∀ a w, Variant (write a) w → w.Printable ∧ read? w = some a

theorem ReadsVariants.items {write : α → Json} {read? : Json → Option α}
    (h : ReadsVariants write read?) {as : List α} {items : List Json}
    (hitems : List.Forall₂ Variant (as.map write) items) :
    (∀ item ∈ items, item.Printable) ∧ items.mapM read? = some as := by
  induction as generalizing items with
  | nil =>
    cases hitems
    exact ⟨nofun, rfl⟩
  | cons a as ih =>
    cases hitems with
    | cons hitem hitems =>
      obtain ⟨hprintable, hread⟩ := h _ _ hitem
      obtain ⟨hprintables, hreads⟩ := ih hitems
      refine ⟨List.forall_mem_cons.2 ⟨hprintable, hprintables⟩, ?_⟩
      rw [List.mapM_cons, hread, hreads]
      rfl

/-- A variant of an array of written values: as many items, from which the values are read. -/
theorem ReadsVariants.array {write : α → Json} {read? : Json → Option α}
    (h : ReadsVariants write read?) {as : List α} {w : Json}
    (hw : Variant (.array (as.map write)) w) :
    ∃ items, w = .array items ∧ items.length = as.length ∧ w.Printable ∧
      items.mapM read? = some as := by
  obtain ⟨items, rfl, hitems⟩ := variant_array hw
  obtain ⟨hprintable, hread⟩ := h.items hitems
  refine ⟨items, rfl, ?_, .array hprintable, hread⟩
  rw [← hitems.length_eq, List.length_map]

/-! ## Numbers -/

theorem printable_ofNat (n : Nat) : (ofNat n).Printable := by
  refine .number (isNumber_toDigits n) fun c hc => ?_
  rw [isNumberChar, isDigit_of_mem_toDigits_ten hc]
  rfl

/-- A number has no variants. -/
theorem readsVariants_ofNat {write : α → Nat} {read? : Json → Option α}
    (h : ∀ a, read? (ofNat (write a)) = some a) :
    ReadsVariants (fun a => ofNat (write a)) read? := by
  intro a w hw
  cases hw
  exact ⟨printable_ofNat (write a), h a⟩

theorem readsVariants_byte :
    ReadsVariants (fun b : UInt8 => ofNat b.toNat) Wire.Form.byteOfJson? := by
  refine readsVariants_ofNat fun b => ?_
  rw [Wire.Form.byteOfJson?, natBelow?_ofNat b.toNat_lt]
  exact congrArg some UInt8.ofNat_toNat

/-! ## Hexadecimal strings -/

theorem exists_text_of_map_lower_eq {content : JsonString} {text : List Char}
    (h : content.map StringItem.lower = (JsonString.ofText text).map StringItem.lower) :
    ∃ text', content = JsonString.ofText text' ∧
      text'.map Char.toLower = text.map Char.toLower := by
  induction content generalizing text with
  | nil =>
    cases text with
    | nil => exact ⟨[], rfl, rfl⟩
    | cons c text => cases h
  | cons item content ih =>
    cases text with
    | nil => cases h
    | cons c text =>
      obtain ⟨hitem, hcontent⟩ := List.cons.inj h
      obtain ⟨text', rfl, htext⟩ := ih hcontent
      cases item with
      | unit value => cases hitem
      | char c' =>
        refine ⟨c' :: text', rfl, ?_⟩
        rw [List.map_cons, List.map_cons, htext, StringItem.char.inj hitem]

/-- Hexadecimal digits stand for themselves between quotes. -/
theorem isLiteral_of_isSome_hexValue? {c : Char} (h : (Bytes.hexValue? c).isSome = true) :
    JsonString.IsLiteral c := by
  refine ⟨?_, ?_, ?_⟩
  · rintro rfl
    cases h
  · rintro rfl
    cases h
  · by_contra hcontrol
    have hnone : ∀ n < 0x20, Bytes.hexValue? (Char.ofNat n) = none := by decide
    rw [← Char.ofNat_toNat c, hnone _ (by omega)] at h
    cases h

/-- Bytes are read from their hexadecimal digits in any case. -/
theorem readsVariants_hex : ReadsVariants Wire.Form.hexJson Wire.Form.hexOfJson? := by
  intro bytes w hw
  cases hw with
  | @string _ content' hcase =>
    obtain ⟨text, rfl, htext⟩ := exists_text_of_map_lower_eq hcase
    -- A character that agrees with a digit in lower case is a digit itself.
    have hliteral : ∀ c ∈ text, JsonString.IsLiteral c := by
      intro c hc
      have hmem : c.toLower ∈ (Bytes.toHex true bytes).map Char.toLower :=
        htext ▸ List.mem_map_of_mem hc
      obtain ⟨d, hd, hdc⟩ := List.mem_map.1 hmem
      apply isLiteral_of_isSome_hexValue?
      rw [← Bytes.hexValue?_toLower, ← hdc, Bytes.hexValue?_toLower]
      exact Bytes.isSome_hexValue?_of_mem_toHex hd
    refine ⟨.string ⟨text, rfl, hliteral⟩, ?_⟩
    rw [Wire.Form.hexOfJson?, text?, JsonString.text?_ofText hliteral, some_bind_eq,
      ← Bytes.ofHex?_map_toLower, htext, Bytes.ofHex?_map_toLower, Bytes.ofHex?_toHex]

/-- The lower-case digits are a variant of the upper-case ones. -/
theorem variant_hexJson (bytes : Bytes) :
    Variant (Wire.Form.hexJson bytes) (ofText (Bytes.toHex false bytes)) := by
  have hmap (text : List Char) :
      (JsonString.ofText text).map StringItem.lower =
        JsonString.ofText (text.map Char.toLower) := by
    rw [JsonString.ofText, JsonString.ofText, List.map_map, List.map_map]
    rfl
  refine .string ?_
  rw [hmap, hmap, Bytes.map_toLower_toHex]

/-! ## Records -/

theorem itemsOf?_array {items : List Json} {count : Nat} (h : items.length = count) :
    (array items).itemsOf? count = some items := by
  rw [itemsOf?, items?, some_bind_eq, if_pos h]

/-- Whether the names of a record are different and need no escapes. -/
def areNames (names : List (List Char)) : Bool :=
  decide names.Nodup && names.all fun name => name.all fun c => decide (JsonString.IsLiteral c)

theorem nodup_and_literal_of_areNames {names : List (List Char)} (h : areNames names = true) :
    names.Nodup ∧ ∀ name ∈ names, ∀ c ∈ name, JsonString.IsLiteral c := by
  simpa [areNames] using h

/-- A name that is the key of one pair finds this pair. -/
theorem filter_key_eq_singleton {pairs : List (List Char × Json)}
    (hkeys : (pairs.map Prod.fst).Nodup) {pair : List Char × Json} (hpair : pair ∈ pairs) :
    pairs.filter (·.1 == pair.1) = [pair] := by
  induction pairs with
  | nil => cases hpair
  | cons first pairs ih =>
    obtain ⟨hfirst, hkeys⟩ := List.nodup_cons.1 hkeys
    rcases List.mem_cons.1 hpair with rfl | hpair
    · have hrest : pairs.filter (·.1 == pair.1) = [] := by
        refine List.filter_eq_nil_iff.2 fun other hother heq => ?_
        exact hfirst (List.mem_map.2 ⟨other, hother, beq_iff_eq.1 heq⟩)
      rw [List.filter_cons, if_pos (beq_self_eq_true _), hrest]
    · have hne : ¬ (first.1 == pair.1) = true := fun heq =>
        hfirst (beq_iff_eq.1 heq ▸ List.mem_map_of_mem hpair)
      rw [List.filter_cons, if_neg hne, ih hkeys hpair]

/-- Literal keys are read as their texts, in the order of the members. -/
theorem mapM_key_text? {pairs : List (List Char × Json)} {members : List (JsonString × Json)}
    (hliteral : ∀ pair ∈ pairs, ∀ c ∈ pair.1, JsonString.IsLiteral c)
    (hmembers : members.Perm (pairs.map (Prod.map JsonString.ofText id))) :
    ∃ found, members.mapM (fun (key, value) => do return (← key.text?, value)) = some found ∧
      found.Perm pairs := by
  let read (member : JsonString × Json) : List Char × Json := (member.1.text?.getD [], member.2)
  have hread : ∀ pair ∈ pairs, read (Prod.map JsonString.ofText id pair) = pair :=
    fun pair hpair => by
      simp [read, JsonString.text?_ofText (hliteral pair hpair)]
  refine ⟨members.map read, mapM_eq_some fun member hmember => ?_, ?_⟩
  · obtain ⟨pair, hpair, rfl⟩ := List.mem_map.1 (hmembers.mem_iff.1 hmember)
    simp [read, JsonString.text?_ofText (hliteral pair hpair)]
  · have hmap : (pairs.map (Prod.map JsonString.ofText id)).map read = pairs := by
      rw [List.map_map]
      exact (List.map_congr_left hread).trans (List.map_id pairs)
    exact hmap ▸ hmembers.map read

/-- A record finds the members with its names in any order. -/
theorem fields?_object {names : List (List Char)} {values : List Json}
    {members : List (JsonString × Json)}
    (hnames : areNames names = true) (hlength : values.length = names.length)
    (hmembers : members.Perm ((names.map JsonString.ofText).zip values)) :
    (object members).fields? names = some values := by
  obtain ⟨hnodup, hliteral⟩ := nodup_and_literal_of_areNames hnames
  have hfst : (names.zip values).map Prod.fst = names := List.map_fst_zip hlength.ge
  have hsnd : (names.zip values).map Prod.snd = values := List.map_snd_zip hlength.le
  have hmem : ∀ pair ∈ names.zip values, pair.1 ∈ names :=
    fun pair hpair => (List.of_mem_zip hpair).1
  rw [List.zip_map_left] at hmembers
  obtain ⟨found, hread, hfound⟩ :=
    mapM_key_text? (fun pair hpair => hliteral _ (hmem pair hpair)) hmembers
  have hknown : found.all (fun (key, value) => names.contains key || value.isPlain) = true := by
    refine List.all_eq_true.2 fun pair hpair => ?_
    simp [hmem pair (hfound.mem_iff.1 hpair)]
  -- The names differ, so each is the key of one member, and a single one has no other order.
  have hfilter : ∀ pair ∈ names.zip values, found.filter (·.1 == pair.1) = [pair] := by
    intro pair hpair
    rw [← List.perm_singleton, ← filter_key_eq_singleton (hfst.symm ▸ hnodup) hpair]
    exact hfound.filter _
  rw [fields?, hread, some_bind_eq, if_pos hknown]
  calc
    _ = ((names.zip values).map Prod.fst).mapM _ := congrArg (List.mapM _) hfst.symm
    _ = some ((names.zip values).map Prod.snd) := by
      rw [List.mapM_map]
      exact mapM_eq_some fun pair hpair => by simp [hfilter pair hpair]
    _ = some values := congrArg some hsnd

/-- The variants of a record. -/
theorem variant_ofFields_iff {names : List (List Char)} {values : List Json} {w : Json}
    (hlength : values.length = names.length) :
    Variant (ofFields names values) w ↔
      ∃ members values', w = object members ∧ List.Forall₂ Variant values values' ∧
        members.Perm ((names.map JsonString.ofText).zip values') := by
  have hkeysLength : values.length = (names.map JsonString.ofText).length := by
    rw [hlength, List.length_map]
  constructor
  · intro h
    cases h with
    | @object _ members' permuted hkeys hvalues hperm =>
      rw [List.map_fst_zip hkeysLength.ge] at hkeys
      rw [List.map_snd_zip hkeysLength.le] at hvalues
      exact ⟨permuted, members'.map Prod.snd, rfl, hvalues, List.zip_of_prod hkeys rfl ▸ hperm⟩
  · rintro ⟨members, values', rfl, hvalues, hperm⟩
    have hlength' := hvalues.length_eq.symm.trans hkeysLength
    refine .object ?_ ?_ hperm
    · rw [List.map_fst_zip hlength'.ge, List.map_fst_zip hkeysLength.ge]
    · rwa [List.map_snd_zip hlength'.le, List.map_snd_zip hkeysLength.le]

end Json

end ObliviousTransfer
