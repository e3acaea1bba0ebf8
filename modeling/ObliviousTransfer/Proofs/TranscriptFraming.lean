import Mathlib
import ObliviousTransfer.Transcript

/-!
# Framed strings and transcripts

A frame tells where a string ends. So a framed string can be cut off from the front of a longer
string in one way only (`Bytes.framed_append_inj`), and so can a list of framed strings whose number
is known (`Bytes.flatMap_framed_append_inj`). A list whose number is not known begins only those
that go on from it (`Bytes.flatMap_framed_isPrefix_iff`).

The parts of a write are framed, but nothing tells its format: behind the label stand eight bytes
that mean the length of a string in one format and the number of strings in the other.
`Transcript.absorbed_eq_iff` says which transcripts this confuses. They have a common beginning,
then a string in one of them and a list with as many parts as the string has bytes in the other,
both under the same label, and behind the number the same bytes. The shortest case is an empty
string and an empty list (`Write.encode_item_nil`).

Transcripts that use every label for one format only are never confused
(`Transcript.absorbed_injective_of_formats`). The protocols of this library are of this kind: `fork`
is the only label of lists.

## Shape of the proof

Two writes at the front of the same bytes have the same label and the same number behind it. In one
format they are equal and can be taken off (`Write.encode_append_inj_of_isList_eq`); the induction
over the writes goes on with what is left of both sequences.
-/

namespace ObliviousTransfer

/-- Entries that can be cut off from the front of what follows them: the code of one list begins
that of another one only if the list does. -/
theorem flatMap_isPrefix_iff {α β : Type} {code : α → List β} {proper : α → Prop}
    (hne : ∀ a, code a ≠ [])
    (hcut : ∀ {a b x y}, proper a → proper b → code a ++ x = code b ++ y → a = b ∧ x = y)
    {as bs : List α} (has : ∀ a ∈ as, proper a) (hbs : ∀ b ∈ bs, proper b) :
    as.flatMap code <+: bs.flatMap code ↔ as <+: bs := by
  refine ⟨fun h => ?_, fun h => h.flatMap code⟩
  induction as generalizing bs with
  | nil => exact List.nil_prefix
  | cons a as ih =>
    obtain ⟨behind, hbehind⟩ := h
    cases bs with
    | nil => exact absurd (List.append_eq_nil_iff.1 (List.append_eq_nil_iff.1 hbehind).1).1 (hne a)
    | cons b bs =>
      rw [List.forall_mem_cons] at has hbs
      rw [List.flatMap_cons, List.flatMap_cons, List.append_assoc] at hbehind
      obtain ⟨heq, hrest⟩ := hcut has.1 hbs.1 hbehind
      exact List.cons_prefix_cons.2 ⟨heq, ih has.2 hbs.2 ⟨behind, hrest⟩⟩

/-! ## Frames -/

namespace Bytes

@[simp]
theorem length_lengthField (n : Nat) : (lengthField n).length = 8 :=
  length_ofNatBE ..

/-- Numbers that fit into eight bytes are written differently. -/
theorem lengthField_injective {m n : Nat} (hm : m < sizeLimit) (hn : n < sizeLimit)
    (h : lengthField m = lengthField n) : m = n := by
  have hread (k : Nat) (hk : k < sizeLimit) : toNatBE (lengthField k) = k := by
    rw [lengthField, toNatBE_ofNatBE, BitVec.toNat_ofNat, Nat.mod_eq_of_lt hk]
  rw [← hread m hm, h, hread n hn]

theorem lengthField_append_inj {m n : Nat} {x y : Bytes} (hm : m < sizeLimit) (hn : n < sizeLimit)
    (h : lengthField m ++ x = lengthField n ++ y) : m = n ∧ x = y := by
  obtain ⟨hfield, hrest⟩ := List.append_inj h (by rw [length_lengthField, length_lengthField])
  exact ⟨lengthField_injective hm hn hfield, hrest⟩

/-- A framed string ends where its frame says. -/
theorem framed_append_inj {a b x y : Bytes} (ha : a.length < sizeLimit) (hb : b.length < sizeLimit)
    (h : a.framed ++ x = b.framed ++ y) : a = b ∧ x = y := by
  rw [framed, framed, List.append_assoc, List.append_assoc] at h
  obtain ⟨hlength, hrest⟩ := lengthField_append_inj ha hb h
  exact List.append_inj hrest hlength

theorem framed_ne_nil (bytes : Bytes) : bytes.framed ≠ [] := by
  intro h
  have hlength := congrArg List.length h
  rw [framed, List.length_append, length_lengthField, List.length_nil] at hlength
  omega

/-- If a list of framed strings begins another one, so do the strings. -/
theorem flatMap_framed_isPrefix_iff {ps qs : List Bytes} (hps : ∀ p ∈ ps, p.length < sizeLimit)
    (hqs : ∀ q ∈ qs, q.length < sizeLimit) :
    ps.flatMap framed <+: qs.flatMap framed ↔ ps <+: qs :=
  flatMap_isPrefix_iff framed_ne_nil framed_append_inj hps hqs

/-- A known number of framed strings ends with the last of them. -/
theorem flatMap_framed_append_inj {ps qs : List Bytes} {x y : Bytes}
    (hlength : ps.length = qs.length)
    (hps : ∀ p ∈ ps, p.length < sizeLimit) (hqs : ∀ q ∈ qs, q.length < sizeLimit)
    (h : ps.flatMap framed ++ x = qs.flatMap framed ++ y) : ps = qs ∧ x = y := by
  induction ps generalizing qs with
  | nil =>
    obtain rfl : qs = [] := List.length_eq_zero_iff.1 hlength.symm
    exact ⟨rfl, h⟩
  | cons p ps ih =>
    obtain ⟨q, qs, rfl⟩ := List.exists_cons_of_length_eq_add_one hlength.symm
    rw [List.forall_mem_cons] at hps hqs
    rw [List.flatMap_cons, List.flatMap_cons, List.append_assoc, List.append_assoc] at h
    obtain ⟨rfl, hrest⟩ := framed_append_inj hps.1 hqs.1 h
    obtain ⟨rfl, htails⟩ := ih (Nat.succ.inj hlength) hps.2 hqs.2 hrest
    exact ⟨rfl, htails⟩

/-- A frame alone takes eight bytes. -/
theorem le_length_flatMap_framed (ps : List Bytes) :
    8 * ps.length ≤ (ps.flatMap framed).length := by
  induction ps with
  | nil => exact Nat.le_refl _
  | cons p ps ih =>
    rw [List.flatMap_cons, List.length_append, framed, List.length_append, length_lengthField,
      List.length_cons]
    omega

end Bytes

/-! ## Writes -/

namespace Write

/-- What a write is labelled with. -/
def label : Write → Bytes
  | item label _ => label
  | items label _ => label

/-- Whether a write is a list of strings. -/
def isList : Write → Bool
  | item .. => false
  | items .. => true

/-- The number of bytes of the string, or the number of parts of the list. -/
def count : Write → Nat
  | item _ data => data.length
  | items _ parts => parts.length

/-- What follows the label and the number. -/
def content : Write → Bytes
  | item _ data => data
  | items _ parts => parts.flatMap Bytes.framed

/-- All numbers that are written with a write fit into eight bytes. -/
def Fits : Write → Prop
  | item label data => label.length < sizeLimit ∧ data.length < sizeLimit
  | items label parts => label.length < sizeLimit ∧ parts.length < sizeLimit ∧
      ∀ part ∈ parts, part.length < sizeLimit

instance (w : Write) : Decidable w.Fits :=
  match w with
  | item label data =>
    inferInstanceAs (Decidable (label.length < sizeLimit ∧ data.length < sizeLimit))
  | items label parts => inferInstanceAs (Decidable (label.length < sizeLimit ∧
      parts.length < sizeLimit ∧ ∀ part ∈ parts, part.length < sizeLimit))

theorem encode_eq (w : Write) :
    w.encode = w.label.framed ++ (Bytes.lengthField w.count ++ w.content) := by
  cases w with
  | item label data => rfl
  | items label parts => exact List.append_assoc ..

theorem encode_ne_nil (w : Write) : w.encode ≠ [] := by
  intro h
  rw [encode_eq] at h
  exact w.label.framed_ne_nil (List.append_eq_nil_iff.1 h).1

theorem Fits.label_lt {w : Write} (h : w.Fits) : w.label.length < sizeLimit := by
  cases w <;> exact h.1

theorem Fits.count_lt {w : Write} (h : w.Fits) : w.count < sizeLimit := by
  cases w with
  | item label data => exact h.2
  | items label parts => exact h.2.1

/-- Two writes at the front of the same bytes agree in label and number. -/
theorem encode_append_inj {v w : Write} (hv : v.Fits) (hw : w.Fits) {x y : Bytes}
    (h : v.encode ++ x = w.encode ++ y) :
    v.label = w.label ∧ v.count = w.count ∧ v.content ++ x = w.content ++ y := by
  rw [encode_eq, encode_eq, List.append_assoc, List.append_assoc, List.append_assoc,
    List.append_assoc] at h
  obtain ⟨hlabel, hrest⟩ := Bytes.framed_append_inj hv.label_lt hw.label_lt h
  obtain ⟨hcount, hcontent⟩ := Bytes.lengthField_append_inj hv.count_lt hw.count_lt hrest
  exact ⟨hlabel, hcount, hcontent⟩

/-- Two writes of one format at the front of the same bytes are equal. -/
theorem encode_append_inj_of_isList_eq {v w : Write} (hv : v.Fits) (hw : w.Fits)
    (hformat : v.isList = w.isList) {x y : Bytes} (h : v.encode ++ x = w.encode ++ y) :
    v = w ∧ x = y := by
  obtain ⟨hlabel, hcount, hcontent⟩ := encode_append_inj hv hw h
  cases v with
  | item label data =>
    cases w with
    | items _ _ => cases hformat
    | item label' data' =>
      obtain ⟨hdata, hrest⟩ := List.append_inj hcontent hcount
      exact ⟨congrArg₂ item hlabel hdata, hrest⟩
  | items label parts =>
    cases w with
    | item _ _ => cases hformat
    | items label' parts' =>
      obtain ⟨hparts, hrest⟩ := Bytes.flatMap_framed_append_inj hcount hv.2.2 hw.2.2 hcontent
      exact ⟨congrArg₂ items hlabel hparts, hrest⟩

/-- An empty string and an empty list are written alike. -/
theorem encode_item_nil (label : Bytes) : (item label []).encode = (items label []).encode := by
  rw [encode_eq, encode_eq]
  rfl

/-- These are the only two writes that are written alike: a list takes more bytes than it has
parts. -/
theorem encode_item_eq_encode_items_iff {label data label' : Bytes} {parts : List Bytes}
    (hv : (item label data).Fits) (hw : (items label' parts).Fits) :
    (item label data).encode = (items label' parts).encode ↔
      label = label' ∧ data = [] ∧ parts = [] := by
  constructor
  · intro h
    have happend : (item label data).encode ++ [] = (items label' parts).encode ++ [] := by rw [h]
    obtain ⟨hlabel, hcount, hcontent⟩ := encode_append_inj hv hw happend
    have hlength : data.length = (parts.flatMap Bytes.framed).length := by
      simpa [content] using congrArg List.length hcontent
    have hparts := Bytes.le_length_flatMap_framed parts
    have hempty : parts.length = 0 := by
      simp only [count] at hcount
      omega
    exact ⟨hlabel, List.length_eq_zero_iff.1 (hcount.trans hempty),
      List.length_eq_zero_iff.1 hempty⟩
  · rintro ⟨rfl, rfl, rfl⟩
    exact encode_item_nil label

end Write

/-! ## Transcripts -/

namespace Transcript

/-- All writes of the transcript fit. -/
def Fits (t : Transcript) : Prop :=
  ∀ w ∈ t.writes, w.Fits

instance (t : Transcript) : Decidable t.Fits :=
  inferInstanceAs (Decidable (∀ w ∈ t.writes, w.Fits))

/-- Behind a common beginning `s` goes on with a string and `t` with a list, under one label and
with one number behind it, and the bytes that follow are the same. -/
def Clashes (s t : Transcript) : Prop :=
  ∃ common label data parts behind behind',
    s.writes = common ++ .item label data :: behind ∧
    t.writes = common ++ .items label parts :: behind' ∧
    data.length = parts.length ∧
    data ++ behind.flatMap Write.encode = parts.flatMap Bytes.framed ++ behind'.flatMap Write.encode

theorem absorbed_eq_of_clashes {s t : Transcript} (h : s.Clashes t) : s.absorbed = t.absorbed := by
  obtain ⟨common, label, data, parts, behind, behind', hs, ht, hcount, hbehind⟩ := h
  have hencode (w : Write) (ws : List Write) : (common ++ w :: ws).flatMap Write.encode =
      common.flatMap Write.encode ++
        (w.label.framed ++
          (Bytes.lengthField w.count ++ (w.content ++ ws.flatMap Write.encode))) := by
    rw [List.flatMap_append, List.flatMap_cons, Write.encode_eq]
    simp only [List.append_assoc]
  rw [absorbed, absorbed, hs, ht, hencode, hencode]
  simp only [Write.label, Write.count, Write.content, hcount, hbehind]

theorem Clashes.cons {v w : List Write} (h : (mk v).Clashes ⟨w⟩) (a : Write) :
    (mk (a :: v)).Clashes ⟨a :: w⟩ := by
  obtain ⟨common, label, data, parts, behind, behind', hv, hw, hrest⟩ := h
  exact ⟨a :: common, label, data, parts, behind, behind', congrArg (a :: ·) hv,
    congrArg (a :: ·) hw, hrest⟩

/-- Two sequences that begin with different formats and are absorbed alike. -/
theorem clashes_of_formats_differ {v w : Write} (hv : v.Fits) (hw : w.Fits)
    (hformat : v.isList ≠ w.isList) {vs ws : List Write}
    (h : v.encode ++ vs.flatMap Write.encode = w.encode ++ ws.flatMap Write.encode) :
    (mk (v :: vs)).Clashes ⟨w :: ws⟩ ∨ (mk (w :: ws)).Clashes ⟨v :: vs⟩ := by
  obtain ⟨hlabel, hcount, hcontent⟩ := Write.encode_append_inj hv hw h
  cases v with
  | item label data =>
    cases w with
    | item _ _ => exact absurd rfl hformat
    | items label' parts =>
      obtain rfl : label = label' := hlabel
      exact .inl ⟨[], label, data, parts, vs, ws, rfl, rfl, hcount, hcontent⟩
  | items label parts =>
    cases w with
    | items _ _ => exact absurd rfl hformat
    | item label' data =>
      obtain rfl : label = label' := hlabel
      exact .inr ⟨[], label, data, parts, ws, vs, rfl, rfl, hcount.symm, hcontent.symm⟩

/-- Sequences of writes that are absorbed alike are equal up to the first write at which they
clash. -/
theorem eq_or_clashes {v w : List Write} (hv : (mk v).Fits) (hw : (mk w).Fits)
    (h : (mk v).absorbed = (mk w).absorbed) :
    v = w ∨ (mk v).Clashes ⟨w⟩ ∨ (mk w).Clashes ⟨v⟩ := by
  induction v generalizing w with
  | nil =>
    cases w with
    | nil => exact .inl rfl
    | cons b ws => exact absurd (List.append_eq_nil_iff.1 h.symm).1 b.encode_ne_nil
  | cons a vs ih =>
    cases w with
    | nil => exact absurd (List.append_eq_nil_iff.1 h).1 a.encode_ne_nil
    | cons b ws =>
      obtain ⟨ha, hvs⟩ := List.forall_mem_cons.1 hv
      obtain ⟨hb, hws⟩ := List.forall_mem_cons.1 hw
      by_cases hformat : a.isList = b.isList
      · obtain ⟨rfl, hrest⟩ := Write.encode_append_inj_of_isList_eq ha hb hformat h
        rcases ih hvs hws hrest with rfl | hclash | hclash
        · exact .inl rfl
        · exact .inr (.inl (hclash.cons a))
        · exact .inr (.inr (hclash.cons a))
      · exact .inr (clashes_of_formats_differ ha hb hformat h)

/-- Transcripts that use every label for one format only do not clash. -/
theorem not_clashes_of_formats {s t : Transcript} (format : Bytes → Bool)
    (hs : ∀ w ∈ s.writes, w.isList = format w.label)
    (ht : ∀ w ∈ t.writes, w.isList = format w.label) : ¬s.Clashes t := by
  rintro ⟨common, label, data, parts, behind, behind', hsWrites, htWrites, -⟩
  have hstring : false = format label := hs (.item label data) (by simp [hsWrites])
  have hlist : true = format label := ht (.items label parts) (by simp [htWrites])
  exact Bool.false_ne_true (hstring.trans hlist.symm)

/-- Such transcripts are absorbed alike only if they are equal. -/
theorem absorbed_injective_of_formats {s t : Transcript} (hsFits : s.Fits) (htFits : t.Fits)
    (format : Bytes → Bool) (hs : ∀ w ∈ s.writes, w.isList = format w.label)
    (ht : ∀ w ∈ t.writes, w.isList = format w.label) (h : s.absorbed = t.absorbed) : s = t := by
  rcases eq_or_clashes hsFits htFits h with heq | hclash | hclash
  · exact congrArg mk heq
  · exact absurd hclash (not_clashes_of_formats format hs ht)
  · exact absurd hclash (not_clashes_of_formats format ht hs)

/-- Two transcripts are absorbed alike exactly if they are equal or clash. -/
theorem absorbed_eq_iff {s t : Transcript} (hs : s.Fits) (ht : t.Fits) :
    s.absorbed = t.absorbed ↔ s = t ∨ s.Clashes t ∨ t.Clashes s := by
  constructor
  · intro h
    exact (eq_or_clashes hs ht h).imp_left (congrArg mk)
  · rintro (rfl | hclash | hclash)
    · rfl
    · exact absorbed_eq_of_clashes hclash
    · exact (absorbed_eq_of_clashes hclash).symm

/-- The same letters, divided into a label and a string in two ways. -/
theorem absorbed_ne_of_letters_divided_differently :
    let s := (new (Bytes.ofAscii "test")).append (Bytes.ofAscii "ab") (Bytes.ofAscii "c")
    let t := (new (Bytes.ofAscii "test")).append (Bytes.ofAscii "a") (Bytes.ofAscii "bc")
    s.Fits ∧ t.Fits ∧ s.absorbed ≠ t.absorbed := by
  intro s t
  have hs : s.Fits := by decide
  have ht : t.Fits := by decide
  have hsStrings : ∀ w ∈ s.writes, w.isList = false := by decide
  have htStrings : ∀ w ∈ t.writes, w.isList = false := by decide
  refine ⟨hs, ht, fun h => ?_⟩
  rcases (absorbed_eq_iff hs ht).1 h with heq | hclash | hclash
  · exact absurd heq (by decide)
  · exact not_clashes_of_formats (fun _ => false) hsStrings htStrings hclash
  · exact not_clashes_of_formats (fun _ => false) htStrings hsStrings hclash

/-- Under one label an empty string and an empty list leave the same bytes in the sponge. -/
theorem absorbed_append_nil_eq_appendAll_nil :
    let s := (new (Bytes.ofAscii "test")).append (Bytes.ofAscii "a") []
    let t := (new (Bytes.ofAscii "test")).appendAll (Bytes.ofAscii "a") []
    s.Fits ∧ t.Fits ∧ s ≠ t ∧ s.absorbed = t.absorbed := by
  decide

end Transcript

end ObliviousTransfer
