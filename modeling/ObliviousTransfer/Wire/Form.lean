import ObliviousTransfer.BinaryPolynomial.Limbs
import ObliviousTransfer.Curve.Encoding
import ObliviousTransfer.Json.Basic

/-!
# Wire forms

A `Form` says how the values of a type are written and read, in two ways: as bytes, one value after
the other without names, and as JSON. The forms of messages are put together from the forms of their
parts by the combinators of this module, so that each message is described once.

In bytes, numbers are least significant byte first, except scalars and points; strings and lists
have their length in front, in eight bytes; what has a fixed size has no length. Reading stops
behind the value and returns the rest.
-/

namespace ObliviousTransfer.Wire

/-- Reads a value from the start of a string, and returns the rest. -/
abbrev Decoder (α : Type) := StateT Bytes Option α

namespace Decoder

variable {α : Type}

/-- The next `count` bytes, if there are so many. -/
def bytes (count : Nat) : Decoder Bytes := fun input =>
  let head := input.take count
  if head.length = count then some (head, input.drop count) else none

/-- The next `width` bytes as a number, least significant first. -/
def natLE (width : Nat) : Decoder Nat := do
  return Bytes.toNatLE (← bytes width)

/-- Reads `count` values; `read` holds those before, the last one first. -/
def timesOnto (decode : Decoder α) : (count : Nat) → (read : List α) → Decoder (List α)
  | 0, read => fun input => some (read.reverse, input)
  | count + 1, read => fun input =>
    match decode input with
    | none => none
    | some (value, rest) => timesOnto decode count (value :: read) rest

/-- Reads `count` values. -/
def times (count : Nat) (decode : Decoder α) : Decoder (List α) :=
  timesOnto decode count []

/-- A value that has to be there. -/
def require (value : Option α) : Decoder α :=
  liftM value

end Decoder

/-- How the values of a type are written and read. -/
structure Form (α : Type) where
  /-- The bytes of a value. -/
  encode : α → Bytes
  /-- Reads the bytes of a value. -/
  decode : Decoder α
  /-- The JSON form of a value. -/
  toJson : α → Json
  /-- Reads the JSON form of a value. -/
  ofJson? : Json → Option α

namespace Form

variable {α β : Type}

/-! ## Parts of fixed size -/

/-- The JSON form of bytes: an array of numbers. -/
def bytesJson (bytes : Bytes) : Json :=
  .array (bytes.map fun b => .ofNat b.toNat)

/-- Reads an item of an array as a byte. -/
def byteOfJson? (item : Json) : Option UInt8 := do
  return UInt8.ofNat (← item.natBelow? 256)

/-- The JSON form of bytes in hexadecimal digits. -/
def hexJson (bytes : Bytes) : Json :=
  .ofText (Bytes.toHex true bytes)

/-- Reads hexadecimal digits in either case. -/
def hexOfJson? (value : Json) : Option Bytes := do
  Bytes.ofHex? (← value.text?)

/-- A block: its 32 bytes; in JSON an array of them. -/
def block : Form Block where
  encode := Block.toBytes
  decode := do return Block.ofBytes (← Decoder.bytes 32)
  toJson b := bytesJson b.toBytes
  ofJson? value := do return Block.ofBytes (← (← value.itemsOf? 32).mapM byteOfJson?)

/-- Half a block: its sixteen bytes; in JSON one number. -/
def halfBlock : Form HalfBlock where
  encode h := Bytes.ofNatLE 16 h.toNat
  decode := do return HalfBlock.ofBytes (← Decoder.bytes 16)
  toJson h := .ofNat h.toNat
  ofJson? value := do return BitVec.ofNat 128 (← value.natBelow? (1 <<< 128))

/-- A word of 64 bits: its eight bytes; in JSON one number. -/
def word : Form UInt64 where
  encode w := Bytes.ofNatLE 8 w.toNat
  decode := do return UInt64.ofNat (← Decoder.natLE 8)
  toJson w := .ofNat w.toNat
  ofJson? value := do return UInt64.ofNat (← value.natBelow? (1 <<< 64))

/-- A scalar: 32 bytes, most significant first; in JSON their hexadecimal digits. Numbers that are
not below the group order are refused. -/
def scalar : Form Scalar where
  encode := Scalar.toBytes
  decode := do Decoder.require (Scalar.ofBytes? (← Decoder.bytes 32))
  toJson s := hexJson s.toBytes
  ofJson? value := do
    let bytes ← hexOfJson? value
    if bytes.length = 32 then Scalar.ofBytes? bytes else none

/-- A point: its form with the length in front; in JSON the hexadecimal digits of that form. -/
def point : Form Point where
  encode p := Bytes.ofNatLE 8 p.sec1.length ++ p.sec1
  decode := do
    let length ← Decoder.natLE 8
    Decoder.require (Point.ofSec1? (← Decoder.bytes length))
  toJson p := hexJson p.sec1
  ofJson? value := do Point.ofSec1? (← hexOfJson? value)

/-! ## Combinators -/

/-- A byte string: its length and its bytes; in JSON an array of numbers. A JSON string is read as
its bytes in UTF-8. -/
def bytes : Form Bytes where
  encode b := Bytes.ofNatLE 8 b.length ++ b
  decode := do Decoder.bytes (← Decoder.natLE 8)
  toJson := bytesJson
  ofJson?
    | .string content => some content.bytes
    | value => do (← value.items?).mapM byteOfJson?

/-- A list: its length and its entries; in JSON an array. -/
def list (form : Form α) : Form (List α) where
  encode entries := Bytes.ofNatLE 8 entries.length ++ entries.flatMap form.encode
  decode := do Decoder.times (← Decoder.natLE 8) form.decode
  toJson entries := .array (entries.map form.toJson)
  ofJson? value := do (← value.items?).mapM form.ofJson?

/-- A vector: its entries; in JSON an array of this length. -/
def vector (n : Nat) (form : Form α) : Form (Vector α n) where
  encode entries := entries.toList.flatMap form.encode
  decode := Vector.ofFnM fun _ => form.decode
  toJson entries := .array (entries.toList.map form.toJson)
  ofJson? value := do
    let entries ← (← value.itemsOf? n).mapM form.ofJson?
    if h : entries.length = n then some ⟨entries.toArray, by simpa using h⟩ else none

/-- A pair: one part after the other; in JSON an array of two. -/
def pair (first : Form α) (second : Form β) : Form (α × β) where
  encode p := first.encode p.1 ++ second.encode p.2
  decode := do
    let a ← first.decode
    let b ← second.decode
    return (a, b)
  toJson p := .array [first.toJson p.1, second.toJson p.2]
  ofJson? value := do
    match ← value.itemsOf? 2 with
    | [a, b] => return (← first.ofJson? a, ← second.ofJson? b)
    | _ => none

/-- The form of a type whose values are made from those of another one, and taken apart into
them. -/
def imap (form : Form α) (make : α → β) (parts : β → α) : Form β where
  encode b := form.encode (parts b)
  decode := make <$> form.decode
  toJson b := form.toJson (parts b)
  ofJson? value := (form.ofJson? value).map make

/-- A polynomial: its coefficients in four words. -/
def polynomial : Form BinaryPolynomial :=
  (vector 4 word).imap BinaryPolynomial.ofWords BinaryPolynomial.words

end Form

/-! ## Records -/

/-- The named fields of a record, with the forms of their values. -/
structure Fields (α : Type) where
  names : List (List Char)
  encode : α → Bytes
  decode : Decoder α
  toJson : α → List Json
  ofJson? : List Json → Option α

namespace Fields

variable {α β : Type}

/-- A record of one field. -/
def one (name : String) (form : Form α) : Fields α where
  names := [name.toList]
  encode := form.encode
  decode := form.decode
  toJson a := [form.toJson a]
  ofJson?
    | [a] => form.ofJson? a
    | _ => none

/-- A record with one more field at the start. -/
def cons (name : String) (form : Form α) (rest : Fields β) : Fields (α × β) where
  names := name.toList :: rest.names
  encode p := form.encode p.1 ++ rest.encode p.2
  decode := do
    let a ← form.decode
    let b ← rest.decode
    return (a, b)
  toJson p := form.toJson p.1 :: rest.toJson p.2
  ofJson?
    | a :: values => do return (← form.ofJson? a, ← rest.ofJson? values)
    | [] => none

end Fields

/-- The form of a record that is made from its fields and taken apart into them: the values one
after the other; in JSON an object. -/
def Form.record {α β : Type} (fields : Fields α) (make : α → β) (parts : β → α) : Form β where
  encode b := fields.encode (parts b)
  decode := make <$> fields.decode
  toJson b := .ofFields fields.names (fields.toJson (parts b))
  ofJson? value := do return make (← fields.ofJson? (← value.fields? fields.names))

end ObliviousTransfer.Wire
