import ObliviousTransfer.Bytes

/-!
# JSON values

A JSON value keeps what its text says: numbers are kept as they are written, and the characters of a
string are kept apart from its escapes, because the two are not always read alike.

* `JsonString.text?` is the usual reading. It refuses control characters that are not escaped, and
  escapes that are half of a surrogate pair.
* `JsonString.bytes` is the reading as a byte string in UTF-8, which refuses nothing; a lone half of
  a surrogate pair is written in three bytes.
* `Json.fields?` reads a record: an object with known keys in any order, or an array of the values.
-/

namespace ObliviousTransfer

/-- One element of a string between quotes. -/
inductive StringItem where
  /-- A character as it stands. -/
  | char (c : Char)
  /-- An escape, which names a UTF-16 unit. -/
  | unit (value : Nat)
deriving DecidableEq, Repr

/-- The content of a string between quotes. -/
abbrev JsonString := List StringItem

/-- A JSON value. -/
inductive Json where
  | null
  | bool (value : Bool)
  /-- A number as it is written. -/
  | number (token : List Char)
  | string (content : JsonString)
  | array (items : List Json)
  /-- The members in their order; keys may repeat. -/
  | object (members : List (JsonString × Json))

namespace JsonString

/-- Whether a UTF-16 unit opens a surrogate pair. -/
def isHighSurrogate (value : Nat) : Bool :=
  0xd800 ≤ value && value ≤ 0xdbff

/-- Whether a UTF-16 unit closes a surrogate pair. -/
def isLowSurrogate (value : Nat) : Bool :=
  0xdc00 ≤ value && value ≤ 0xdfff

/-- The code point of a surrogate pair. -/
def combine (high low : Nat) : Nat :=
  0x10000 + (high - 0xd800) * 0x400 + (low - 0xdc00)

/-- The code points of a string. Two escapes that form a surrogate pair are one code point; other
halves of pairs stay as they are. -/
def codePoints : JsonString → List Nat
  | [] => []
  | .char c :: rest => c.toNat :: codePoints rest
  | .unit high :: .unit low :: rest =>
    if isHighSurrogate high && isLowSurrogate low then combine high low :: codePoints rest
    else high :: codePoints (.unit low :: rest)
  | .unit value :: rest => value :: codePoints rest

/-- Whether an element is a control character that should have been escaped. -/
def isRawControl : StringItem → Bool
  | .char c => c.toNat < 0x20
  | .unit _ => false

/-- The text of a string. -/
def text? (content : JsonString) : Option (List Char) :=
  let points := codePoints content
  if content.any isRawControl ||
      points.any (fun p => isHighSurrogate p || isLowSurrogate p) then none
  else some (points.map Char.ofNat)

/-- The bytes of a code point in UTF-8, surrogates included. -/
def utf8 (point : Nat) : Bytes :=
  let continuation (shift : Nat) : UInt8 := UInt8.ofNat (0x80 + (point >>> shift) % 0x40)
  if point < 0x80 then [UInt8.ofNat point]
  else if point < 0x800 then [UInt8.ofNat (0xc0 + point >>> 6), continuation 0]
  else if point < 0x10000 then
    [UInt8.ofNat (0xe0 + point >>> 12), continuation 6, continuation 0]
  else [UInt8.ofNat (0xf0 + point >>> 18), continuation 12, continuation 6, continuation 0]

/-- The bytes of a string. -/
def bytes (content : JsonString) : Bytes :=
  (codePoints content).flatMap utf8

/-- The string of a text, nothing escaped. -/
def ofText (text : List Char) : JsonString :=
  text.map .char

end JsonString

namespace Json

/-- The number of a token of digits; a sign, a fraction or an exponent is refused. -/
def nat? : Json → Option Nat
  | number token =>
    if token.all Char.isDigit then some (token.foldl (fun n c => 10 * n + (c.toNat - 48)) 0)
    else none
  | _ => none

/-- The number of a token of digits below a bound. -/
def natBelow? (bound : Nat) (value : Json) : Option Nat := do
  let n ← value.nat?
  if n < bound then some n else none

/-- The items of an array. -/
def items? : Json → Option (List Json)
  | array items => some items
  | _ => none

/-- The items of an array of a given length. -/
def itemsOf? (count : Nat) (value : Json) : Option (List Json) := do
  let items ← value.items?
  if items.length = count then some items else none

/-- The text of a string. -/
def text? : Json → Option (List Char)
  | string content => content.text?
  | _ => none

/-- The JSON form of a number. -/
def ofNat (n : Nat) : Json :=
  number (Nat.toDigits 10 n)

/-- The JSON form of a text. -/
def ofText (text : List Char) : Json :=
  string (.ofText text)

mutual

/-- Whether no string in a value holds a control character that should have been escaped. -/
def isPlain : Json → Bool
  | null => true
  | bool _ => true
  | number _ => true
  | string content => !content.any JsonString.isRawControl
  | array items => itemsPlain items
  | object members => membersPlain members

/-- `isPlain` for all items of an array. -/
def itemsPlain : List Json → Bool
  | [] => true
  | item :: rest => isPlain item && itemsPlain rest

/-- `isPlain` for all members of an object, keys included. -/
def membersPlain : List (JsonString × Json) → Bool
  | [] => true
  | (key, item) :: rest =>
    !key.any JsonString.isRawControl && isPlain item && membersPlain rest

end

/-- The JSON form of a record. -/
def ofFields (names : List (List Char)) (values : List Json) : Json :=
  object ((names.map JsonString.ofText).zip values)

/-- The values of the fields of a record, in the order of `names`. In an object every name must be
the key of exactly one member, in any place; members with other keys are ignored, but they have to
be well formed. An array must hold exactly the values. -/
def fields? (names : List (List Char)) : Json → Option (List Json)
  | object members => do
    let members ← members.mapM fun (key, value) => return (← key.text?, value)
    if members.all fun (key, value) => names.contains key || value.isPlain then
      names.mapM fun name =>
        match members.filter (·.1 == name) with
        | [(_, value)] => some value
        | _ => none
    else none
  | array items => if items.length = names.length then some items else none
  | _ => none

end Json

end ObliviousTransfer
