import ObliviousTransfer.Json.Basic

/-!
# Parsing JSON

A parser of JSON texts by recursive descent. Blanks may stand between any two tokens. A value that
holds other values is parsed with fuel; the text is shorter behind every second call, so twice its
length is always enough, and `Json.parse?` shows no fuel.
-/

namespace ObliviousTransfer.Json

/-- The blanks of the grammar. -/
def isBlank (c : Char) : Bool :=
  c = ' ' || c = '\n' || c = '\t' || c = '\r'

/-- The text behind leading blanks. -/
def skipBlanks (text : List Char) : List Char :=
  text.dropWhile isBlank

/-- The UTF-16 unit named by the letter of a short escape. -/
def shortEscape? : Char → Option Nat
  | '"' => some 0x22
  | '\\' => some 0x5c
  | '/' => some 0x2f
  | 'b' => some 0x08
  | 'f' => some 0x0c
  | 'n' => some 0x0a
  | 'r' => some 0x0d
  | 't' => some 0x09
  | _ => none

/-- The value of four hexadecimal digits. -/
def hexUnit? (a b c d : Char) : Option Nat := do
  return Bytes.toNatBE (← Bytes.ofHex? [a, b, c, d])

/-- Reads a string up to its closing quote; `read` holds the elements before, the last one first. -/
def readString? : (text : List Char) → (read : JsonString) → Option (JsonString × List Char)
  | [], _ => none
  | '"' :: rest, read => some (read.reverse, rest)
  | '\\' :: 'u' :: a :: b :: c :: d :: rest, read =>
    match hexUnit? a b c d with
    | some value => readString? rest (.unit value :: read)
    | none => none
  | '\\' :: letter :: rest, read =>
    match shortEscape? letter with
    | some value => readString? rest (.unit value :: read)
    | none => none
  | '\\' :: [], _ => none
  | c :: rest, read => readString? rest (.char c :: read)

/-- Whether a text is one or more digits. -/
def isDigits (text : List Char) : Bool :=
  !text.isEmpty && text.all Char.isDigit

/-- Whether a text is nothing, or an exponent. -/
def isExponent : List Char → Bool
  | [] => true
  | e :: '+' :: digits => (e = 'e' || e = 'E') && isDigits digits
  | e :: '-' :: digits => (e = 'e' || e = 'E') && isDigits digits
  | e :: digits => (e = 'e' || e = 'E') && isDigits digits

/-- Whether a text is nothing, or a fraction, an exponent or both. -/
def isFraction : List Char → Bool
  | '.' :: rest =>
    isDigits (rest.takeWhile Char.isDigit) && isExponent (rest.dropWhile Char.isDigit)
  | rest => isExponent rest

/-- Whether a text is a number without a sign. -/
def isUnsigned : List Char → Bool
  | '0' :: rest => isFraction rest
  | text => isDigits (text.takeWhile Char.isDigit) && isFraction (text.dropWhile Char.isDigit)

/-- Whether a text is a number. -/
def isNumber : List Char → Bool
  | '-' :: rest => isUnsigned rest
  | text => isUnsigned text

/-- Whether a character may stand in a number. -/
def isNumberChar (c : Char) : Bool :=
  c.isDigit || c = '-' || c = '+' || c = '.' || c = 'e' || c = 'E'

/-- Reads a number. -/
def readNumber? (text : List Char) : Option (Json × List Char) :=
  let token := text.takeWhile isNumberChar
  if isNumber token then some (number token, text.dropWhile isNumberChar) else none

mutual

/-- Reads a value and the blanks before it. -/
def readValue? : (fuel : Nat) → List Char → Option (Json × List Char)
  | 0, _ => none
  | fuel + 1, text =>
    match skipBlanks text with
    | '"' :: rest => (readString? rest []).map fun (content, rest) => (string content, rest)
    | '[' :: rest =>
      match skipBlanks rest with
      | ']' :: rest => some (array [], rest)
      | rest => readItems? fuel rest []
    | '\x7b' :: rest =>
      match skipBlanks rest with
      | '\x7d' :: rest => some (object [], rest)
      | rest => readMembers? fuel rest []
    | 'n' :: 'u' :: 'l' :: 'l' :: rest => some (null, rest)
    | 't' :: 'r' :: 'u' :: 'e' :: rest => some (bool true, rest)
    | 'f' :: 'a' :: 'l' :: 's' :: 'e' :: rest => some (bool false, rest)
    | rest => readNumber? rest

/-- Reads the items of an array up to its closing bracket; `read` holds those before, the last one
first. -/
def readItems? : (fuel : Nat) → List Char → (read : List Json) → Option (Json × List Char)
  | 0, _, _ => none
  | fuel + 1, text, read =>
    match readValue? fuel text with
    | none => none
    | some (item, rest) =>
      match skipBlanks rest with
      | ',' :: rest => readItems? fuel rest (item :: read)
      | ']' :: rest => some (array (item :: read).reverse, rest)
      | _ => none

/-- Reads the members of an object up to its closing brace; `read` holds those before, the last one
first. -/
def readMembers? : (fuel : Nat) → List Char → (read : List (JsonString × Json)) →
    Option (Json × List Char)
  | 0, _, _ => none
  | fuel + 1, text, read =>
    match skipBlanks text with
    | '"' :: rest =>
      match readString? rest [] with
      | none => none
      | some (key, rest) =>
        match skipBlanks rest with
        | ':' :: rest =>
          match readValue? fuel rest with
          | none => none
          | some (item, rest) =>
            match skipBlanks rest with
            | ',' :: rest => readMembers? fuel rest ((key, item) :: read)
            | '\x7d' :: rest => some (object ((key, item) :: read).reverse, rest)
            | _ => none
        | _ => none
    | _ => none

end

/-- The value of a text that holds nothing else. -/
def parse? (text : List Char) : Option Json := do
  let (value, rest) ← readValue? (2 * text.length + 2) text
  if (skipBlanks rest).isEmpty then some value else none

end ObliviousTransfer.Json
