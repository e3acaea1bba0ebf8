import ObliviousTransfer.Json.Basic

/-!
# Printing JSON

The compact text of a JSON value: no blanks, members in their order. Quotes, backslashes and control
characters are escaped by their number.
-/

namespace ObliviousTransfer.Json

/-- The escape of a UTF-16 unit. -/
def printUnit (value : Nat) : List Char :=
  '\\' :: 'u' :: Bytes.toHex false (Bytes.ofNatBE 2 value)

/-- One element of a string. -/
def printItem : StringItem → List Char
  | .char c => if c = '"' ∨ c = '\\' ∨ c.toNat < 0x20 then printUnit c.toNat else [c]
  | .unit value => printUnit value

/-- A string with its quotes. -/
def printString (content : JsonString) : List Char :=
  '"' :: content.flatMap printItem ++ ['"']

/-- The compact text of a value. -/
def print : Json → List Char
  | null => "null".toList
  | bool value => (if value then "true" else "false").toList
  | number token => token
  | string content => printString content
  | array items => '[' :: List.intercalate [','] (items.map print) ++ [']']
  | object members =>
    '\x7b' :: List.intercalate [',']
      (members.map fun member => printString member.1 ++ ':' :: print member.2) ++ ['\x7d']
decreasing_by
  all_goals simp_wf
  · have := List.sizeOf_lt_of_mem ‹_›
    omega
  · have := List.sizeOf_lt_of_mem ‹member ∈ members›
    cases member
    simp only [Prod.mk.sizeOf_spec] at this ⊢
    omega

end ObliviousTransfer.Json
