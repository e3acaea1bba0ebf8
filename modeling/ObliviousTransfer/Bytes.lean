import ObliviousTransfer.Slices

/-!
# Byte strings

Byte strings and their readings as numbers, most or least significant byte first, the masking
operations of the protocols, and the hexadecimal notation.

`framed` writes the length of a string in front of it. Everything that enters a transcript or a
hash of several parts is framed, so that two different sequences of parts are never written alike.
-/

namespace ObliviousTransfer

/-- A string of bytes. -/
abbrev Bytes := List UInt8

namespace Bytes

/-- The `width` least significant bytes of `n`, least significant first. -/
def ofNatLE : (width : Nat) → (n : Nat) → Bytes
  | 0, _ => []
  | width + 1, n => UInt8.ofNat n :: ofNatLE width (n / 256)

/-- The `width` least significant bytes of `n`, most significant first. -/
def ofNatBE (width n : Nat) : Bytes :=
  (ofNatLE width n).reverse

/-- The number written by the bytes, least significant first. -/
def toNatLE (bytes : Bytes) : Nat :=
  bytes.foldr (fun b n => b.toNat + 256 * n) 0

/-- The number written by the bytes, most significant first. -/
def toNatBE (bytes : Bytes) : Nat :=
  bytes.foldl (fun n b => 256 * n + b.toNat) 0

@[simp]
theorem length_ofNatLE (width n : Nat) : (ofNatLE width n).length = width := by
  induction width generalizing n with
  | zero => rfl
  | succ width ih => simp [ofNatLE, ih]

@[simp]
theorem length_ofNatBE (width n : Nat) : (ofNatBE width n).length = width := by
  simp [ofNatBE]

@[simp]
theorem toNatLE_nil : toNatLE [] = 0 := rfl

@[simp]
theorem toNatLE_cons (b : UInt8) (bytes : Bytes) :
    toNatLE (b :: bytes) = b.toNat + 256 * toNatLE bytes := rfl

/-- Reading what was written gives the number back, less the bits that did not fit. -/
theorem toNatLE_ofNatLE (width n : Nat) :
    toNatLE (ofNatLE width n) = (BitVec.ofNat (8 * width) n).toNat := by
  induction width generalizing n with
  | zero => simp [ofNatLE, Nat.mod_one]
  | succ width ih =>
    have hb : (UInt8.ofNat n).toNat = n % 256 := by simp
    have hpow : 2 ^ (8 * (width + 1)) = 256 * 2 ^ (8 * width) := by
      rw [Nat.mul_add, Nat.pow_add, Nat.mul_comm]
    rw [ofNatLE, toNatLE_cons, ih, hb, BitVec.toNat_ofNat, BitVec.toNat_ofNat, hpow, Nat.mod_mul]

/-- The two readings differ by the order of the bytes only. -/
theorem toNatBE_eq_reverse (bytes : Bytes) : toNatBE bytes = toNatLE bytes.reverse := by
  rw [toNatBE, toNatLE, List.foldr_reverse]
  congr 1
  funext n b
  omega

theorem toNatBE_ofNatBE (width n : Nat) :
    toNatBE (ofNatBE width n) = (BitVec.ofNat (8 * width) n).toNat := by
  rw [toNatBE_eq_reverse, ofNatBE, List.reverse_reverse, toNatLE_ofNatLE]

/-- The 64-bit word written by at most eight bytes, least significant first. -/
def toWord64 (bytes : Bytes) : UInt64 :=
  bytes.foldr (fun b w => (w <<< 8) ||| b.toUInt64) 0

/-- The bytes of a text of ASCII characters. -/
def ofAscii (text : String) : Bytes :=
  text.toList.map fun c => UInt8.ofNat c.toNat

/-- A length, index or count: eight bytes, most significant first. -/
def lengthField (n : Nat) : Bytes :=
  ofNatBE 8 n

/-- The bytes with their number in front. -/
def framed (bytes : Bytes) : Bytes :=
  lengthField bytes.length ++ bytes

/-- `dest` with the bytes of `other` added to it bit by bit. The shorter length decides: the rest
of a longer `dest` stays as it is, the rest of a longer `other` is not used. -/
def xorInto (dest other : Bytes) : Bytes :=
  List.zipWith (· ^^^ ·) dest other ++ dest.drop other.length

/-- `xorInto dest other` when `choice` is set, and otherwise `dest`. -/
def xorIf (choice : Bool) (dest other : Bytes) : Bytes :=
  if choice then xorInto dest other else dest

/-- The second string when `choice` is set, and otherwise the first. -/
def select (choice : Bool) (a b : Bytes) : Bytes :=
  if choice then b else a

/-- Cuts the string to `length` bytes, or fills it up with zeros. -/
def resize (length : Nat) (bytes : Bytes) : Bytes :=
  bytes.take length ++ List.replicate (length - bytes.length) 0

/-! ## Hexadecimal notation -/

/-- The digit for a value below sixteen, upper case on request. -/
def hexDigit (upper : Bool) (value : Nat) : Char :=
  if value < 10 then Char.ofNat ('0'.toNat + value)
  else Char.ofNat ((if upper then 'A' else 'a').toNat + (value - 10))

/-- The value of a hexadecimal digit in either case. -/
def hexValue? (c : Char) : Option Nat :=
  if '0' ≤ c ∧ c ≤ '9' then some (c.toNat - '0'.toNat)
  else if 'a' ≤ c ∧ c ≤ 'f' then some (c.toNat - 'a'.toNat + 10)
  else if 'A' ≤ c ∧ c ≤ 'F' then some (c.toNat - 'A'.toNat + 10)
  else none

/-- Two digits for each byte. -/
def toHex (upper : Bool) (bytes : Bytes) : List Char :=
  bytes.flatMap fun b => [hexDigit upper (b.toNat / 16), hexDigit upper (b.toNat % 16)]

/-- The bytes written by pairs of digits in either case; an odd number of digits or any other
character is refused. -/
def ofHex? (digits : List Char) : Option Bytes :=
  (slices 2 digits).mapM fun
    | [high, low] => do return UInt8.ofNat (16 * (← hexValue? high) + (← hexValue? low))
    | _ => none

end Bytes

end ObliviousTransfer
