import ObliviousTransfer.Curve.Point

/-!
# Written points

A point other than infinity is written by the parity of its second coordinate and its first
coordinate: 33 bytes that begin with `02` or `03`. There are two conventions for the point at
infinity. Where the length is fixed it is 33 zero bytes (`compressed`), and where a length goes in
front it is the single byte `00` (`sec1`).

Reading takes more than is written: `05` stands for an even second coordinate, and with a length in
front a point may also be given by both coordinates behind `04`.
-/

namespace ObliviousTransfer.Point

/-- The bytes of a point in the form of fixed length. -/
def compressed : Point → Bytes
  | infinity => List.replicate 33 0
  | affine x y _ => (if y.isOdd then 0x03 else 0x02) :: x.toBytes

/-- The point with a given first coordinate and parity of the second. -/
def decompress? (x : Coordinate) (odd : Bool) : Option Point := do
  let root ← Coordinate.sqrt? (x * x * x + 7)
  ofCoordinates? x (if root.isOdd = odd then root else -root)

/-- The point of a tag and 32 bytes. -/
def ofTagged? (tag : UInt8) (bytes : Bytes) : Option Point := do
  let x ← Coordinate.ofBytes? bytes
  if tag = 0x02 ∨ tag = 0x05 then decompress? x false
  else if tag = 0x03 then decompress? x true
  else none

/-- Reads the form of fixed length. -/
def ofCompressed? (bytes : Bytes) : Option Point :=
  if bytes = List.replicate 33 0 then some infinity
  else
    match bytes with
    | tag :: rest => if rest.length = 32 then ofTagged? tag rest else none
    | [] => none

/-- The bytes of a point in the form that has its length in front. -/
def sec1 : Point → Bytes
  | infinity => [0x00]
  | p => compressed p

/-- Reads the form that has its length in front. -/
def ofSec1? : Bytes → Option Point
  | [0x00] => some infinity
  | tag :: rest =>
    if rest.length = 32 then ofTagged? tag rest
    else if tag = 0x04 ∧ rest.length = 64 then do
      let x ← Coordinate.ofBytes? (rest.take 32)
      let y ← Coordinate.ofBytes? (rest.drop 32)
      ofCoordinates? x y
    else none
  | [] => none

end ObliviousTransfer.Point
