import ObliviousTransfer.Block
import ObliviousTransfer.Error
import ObliviousTransfer.Parameters
import ObliviousTransfer.Pool

/-!
# Transposing a bit matrix

The extension computes 256 long rows, one for each base transfer, and needs them by columns: one
block of 256 bits for each item of the batch. `transposeBits` works on squares of eight by eight
bits. A square is held in one word of 64 bits, row after row, and is transposed by three exchanges
of bits that lie 7, 14 and 28 places apart.
-/

namespace ObliviousTransfer.BitMatrix

/-- Exchanges the bits of `x` selected by `mask` with those `distance` places above them. -/
def exchange (x mask : UInt64) (distance : UInt64) : UInt64 :=
  let t := (x ^^^ (x >>> distance)) &&& mask
  x ^^^ t ^^^ (t <<< distance)

/-- Transposes the square whose entry at row `r` and column `c` is bit `8 * r + c`. -/
def transposeSquare (x : UInt64) : UInt64 :=
  exchange (exchange (exchange x 0x00AA00AA00AA00AA 7) 0x0000CCCC0000CCCC 14) 0x00000000F0F0F0F0 28

/-- Row `k` of a square. -/
def squareRow (square : UInt64) (k : Nat) : UInt8 :=
  (square >>> UInt64.ofNat (8 * k)).toUInt8

/-- The eight rows that column `c` of bytes becomes. -/
def transposeColumn (rows : Array (Array UInt8)) (c : Nat) : List Block :=
  let squares := (List.range securityBytes).map fun r =>
    transposeSquare (Bytes.toWord64 ((List.range 8).map fun k =>
      (rows.getD (8 * r + k) #[]).getD c 0))
  (List.range 8).map fun k => Block.ofBytes (squares.map (squareRow · k))

/-- The transpose of a matrix of 256 rows of `batchBytes` bytes: `8 * batchBytes` blocks, where bit
`i` of block `j` is bit `j` of row `i`. Any other number of rows is refused, and then the first row
of another length. -/
def transposeBits (rows : List Bytes) (batchBytes : Nat) (pool : Pool) :
    Except OTError (List Block) :=
  if rows.length ≠ baseCount then
    throw (.batchSizeMismatch baseCount rows.length)
  else
    match rows.find? (·.length ≠ batchBytes) with
    | some row => throw (.batchSizeMismatch batchBytes row.length)
    | none =>
      let table := (rows.map List.toArray).toArray
      return (pool.mapList (transposeColumn table) (List.range batchBytes)).flatten

end ObliviousTransfer.BitMatrix
