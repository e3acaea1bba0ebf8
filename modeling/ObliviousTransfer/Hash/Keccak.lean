/-!
# The Keccak permutation

The permutation Keccak-f[1600] on 25 lanes of 64 bits, held as five planes of five lanes: lane `x`
of plane `y` is the lane with coordinates `(x, y)`. Each round mixes the columns, moves and rotates
the lanes, combines the lanes of each plane, and adds a constant.
-/

namespace ObliviousTransfer.Keccak

/-- Five lanes with one `y` coordinate. -/
structure Plane where
  x0 : UInt64
  x1 : UInt64
  x2 : UInt64
  x3 : UInt64
  x4 : UInt64

/-- The 25 lanes of the sponge. -/
structure State where
  y0 : Plane
  y1 : Plane
  y2 : Plane
  y3 : Plane
  y4 : Plane

/-- Rotation to the left, for amounts between 1 and 63. -/
def rotateLeft (lane : UInt64) (amount : UInt64) : UInt64 :=
  (lane <<< amount) ||| (lane >>> (64 - amount))

namespace Plane

/-- The plane of five equal lanes. -/
def fill (lane : UInt64) : Plane :=
  ⟨lane, lane, lane, lane, lane⟩

/-- Lane by lane exclusive or. -/
def xor (p q : Plane) : Plane :=
  ⟨p.x0 ^^^ q.x0, p.x1 ^^^ q.x1, p.x2 ^^^ q.x2, p.x3 ^^^ q.x3, p.x4 ^^^ q.x4⟩

/-- What the columns with parities `p` add to every lane: the parity of the column to the left and
that of the column to the right, rotated by one. -/
def columnEffect (p : Plane) : Plane :=
  ⟨p.x4 ^^^ rotateLeft p.x1 1, p.x0 ^^^ rotateLeft p.x2 1, p.x1 ^^^ rotateLeft p.x3 1,
    p.x2 ^^^ rotateLeft p.x4 1, p.x3 ^^^ rotateLeft p.x0 1⟩

/-- The only step that is not linear: each lane takes up its two right neighbours. -/
def combine (p : Plane) : Plane :=
  ⟨p.x0 ^^^ (~~~p.x1 &&& p.x2), p.x1 ^^^ (~~~p.x2 &&& p.x3), p.x2 ^^^ (~~~p.x3 &&& p.x4),
    p.x3 ^^^ (~~~p.x4 &&& p.x0), p.x4 ^^^ (~~~p.x0 &&& p.x1)⟩

/-- The lane at an `x` coordinate. -/
def lane (p : Plane) : Nat → UInt64
  | 0 => p.x0
  | 1 => p.x1
  | 2 => p.x2
  | 3 => p.x3
  | _ => p.x4

end Plane

namespace State

/-- The state of 25 zero lanes. -/
def zero : State :=
  ⟨.fill 0, .fill 0, .fill 0, .fill 0, .fill 0⟩

/-- Mixes the columns. -/
def mixColumns (s : State) : State :=
  let effect := (s.y0.xor (s.y1.xor (s.y2.xor (s.y3.xor s.y4)))).columnEffect
  ⟨s.y0.xor effect, s.y1.xor effect, s.y2.xor effect, s.y3.xor effect, s.y4.xor effect⟩

/-- Rotates each lane by its own amount and moves lane `(x, y)` to `(y, 2x + 3y)`. -/
def moveLanes (s : State) : State where
  y0 := ⟨s.y0.x0, rotateLeft s.y1.x1 44, rotateLeft s.y2.x2 43, rotateLeft s.y3.x3 21,
    rotateLeft s.y4.x4 14⟩
  y1 := ⟨rotateLeft s.y0.x3 28, rotateLeft s.y1.x4 20, rotateLeft s.y2.x0 3, rotateLeft s.y3.x1 45,
    rotateLeft s.y4.x2 61⟩
  y2 := ⟨rotateLeft s.y0.x1 1, rotateLeft s.y1.x2 6, rotateLeft s.y2.x3 25, rotateLeft s.y3.x4 8,
    rotateLeft s.y4.x0 18⟩
  y3 := ⟨rotateLeft s.y0.x4 27, rotateLeft s.y1.x0 36, rotateLeft s.y2.x1 10, rotateLeft s.y3.x2 15,
    rotateLeft s.y4.x3 56⟩
  y4 := ⟨rotateLeft s.y0.x2 62, rotateLeft s.y1.x3 55, rotateLeft s.y2.x4 39, rotateLeft s.y3.x0 41,
    rotateLeft s.y4.x1 2⟩

/-- Combines the lanes of each plane and adds the round's constant to the first lane. -/
def combinePlanes (constant : UInt64) (s : State) : State :=
  ⟨s.y0.combine.xor ⟨constant, 0, 0, 0, 0⟩, s.y1.combine, s.y2.combine, s.y3.combine, s.y4.combine⟩

/-- The lane with number `5y + x`. -/
def lane (s : State) (index : Nat) : UInt64 :=
  let plane := match index / 5 with
    | 0 => s.y0
    | 1 => s.y1
    | 2 => s.y2
    | 3 => s.y3
    | _ => s.y4
  plane.lane (index % 5)

/-- Byte `index` of the state, the lanes in order and each of them least significant byte first. -/
def byte (s : State) (index : Nat) : UInt8 :=
  (s.lane (index / 8) >>> UInt64.ofNat (8 * (index % 8))).toUInt8

/-- Adds a list of lanes to the first lanes of the state. -/
def xorLanes (s : State) (lanes : List UInt64) : State :=
  let plane (start : Nat) : Plane :=
    ⟨lanes.getD start 0, lanes.getD (start + 1) 0, lanes.getD (start + 2) 0,
      lanes.getD (start + 3) 0, lanes.getD (start + 4) 0⟩
  ⟨s.y0.xor (plane 0), s.y1.xor (plane 5), s.y2.xor (plane 10), s.y3.xor (plane 15),
    s.y4.xor (plane 20)⟩

end State

/-- The constants of the 24 rounds. -/
def roundConstants : List UInt64 :=
  [0x0000000000000001, 0x0000000000008082, 0x800000000000808a, 0x8000000080008000,
    0x000000000000808b, 0x0000000080000001, 0x8000000080008081, 0x8000000000008009,
    0x000000000000008a, 0x0000000000000088, 0x0000000080008009, 0x000000008000000a,
    0x000000008000808b, 0x800000000000008b, 0x8000000000008089, 0x8000000000008003,
    0x8000000000008002, 0x8000000000000080, 0x000000000000800a, 0x800000008000000a,
    0x8000000080008081, 0x8000000000008080, 0x0000000080000001, 0x8000000080008008]

/-- The permutation: 24 rounds. -/
def permute (s : State) : State :=
  roundConstants.foldl (fun s constant => s.mixColumns.moveLanes.combinePlanes constant) s

end ObliviousTransfer.Keccak
