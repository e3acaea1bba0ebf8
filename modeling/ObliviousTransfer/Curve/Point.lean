import ObliviousTransfer.Curve.Field
import ObliviousTransfer.Scalar

/-!
# Points of secp256k1

A point is the point at infinity or a pair of coordinates on the curve `y² = x³ + 7`; the equation
is part of the type, so that a value of type `Point` is always a point of the curve.

`Point.add` is the addition law in coordinates. A multiple of a point takes several hundred
additions and would need a field inverse for each of them, so `Point.scale` runs in Jacobian
coordinates `(X, Y, Z)`, which stand for `(X / Z², Y / Z³)`, and inverts once at the end. Results
are checked against the equation of the curve when they become points again.
-/

namespace ObliviousTransfer

/-- The equation of the curve. -/
abbrev OnCurve (x y : Coordinate) : Prop :=
  y * y = x * x * x + 7

/-- A point of the curve. -/
inductive Point where
  /-- The point at infinity, the neutral element. -/
  | infinity
  /-- A pair of coordinates on the curve. -/
  | affine (x y : Coordinate) (onCurve : OnCurve x y)
deriving DecidableEq

namespace Point

/-- The point with given coordinates, if they are on the curve. -/
def ofCoordinates? (x y : Coordinate) : Option Point :=
  if h : OnCurve x y then some (affine x y h) else none

/-- The point with coordinates that a formula of this module has computed. -/
def ofResult (x y : Coordinate) : Point :=
  (ofCoordinates? x y).getD infinity

/-- The generator of the group. -/
def generator : Point :=
  affine 0x79be667ef9dcbbac55a06295ce870b07029bfcdb2dce28d959f2815b16f81798
    0x483ada7726a3c4655da4fbfc0e1108a8fd17b448a68554199c47d08ffb10d4b8 (by decide +kernel)

/-- The point with the negative second coordinate. -/
def neg : Point → Point
  | infinity => infinity
  | affine x y _ => ofResult x (-y)

/-- The third point of the line with a given slope through the points at `x₁, y₁` and `x₂`, with its
second coordinate negated. -/
def chord (slope x₁ y₁ x₂ : Coordinate) : Point :=
  let x := slope * slope - x₁ - x₂
  ofResult x (slope * (x₁ - x) - y₁)

/-- The sum of two points: by the chord through them, or the tangent if they are the same. -/
def add : Point → Point → Point
  | infinity, q => q
  | p, infinity => p
  | affine x₁ y₁ _, affine x₂ y₂ _ =>
    if x₁ = x₂ then
      if y₁ + y₂ = 0 then infinity
      else chord (3 * x₁ * x₁ * Coordinate.inverse (2 * y₁)) x₁ y₁ x₂
    else chord ((y₂ - y₁) * Coordinate.inverse (x₂ - x₁)) x₁ y₁ x₂

end Point

/-! ## Jacobian coordinates -/

/-- The point `(x / z², y / z³)`, or infinity if `z` is zero. -/
structure Jacobian where
  x : Coordinate
  y : Coordinate
  z : Coordinate

namespace Jacobian

/-- The point at infinity. -/
def infinity : Jacobian := ⟨1, 1, 0⟩

/-- Twice a point: with `s = 4xy²` and `e = 3x²` this is `x' = e² - 2s`, `y' = e(s - x') - 8y⁴` and
`z' = 2yz`. -/
def double (p : Jacobian) : Jacobian :=
  let xx := p.x * p.x
  let yy := p.y * p.y
  let s := 4 * (p.x * yy)
  let e := 3 * xx
  let x := e * e - 2 * s
  ⟨x, e * (s - x) - 8 * (yy * yy), 2 * (p.y * p.z)⟩

/-- The sum of a point and the point with coordinates `x₂, y₂`: with `h = x₂z² - x`, `r = y₂z³ - y`
and `v = xh²` this is `x' = r² - h³ - 2v`, `y' = r(v - x') - yh³` and `z' = zh`. -/
def addAffine (p : Jacobian) (x₂ y₂ : Coordinate) : Jacobian :=
  if p.z = 0 then ⟨x₂, y₂, 1⟩
  else
    let zz := p.z * p.z
    let h := x₂ * zz - p.x
    let r := y₂ * (zz * p.z) - p.y
    if h = 0 then
      if r = 0 then p.double else infinity
    else
      let hh := h * h
      let hhh := h * hh
      let v := p.x * hh
      let x := r * r - hhh - 2 * v
      ⟨x, r * (v - x) - p.y * hhh, p.z * h⟩

/-- The point itself, by one inverse. -/
def toPoint (p : Jacobian) : Point :=
  if p.z = 0 then .infinity
  else
    let i := Coordinate.inverse p.z
    let ii := i * i
    Point.ofResult (p.x * ii) (p.y * (ii * i))

end Jacobian

namespace Point

/-- A multiple of a point, by doubling and adding from the highest bit of the factor. -/
def scale (k : Scalar) : Point → Point
  | infinity => infinity
  | affine x y _ =>
    let step (i : Nat) (acc : Jacobian) :=
      if k.val.testBit i then acc.double.addAffine x y else acc.double
    ((List.range 256).foldr step Jacobian.infinity).toPoint

instance : Zero Point := ⟨infinity⟩

instance : Add Point := ⟨add⟩

instance : Neg Point := ⟨neg⟩

instance : Sub Point := ⟨fun p q => p + -q⟩

instance : SMul Scalar Point := ⟨scale⟩

end Point

end ObliviousTransfer
