import ObliviousTransfer.Block

/-!
# Binary polynomials

The consistency check of the extension works with polynomials over the field of two elements. The
challenges and the halves of the blocks have degree below 128; their products have degree below 255,
so they fit into 256 coefficients and no reduction is needed. The check adds up unreduced products
and compares the sums: multiplication is linear in both factors, and this is all that the check
uses.

Coefficient `k` of a polynomial is bit `k`; addition is exclusive or.
-/

namespace ObliviousTransfer

/-- A polynomial of degree below 256 over the field of two elements. -/
abbrev BinaryPolynomial := BitVec 256

namespace BinaryPolynomial

/-- The polynomial whose first 128 coefficients are given. -/
def ofHalf (a : HalfBlock) : BinaryPolynomial :=
  a.setWidth 256

/-- The polynomial times `X`, without a coefficient of `X²⁵⁶`. -/
def timesX (f : BinaryPolynomial) : BinaryPolynomial :=
  f <<< 1

/-- One step of the comb method: with `(sum, shifted)` the sum so far and a multiple of the first
factor, adds `shifted` if `bit` is set, and goes on to the next multiple. -/
def combStep (bit : Bool) (state : BinaryPolynomial × BinaryPolynomial) :
    BinaryPolynomial × BinaryPolynomial :=
  (if bit then state.1 ^^^ state.2 else state.1, state.2.timesX)

/-- `f` plus the product of `a` and `b`, by the comb method: one shifted copy of `a` for each
coefficient of `b`. -/
def comb (f : BinaryPolynomial) (a b : HalfBlock) : BinaryPolynomial :=
  ((List.range 128).foldl (fun state i => combStep (b.getLsbD i) state) (f, ofHalf a)).1

end BinaryPolynomial

end ObliviousTransfer
