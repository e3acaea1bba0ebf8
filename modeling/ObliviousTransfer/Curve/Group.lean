import ObliviousTransfer.Curve.Encoding
import ObliviousTransfer.Group

/-!
# The points of secp256k1 as the group of the protocols

The form of fixed length writes a point wherever it is hashed or entered into a transcript.
-/

namespace ObliviousTransfer

instance : PointGroup Point where
  generator := .generator
  encode := Point.compressed

end ObliviousTransfer
