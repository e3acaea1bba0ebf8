import Mathlib
import ObliviousTransfer.Hash.Salted

/-!
# Salted hashes of different strings

No statement of this library assumes that SHA-256 has no collisions. Where a conclusion would need
this, the two strings that collide are named instead.
-/

namespace ObliviousTransfer

/-- Two different strings have the same digest. -/
def Sha256.Collide (x y : Bytes) : Prop :=
  x ≠ y ∧ digest x = digest y

/-- Messages with the same hash under salts of one length are equal, and so are the salts, or the
hashed strings collide. -/
theorem hash_eq_or_collide {x y salt salt' : Bytes} (hlength : salt.length = salt'.length)
    (h : hash x salt = hash y salt') :
    (salt = salt' ∧ x = y) ∨ Sha256.Collide (salt ++ x) (salt' ++ y) := by
  by_cases happend : salt ++ x = salt' ++ y
  · exact Or.inl (List.append_inj happend hlength)
  · exact Or.inr ⟨happend, h⟩

end ObliviousTransfer
