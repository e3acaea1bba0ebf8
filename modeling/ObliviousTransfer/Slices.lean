/-!
# Slices of a list

`slices size xs` cuts a list into consecutive runs of `size` entries, the last one possibly
shorter. Packed bits, the blocks of a hash function, the shares of a pool's workers and the row
groups of the consistency check are all slices. The main statement is `flatten_slices`: nothing is
lost or moved by cutting.
-/

namespace ObliviousTransfer

variable {α : Type _}

/-- Consecutive runs of `size` entries; a size of zero counts as one. -/
def slices (size : Nat) : List α → List (List α)
  | [] => []
  | x :: xs => (x :: xs.take (size - 1)) :: slices size (xs.drop (size - 1))
termination_by xs => xs.length
decreasing_by simp only [List.length_cons, List.length_drop]; omega

@[simp]
theorem slices_nil (size : Nat) : slices size ([] : List α) = [] := by
  rw [slices]

theorem slices_cons (size : Nat) (x : α) (xs : List α) :
    slices size (x :: xs) = (x :: xs.take (size - 1)) :: slices size (xs.drop (size - 1)) := by
  rw [slices]

/-- The slices, put together again, are the list. -/
@[simp]
theorem flatten_slices (size : Nat) (xs : List α) : (slices size xs).flatten = xs := by
  fun_induction slices size xs with
  | case1 => rfl
  | case2 x xs ih => simp [ih]

end ObliviousTransfer
