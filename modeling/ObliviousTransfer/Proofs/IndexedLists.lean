import Mathlib

/-!
# Lists given by their entries

A batch is a list with one entry for each item, and most lists of a protocol run are described as
the entries of a function at the items below a count: `(List.range count).map f`. These lemmas read
such a list, cut it, and join it with others.

A loop that may fail ends with the list of its results if each step has one (`mapM_eq_some`).
-/

namespace ObliviousTransfer

variable {α β γ : Type}

theorem getD_map_range (f : Nat → α) {count i : Nat} (hi : i < count) (d : α) :
    ((List.range count).map f).getD i d = f i := by
  rw [List.getD_eq_getElem _ _ (by simpa using hi), List.getElem_map, List.getElem_range]

/-- Which entries such a list has. -/
theorem getElem?_map_range_eq_some_iff (f : Nat → α) (count i : Nat) (a : α) :
    ((List.range count).map f)[i]? = some a ↔ i < count ∧ f i = a := by
  rw [List.getElem?_map, Option.map_eq_some_iff]
  constructor
  · rintro ⟨k, hk, rfl⟩
    obtain ⟨hi, rfl⟩ := List.getElem?_eq_some_iff.1 hk
    rw [List.getElem_range, ← List.length_range (n := count)]
    exact ⟨hi, rfl⟩
  · rintro ⟨hi, rfl⟩
    exact ⟨i, List.getElem?_range hi, rfl⟩

theorem take_map_range {kept count : Nat} (h : kept ≤ count) (f : Nat → α) :
    ((List.range count).map f).take kept = (List.range kept).map f := by
  rw [← List.map_take, List.take_range, Nat.min_eq_left h]

/-- A list of the right length is given by its entries. -/
theorem eq_map_range {xs : List α} {count : Nat} (hlength : xs.length = count) (d : α) :
    xs = (List.range count).map (xs.getD · d) := by
  apply List.ext_getElem
  · simp [hlength]
  · intro i hi _
    simp [hi]

/-- Joining a list with one that is given by its entries. -/
theorem zipWith_map_range (f : α → β → γ) {xs : List α} {count : Nat} (hlength : xs.length = count)
    (g : Nat → β) (d : α) :
    List.zipWith f xs ((List.range count).map g) =
      (List.range count).map fun j => f (xs.getD j d) (g j) := by
  conv_lhs => rw [eq_map_range hlength d]
  rw [List.zipWith_map, List.zipWith_self]

/-- Pairing a list that is given by its entries with one that is not shorter. -/
theorem zip_map_range (f : Nat → α) {ys : List β} {count : Nat} (hlength : count ≤ ys.length)
    (d : β) :
    ((List.range count).map f).zip ys = (List.range count).map fun j => (f j, ys.getD j d) := by
  apply List.ext_getElem
  · simp [hlength]
  · intro j _ hj
    rw [List.length_map, List.length_range] at hj
    simp [hj.trans_le hlength]

/-- Groups of `size` entries, put one after the other. -/
theorem flatten_map_range (f : Nat → α) (size count : Nat) :
    ((List.range count).map fun c => (List.range size).map fun k => f (size * c + k)).flatten =
      (List.range (size * count)).map f := by
  induction count with
  | zero => rfl
  | succ count ih =>
    have last : ((List.range size).map fun k => f (size * count + k)) =
        ((List.range size).map (size * count + ·)).map f := by
      rw [List.map_map]
      rfl
    rw [List.range_succ, List.map_append, List.flatten_append, ih, List.map_singleton,
      List.flatten_singleton, last, ← List.map_append, ← List.range_add, ← Nat.mul_succ]

/-! ## Loops that may fail -/

theorem some_bind_eq (a : α) (f : α → Option β) : some a >>= f = f a := rfl

/-- A loop whose every step has a result has all of them. -/
theorem mapM_eq_some {f : α → Option β} {g : α → β} {xs : List α} (h : ∀ x ∈ xs, f x = some (g x)) :
    xs.mapM f = some (xs.map g) := by
  induction xs with
  | nil => rfl
  | cons x xs ih =>
    rw [List.forall_mem_cons] at h
    rw [List.mapM_cons, h.1, ih h.2]
    rfl

end ObliviousTransfer
