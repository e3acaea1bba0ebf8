import Mathlib

/-!
# Verdicts

A check of a received message ends with a value or with its one fault, and the steps behind it are
run in the first case only. The lemmas here take such results apart without a look at what was
checked: the conditions are often equations between hash values, which nothing should evaluate.
-/

namespace ObliviousTransfer

section Check

variable {ε α : Type} {condition : Prop} [Decidable condition] {result : Except ε α} {value : α}
  {fault : ε}

/-- A check succeeds if and only if its condition holds. -/
theorem exists_ok_iff (h : result = if condition then .ok value else .error fault) :
    (∃ a, result = .ok a) ↔ condition := by
  rw [h]
  split
  · next hcondition => exact iff_of_true ⟨value, rfl⟩ hcondition
  · next hcondition => exact iff_of_false (by rintro ⟨_, ⟨⟩⟩) hcondition

/-- A check that fails ends with its fault. -/
theorem eq_error_of_not_exists_ok (h : result = if condition then .ok value else .error fault)
    (hnot : ¬∃ a, result = .ok a) : result = .error fault :=
  h.trans (if_neg (mt (exists_ok_iff h).2 hnot))

end Check

section Bind

variable {ε α β : Type} {x : Except ε α}

theorem bind_eq_error {error : ε} (h : x = .error error) (f : α → Except ε β) :
    x >>= f = .error error := by
  rw [h]
  rfl

theorem bind_eq_of_eq_ok {a : α} (h : x = .ok a) (f : α → Except ε β) : x >>= f = f a := by
  rw [h]
  rfl

/-- Steps that never fail leave the errors as they are. -/
theorem bind_eq_error_iff {f : α → Except ε β} (hf : ∀ a, ∃ b, f a = .ok b) (error : ε) :
    x >>= f = .error error ↔ x = .error error := by
  cases x with
  | error e =>
    exact ⟨fun h => congrArg _ (Except.error.inj h), fun h => congrArg _ (Except.error.inj h)⟩
  | ok a =>
    obtain ⟨b, hb⟩ := hf a
    exact ⟨fun h => (nomatch hb.symm.trans h), nofun⟩

end Bind

end ObliviousTransfer
