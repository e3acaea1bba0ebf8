import Mathlib
import ObliviousTransfer.Pool
import ObliviousTransfer.Proofs.Verdicts

/-!
# Tables of results

The instances of a setup do not depend on each other, and each of them ends with a value or with an
error. Their results are put into a table, which is gone through in order: it has a value if every
entry has one (`mapM_id_eq_ok_iff`), and otherwise the error of the first entry that has none
(`mapM_id_eq_error_iff`). The lemmas on pools say the same of what is made from such a table.
-/

namespace ObliviousTransfer

/-! ## Lists -/

private theorem eq_map_ok_of_mapM {ε α : Type} {results : List (Except ε α)} {values : List α}
    (h : results.mapM id = .ok values) : results = values.map .ok := by
  induction results generalizing values with
  | nil =>
    cases h
    rfl
  | cons result results ih =>
    rw [List.mapM_cons] at h
    cases result with
    | error e => exact nomatch h
    | ok value =>
      cases hrest : results.mapM id with
      | error e =>
        rw [hrest] at h
        exact nomatch h
      | ok rest =>
        rw [hrest] at h
        cases h
        rw [ih hrest, List.map_cons]

/-- A loop over results ends with the first error among them. -/
private theorem list_mapM_id_eq_error_iff {ε α : Type} (results : List (Except ε α)) (e : ε) :
    results.mapM id = .error e ↔
      ∃ i : Nat, results[i]? = some (.error e) ∧
        ∀ j < i, ∃ value, results[j]? = some (.ok value) := by
  induction results with
  | nil => exact ⟨nofun, by rintro ⟨i, ⟨⟩, -⟩⟩
  | cons result results ih =>
    rw [List.mapM_cons]
    cases result with
    | error e' =>
      constructor
      · rintro ⟨⟩
        exact ⟨0, rfl, fun j hj => absurd hj (Nat.not_lt_zero j)⟩
      · rintro ⟨i, hi, hbefore⟩
        cases i with
        | zero => exact congrArg _ (Except.error.inj (Option.some.inj hi))
        | succ i =>
          obtain ⟨value, hvalue⟩ := hbefore 0 (Nat.succ_pos i)
          exact nomatch hvalue
    | ok value =>
      have hrest : (do let head ← id (Except.ok value); return head :: (← results.mapM id)) =
          (Except.error e : Except ε (List α)) ↔ results.mapM id = .error e := by
        cases results.mapM id with
        | error e' => exact Iff.rfl
        | ok values => exact ⟨nofun, nofun⟩
      rw [hrest, ih]
      constructor
      · rintro ⟨i, hi, hbefore⟩
        refine ⟨i + 1, hi, fun j hj => ?_⟩
        cases j with
        | zero => exact ⟨value, rfl⟩
        | succ j => exact hbefore j (Nat.lt_of_succ_lt_succ hj)
      · rintro ⟨i, hi, hbefore⟩
        cases i with
        | zero => exact nomatch hi
        | succ i => exact ⟨i, hi, fun j hj => hbefore (j + 1) (Nat.succ_lt_succ hj)⟩

/-! ## Tables -/

/-- The first error of a table is that of the list of its entries. -/
theorem mapM_id_toList {ε α : Type} {n : Nat} (results : Vector (Except ε α) n) :
    results.toList.mapM id = (results.mapM id).map Vector.toList := by
  rw [Vector.toList, ← Array.toList_mapM, ← Vector.toArray_mapM]
  cases results.mapM id <;> rfl

/-- A table of results has a value if all entries have one. -/
theorem mapM_id_eq_ok_iff {ε α : Type} {n : Nat} (results : Vector (Except ε α) n)
    (values : Vector α n) :
    results.mapM id = .ok values ↔ ∀ i, results.get i = .ok (values.get i) := by
  constructor
  · intro h
    have hlist : results.toList.mapM id = .ok values.toList := by
      rw [mapM_id_toList, h]
      rfl
    have hresults : results = values.map .ok := by
      rw [← Vector.toList_inj, Vector.toList_map, eq_map_ok_of_mapM hlist]
    intro i
    rw [hresults, Vector.get_map]
  · intro h
    have hresults : results = values.map .ok := by
      apply Vector.ext
      intro i hi
      rw [Vector.getElem_map]
      exact h ⟨i, hi⟩
    rw [hresults, Vector.mapM_map]
    exact (Vector.mapM_pure id).trans (congrArg Except.ok (Vector.map_id values))

/-- A table of results has the error of the first entry that has one. -/
theorem mapM_id_eq_error_iff {ε α : Type} {n : Nat} (results : Vector (Except ε α) n) (e : ε) :
    results.mapM id = .error e ↔
      ∃ i, results.get i = .error e ∧ ∀ j < i, ∃ value, results.get j = .ok value := by
  have hlist : results.mapM id = .error e ↔ results.toList.mapM id = .error e := by
    rw [mapM_id_toList]
    cases results.mapM id with
    | error e' => rw [Except.map, Except.error.injEq, Except.error.injEq]
    | ok values => exact ⟨nofun, nofun⟩
  have hentry (i : Nat) (result : Except ε α) :
      results.toList[i]? = some result ↔ ∃ hi : i < n, results.get ⟨i, hi⟩ = result := by
    rw [Vector.getElem?_toList, Vector.getElem?_eq_some_iff]
    rfl
  simp only [hlist, list_mapM_id_eq_error_iff, hentry]
  constructor
  · rintro ⟨i, ⟨hi, herror⟩, hbefore⟩
    refine ⟨⟨i, hi⟩, herror, fun j hj => ?_⟩
    obtain ⟨value, _, hvalue⟩ := hbefore j hj
    exact ⟨value, hvalue⟩
  · rintro ⟨i, herror, hbefore⟩
    refine ⟨i, ⟨i.isLt, herror⟩, fun j hj => ?_⟩
    obtain ⟨value, hvalue⟩ := hbefore ⟨j, hj.trans i.isLt⟩ hj
    exact ⟨value, hj.trans i.isLt, hvalue⟩

/-! ## Results from a pool -/

/-- What is made from a table of results has a value if all entries have one. -/
theorem Pool.bind_tabulate_eq_ok_iff {ε α β : Type} {n : Nat} (pool : Pool) (f : Fin n → Except ε α)
    (g : Vector α n → Except ε β) (value : β) :
    (pool.tabulate n f).mapM id >>= g = .ok value ↔
      ∃ values : Vector α n, (∀ i, f i = .ok (values.get i)) ∧ g values = .ok value := by
  have hentries (values : Vector α n) :
      (pool.tabulate n f).mapM id = .ok values ↔ ∀ i, f i = .ok (values.get i) := by
    simp only [mapM_id_eq_ok_iff, Pool.tabulate_eq_ofFn, Vector.get_ofFn]
  simp only [← hentries]
  cases (pool.tabulate n f).mapM id with
  | error e => exact ⟨nofun, nofun⟩
  | ok values =>
    refine ⟨fun h => ⟨values, rfl, h⟩, ?_⟩
    rintro ⟨_, ⟨⟩, h⟩
    exact h

section Total

variable {ε α β : Type} {n : Nat} (pool : Pool) (f : Fin n → Except ε α)
  {g : Vector α n → Except ε β} (hg : ∀ values, ∃ value, g values = .ok value)

include hg

/-- What can be made from every full table is made if all entries have a value. -/
theorem Pool.exists_bind_tabulate_eq_ok_iff :
    (∃ value, (pool.tabulate n f).mapM id >>= g = .ok value) ↔ ∀ i, ∃ value, f i = .ok value := by
  simp only [Pool.bind_tabulate_eq_ok_iff]
  constructor
  · rintro ⟨_, values, hvalues, -⟩ i
    exact ⟨values.get i, hvalues i⟩
  · intro h
    choose value hvalue using h
    obtain ⟨result, hresult⟩ := hg (Vector.ofFn value)
    exact ⟨result, Vector.ofFn value, fun i => (Vector.get_ofFn ..).symm ▸ hvalue i, hresult⟩

/-- Otherwise there is the error of the first entry that has one. -/
theorem Pool.bind_tabulate_eq_error_iff (e : ε) :
    (pool.tabulate n f).mapM id >>= g = .error e ↔
      ∃ i, f i = .error e ∧ ∀ j < i, ∃ value, f j = .ok value := by
  have hentries : (pool.tabulate n f).mapM id = .error e ↔
      ∃ i, f i = .error e ∧ ∀ j < i, ∃ value, f j = .ok value := by
    simp only [mapM_id_eq_error_iff, Pool.tabulate_eq_ofFn, Vector.get_ofFn]
  exact (bind_eq_error_iff hg e).trans hentries

end Total

end ObliviousTransfer
