import Mathlib
import ObliviousTransfer.Pool

/-!
# What a search finds, and how often it calls

A search makes calls in rounds until enough of them have succeeded. Its result is described by the
outcomes of the calls alone: the number of rounds is the least one with enough successes, and the
values are the first successes in the order of the calls (`searchRounds_eq`). A single worker makes
rounds of one call, so it stops at the very call that brings the last missing success; several
workers finish their round, and the surplus is dropped (`search_finds_first_successes`).

The order of the calls is round by round, and by slots within a round (`roundSuccesses_eq`).
-/

namespace ObliviousTransfer.Pool

variable {α : Type}

/-! ## Successes -/

/-- The values of the successes among the first calls, in the order of the calls. -/
def successes (outcome : Nat → Option α) (calls : Nat) : List α :=
  (List.range calls).filterMap outcome

/-- The values of the successes in the first rounds, round by round and by slots within a round. -/
def roundSuccesses (workers : Nat) (outcome : Nat → Option α) (rounds : Nat) : List α :=
  (List.range rounds).flatMap fun round =>
    (List.range workers).filterMap fun slot => outcome (round * workers + slot)

theorem successes_add (outcome : Nat → Option α) (a b : Nat) :
    successes outcome (a + b) = successes outcome a ++ successes (fun c => outcome (a + c)) b := by
  rw [successes, List.range_add, List.filterMap_append, List.filterMap_map]
  rfl

theorem roundSuccesses_eq (workers : Nat) (outcome : Nat → Option α) (rounds : Nat) :
    roundSuccesses workers outcome rounds = successes outcome (rounds * workers) := by
  induction rounds with
  | zero => rw [Nat.zero_mul]; rfl
  | succ rounds ih =>
    rw [roundSuccesses, List.range_succ, List.flatMap_append, ← roundSuccesses, ih,
      List.flatMap_singleton, Nat.succ_mul, successes_add]
    rfl

theorem length_successes_mono (outcome : Nat → Option α) {a b : Nat} (h : a ≤ b) :
    (successes outcome a).length ≤ (successes outcome b).length := by
  rw [← Nat.add_sub_of_le h, successes_add, List.length_append]
  exact Nat.le_add_right ..

/-- One more call brings at most one more success. -/
theorem length_successes_succ_le (outcome : Nat → Option α) (calls : Nat) :
    (successes outcome (calls + 1)).length ≤ (successes outcome calls).length + 1 := by
  rw [successes_add, List.length_append]
  exact Nat.add_le_add_left (List.length_filterMap_le ..) _

/-- The values come from different calls: there is a list of calls, each later than the one before,
that have these values as their outcomes. -/
def FromCalls (outcome : Nat → Option α) (found : Found α) : Prop :=
  ∃ positions : List Nat, positions.Pairwise (· < ·) ∧ (∀ c ∈ positions, c < found.calls) ∧
    positions.map outcome = found.values.map some

theorem fromCalls_take_successes (outcome : Nat → Option α) (kept calls : Nat) :
    FromCalls outcome ⟨(successes outcome calls).take kept, calls⟩ := by
  let succeeded := (List.range calls).filter fun c => (outcome c).isSome
  have hvalues (cs : List Nat) : (cs.filter fun c => (outcome c).isSome).map outcome =
      (cs.filterMap outcome).map some := by
    induction cs with
    | nil => rfl
    | cons c cs ih => cases h : outcome c <;> simp [h, ih]
  refine ⟨succeeded.take kept, ?_, fun c hc => ?_, ?_⟩
  · exact (List.pairwise_lt_range.filter _).sublist (List.take_sublist ..)
  · exact List.mem_range.1 (List.mem_filter.1 (List.mem_of_mem_take hc)).1
  · rw [List.map_take, hvalues, successes, List.map_take]

/-! ## Rounds -/

section Rounds

variable (workers : Nat) (outcome : Nat → Option α)

/-- Nothing is missing: no call is made. -/
theorem searchRounds_zero (limit calls : Nat) (found : List α) :
    searchRounds workers outcome limit 0 calls found = some ⟨found.reverse, calls⟩ := by
  cases limit <;> rfl

/-- One round: what it finds is no longer missing, and its surplus is dropped. -/
theorem searchRounds_succ (limit calls : Nat) {missing : Nat} (hmissing : missing ≠ 0)
    (found : List α) :
    let round := successes (fun c => outcome (calls + c)) workers
    searchRounds workers outcome (limit + 1) missing calls found =
      searchRounds workers outcome limit (missing - round.length) (calls + workers)
        ((round.take missing).reverseAux found) := by
  obtain ⟨missing, rfl⟩ := Nat.exists_eq_succ_of_ne_zero hmissing
  rfl

theorem successes_round_succ (calls rounds : Nat) :
    successes (fun c => outcome (calls + c)) ((rounds + 1) * workers) =
      successes (fun c => outcome (calls + c)) workers ++
        successes (fun c => outcome (calls + workers + c)) (rounds * workers) := by
  rw [Nat.succ_mul, Nat.add_comm, successes_add]
  simp only [Nat.add_assoc]

/-- Behind the first round, the search for what it has left missing needs one round less. -/
theorem isLeast_behind_round {rounds missing calls : Nat}
    (hleast : IsLeast
      {r | missing ≤ (successes (fun c => outcome (calls + c)) (r * workers)).length}
      (rounds + 1)) :
    IsLeast
      {r | missing - (successes (fun c => outcome (calls + c)) workers).length ≤
        (successes (fun c => outcome (calls + workers + c)) (r * workers)).length} rounds := by
  have hiff (r : Nat) : missing - (successes (fun c => outcome (calls + c)) workers).length ≤
        (successes (fun c => outcome (calls + workers + c)) (r * workers)).length ↔
      missing ≤ (successes (fun c => outcome (calls + c)) ((r + 1) * workers)).length := by
    rw [successes_round_succ, List.length_append, Nat.sub_le_iff_le_add']
  exact ⟨(hiff rounds).2 hleast.1, fun r hr => Nat.le_of_succ_le_succ (hleast.2 ((hiff r).1 hr))⟩

/-- From any call on, the rounds go on until they have brought what is missing. -/
theorem searchRounds_eq {rounds missing calls : Nat}
    (hleast : IsLeast
      {r | missing ≤ (successes (fun c => outcome (calls + c)) (r * workers)).length} rounds)
    (limit : Nat) (found : List α) :
    searchRounds workers outcome limit missing calls found =
      if rounds ≤ limit then
        some ⟨found.reverse ++
            (successes (fun c => outcome (calls + c)) (rounds * workers)).take missing,
          calls + rounds * workers⟩
      else none := by
  induction rounds generalizing missing calls limit found with
  | zero =>
    have hnone : missing ≤ 0 := by simpa [successes] using hleast.1
    obtain rfl := Nat.le_zero.1 hnone
    rw [searchRounds_zero, if_pos (Nat.zero_le _), List.take_zero, List.append_nil, Nat.zero_mul,
      Nat.add_zero]
  | succ rounds ih =>
    have hmissing : missing ≠ 0 := by
      rintro rfl
      exact Nat.not_succ_le_zero _ (hleast.2 (Nat.zero_le _))
    cases limit with
    | zero =>
      obtain ⟨missing, rfl⟩ := Nat.exists_eq_succ_of_ne_zero hmissing
      exact (if_neg (Nat.not_succ_le_zero rounds)).symm
    | succ limit =>
      have hkept (round : List α) : ((round.take missing).reverseAux found).reverse =
          found.reverse ++ round.take missing := by
        rw [List.reverseAux_eq, List.reverse_append, List.reverse_reverse]
      have hcalls : calls + workers + rounds * workers = calls + (rounds + 1) * workers := by
        rw [Nat.succ_mul, Nat.add_assoc, Nat.add_comm workers]
      rw [searchRounds_succ workers outcome limit calls hmissing found,
        ih (isLeast_behind_round workers outcome hleast), hkept, hcalls, successes_round_succ,
        List.take_append, List.append_assoc]
      simp only [Nat.succ_le_succ_iff]

/-- A search ends after the least number of rounds that bring enough, and keeps what was wanted. -/
theorem search_eq (pool : Pool) {rounds wanted : Nat}
    (hleast : IsLeast {r | wanted ≤ (successes outcome (r * pool.workers)).length} rounds)
    (limit : Nat) :
    pool.search wanted outcome limit =
      if rounds ≤ limit then
        some ⟨(successes outcome (rounds * pool.workers)).take wanted, rounds * pool.workers⟩
      else none := by
  have hfirst : IsLeast
      {r | wanted ≤ (successes (fun c => outcome (0 + c)) (r * pool.workers)).length} rounds := by
    simpa using hleast
  simpa [search] using searchRounds_eq pool.workers outcome hfirst limit []

end Rounds

/-! ## Searches -/

/-- A single worker stops at the call that brings the last missing success. -/
theorem length_successes_of_isLeast {outcome : Nat → Option α} {wanted calls : Nat}
    (hleast : IsLeast {c | wanted ≤ (successes outcome c).length} calls) :
    (successes outcome calls).length = wanted := by
  refine Nat.le_antisymm ?_ hleast.1
  cases calls with
  | zero => exact Nat.zero_le _
  | succ calls =>
    have hbefore : (successes outcome calls).length < wanted :=
      Nat.not_le.1 fun h => Nat.not_succ_le_self calls (hleast.2 h)
    exact (length_successes_succ_le outcome calls).trans hbefore

/-- If enough calls succeed, a search finds exactly as many values as are wanted, which are the
outcomes of the first successful calls. A single worker makes no call behind the last of them, and
none at all if nothing is wanted. Several workers make one call each in every round, for the least
number of rounds that bring enough successes. Finding room for the values first changes nothing
where there is room. -/
theorem search_finds_first_successes (wanted : Nat) (outcome : Nat → Option α)
    (henough : ∃ calls, wanted ≤ (successes outcome calls).length) :
    (∃ calls, IsLeast {c | wanted ≤ (successes outcome c).length} calls ∧
      (successes outcome calls).length = wanted ∧
      FromCalls outcome ⟨successes outcome calls, calls⟩ ∧
      ∀ limit, sequential.search wanted outcome limit =
        if calls ≤ limit then some ⟨successes outcome calls, calls⟩ else none) ∧
    (∀ workers, 0 < workers →
      ∃ rounds, IsLeast {r | wanted ≤ (roundSuccesses workers outcome r).length} rounds ∧
        let found : Found α :=
          ⟨(roundSuccesses workers outcome rounds).take wanted, rounds * workers⟩
        found.values.length = wanted ∧ FromCalls outcome found ∧
        ∀ limit, (parallel workers).search wanted outcome limit =
          if rounds ≤ limit then some found else none) ∧
    ∀ (pool : Pool) entryBytes limit, FitsMemory entryBytes wanted →
      pool.search? entryBytes wanted outcome limit = pool.search wanted outcome limit := by
  refine ⟨?_, fun workers hworkers => ?_, fun pool entryBytes limit hfits => if_pos hfits⟩
  · have hleast := Nat.isLeast_find henough
    generalize Nat.find henough = calls at hleast
    have hlength := length_successes_of_isLeast hleast
    have htake : (successes outcome calls).take wanted = successes outcome calls :=
      List.take_of_length_le hlength.le
    refine ⟨calls, hleast, hlength, htake ▸ fromCalls_take_successes outcome wanted calls,
      fun limit => ?_⟩
    have hsearch := search_eq outcome sequential (by simpa [workers] using hleast) limit
    simpa [workers, htake] using hsearch
  · have henough' : ∃ rounds, wanted ≤ (roundSuccesses workers outcome rounds).length := by
      obtain ⟨calls, hcalls⟩ := henough
      refine ⟨calls, hcalls.trans ?_⟩
      rw [roundSuccesses_eq]
      exact length_successes_mono outcome (Nat.le_mul_of_pos_right calls hworkers)
    have hleast := Nat.isLeast_find henough'
    generalize Nat.find henough' = rounds at hleast
    refine ⟨rounds, hleast, ?_, ?_, fun limit => ?_⟩
    · exact List.length_take_of_le hleast.1
    · rw [roundSuccesses_eq]
      exact fromCalls_take_successes ..
    · simp only [roundSuccesses_eq] at hleast ⊢
      exact search_eq outcome (parallel workers) hleast limit

/-- The first round of three workers brings nothing and the last one more than is wanted. -/
theorem search_for_three_of_four_successes :
    let outcomes : List (Option Nat) :=
      [none, none, none, some 7, none, some 8, some 9, some 10]
    let outcome (c : Nat) : Option Nat := outcomes[c]?.join
    (∃ calls, 3 ≤ (successes outcome calls).length) ∧ 0 < 3 ∧
      (∀ limit, 7 ≤ limit → sequential.search 3 outcome limit = some ⟨[7, 8, 9], 7⟩) ∧
      ∀ limit, 3 ≤ limit → (parallel 3).search? 8 3 outcome limit = some ⟨[7, 8, 9], 9⟩ := by
  intro outcomes outcome
  have henough : ∃ calls, 3 ≤ (successes outcome calls).length := ⟨7, by decide⟩
  obtain ⟨⟨calls, hcalls, -, -, hsequential⟩, hparallel, hroom⟩ :=
    search_finds_first_successes 3 outcome henough
  obtain ⟨rounds, hrounds, -, -, hparallel⟩ := hparallel 3 (by decide)
  have hseven : IsLeast {c | 3 ≤ (successes outcome c).length} 7 := by
    refine ⟨by decide, fun c hc => Nat.not_lt.1 fun hlt => ?_⟩
    have hfew : ∀ c < 7, ¬3 ≤ (successes outcome c).length := by decide
    exact hfew c hlt hc
  have hthree : IsLeast {r | 3 ≤ (roundSuccesses 3 outcome r).length} 3 := by
    refine ⟨by decide, fun r hr => Nat.not_lt.1 fun hlt => ?_⟩
    have hfew : ∀ r < 3, ¬3 ≤ (roundSuccesses 3 outcome r).length := by decide
    exact hfew r hlt hr
  obtain rfl := hcalls.unique hseven
  obtain rfl := hrounds.unique hthree
  exact ⟨henough, by decide, fun limit hlimit => (hsequential limit).trans (if_pos hlimit),
    fun limit hlimit =>
      (hroom _ 8 limit (by decide)).trans ((hparallel limit).trans (if_pos hlimit))⟩

end ObliviousTransfer.Pool
