import ObliviousTransfer.Parameters
import ObliviousTransfer.Slices

/-!
# Pools of workers

The base transfers of a setup and the rows of an extension are independent of each other, so the
work on them can be divided. A `Pool` says how: one worker takes everything in order, or the work is
cut into as many slices as there are workers, and the slices' results are put together in order.

Dividing the work never changes a result (`mapList_eq_map`, `tabulate_eq_ofFn`). The exception is
`search`, which counts calls: a parallel pool asks every worker once per round, so that the last
round may overshoot.

Results are kept in one piece. `tabulate?` and `search?` are for counts that come from outside: they
refuse a count for which there can be no room, before any work is done.
-/

namespace ObliviousTransfer

/-- How independent pieces of work are divided. -/
inductive Pool where
  /-- One worker does everything in order. -/
  | sequential
  /-- The work is divided among a number of workers. -/
  | parallel (workers : Nat)
deriving DecidableEq, Repr

namespace Pool

variable {α β : Type}

/-- A pool of `workers` workers; zero asks for one per `available` execution unit. -/
def ofWorkers (available workers : Nat) : Pool :=
  parallel (if workers = 0 then available else workers)

/-- The pool that is used when nothing is said. -/
instance : Inhabited Pool := ⟨sequential⟩

/-- How many pieces of work are in progress at one time. -/
def workers : Pool → Nat
  | sequential => 1
  | parallel workers => workers

/-- The short description of a pool. -/
def describe : Pool → String
  | sequential => "Pool::Sequential"
  | parallel workers => "Pool::Parallel(" ++ toString workers ++ ")"

/-- The results of `f` on every entry, in the order of the entries. -/
def mapList (pool : Pool) (f : α → β) (xs : List α) : List β :=
  match pool with
  | sequential => xs.map f
  | parallel workers => (slices ((xs.length + workers - 1) / workers) xs).flatMap (List.map f)

/-- Dividing the work does not change the results. -/
@[simp]
theorem mapList_eq_map (pool : Pool) (f : α → β) (xs : List α) :
    pool.mapList f xs = xs.map f := by
  cases pool with
  | sequential => rfl
  | parallel workers => rw [mapList, List.flatMap, ← List.map_flatten, flatten_slices]

/-- The results of `f` on every index below `count`, in order. -/
def tabulate (pool : Pool) (count : Nat) (f : Fin count → α) : Vector α count :=
  ⟨(pool.mapList f (List.finRange count)).toArray, by simp⟩

/-- A table has the same entries whatever the pool. -/
@[simp]
theorem tabulate_eq_ofFn (pool : Pool) (count : Nat) (f : Fin count → α) :
    pool.tabulate count f = Vector.ofFn f := by
  apply Vector.ext
  intro i hi
  simp [tabulate]

/-- The results of `f` on every index below `count`, if memory can keep that many results of
`entryBytes` bytes each. -/
def tabulate? (pool : Pool) (entryBytes count : Nat) (f : Fin count → α) :
    Option (Vector α count) :=
  if FitsMemory entryBytes count then some (pool.tabulate count f) else none

/-- The results of `f` on every entry and its position, in order. -/
def mapEach (pool : Pool) (f : Nat → α → β) (xs : List α) : List β :=
  pool.mapList (fun entry => f entry.2 entry.1) xs.zipIdx

/-! ## Searching -/

/-- What a search found, and how often it called. -/
structure Found (α : Type) where
  /-- The first successes, in the order of the calls. -/
  values : List α
  /-- The number of calls made. -/
  calls : Nat

/-- Makes rounds of `round` calls until `missing` more successes are found or `limit` rounds are
over. The outcome of the call with number `c` is `outcome c`; `calls` have been made already, and
`found` holds the successes kept so far, the latest first. -/
def searchRounds (round : Nat) (outcome : Nat → Option α) :
    (limit missing calls : Nat) → (found : List α) → Option (Found α)
  | _, 0, calls, found => some ⟨found.reverse, calls⟩
  | 0, _ + 1, _, _ => none
  | limit + 1, missing@(_ + 1), calls, found =>
    let successes := (List.range round).filterMap fun slot => outcome (calls + slot)
    searchRounds round outcome limit (missing - successes.length) (calls + round)
      ((successes.take missing).reverseAux found)

/-- Calls until `wanted` calls have succeeded, and keeps their values. A pool with several workers
makes one call per worker in each round, and drops the surplus of the last round. The outcome of the
call with number `c` is `outcome c`; `none` means that `limit` rounds did not yield enough. -/
def search (pool : Pool) (wanted : Nat) (outcome : Nat → Option α) (limit : Nat) :
    Option (Found α) :=
  searchRounds pool.workers outcome limit wanted 0 []

/-- A search that has to find room for the values first: no call is made if memory cannot keep
`wanted` values of `entryBytes` bytes each. -/
def search? (pool : Pool) (entryBytes wanted : Nat) (outcome : Nat → Option α) (limit : Nat) :
    Option (Found α) :=
  if FitsMemory entryBytes wanted then pool.search wanted outcome limit else none

end Pool

end ObliviousTransfer
