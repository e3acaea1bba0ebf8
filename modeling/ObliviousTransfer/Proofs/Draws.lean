import Mathlib
import ObliviousTransfer.Random
import ObliviousTransfer.Transcript
import ObliviousTransfer.Proofs.PackedBits

/-!
# Runs of draws and of readings

What a draw does to its source: which bytes it returns, how far it moves the stream, and what
becomes of the pending failures. A request that may fail ends in one of two ways, and the number of
pending failures decides which (`run_within`); the draws of single bits never fail
(`run_packedBits`).

The readings of a transcript have no failures; here only the number of entries of a repeated reading
is of interest.
-/

namespace ObliviousTransfer

/-! ## Readings -/

theorem Reading.length_times {α : Type} (count : Nat) (read : Reading α) (r : Shake256.Reader) :
    (Reading.times count read r).1.length = count := by
  have steps (indices : List Nat) (r : Shake256.Reader) :
      ((indices.mapM fun _ => read : Reading (List α)) r).1.length = indices.length := by
    induction indices generalizing r with
    | nil => rfl
    | cons i indices ih =>
      rw [List.mapM_cons]
      exact congrArg Nat.succ (ih (read r).2)
  rw [Reading.times, steps, List.length_range]

/-! ## The outcome of a draw -/

namespace Draw

variable {σ α β : Type}

/-- A draw that succeeds hands its value and its source on to what follows. -/
theorem run_bind {x : Draw σ α} {f : α → Draw σ β} {source source' : Source σ} {a : α}
    (h : x.run.run source = (.ok a, source')) :
    (x >>= f).run.run source = (f a).run.run source' := by
  rw [ExceptT.run_bind, StateT.run_bind, h]
  rfl

/-- A draw that ends with a fault ends what follows. -/
theorem run_bind_error {x : Draw σ α} {f : α → Draw σ β} {source source' : Source σ} {fault : Fault}
    (h : x.run.run source = (.error fault, source')) :
    (x >>= f).run.run source = (.error fault, source') := by
  rw [ExceptT.run_bind, StateT.run_bind, h]
  rfl

/-- A draw that depends on a condition leaves the same two cases to what follows. -/
theorem run_bind_ite {x : Draw σ α} {f : α → Draw σ β} {source rest failed : Source σ} {a : α}
    {fault : Fault} {condition : Prop} [Decidable condition]
    (h : x.run.run source = if condition then (.ok a, rest) else (.error fault, failed)) :
    (x >>= f).run.run source =
      if condition then (f a).run.run rest else (.error fault, failed) := by
  split
  · next hcondition => exact run_bind (h.trans (if_pos hcondition))
  · next hcondition => exact run_bind_error (h.trans (if_neg hcondition))

/-- The draw returns a value with the property, unless its source has failed at every attempt. -/
-- where it could be unfolded, elaborating a statement would run the draw
@[irreducible]
def Yields (x : Draw σ α) (source : Source σ) (property : α → Prop) : Prop :=
  match (x.run.run source).1 with
  | .ok value => property value
  | .error fault => fault = .sourceFailed ∧ maxAttempts ≤ source.failures

/-- The draws in which one request may fail. -/
theorem yields_of_run {x : Draw σ α} {source rest failed : Source σ} {value : α}
    {property : α → Prop}
    (hrun : x.run.run source = if source.failures < maxAttempts then (.ok value, rest)
      else (.error .sourceFailed, failed)) (hvalue : property value) :
    x.Yields source property := by
  unfold Yields
  rw [hrun]
  by_cases h : source.failures < maxAttempts
  · rw [if_pos h]
    exact hvalue
  · rw [if_neg h]
    exact ⟨rfl, Nat.not_lt.1 h⟩

/-- A source that does not fail too often leaves only one case. -/
theorem exists_run_of_yields {x : Draw σ α} {source : Source σ} {property : α → Prop}
    (h : x.Yields source property) (hfailures : source.failures < maxAttempts) :
    ∃ value rest, x.run.run source = (.ok value, rest) ∧ property value := by
  unfold Yields at h
  generalize hrun : x.run.run source = run at h
  obtain ⟨fault | value, rest⟩ := run
  · exact absurd h.2 (Nat.not_le.2 hfailures)
  · exact ⟨value, rest, rfl, h⟩

end Draw

/-! ## The source behind a draw -/

variable {σ : Type} [ByteStream σ]

theorem ByteStream.skip_add (a b : Nat) (s : σ) : skip (a + b) s = skip b (skip a s) := by
  induction a generalizing s with
  | zero => rw [Nat.zero_add]; rfl
  | succ a ih => rw [Nat.succ_add]; exact ih (next s).2

/-- The source behind `count` more bytes. -/
def Source.advance (source : Source σ) (count : Nat) : Source σ :=
  { source with stream := ByteStream.skip count source.stream, taken := source.taken + count }

@[simp]
theorem Source.failures_advance (source : Source σ) (count : Nat) :
    (source.advance count).failures = source.failures := rfl

theorem Source.advance_advance (source : Source σ) (a b : Nat) :
    (source.advance a).advance b = source.advance (a + b) := by
  simp only [advance, ByteStream.skip_add, Nat.add_assoc]

namespace Draw

theorem run_bytes (count : Nat) (source : Source σ) :
    (bytes count : Draw σ Bytes).run.run source =
      (.ok (ByteStream.take count source.stream).1, source.advance count) := by
  rw [Source.advance, ← ByteStream.take_snd]
  rfl

/-! ## Requests that may fail -/

/-- A bounded number of requests succeeds if there are fewer failures than requests, and uses them
up. -/
theorem run_within (count attempts : Nat) (source : Source σ) :
    (within count attempts : Draw σ Bytes).run.run source =
      if source.failures < attempts then
        (.ok (ByteStream.take count source.stream).1, { source.advance count with failures := 0 })
      else (.error .sourceFailed, { source with failures := source.failures - attempts }) := by
  induction attempts generalizing source with
  | zero => rfl
  | succ attempts ih =>
    obtain ⟨stream, taken, failures, patience⟩ := source
    cases failures with
    | zero =>
      rw [if_pos (Nat.succ_pos attempts)]
      exact run_bytes count _
    | succ failures =>
      -- this request fails, and leaves one failure and one attempt less
      simp only [Nat.succ_lt_succ_iff, Nat.succ_sub_succ]
      exact ih ⟨stream, taken, failures, patience⟩

theorem run_filled (count : Nat) (source : Source σ) :
    (filled count : Draw σ Bytes).run.run source =
      if source.failures < maxAttempts then
        (.ok (ByteStream.take count source.stream).1, { source.advance count with failures := 0 })
      else (.error .sourceFailed, { source with failures := source.failures - maxAttempts }) :=
  run_within count maxAttempts source

/-! ## Random bits -/

/-- The lowest bit of the word with a given number, counted from the position of the stream. -/
def wordBit (s : σ) (k : Nat) : Bool :=
  (Bytes.toNatLE (ByteStream.take 4 (ByteStream.skip (4 * k) s)).1).testBit 0

private theorem run_words (count : Nat) (source : Source σ) :
    ((List.range count).mapM fun _ => (word : Draw σ Nat)).run.run source =
      (.ok ((List.range count).map fun k =>
        Bytes.toNatLE (ByteStream.take 4 (ByteStream.skip (4 * k) source.stream)).1),
        source.advance (4 * count)) := by
  induction count with
  | zero => rfl
  | succ count ih =>
    have last : ([count].mapM fun _ => (word : Draw σ Nat)).run.run (source.advance (4 * count)) =
        (.ok [Bytes.toNatLE (ByteStream.take 4 (ByteStream.skip (4 * count) source.stream)).1],
          source.advance (4 * (count + 1))) := by
      rw [Nat.mul_succ, ← Source.advance_advance, List.mapM_cons, word, bind_assoc,
        run_bind (run_bytes 4 _)]
      rfl
    rw [List.range_succ, List.mapM_append, run_bind ih, run_bind last, List.map_append]
    rfl

/-- Random bits are the lowest bits of as many words. -/
theorem run_packedBits (count : Nat) (source : Source σ) :
    (packedBits count : Draw σ Bytes).run.run source =
      (.ok (Bits.pack ((List.range count).map (wordBit source.stream))),
        source.advance (4 * count)) := by
  rw [packedBits, run_bind (run_words count source), List.map_map]
  rfl

end Draw

end ObliviousTransfer
