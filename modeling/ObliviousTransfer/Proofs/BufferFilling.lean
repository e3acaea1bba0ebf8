import Mathlib
import ObliviousTransfer.Proofs.Draws

/-!
# Filling a buffer

`Draw.filled` returns the bytes that it has requested. Here they are written to a buffer, and the
requests are counted, so that it can be said what a filling leaves behind when it gives up, and
after how many requests. Without buffer and count, a filling is the draw (`run_filled_eq_fill`).

One request either succeeds, and then moves the stream and writes all of the buffer, or uses up one
pending failure and changes nothing else (`request_of_failures_eq_zero`,
`request_of_failures_eq_succ`). By induction on the requests that are left, this gives what the loop
does for any number of failures (`within_eq`).
-/

namespace ObliviousTransfer

variable {σ : Type} [ByteStream σ]

/-- The next bytes of a stream, each read behind those before it. -/
theorem ByteStream.take_fst (count : Nat) (s : σ) :
    (take count s).1 = (List.range count).map fun i => (next (skip i s)).1 := by
  induction count generalizing s with
  | zero => rfl
  | succ count ih =>
    rw [take_succ, ih, List.range_succ_eq_map, List.map_cons, List.map_map]
    rfl

/-- Without a pending failure, a request succeeds. -/
theorem Draw.run_attempt (count : Nat) {source : Source σ} (h : source.failures = 0) :
    (attempt count : Draw σ (Option Bytes)).run.run source =
      (.ok (some (ByteStream.take count source.stream).1), source.advance count) := by
  obtain ⟨stream, taken, failures, patience⟩ := source
  obtain rfl : failures = 0 := h
  have hbytes := run_bytes count (Source.mk stream taken 0 patience)
  exact run_bind (f := fun bytes => pure (some bytes)) hbytes

/-- A buffer that is to be filled from a source. -/
structure Filling (σ : Type) where
  source : Source σ
  /-- What the buffer holds. -/
  buffer : Bytes
  /-- How many requests have been made, those that failed included. -/
  requests : Nat

namespace Filling

/-- Requests as many bytes as the buffer holds, and tells whether this succeeds. The bytes replace
those of the buffer; a request that fails leaves the buffer as it is. -/
def request (filling : Filling σ) : Bool × Filling σ :=
  match (Draw.attempt filling.buffer.length : Draw σ (Option Bytes)).run.run filling.source with
  | (.ok (some bytes), source) => (true, ⟨source, bytes, filling.requests + 1⟩)
  | (_, source) => (false, ⟨source, filling.buffer, filling.requests + 1⟩)

/-- Makes requests until one succeeds, but no more than `attempts`. -/
def within : (attempts : Nat) → Filling σ → Except Fault Unit × Filling σ
  | 0, filling => (.error .sourceFailed, filling)
  | attempts + 1, filling =>
    if filling.request.1 then (.ok (), filling.request.2) else within attempts filling.request.2

/-- Fills the buffer. -/
def fill (filling : Filling σ) : Except Fault Unit × Filling σ :=
  filling.within maxAttempts

section Requests

variable (source : Source σ) (buffer : Bytes) (requests : Nat)

theorem request_of_failures_eq_zero (h : source.failures = 0) :
    request ⟨source, buffer, requests⟩ =
      (true, ⟨source.advance buffer.length, (ByteStream.take buffer.length source.stream).1,
        requests + 1⟩) := by
  rw [request, Draw.run_attempt buffer.length h]

/-- A request that fails uses up one failure, and nothing else changes. -/
theorem request_of_failures_eq_succ {failures : Nat} (h : source.failures = failures + 1) :
    request ⟨source, buffer, requests⟩ =
      (false, ⟨{ source with failures }, buffer, requests + 1⟩) := by
  obtain ⟨stream, taken, _, patience⟩ := source
  cases h
  rfl

/-- The requests that are left meet a pending failure each, or one more than there are failures is
made, which succeeds. -/
theorem within_eq (attempts : Nat) :
    within attempts ⟨source, buffer, requests⟩ =
      if source.failures < attempts then
        (.ok (), ⟨{ source.advance buffer.length with failures := 0 },
          (ByteStream.take buffer.length source.stream).1, requests + source.failures + 1⟩)
      else (.error .sourceFailed,
        ⟨{ source with failures := source.failures - attempts }, buffer, requests + attempts⟩) := by
  induction attempts generalizing source requests with
  | zero => rfl
  | succ attempts ih =>
    obtain ⟨stream, taken, failures, patience⟩ := source
    rw [within]
    cases failures with
    | zero =>
      rw [request_of_failures_eq_zero _ buffer requests rfl, if_pos rfl,
        if_pos (Nat.succ_pos attempts)]
      rfl
    | succ failures =>
      -- one failure and one attempt less are left
      have hrequests (n : Nat) : requests + 1 + n = requests + (n + 1) := by omega
      rw [request_of_failures_eq_succ _ buffer requests rfl, if_neg Bool.false_ne_true, ih]
      simp only [Nat.succ_lt_succ_iff, Nat.succ_sub_succ, hrequests]
      rfl

/-- A filling is the draw, without the buffer and the count. -/
theorem run_filled_eq_fill :
    (Draw.filled buffer.length : Draw σ Bytes).run.run source =
      ((fill ⟨source, buffer, requests⟩).1.map fun _ => (fill ⟨source, buffer, requests⟩).2.buffer,
        (fill ⟨source, buffer, requests⟩).2.source) := by
  rw [fill, within_eq, Draw.run_filled]
  split <;> rfl

end Requests

/-- A filling returns if and only if at most 254 failures are pending. Then one request more than
that has been made, the buffer holds the next bytes of the stream, which stands right behind them,
and no failure is left. Otherwise the filling gives up after exactly 255 requests, each of which has
used up one failure; stream and buffer are as before. With the buffer as its result, a filling is
the draw. -/
theorem fill_gives_up_after_all_attempts (source : Source σ) (buffer : Bytes) :
    let result := (fill ⟨source, buffer, 0⟩).1
    let left := (fill ⟨source, buffer, 0⟩).2
    let next := (List.range buffer.length).map fun i =>
      (ByteStream.next (ByteStream.skip i source.stream)).1
    (result = .ok () ↔ source.failures ≤ 254) ∧
    (source.failures ≤ 254 →
      left.buffer = next ∧ left.requests = source.failures + 1 ∧
      left.source = ⟨ByteStream.skip buffer.length source.stream, source.taken + buffer.length, 0,
        source.patience⟩) ∧
    (255 ≤ source.failures →
      result = .error .sourceFailed ∧ left.buffer = buffer ∧ left.requests = 255 ∧
      left.source = ⟨source.stream, source.taken, source.failures - 255, source.patience⟩) ∧
    (Draw.filled buffer.length : Draw σ Bytes).run.run source =
      (result.map fun _ => left.buffer, left.source) := by
  have hdraw := run_filled_eq_fill source buffer 0
  have hfill : fill ⟨source, buffer, 0⟩ = _ := within_eq source buffer 0 maxAttempts
  rw [Nat.zero_add, Nat.zero_add, ByteStream.take_fst] at hfill
  by_cases hfew : source.failures < maxAttempts
  · have hle : source.failures ≤ 254 := Nat.le_of_lt_succ hfew
    rw [if_pos hfew] at hfill
    rw [hfill] at hdraw ⊢
    exact ⟨iff_of_true rfl hle, fun _ => ⟨rfl, rfl, rfl⟩,
      fun hmany => absurd hfew (Nat.not_lt.2 hmany), hdraw⟩
  · have hmany : 255 ≤ source.failures := Nat.not_lt.1 hfew
    rw [if_neg hfew] at hfill
    rw [hfill] at hdraw ⊢
    exact ⟨iff_of_false nofun (Nat.not_le.2 hmany), fun hle => absurd hle (Nat.not_le.2 hmany),
      fun _ => ⟨rfl, rfl, rfl, rfl⟩, hdraw⟩

/-- Behind 254 failures the last request that is made succeeds, behind 255 it fails. -/
theorem fill_at_last_attempt :
    let few := Source.ofTape [1, 2, 3] [] 254
    let many := Source.ofTape [1, 2, 3] [] 255
    (fill ⟨few, [9, 9], 0⟩).2.buffer = [1, 2] ∧ (fill ⟨few, [9, 9], 0⟩).2.requests = 254 + 1 ∧
      (fill ⟨many, [9, 9], 0⟩).1 = .error .sourceFailed ∧
      (fill ⟨many, [9, 9], 0⟩).2.buffer = [9, 9] ∧
      (fill ⟨many, [9, 9], 0⟩).2.requests = 255 := by
  intro few many
  obtain ⟨-, hreturns, -⟩ := fill_gives_up_after_all_attempts few [9, 9]
  obtain ⟨-, -, hgivesUp, -⟩ := fill_gives_up_after_all_attempts many [9, 9]
  obtain ⟨hbuffer, hrequests, -⟩ := hreturns (Nat.le_refl 254)
  obtain ⟨hfault, hkept, hall, -⟩ := hgivesUp (Nat.le_refl 255)
  have hnext : ((List.range 2).map fun i => (ByteStream.next (ByteStream.skip i few.stream)).1) =
      [1, 2] := by decide
  exact ⟨hbuffer.trans hnext, hrequests, hfault, hkept, hall⟩

end Filling

end ObliviousTransfer
