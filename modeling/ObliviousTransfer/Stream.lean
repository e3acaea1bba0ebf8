import ObliviousTransfer.Bytes

/-!
# Endless byte streams

The output of an extendable hash and the bytes of a randomness source are streams without an end: a
state that always yields one more byte. `ByteStream.take` reads several bytes and returns the state
behind them, so that the next read goes on where this one stopped.
-/

namespace ObliviousTransfer

/-- A state `σ` from which bytes can be read for ever. -/
class ByteStream (σ : Type) where
  /-- The next byte, and the state behind it. -/
  next : σ → UInt8 × σ

namespace ByteStream

variable {σ : Type} [ByteStream σ]

/-- Reads `count` bytes onto `acc`, the latest one first. -/
def takeOnto : (count : Nat) → σ → (acc : Bytes) → Bytes × σ
  | 0, s, acc => (acc.reverse, s)
  | count + 1, s, acc => takeOnto count (next s).2 ((next s).1 :: acc)

/-- The next `count` bytes, and the state behind them. -/
def take (count : Nat) (s : σ) : Bytes × σ :=
  takeOnto count s []

/-- The state behind the next `count` bytes. -/
def skip : (count : Nat) → σ → σ
  | 0, s => s
  | count + 1, s => skip count (next s).2

theorem takeOnto_eq (count : Nat) (s : σ) (acc : Bytes) :
    takeOnto count s acc = (acc.reverse ++ (take count s).1, (take count s).2) := by
  induction count generalizing s acc with
  | zero => simp [takeOnto, take]
  | succ count ih =>
    simp only [take, takeOnto]
    rw [ih, ih _ [(next s).1]]
    simp

theorem take_succ (count : Nat) (s : σ) :
    take (count + 1) s =
      ((next s).1 :: (take count (next s).2).1, (take count (next s).2).2) := by
  rw [take, takeOnto, takeOnto_eq]
  rfl

@[simp]
theorem length_take (count : Nat) (s : σ) : (take count s).1.length = count := by
  induction count generalizing s with
  | zero => rfl
  | succ count ih => simp [take_succ, ih]

@[simp]
theorem take_snd (count : Nat) (s : σ) : (take count s).2 = skip count s := by
  induction count generalizing s with
  | zero => rfl
  | succ count ih => simp [take_succ, skip, ih]

end ByteStream

end ObliviousTransfer
