import Mathlib
import ObliviousTransfer.Proofs.ChunkedSums

/-!
# Verdicts of an extension's sender

The sender of an extension looks up blocks and challenges by chunks, and cuts off the blocks of the
padding. The numbers of all of them follow from the size of the matrix, which has been compared
before, so every lookup succeeds (`send?_eq_some`). The sizes alone decide about the two errors that
name sizes (`hasVerdict_send`).
-/

namespace ObliviousTransfer

namespace Extension

open Correlated

/-! ## Outputs -/

theorem outputs?_eq_some (t : Transcript) {blocks : List Block} {count : Nat}
    (hcount : count ≤ blocks.length) (pool : Pool) :
    outputs? t blocks count pool = some (outputs t (blocks.take count) pool) := by
  have hlength : (blocks.take count).length = count := by simp [hcount]
  rw [eq_map_range hlength 0, outputs_map_range]
  refine pool.mapRange?_eq_some (by simp) fun j hj => ?_
  rw [List.length_map, List.length_range] at hj
  have hblock : blocks[j]? = some ((blocks.take count).getD j 0) := by
    rw [List.getD_eq_getElem?_getD, List.getElem?_take_of_lt hj,
      List.getElem?_eq_getElem (Nat.lt_of_lt_of_le hj hcount), Option.getD_some]
  rw [hblock, List.getElem_map, List.getElem_range]
  rfl

/-! ## Batches -/

/-- Blocks, challenges and outputs are there for every message. -/
theorem send?_eq_some (t : Transcript) (setup : SendSetup) (batch : BatchSize) (message : Message)
    (pool : Pool) : send? t setup batch message pool = some (send t setup batch message pool) := by
  by_cases hzero : batch.bytes = 0
  · rw [send?, send, if_pos hzero, if_pos hzero]
  rw [send?, send, if_neg hzero, if_neg hzero, Correlated.send?_eq_some]
  cases hblocks : Correlated.send t setup batch.rowLength message.extend pool with
  | error e => rfl
  | ok blocks =>
    have hlength := length_of_send_eq_ok hblocks
    have hcount : 8 * batch.bytes ≤ blocks.length := by
      rw [hlength]
      exact Nat.mul_le_mul_left 8 (Nat.le_add_right ..)
    have hkept : ((blocks.take (8 * batch.bytes)).map (· ^^^ setup.delta)).length =
        8 * batch.bytes := by
      simp [hcount]
    have hsums := checkSums?_eq_some (length_challenges t message.extend blocks.length).ge pool
    have hv0 := outputs?_eq_some t hcount pool
    have hv1 := outputs?_eq_some t (Nat.le_of_eq hkept.symm) pool
    rw [List.take_of_length_le (Nat.le_of_eq hkept)] at hv1
    simp only [bind, Option.bind, Except.bind, hsums, hv0, hv1, front?_eq_some hcount]
    split <;> rfl

/-! ## Verdicts on sizes -/

section

variable (t : Transcript) (setup : SendSetup) (batch : BatchSize) (message : Message) (pool : Pool)

/-- A matrix of the wrong size is refused with both sizes. -/
theorem send_eq_batchSizeMismatch (hpos : batch.bytes ≠ 0)
    (hlength : message.extend.u.length ≠ baseCount * (batch.bytes + paddingBytes)) :
    send t setup batch message pool = .error
      (.batchSizeMismatch (baseCount * (batch.bytes + paddingBytes)) message.extend.u.length) := by
  have hrow : batch.rowLength.bytes ≠ 0 := Nat.ne_of_gt (Nat.add_pos_right _ (by decide))
  have hsend : Correlated.send t setup batch.rowLength message.extend pool = .error
      (.batchSizeMismatch (baseCount * (batch.bytes + paddingBytes)) message.extend.u.length) := by
    rw [Correlated.send, if_neg hrow]
    exact if_pos hlength
  rw [send, if_neg hpos, hsend]
  rfl

/-- A matrix of the right size is left to the check; behind it there are two outputs for each
item. -/
theorem send_eq_check (hpos : batch.bytes ≠ 0)
    (hlength : message.extend.u.length = baseCount * (batch.bytes + paddingBytes)) :
    send t setup batch message pool = .error .consistencyCheckFailed ∨
      ∃ output, send t setup batch message pool = .ok output ∧
        output.v0.length = 8 * batch.bytes ∧ output.v1.length = 8 * batch.bytes := by
  rw [send_eq (agree_doubled setup) t hpos hlength pool]
  split
  · exact .inr ⟨_, rfl, by simp [sendOutput], by simp [sendOutput]⟩
  · exact .inl rfl

/-- What the sender answers depends on the sizes first: an empty batch, then a matrix of the wrong
size, are refused with their sizes, and everything else is left to the check. -/
def HasVerdict (verdict : Except OTError SendOutput) : Prop :=
  (verdict = .error (.invalidBatchSize 0) ↔ batch.bytes = 0) ∧
  (batch.bytes ≠ 0 →
    (∀ expected actual, verdict = .error (.batchSizeMismatch expected actual) ↔
      message.extend.u.length ≠ baseCount * (batch.bytes + paddingBytes) ∧
      expected = baseCount * (batch.bytes + paddingBytes) ∧ actual = message.extend.u.length) ∧
    (message.extend.u.length = baseCount * (batch.bytes + paddingBytes) →
      verdict = .error .consistencyCheckFailed ∨
        ∃ output, verdict = .ok output ∧
          output.v0.length = 8 * batch.bytes ∧ output.v1.length = 8 * batch.bytes))

theorem hasVerdict_send : HasVerdict batch message (send t setup batch message pool) := by
  by_cases hzero : batch.bytes = 0
  · refine ⟨⟨fun _ => hzero, fun _ => ?_⟩, fun hpos => absurd hzero hpos⟩
    rw [send, if_pos hzero]
    rfl
  by_cases hlength : message.extend.u.length = baseCount * (batch.bytes + paddingBytes)
  · have hcheck := send_eq_check t setup batch message pool hzero hlength
    have honly {e : OTError} (h : send t setup batch message pool = .error e) :
        e = .consistencyCheckFailed := by
      rcases hcheck with herror | ⟨output, hok, -⟩
      · exact (Except.error.inj (herror.symm.trans h)).symm
      · exact nomatch hok.symm.trans h
    refine ⟨⟨fun h => (nomatch honly h), fun h => absurd h hzero⟩,
      fun _ => ⟨fun _ _ => ?_, fun _ => hcheck⟩⟩
    exact ⟨fun h => (nomatch honly h), fun h => absurd hlength h.1⟩
  · rw [send_eq_batchSizeMismatch t setup batch message pool hzero hlength]
    refine ⟨⟨nofun, fun h => absurd h hzero⟩, fun _ => ⟨fun _ _ => ?_, fun h => absurd h hlength⟩⟩
    rw [Except.error.injEq, OTError.batchSizeMismatch.injEq, eq_comm,
      eq_comm (a := message.extend.u.length)]
    exact ⟨fun h => ⟨hlength, h⟩, fun h => h.2⟩

end

/-- Outputs come in equal numbers. -/
theorem length_of_send_eq_ok {t : Transcript} {setup : SendSetup} {batch : BatchSize}
    {message : Message} {pool : Pool} {output : SendOutput}
    (h : send t setup batch message pool = .ok output) :
    output.v0.length = 8 * batch.bytes ∧ output.v1.length = 8 * batch.bytes := by
  by_cases hzero : batch.bytes = 0
  · rw [send, if_pos hzero] at h
    cases h
  by_cases hlength : message.extend.u.length = baseCount * (batch.bytes + paddingBytes)
  · rcases send_eq_check t setup batch message pool hzero hlength with
      herror | ⟨output', hok, hlengths⟩
    · exact nomatch herror.symm.trans h
    · cases hok.symm.trans h
      exact hlengths
  · exact nomatch (send_eq_batchSizeMismatch t setup batch message pool hzero hlength).symm.trans h

end Extension

end ObliviousTransfer
