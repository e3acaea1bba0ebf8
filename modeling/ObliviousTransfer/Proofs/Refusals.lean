import Mathlib
import ObliviousTransfer.Proofs.Multiplication
import ObliviousTransfer.Proofs.SetupAgreement

/-!
# Refusals

A call ends with a value, with an error because of what was received or asked for, or with a fault
of the source. An error leaves the source as it was: no byte has been taken and no pending failure
used up (`Call.eq_of_refuses`), so that what is drawn later does not depend on the calls that were
refused.

A receiver receives nothing before its first message, so there is little that it could refuse: an
empty batch, and in the setup a proof that does not verify. Both are found before the first draw.
Behind it, the choices are padded and all rows are stretched to one length, so that the errors of
the inner calls cannot come up; a multiplication draws first, but its encoding is never empty.

## Shape of the proof

`Draw.Refuses` names the source that a refusal ends with. The lemmas on it follow the ways in which
draws are put together; there is one lemma for each call that draws and can refuse, and all other
calls get no source (`Call.run`).
-/

namespace ObliviousTransfer

/-! ## Draws that refuse -/

namespace Draw

variable {σ α β : Type} {source rest : Source σ} {e : OTError}

/-- The draw ends with an error of the exchange, and with the source `rest`. -/
-- like `Yields`, it stays closed so that no draw is run
@[irreducible]
def Refuses (x : Draw σ (Except OTError α)) (source : Source σ) (e : OTError)
    (rest : Source σ) : Prop :=
  x.run.run source = (.ok (.error e), rest)

theorem refuses_iff (x : Draw σ (Except OTError α)) :
    x.Refuses source e rest ↔ x.run.run source = (.ok (.error e), rest) := by
  unfold Refuses
  exact Iff.rfl

/-- Without a draw, the source stays. -/
theorem refuses_pure_iff (result : Except OTError α) :
    (pure result : Draw σ (Except OTError α)).Refuses source e rest ↔
      result = .error e ∧ rest = source := by
  rw [refuses_iff]
  constructor
  · rintro ⟨⟩
    exact ⟨rfl, rfl⟩
  · rintro ⟨rfl, rfl⟩
    rfl

/-- A draw refuses if what follows its first value does. -/
theorem refuses_bind_iff (x : Draw σ β) (f : β → Draw σ (Except OTError α)) :
    (x >>= f).Refuses source e rest ↔
      ∃ value behind, x.run.run source = (.ok value, behind) ∧ (f value).Refuses behind e rest := by
  simp only [refuses_iff]
  generalize hrun : x.run.run source = run
  obtain ⟨fault | value, behind⟩ := run
  · rw [run_bind_error hrun]
    refine iff_of_false nofun ?_
    rintro ⟨_, _, ⟨⟩, -⟩
  · rw [run_bind hrun]
    refine ⟨fun h => ⟨value, behind, rfl, h⟩, ?_⟩
    rintro ⟨_, _, ⟨⟩, h⟩
    exact h

/-- What is made of a value changes nothing about the errors. -/
theorem refuses_map_iff (x : Draw σ (Except OTError α)) (f : α → β) :
    (do return (← x).map f : Draw σ (Except OTError β)).Refuses source e rest ↔
      x.Refuses source e rest := by
  rw [refuses_bind_iff]
  simp only [refuses_pure_iff]
  rw [refuses_iff]
  constructor
  · rintro ⟨error | value, behind, hrun, herror, rfl⟩
    · cases herror
      exact hrun
    · cases herror
  · intro hrun
    exact ⟨.error e, rest, hrun, rfl, rfl⟩

/-- A draw that cannot be followed by an error does not refuse. -/
theorem not_refuses_of_forall_ok {x : Draw σ β} {f : β → Draw σ (Except OTError α)}
    (h : ∀ value behind, ¬(f value).Refuses behind e rest) : ¬(x >>= f).Refuses source e rest := by
  rw [refuses_bind_iff]
  rintro ⟨value, behind, -, hrefuses⟩
  exact h value behind hrefuses

end Draw

/-! ## Calls that draw and can refuse -/

section

variable {σ : Type} [ByteStream σ] {source rest : Source σ} {e : OTError}

/-- The receiver of correlated transfers refuses the empty batch and nothing else. -/
theorem Correlated.receive_eq_error_iff (t : Transcript) (setup : ReceiveSetup) (choices : Bytes)
    (pool : Pool) (e : OTError) :
    receive t setup choices pool = .error e ↔ choices = [] ∧ e = .invalidBatchSize 0 := by
  by_cases hchoices : choices.length = 0
  · rw [receive, if_pos hchoices, and_iff_right (List.length_eq_zero_iff.1 hchoices)]
    show Except.error (OTError.invalidBatchSize 0) = _ ↔ _
    rw [Except.error.injEq, eq_comm (b := e)]
  · rw [receive_eq_ok t setup hchoices pool]
    refine iff_of_false ?_ fun h => hchoices (List.length_eq_zero_iff.2 h.1)
    rintro ⟨⟩

namespace Extension

open Correlated

/-- The receiver of an extension refuses the empty batch, before it asks for its padding. -/
theorem refuses_receive_iff (t : Transcript) (setup : ReceiveSetup) (choices : Bytes)
    (pool : Pool) :
    (receive t setup choices pool : Draw σ _).Refuses source e rest ↔
      choices = [] ∧ e = .invalidBatchSize 0 ∧ rest = source := by
  by_cases hchoices : choices.length = 0
  · rw [receive, if_pos hchoices, and_iff_right (List.length_eq_zero_iff.1 hchoices),
      Draw.refuses_pure_iff, Except.error.injEq, eq_comm (b := e)]
  · rw [receive, if_neg hchoices]
    refine iff_of_false (Draw.not_refuses_of_forall_ok fun padding behind => ?_) fun h =>
      hchoices (List.length_eq_zero_iff.2 h.1)
    rw [receiveWith_eq t setup hchoices pool, Draw.refuses_pure_iff]
    rintro ⟨⟨⟩, -⟩

end Extension

namespace AdditiveTransfer

open Correlated

theorem refuses_init_iff (t : Transcript) (setup : ReceiveSetup) (choices : Bytes) (pool : Pool) :
    (Receiver.init t setup choices pool : Draw σ _).Refuses source e rest ↔
      choices = [] ∧ e = .invalidBatchSize 0 ∧ rest = source :=
  (Draw.refuses_map_iff _ _).trans (Extension.refuses_receive_iff ..)

end AdditiveTransfer

namespace Multiply

open Correlated

/-- The receiver of a multiplication refuses nothing: whatever it has drawn, its choices are no
empty batch. -/
theorem not_refuses_init (t : Transcript) (setup : ReceiveSetup) (beta : Scalar) (pool : Pool) :
    ¬(Receiver.init t setup beta pool : Draw σ _).Refuses source e rest := by
  refine Draw.not_refuses_of_forall_ok fun noise behind => ?_
  rw [Draw.refuses_map_iff, AdditiveTransfer.refuses_init_iff]
  rintro ⟨hempty, -, -⟩
  exact length_encodeWith_ne_zero beta (publicGadget t) noise (List.length_eq_zero_iff.2 hempty)

end Multiply

/-- A proof is refused if and only if it does not verify. -/
theorem RandomTransfer.init_eq_error_iff {P : Type} [PointGroup P] [DecidableEq P] (t : Transcript)
    (message : SetupMessage P) (e : OTError) :
    Receiver.init t message = .error e ↔
      message.proof.verify (t.fork setupDomain []) = false ∧ e = .invalidDLogProof := by
  unfold Receiver.init
  cases message.proof.verify (t.fork setupDomain []) with
  | false =>
    show Except.error OTError.invalidDLogProof = _ ↔ _
    rw [Except.error.injEq, eq_comm (b := e), and_iff_right rfl]
  | true => exact iff_of_false nofun nofun

namespace Correlated

/-- The sender of a setup refuses a proof before it draws `Δ`. -/
theorem refuses_init_iff {P : Type} [PointGroup P] [DecidableEq P] (t : Transcript) (pool : Pool)
    (message : RandomTransfer.SetupMessage P) :
    (SetupSender.init t pool message : Draw σ _).Refuses source e rest ↔
      message.proof.verify ((t.fork setupDomain []).fork RandomTransfer.setupDomain []) = false ∧
        e = .invalidDLogProof ∧ rest = source := by
  rw [← and_assoc, ← RandomTransfer.init_eq_error_iff]
  unfold SetupSender.init
  dsimp only
  cases RandomTransfer.Receiver.init (t.fork setupDomain []) message with
  | error refusal =>
    dsimp only
    rw [Draw.refuses_pure_iff, Except.error.injEq, Except.error.injEq]
  | ok base =>
    dsimp only
    refine iff_of_false (Draw.not_refuses_of_forall_ok fun delta _ =>
      Draw.not_refuses_of_forall_ok fun secrets behind => ?_) nofun
    rw [Draw.refuses_pure_iff]
    rintro ⟨⟨⟩, -⟩

end Correlated

end

/-! ## All calls that can refuse -/

section

open Correlated

/-- A call of an operation that can refuse, with all its arguments. -/
inductive Call (P : Type) : Type → Type
  | transposeBits (rows : List Bytes) (batchBytes : Nat) (pool : Pool) : Call P (List Block)
  | acceptSender (t : Transcript) (message : RandomTransfer.SetupMessage P) :
      Call P (RandomTransfer.Receiver P)
  | reveal (state : RandomTransfer.Challenged) (message : RandomTransfer.ResponseMessage) :
      Call P (RandomTransfer.Pads × RandomTransfer.OpeningMessage)
  | verify (state : RandomTransfer.Responded) (message : RandomTransfer.OpeningMessage) :
      Call P Block
  | setupSender (t : Transcript) (pool : Pool) (message : RandomTransfer.SetupMessage P) :
      Call P (SetupSender × SetupChoices P)
  | revealSetup (state : SetupReceiverChallenged) (message : SetupResponses) :
      Call P (ReceiveSetup × SetupOpenings)
  | finishSetup (state : SetupSenderResponded) (message : SetupOpenings) : Call P SendSetup
  | receiveCorrelated (t : Transcript) (setup : ReceiveSetup) (choices : Bytes) (pool : Pool) :
      Call P (List Block × ExtendMessage)
  | sendCorrelated (t : Transcript) (setup : SendSetup) (rowLength : RowLength)
      (message : ExtendMessage) (pool : Pool) : Call P (List Block)
  | receiveExtended (t : Transcript) (setup : ReceiveSetup) (choices : Bytes) (pool : Pool) :
      Call P (List Block × Extension.Message)
  | sendExtended (t : Transcript) (setup : SendSetup) (batch : Extension.BatchSize)
      (message : Extension.Message) (pool : Pool) : Call P Extension.SendOutput
  | receiveAdditive (t : Transcript) (setup : ReceiveSetup) (choices : Bytes) (pool : Pool) :
      Call P (AdditiveTransfer.Receiver × Extension.Message)
  | finishAdditive (receiver : AdditiveTransfer.Receiver) (message : AdditiveTransfer.Message) :
      Call P (List AdditiveTransfer.ScalarPair)
  | sendAdditive (t : Transcript) (setup : SendSetup) (batch : Extension.BatchSize)
      (alpha : AdditiveTransfer.ScalarPair) (message : Extension.Message) (pool : Pool) :
      Call P (List AdditiveTransfer.ScalarPair × AdditiveTransfer.Message)
  | receiveProduct (t : Transcript) (setup : ReceiveSetup) (beta : Scalar) (pool : Pool) :
      Call P (Multiply.Receiver × Extension.Message)
  | finishProduct (receiver : Multiply.Receiver) (message : Multiply.Message) : Call P Scalar
  | sendProduct (sender : Multiply.Sender) (setup : SendSetup) (message : Extension.Message) :
      Call P (Scalar × Multiply.Message)

namespace Call

variable {P σ α : Type} [PointGroup P] [DecidableEq P] [ByteStream σ]

/-- Makes a call. Most calls get no source to draw from. -/
def run : Call P α → Draw σ (Except OTError α)
  | transposeBits rows batchBytes pool => pure (BitMatrix.transposeBits rows batchBytes pool)
  | acceptSender t message => pure (RandomTransfer.Receiver.init t message)
  | reveal state message => pure (state.reveal message)
  | verify state message => pure (state.verify message)
  | setupSender t pool message => SetupSender.init t pool message
  | revealSetup state message => pure (state.reveal message)
  | finishSetup state message => pure (state.finish message)
  | receiveCorrelated t setup choices pool => pure (Correlated.receive t setup choices pool)
  | sendCorrelated t setup rowLength message pool =>
    pure (Correlated.send t setup rowLength message pool)
  | receiveExtended t setup choices pool => Extension.receive t setup choices pool
  | sendExtended t setup batch message pool => pure (Extension.send t setup batch message pool)
  | receiveAdditive t setup choices pool => AdditiveTransfer.Receiver.init t setup choices pool
  | finishAdditive receiver message => pure (receiver.finish message)
  | sendAdditive t setup batch alpha message pool =>
    pure (AdditiveTransfer.send t setup batch alpha message pool)
  | receiveProduct t setup beta pool => Multiply.Receiver.init t setup beta pool
  | finishProduct receiver message => pure (receiver.finish message)
  | sendProduct sender setup message => pure (sender.send setup message)

/-- A call that refuses leaves the source as it was. -/
theorem eq_of_refuses {call : Call P α} {source rest : Source σ} {e : OTError}
    (h : call.run.Refuses source e rest) : rest = source := by
  cases call with
  | setupSender t pool message => exact ((refuses_init_iff t pool message).1 h).2.2
  | receiveExtended t setup choices pool =>
    exact ((Extension.refuses_receive_iff t setup choices pool).1 h).2.2
  | receiveAdditive t setup choices pool =>
    exact ((AdditiveTransfer.refuses_init_iff t setup choices pool).1 h).2.2
  | receiveProduct t setup beta pool => exact absurd h (Multiply.not_refuses_init t setup beta pool)
  | _ => exact ((Draw.refuses_pure_iff _).1 h).2

end Call

/-- **Refusals cost no randomness.** The receivers of correlated, extended and additive transfers
refuse the empty batch and nothing else, that of a multiplication refuses nothing, and the sender of
a setup refuses exactly the proofs that do not verify. Whatever call refuses, and whatever failures
are pending, the source is left as it was. -/
theorem refusals_leave_source_untouched {P σ : Type} [PointGroup P] [DecidableEq P] [ByteStream σ]
    (source rest : Source σ) (e : OTError) :
    (∀ t setup choices pool, Correlated.receive t setup choices pool = .error e ↔
      choices = [] ∧ e = .invalidBatchSize 0) ∧
    (∀ t setup choices pool, (Extension.receive t setup choices pool).Refuses source e rest ↔
      choices = [] ∧ e = .invalidBatchSize 0 ∧ rest = source) ∧
    (∀ t setup choices pool,
      (AdditiveTransfer.Receiver.init t setup choices pool).Refuses source e rest ↔
        choices = [] ∧ e = .invalidBatchSize 0 ∧ rest = source) ∧
    (∀ t setup beta pool, ¬(Multiply.Receiver.init t setup beta pool).Refuses source e rest) ∧
    (∀ t pool (message : RandomTransfer.SetupMessage P),
      (SetupSender.init t pool message).Refuses source e rest ↔
        message.proof.verify ((t.fork setupDomain []).fork RandomTransfer.setupDomain []) = false ∧
          e = .invalidDLogProof ∧ rest = source) ∧
    ∀ {α : Type} (call : Call P α), call.run.Refuses source e rest → rest = source :=
  ⟨fun t setup choices pool => Correlated.receive_eq_error_iff t setup choices pool e,
    Extension.refuses_receive_iff, AdditiveTransfer.refuses_init_iff, Multiply.not_refuses_init,
    Correlated.refuses_init_iff, fun _ => Call.eq_of_refuses⟩

/-- An empty batch and a proof for the point at infinity, in front of more failures than a request
outlasts. -/
theorem refusals_behind_pending_failures :
    let t := Transcript.new [7]
    let source := Source.ofTape [1, 2, 3] [] 300
    let empty : Call Exponent _ := .receiveExtended t countedKeys [] (.parallel 4)
    let atInfinity : Call Exponent _ := .setupSender t .sequential ⟨⟨0, 0, 0⟩⟩
    maxAttempts ≤ source.failures ∧
      (∃ rest, empty.run.Refuses source (.invalidBatchSize 0) rest ∧ rest = source) ∧
      ∃ rest, atInfinity.run.Refuses source .invalidDLogProof rest ∧ rest = source := by
  intro t source empty atInfinity
  have hbatch := refusals_leave_source_untouched (P := Exponent) source source (.invalidBatchSize 0)
  have hproof := refusals_leave_source_untouched (P := Exponent) source source .invalidDLogProof
  have hempty : empty.run.Refuses source (.invalidBatchSize 0) source :=
    (hbatch.2.1 t countedKeys [] (.parallel 4)).2 ⟨rfl, rfl, rfl⟩
  have hinfinity : atInfinity.run.Refuses source .invalidDLogProof source :=
    (hproof.2.2.2.2.1 t .sequential ⟨⟨0, 0, 0⟩⟩).2 ⟨if_pos rfl, rfl, rfl⟩
  exact ⟨by decide, ⟨source, hempty, hbatch.2.2.2.2.2 empty hempty⟩,
    ⟨source, hinfinity, hproof.2.2.2.2.2 atInfinity hinfinity⟩⟩

end

end ObliviousTransfer
