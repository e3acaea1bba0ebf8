/-!
# Causes of failure

Every check that a party makes on what its peer sent has one constructor. All of them end the
exchange in progress: a failed check must never be repeated with the same inputs.
-/

namespace ObliviousTransfer

/-- Why a party refuses to go on. -/
inductive OTError where
  /-- The proof of knowledge behind the sender's point does not verify. -/
  | invalidDLogProof
  /-- The receiver of a base transfer did not answer the challenge as one of the two pads
  demands. -/
  | invalidResponse
  /-- The opened value that the receiver selected is not the hash of its pad. -/
  | invalidDecommitment
  /-- The two opened values do not hash to the challenge. -/
  | invalidChallenge
  /-- The revealed sums of an extension do not fit the extension matrix. -/
  | consistencyCheckFailed
  /-- A list or a matrix has another size than the batch demands. -/
  | batchSizeMismatch (expected actual : Nat)
  /-- The sender of a multiplication did not use one input in all transfers. -/
  | multiplicationCheckFailed
  /-- A batch of this size cannot be processed. -/
  | invalidBatchSize (size : Nat)
deriving DecidableEq, Repr

/-- The text reported for a failure. -/
def OTError.message : OTError → String
  | invalidDLogProof => "invalid proof of discrete logarithm"
  | invalidResponse => "the receiver's response does not match the challenge"
  | invalidDecommitment => "the decommitment does not match the receiver's value"
  | invalidChallenge => "the decommitments do not match the challenge"
  | consistencyCheckFailed => "monochrome check failed"
  | batchSizeMismatch expected actual =>
    "batch size mismatch: expected " ++ toString expected ++ ", got " ++ toString actual
  | multiplicationCheckFailed => "multiplication check failed"
  | invalidBatchSize size => "invalid batch size: " ++ toString size

end ObliviousTransfer
