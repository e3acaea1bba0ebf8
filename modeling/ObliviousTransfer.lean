import ObliviousTransfer.Curve.Group
import ObliviousTransfer.Json.Parser
import ObliviousTransfer.Json.Printer
import ObliviousTransfer.Proofs.CheckBinding
import ObliviousTransfer.Proofs.ChoicePrivacy
import ObliviousTransfer.Proofs.Multiplication
import ObliviousTransfer.Proofs.SetupAgreement
import ObliviousTransfer.Proofs.TranscriptFraming
import ObliviousTransfer.Proofs.FieldPrime
import ObliviousTransfer.Proofs.PointEncoding
import ObliviousTransfer.Proofs.WireBytes
import ObliviousTransfer.Proofs.WireRoundTrip
import ObliviousTransfer.Proofs.DomainSeparation
import ObliviousTransfer.Proofs.AccessSafety
import ObliviousTransfer.Proofs.JsonForms
import ObliviousTransfer.Proofs.Accumulation
import ObliviousTransfer.Proofs.TransferBinding
import ObliviousTransfer.Proofs.KnowledgeProofs
import ObliviousTransfer.Proofs.SetupVerdicts
import ObliviousTransfer.Proofs.ScalarSearch
import ObliviousTransfer.Proofs.PoolSearch
import ObliviousTransfer.Proofs.PadStrings
import ObliviousTransfer.Proofs.Refusals
import ObliviousTransfer.Proofs.BufferFilling
import ObliviousTransfer.Proofs.BitCodecs
import ObliviousTransfer.Proofs.FramedHashes
