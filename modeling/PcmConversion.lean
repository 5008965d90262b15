import PcmConversion.Rate.Rehearsal
import PcmConversion.Rate.Standard
import PcmConversion.Settings.Document
import PcmConversion.Proofs.Rate.Chunking
import PcmConversion.Proofs.Rate.Conservation
import PcmConversion.Proofs.Rate.Failures
import PcmConversion.Proofs.Rate.Renewal
import PcmConversion.Proofs.Conversion.Chunks
import PcmConversion.Proofs.Conversion.Requests
import PcmConversion.Proofs.Conversion.Safety
import PcmConversion.Proofs.Rate.Standard
import PcmConversion.Proofs.Conversion.Renewal
import PcmConversion.Proofs.Rate.Blocks
import PcmConversion.Proofs.Conversion.Length
import PcmConversion.Proofs.Numeric.Exact
import PcmConversion.Proofs.Sample.Requantisation
import PcmConversion.Proofs.Sample.Values
import PcmConversion.Proofs.Conversion.RoundTrip
import PcmConversion.Proofs.Sample.Containers
import PcmConversion.Proofs.Conversion.Canonical
import PcmConversion.Proofs.Rate.Counters
import PcmConversion.Proofs.Sample.ByteOrder
import PcmConversion.Proofs.Conversion.ByteOrder
import PcmConversion.Proofs.Conversion.Remapping
import PcmConversion.Proofs.Sample.FreeBytes
import PcmConversion.Proofs.Conversion.FreeBytes
import PcmConversion.Proofs.Sample.Truncation
import PcmConversion.Proofs.Sample.InPlace
import PcmConversion.Proofs.Sample.SignToggle
import PcmConversion.Proofs.Conversion.Values
import PcmConversion.Proofs.Conversion.Widths
import PcmConversion.Proofs.Sample.Decoding
import PcmConversion.Proofs.Sample.Downmix
import PcmConversion.Proofs.Rate.Bounds
import PcmConversion.Proofs.Rate.CallCounts
import PcmConversion.Proofs.Toml.Pairs
import PcmConversion.Proofs.Toml.Scalar
import PcmConversion.Proofs.Toml.Lines
import PcmConversion.Proofs.Toml.Records
import PcmConversion.Proofs.Settings.Sheet
