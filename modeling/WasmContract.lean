import WasmContract.Command.Disk
import WasmContract.Contract.Canonical
import WasmContract.Main
import WasmContract.Module.WellFormed
import WasmContract.Proofs.Leb128.Unsigned
import WasmContract.Proofs.Framing
import WasmContract.Proofs.Leb128.Signed
import WasmContract.Proofs.Section.Entries
import WasmContract.Proofs.Section.Payload
import WasmContract.Proofs.Module.Header
import WasmContract.Proofs.Module.Stream
import WasmContract.Proofs.Exports.Keep
import WasmContract.Proofs.Exports.Encode
import WasmContract.Proofs.Module.Decode
import WasmContract.Proofs.Contract.Canonical
import WasmContract.Proofs.Contract.Reading
import WasmContract.Proofs.Contract.Bytes
import WasmContract.Proofs.Contract.Strictness
import WasmContract.Proofs.Contract.Verdict
import WasmContract.Proofs.Contract.Canonicalization
import WasmContract.Proofs.Contract.Host
import WasmContract.Proofs.Contract.Main
import WasmContract.Proofs.Contract.Spelling
import WasmContract.Proofs.Contract.Size
import WasmContract.Proofs.Module.RoundTrip
import WasmContract.Proofs.Module.Sections
import WasmContract.Proofs.Module.Composition
import WasmContract.Proofs.Module.Truncation
import WasmContract.Proofs.Contract.CustomSections
import WasmContract.Proofs.Contract.SectionOrder
import WasmContract.Proofs.Module.ErrorPlaces
import WasmContract.Proofs.Module.Weight
import WasmContract.Proofs.Checked.Program
import WasmContract.Proofs.Opaque.Contract
import WasmContract.Proofs.Leb128.Outcomes
import WasmContract.Proofs.Leb128.Shortest
import WasmContract.Proofs.Exports.Codec
import WasmContract.Proofs.Contract.Exports
import WasmContract.Proofs.Section.Names
import WasmContract.Proofs.Section.SelfDelimiting
import WasmContract.Proofs.Module.Scan
import WasmContract.Proofs.Module.Records
import WasmContract.Proofs.Contract.Records
import WasmContract.Proofs.Contract.Signatures
import WasmContract.Proofs.Command.Validate
import WasmContract.Proofs.Command.Dump
