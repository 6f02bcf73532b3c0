import WasmContract.Proofs.Contract.Bytes
import WasmContract.Proofs.Contract.Host
import WasmContract.Proofs.Exports.Spelled

/-!
# The spelling of known names

Names are compared as texts, and many bytes read as the same text: whatever is not UTF-8 becomes
replacement characters. None of the names that matter has such a character, so each of them is read
from its ASCII bytes alone (`known_names_have_one_spelling`): no other bytes pass for a host
function, a required export or a name section.
-/

namespace WasmContract

open Reader Text.Utf8

/-! ### Host functions -/

namespace Host

variable {moduleName fieldName : List UInt8} {host : HostFunc}

theorem isAscii_name (h : host ∈ debug ∨ host ∈ ethereum) : IsAscii host.name := by
  have hall : ∀ host ∈ debug ++ ethereum, IsAscii host.name := by decide
  exact hall host (List.mem_append.mpr h)

/-- A host function is found under the ASCII bytes of its names, and under no others. -/
theorem lookup?_decode_eq_some_iff :
    lookup? (decode moduleName) (decode fieldName) = some host ↔ fieldName = ascii host.name ∧
      ((moduleName = ascii "debug" ∧ host ∈ debug) ∨
        (moduleName = ascii "ethereum" ∧ host ∈ ethereum)) := by
  have hdebug : IsAscii "debug" := by decide
  have hethereum : IsAscii "ethereum" := by decide
  rw [lookup?_eq_some_iff, decode_eq_ascii_iff hdebug, decode_eq_ascii_iff hethereum,
    @eq_comm _ host.name]
  refine and_congr_left fun h => decode_eq_ascii_iff (isAscii_name ?_)
  exact h.imp And.right And.right

end Host

/-! ### Name sections -/

/-- A custom section is read for names if its own name is spelled so. -/
theorem CustomSection.ofPayload_eq (payload : List UInt8) :
    CustomSection.ofPayload payload = do
      let (name, content) ← .ofExcept (sized payload)
      if name = ascii NameSection.sectionName then
        let names ← NameSection.ofPayload content
        return .names names
      else
        return .raw (decode name) content := by
  have hascii : IsAscii NameSection.sectionName := by decide
  have hname : Reader.name payload = (sized payload).map fun p => (decode p.1, p.2) := by
    rw [Reader.name, map_eq_bind, bind_apply]
    cases sized payload <;> rfl
  rw [CustomSection.ofPayload, hname]
  cases sized payload with
  | error e => rfl
  | ok p =>
    obtain ⟨name, content⟩ := p
    change (if decode name = NameSection.sectionName then _ else _) =
      if name = ascii NameSection.sectionName then _ else _
    simp only [decode_eq_ascii_iff hascii]

/-! ### Exports -/

/-- Exports are kept with their spelling and in their order. -/
theorem Contract.spelledExports_sublist {bytes : List UInt8} {c : Contract}
    (h : read bytes = .ok c) : (spelledExports c.bytes).Sublist (spelledExports bytes) := by
  obtain ⟨stream, hstream, rfl⟩ := read_eq_ok_iff.mp h
  rw [spelledExports, spelledExports, hstream.ofBytes_drop,
    ofModule, (exactStream_canonical hstream).ofBytes_drop, List.flatMap_map, List.flatMap_map]
  exact FramedSection.spelledExports_remainders_sublist hstream.exact .nil

/-- The canonical bytes spell the exports of the contract. -/
theorem Contract.map_text_spelledExports {bytes : List UInt8} {c : Contract}
    (h : read bytes = .ok c) : (spelledExports c.bytes).map SpelledExport.text = c.exports := by
  obtain ⟨stream, hstream, rfl⟩ := read_eq_ok_iff.mp h
  have hdecode := (exactStream_canonical hstream).decode_eq_ok
  rw [Module.ofStream_canonical] at hdecode
  rw [ofModule, Module.map_text_spelledExports hdecode, Module.exports_canonical]

/-- **A known name has one spelling.** The imports and exports of a module are those that its bytes
spell, read as texts. The names of an import are those of a host function only if their bytes are
those of its names, an export has a required name only if its bytes are those of the name, and a
custom section is read for names only if the bytes of its own name ask for it. The exports that a
contract keeps are spelled in its canonical bytes as they were found, in the same order. -/
theorem known_names_have_one_spelling :
    (∀ bytes m, Module.decode bytes = .ok m →
      (spelledImports bytes).map SpelledImport.text = m.entries Section.imports? ∧
      (spelledExports bytes).map SpelledExport.text = m.entries Section.exports?) ∧
    (∀ (i : SpelledImport) (host : HostFunc),
      Host.lookup? i.text.moduleName i.text.fieldName = some host ↔
        i.fieldName = ascii host.name ∧
          ((i.moduleName = ascii "debug" ∧ host ∈ Host.debug) ∨
            (i.moduleName = ascii "ethereum" ∧ host ∈ Host.ethereum))) ∧
    (∀ (e : SpelledExport) (r : RequiredExport), e.text.name = r.name ↔ e.name = ascii r.name) ∧
    (∀ payload, CustomSection.ofPayload payload = do
      let (name, content) ← .ofExcept (sized payload)
      if name = ascii NameSection.sectionName then
        let names ← NameSection.ofPayload content
        return .names names
      else
        return .raw (decode name) content) ∧
    ∀ bytes c, Contract.read bytes = .ok c →
      (spelledExports c.bytes).map SpelledExport.text = c.exports ∧
      (spelledExports c.bytes).Sublist (spelledExports bytes) :=
  ⟨fun _ _ h => ⟨Module.map_text_spelledImports h, Module.map_text_spelledExports h⟩,
    fun _ _ => Host.lookup?_decode_eq_some_iff, fun _ _ => SpelledExport.text_name_eq_iff,
    CustomSection.ofPayload_eq,
    fun _ _ h => ⟨Contract.map_text_spelledExports h, Contract.spelledExports_sublist h⟩⟩

/-- An overlong form in the name of an import makes it none of a host function, and an export whose
name is no text is dropped. The exports that are kept are spelled as they were found. -/
theorem known_names_have_one_spelling_overlong_import :
    let bytes : List UInt8 := [0x00, 0x61, 0x73, 0x6d, 0x01, 0x00, 0x00, 0x00,
      0x02, 0x14, 0x01, 0x08, 0x65, 0x74, 0x68, 0x65, 0x72, 0x65, 0x75, 0x6d,
      0x07, 0x75, 0xc1, 0xb3, 0x65, 0x47, 0x61, 0x73, 0x00, 0x00,
      0x07, 0x15, 0x03, 0x06, 0x6d, 0x65, 0x6d, 0x6f, 0x72, 0x79, 0x02, 0x00,
      0x01, 0xff, 0x00, 0x00, 0x04, 0x6d, 0x61, 0x69, 0x6e, 0x00, 0x00]
    let i : SpelledImport := ⟨ascii "ethereum", [0x75, 0xc1, 0xb3, 0x65, 0x47, 0x61, 0x73], .func 0⟩
    let m : Module := { sections := [.imports [⟨"ethereum", "u\ufffd\ufffdeGas", .func 0⟩],
      .exports [⟨"memory", .memory, 0⟩, ⟨"\ufffd", .func, 0⟩, ⟨"main", .func, 0⟩]] }
    let c : Contract := {
      imports := [⟨"ethereum", "u\ufffd\ufffdeGas", .func 0⟩]
      exports := [⟨"memory", .memory, 0⟩, ⟨"main", .func, 0⟩]
      bytes := bytes.take 30 ++ [0x07, 0x11, 0x02, 0x06, 0x6d, 0x65, 0x6d, 0x6f, 0x72, 0x79, 0x02,
        0x00, 0x04, 0x6d, 0x61, 0x69, 0x6e, 0x00, 0x00] }
    Module.decode bytes = .ok m ∧ spelledImports bytes = [i] ∧
      m.entries Section.imports? = [i.text] ∧
      (∀ host, Host.lookup? i.text.moduleName i.text.fieldName ≠ some host) ∧
      Contract.read bytes = .ok c ∧
      spelledExports c.bytes = [⟨ascii "memory", .memory, 0⟩, ⟨ascii "main", .func, 0⟩] ∧
      (spelledExports c.bytes).map SpelledExport.text = c.exports ∧
      (spelledExports c.bytes).Sublist (spelledExports bytes) := by
  intro bytes i m c
  obtain ⟨hentries, hlookup, -, -, hread⟩ := known_names_have_one_spelling
  have hm : Module.decode bytes = .ok m := by decide +kernel
  have hi : spelledImports bytes = [i] := by decide +kernel
  have himports := (hentries bytes m hm).1
  rw [hi] at himports
  have hother : ∀ host, Host.lookup? i.text.moduleName i.text.fieldName ≠ some host := by
    intro host h
    obtain ⟨hname, hhost⟩ := (hlookup i host).mp h
    have hall : ∀ host ∈ Host.debug ++ Host.ethereum, ascii host.name ≠ i.fieldName := by decide
    exact hall host (List.mem_append.mpr (hhost.imp And.right And.right)) hname.symm
  have hc : Contract.read bytes = .ok c := by decide +kernel
  obtain ⟨htext, hsublist⟩ := hread bytes c hc
  have hspelled : spelledExports c.bytes =
      [⟨ascii "memory", .memory, 0⟩, ⟨ascii "main", .func, 0⟩] := by
    decide +kernel
  exact ⟨hm, hi, himports.symm, hother, hc, hspelled, htext, hsublist⟩

end WasmContract
