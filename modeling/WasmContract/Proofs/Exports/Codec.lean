import WasmContract.Proofs.Exports.Encode
import WasmContract.Proofs.Text.Utf8

/-!
# Export sections and their bytes

Every text survives its way through bytes, so all entries within the limits are read back from the
section that is written (`Exports.portable_of_withinLimits`), and nothing else is written. Since the
bytes of a section can stand in any stream, they do not begin those of another section: different
entries are written differently, and no section that is written goes on where another one ends
(`export_sections_agree`).
-/

namespace WasmContract

open Reader

theorem Text.Utf8.length_encode (text : String) : (encode text).length = text.utf8ByteSize := by
  rw [encode, ← String.size_toByteArray, ← String.utf8Encode_toList, List.utf8Encode,
    List.size_toByteArray]

namespace Exports

variable {entries others : List Export} {bytes bytes' : List UInt8}

theorem withinLimits_iff : WithinLimits entries ↔
    entries.length ≤ maxCount ∧ ∀ e ∈ entries, e.name.utf8ByteSize ≤ maxNameLength := by
  simp only [← Text.Utf8.length_encode]
  exact ⟨fun h => ⟨h.count, h.nameLength⟩, fun h => ⟨h.1, h.2⟩⟩

/-- All entries that are written can be read back. -/
theorem portable_of_withinLimits (h : WithinLimits entries) : Portable entries where
  toWithinLimits := h
  faithful e _ := Text.Utf8.decode_encode e.name

/-- Of the two reasons not to write entries, their number comes first. -/
theorem fault?_eq_some_iff {fault : DecodeError} : fault? entries = some fault ↔
    (maxCount < entries.length ∧ fault = .exportBound .count entries.length maxCount) ∨
      (entries.length ≤ maxCount ∧
        ∃ e, entries.find? (fun e => maxNameLength < e.name.utf8ByteSize) = some e ∧
          fault = .exportBound .nameLength e.name.utf8ByteSize maxNameLength) := by
  simp only [fault?, ← Text.Utf8.length_encode]
  split
  · rename_i hcount
    simp [hcount, Nat.not_le.mpr hcount, eq_comm]
  · rename_i hcount
    simp [hcount, Nat.le_of_not_lt hcount, eq_comm]

/-- A section that is written is a frame that can stand in any stream, and holds the entries. -/
theorem exists_frame_of_encode (h : encode entries = .ok bytes) :
    ∃ frame : Frame, frame.id = SectionKind.exports.code ∧ frame.bytes = bytes ∧ frame.Intact ∧
      frame.decode = .ok (.exports entries, []) := by
  obtain ⟨hlimits, rfl⟩ := encode_eq_ok_iff.mp h
  exact ⟨_, rfl, rfl, intact_frame hlimits, decode_frame (portable_of_withinLimits hlimits)⟩

/-- **Sections that are written do not begin one another**, unless they hold the same entries. -/
theorem eq_of_encode_isPrefix (h : encode entries = .ok bytes) (h' : encode others = .ok bytes')
    (hbegins : bytes <+: bytes') : bytes = bytes' ∧ entries = others := by
  obtain ⟨frame, -, rfl, hintact, hdecode⟩ := exists_frame_of_encode h
  obtain ⟨frame', -, rfl, hintact', hdecode'⟩ := exists_frame_of_encode h'
  obtain ⟨-, rfl⟩ := hintact.eq_of_isPrefix hintact' hbegins
  cases hdecode.symm.trans hdecode'
  exact ⟨rfl, rfl⟩

end Exports

/-- **Writing and reading export sections agree.** At most 64 entries are written, with names of at
most 64 bytes; else the error reports their number, or if that is not at fault the first name that
is too long. In front of any other bytes, the bytes that are written are read as one section of
exports, and its content as the entries, with nothing left over. So different entries are written
differently, and no section that is written begins another one. -/
theorem export_sections_agree (entries : List Export) :
    ((∃ bytes, Exports.encode entries = .ok bytes) ↔
      entries.length ≤ 64 ∧ ∀ e ∈ entries, e.name.utf8ByteSize ≤ 64) ∧
    (∀ fault, Exports.encode entries = .error fault ↔
      (64 < entries.length ∧ fault = .exportBound .count entries.length 64) ∨
        (entries.length ≤ 64 ∧ ∃ e, entries.find? (fun e => 64 < e.name.utf8ByteSize) = some e ∧
          fault = .exportBound .nameLength e.name.utf8ByteSize 64)) ∧
    ∀ bytes, Exports.encode entries = .ok bytes →
      (∃ frame : Frame, frame.id = 7 ∧ frame.bytes = bytes ∧
        (∀ rest, Frame.reader (bytes ++ rest) = .ok (frame, rest)) ∧
        (Section.ofPayload frame.id frame.payload).outcome = .ok (.exports entries, [])) ∧
      ∀ others bytes', Exports.encode others = .ok bytes' →
        (bytes = bytes' → entries = others) ∧ (bytes <+: bytes' → bytes = bytes') := by
  refine ⟨?_, fun fault => Exports.encode_eq_error_iff.trans Exports.fault?_eq_some_iff,
    fun bytes h => ⟨?_, fun others bytes' h' => ⟨fun heq => ?_, fun hbegins => ?_⟩⟩⟩
  · simp only [Exports.encode_eq_ok_iff, exists_and_left, exists_eq', and_true]
    exact Exports.withinLimits_iff
  · obtain ⟨frame, hid, rfl, hintact, hdecode⟩ := Exports.exists_frame_of_encode h
    exact ⟨frame, hid, rfl, hintact, hdecode⟩
  · exact (Exports.eq_of_encode_isPrefix h h' (heq ▸ List.prefix_rfl)).2
  · exact (Exports.eq_of_encode_isPrefix h h' hbegins).1

/-- Two entries of which one has a name outside ASCII and one an index of two bytes. -/
theorem export_sections_agree_two_entries :
    let entries : List Export := [⟨"é", .global, 0⟩, ⟨"main", .func, 300⟩]
    let bytes : List UInt8 := [0x07, 0x0e, 0x02, 0x02, 0xc3, 0xa9, 0x03, 0x00, 0x04, 0x6d, 0x61,
      0x69, 0x6e, 0x00, 0xac, 0x02]
    Exports.encode entries = .ok bytes ∧
      ∃ frame : Frame, frame.id = 7 ∧ frame.bytes = bytes ∧
        (∀ rest, Frame.reader (bytes ++ rest) = .ok (frame, rest)) ∧
        (Section.ofPayload frame.id frame.payload).outcome = .ok (.exports entries, []) ∧
        Exports.encode (entries.drop 1) = .ok (0x07 :: 0x09 :: 0x01 :: bytes.drop 8) ∧
        ¬bytes <+: 0x07 :: 0x09 :: 0x01 :: bytes.drop 8 := by
  intro entries bytes
  have hbytes : Exports.encode entries = .ok bytes := by decide +kernel
  have hother : Exports.encode (entries.drop 1) = .ok (0x07 :: 0x09 :: 0x01 :: bytes.drop 8) := by
    decide +kernel
  obtain ⟨⟨frame, hid, hframe, hread, hdecode⟩, hothers⟩ :=
    (export_sections_agree entries).2.2 bytes hbytes
  refine ⟨hbytes, frame, hid, hframe, hread, hdecode, hother, fun hbegins => ?_⟩
  exact absurd ((hothers _ _ hother).2 hbegins) (by decide)

end WasmContract
