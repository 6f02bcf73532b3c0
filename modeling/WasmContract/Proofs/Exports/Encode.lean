import WasmContract.Proofs.Exports.Keep
import WasmContract.Proofs.Section.Payload
import WasmContract.Section.Encode

/-!
# Writing and reading back export sections

Unless the entries are at fault, `Exports.encode` writes the standard encoding of an export section
(`Exports.encode_eq`), although it writes the number of entries and the sizes of names as plain
bytes; they are at fault exactly when they exceed a limit (`Exports.fault?_eq_none_iff`). The
section is a frame that can stand in any stream, and decodes to the entries that were written, with
nothing left over (`Exports.intact_frame`, `Exports.decode_frame`). The entries that are kept from a
module are within the limits (`Exports.Kept.portable`).
-/

namespace WasmContract

open Reader

/-! ### Counted items -/

theorem Reader.reads_vec {α : Type} {item : Reader α} {write : α → List UInt8} {entries : List α}
    (h : ∀ a ∈ entries, item.Reads (write a) a) (hlength : entries.length < 2 ^ 32) :
    (vec item).Reads (Writer.vec write entries) entries := by
  refine (Leb128.reads_u32_encode entries.length.toUInt32).bind ?_
  rw [Leb128.toNat_toUInt32 hlength]
  exact .many h

/-- The text survives its way through bytes. -/
def Text.Utf8.Faithful (text : String) : Prop := decode (encode text) = text

/-- A text that survives its way through bytes is read back as a name. -/
theorem Reader.reads_name {text : String} (h : Text.Utf8.Faithful text)
    (hlength : (Text.Utf8.encode text).length < 2 ^ 32) :
    name.Reads (Writer.name text) text := by
  have hread := (reads_sized hlength).map Text.Utf8.decode
  rwa [h] at hread

theorem ExternalKind.reads_code (kind : ExternalKind) :
    ExternalKind.reader.Reads [kind.code] kind := by
  intro rest
  cases kind <;> rfl

theorem Export.reads_encode {e : Export} (h : Text.Utf8.Faithful e.name)
    (hlength : (Text.Utf8.encode e.name).length < 2 ^ 32) :
    Export.reader.Reads e.encode e := by
  have hread : Export.reader.Reads
      (Writer.name e.name ++ ([e.kind.code] ++ (Leb128.encode e.index ++ []))) e :=
    (reads_name h hlength).bind <| (ExternalKind.reads_code e.kind).bind <|
      (Leb128.reads_u32_encode e.index).bind (.pure e)
  rwa [List.append_nil] at hread

/-- The frame that holds the standard encoding of a section. -/
def Section.frame (s : Section) : Frame where
  id := s.kind.code
  payload := s.encodePayload
  bytes := s.encode

/-- There are twelve kinds, so a code takes one byte. -/
theorem SectionKind.code_lt (kind : SectionKind) : kind.code.toNat < 128 := by
  cases kind <;> decide

/-- A section that is written can stand in any stream. -/
theorem Section.intact_frame {s : Section} (h : s.encodePayload.length < 2 ^ 32) :
    s.frame.Intact :=
  Frame.intact_frame s.kind.code_lt h

namespace Exports

/-- The entries keep to the limits for writing. -/
structure WithinLimits (entries : List Export) : Prop where
  /-- There are not too many entries. -/
  count : entries.length ≤ maxCount
  /-- No name is too long. -/
  nameLength : ∀ e ∈ entries, (Text.Utf8.encode e.name).length ≤ maxNameLength

variable {entries : List Export}

/-! ### Writing -/

/-- Why entries are not written: there are too many of them, or else the name of one is too long, of
which the first is reported. -/
def fault? (entries : List Export) : Option DecodeError :=
  if maxCount < entries.length then some (.exportBound .count entries.length maxCount)
  else
    (entries.find? fun e => maxNameLength < (Text.Utf8.encode e.name).length).map fun e =>
      .exportBound .nameLength (Text.Utf8.encode e.name).length maxNameLength

/-- Entries are at fault if they exceed a limit. -/
theorem fault?_eq_none_iff : fault? entries = none ↔ WithinLimits entries := by
  unfold fault?
  split
  · rename_i hcount
    exact iff_of_false nofun fun h => absurd h.count (Nat.not_le.mpr hcount)
  · rename_i hcount
    rw [Option.map_eq_none_iff, List.find?_eq_none]
    simp only [decide_eq_true_eq, Nat.not_lt]
    exact ⟨fun h => ⟨Nat.le_of_not_lt hcount, h⟩, WithinLimits.nameLength⟩

/-- An entry whose name is not too long is written in its standard encoding. -/
theorem encodeEntry_eq (e : Export) :
    encodeEntry e =
      if maxNameLength < (Text.Utf8.encode e.name).length then
        .error (.exportBound .nameLength (Text.Utf8.encode e.name).length maxNameLength)
      else .ok e.encode := by
  rw [encodeEntry]
  split
  · rfl
  · rename_i hlong
    have hsize : (Text.Utf8.encode e.name).length < 128 :=
      Nat.lt_of_le_of_lt (Nat.le_of_not_lt hlong) (by decide)
    rw [Export.encode, Writer.name, Writer.sized, Leb128.encode_toUInt32 hsize]
    rfl

/-- The entries are written up to the first that has too long a name. -/
theorem mapM_encodeEntry_eq (entries : List Export) :
    entries.mapM encodeEntry =
      match entries.find? fun e => maxNameLength < (Text.Utf8.encode e.name).length with
      | none => .ok (entries.map Export.encode)
      | some e =>
        .error (.exportBound .nameLength (Text.Utf8.encode e.name).length maxNameLength) := by
  induction entries with
  | nil => rfl
  | cons e later ih =>
    rw [List.mapM_cons, ih, encodeEntry_eq]
    by_cases hlong : maxNameLength < (Text.Utf8.encode e.name).length
    · rw [if_pos hlong, List.find?_cons, decide_eq_true hlong]
      rfl
    · rw [if_neg hlong, List.find?_cons, decide_eq_false hlong]
      cases later.find? _ <;> rfl

/-- The payload is written in its standard encoding unless the entries are at fault. -/
theorem encodePayload_eq (entries : List Export) :
    encodePayload entries =
      match fault? entries with
      | none => .ok (Section.exports entries).encodePayload
      | some fault => .error fault := by
  rw [encodePayload, fault?, mapM_encodeEntry_eq]
  split
  · rfl
  · rename_i hcount
    have hcount : entries.length < 128 :=
      Nat.lt_of_le_of_lt (Nat.le_of_not_lt hcount) (by decide)
    rw [Section.encodePayload, Writer.vec, Leb128.encode_toUInt32 hcount, List.flatMap_def]
    cases entries.find? _ <;> rfl

/-- **What is written**: the standard encoding of the section, unless the entries are at fault. -/
theorem encode_eq (entries : List Export) :
    encode entries =
      match fault? entries with
      | none => .ok (Section.exports entries).encode
      | some fault => .error fault := by
  rw [encode, encodePayload_eq]
  cases fault? entries <;> rfl

theorem encode_eq_ok (h : WithinLimits entries) :
    encode entries = .ok (Section.exports entries).encode := by
  rw [encode_eq, fault?_eq_none_iff.mpr h]

theorem encodePayload_eq_ok_iff {payload : List UInt8} : encodePayload entries = .ok payload ↔
    WithinLimits entries ∧ (Section.exports entries).encodePayload = payload := by
  rw [encodePayload_eq, ← fault?_eq_none_iff]
  cases fault? entries <;> simp

/-- What is written is the standard encoding, of entries within the limits and of no others. -/
theorem encode_eq_ok_iff {bytes : List UInt8} : encode entries = .ok bytes ↔
    WithinLimits entries ∧ (Section.exports entries).encode = bytes := by
  rw [encode_eq, ← fault?_eq_none_iff]
  cases fault? entries <;> simp

/-- The fault of the entries is the error. -/
theorem encode_eq_error_iff {e : DecodeError} :
    encode entries = .error e ↔ fault? entries = some e := by
  rw [encode_eq]
  cases fault? entries <;> simp

/-- With at most 64 entries and names of at most 64 bytes, a payload is far below the size that can
be announced. -/
theorem length_encodePayload_lt (h : WithinLimits entries) :
    (Section.exports entries).encodePayload.length < 2 ^ 32 := by
  -- an entry takes at most 5 + 64 + 1 + 5 bytes
  have hentries : ∀ l : List Export,
      (∀ e ∈ l, (Text.Utf8.encode e.name).length ≤ maxNameLength) →
        (l.flatMap Export.encode).length ≤ 75 * l.length := by
    intro l hl
    induction l with
    | nil => simp
    | cons e later ih =>
      have hname := hl e List.mem_cons_self
      have hlater := ih fun k hk => hl k (List.mem_cons_of_mem e hk)
      have hindex := Leb128.length_encode_le e.index
      have hsize := Leb128.length_encode_le (Text.Utf8.encode e.name).length.toUInt32
      simp only [maxNameLength] at hname
      simp only [List.flatMap_cons, Export.encode, Writer.name, Writer.sized, List.length_append,
        List.length_cons]
      omega
  have hsum := hentries entries h.nameLength
  have hcount := Leb128.length_encode_le entries.length.toUInt32
  have hlength := h.count
  simp only [maxCount] at hlength
  rw [Section.encodePayload, Writer.vec, List.length_append]
  omega

/-! ### Reading back -/

/-- Entries that can be written and read back. -/
structure Portable (entries : List Export) : Prop extends WithinLimits entries where
  /-- The names survive their way through bytes. -/
  faithful : ∀ e ∈ entries, Text.Utf8.Faithful e.name

theorem reads_encodePayload (h : Portable entries) :
    (Section.exports <$> vec Export.reader).Reads (Section.exports entries).encodePayload
      (.exports entries) := by
  have hlength : entries.length < 2 ^ 32 := Nat.lt_of_le_of_lt h.count (by decide)
  have hname : ∀ e ∈ entries, (Text.Utf8.encode e.name).length < 2 ^ 32 :=
    fun e he => Nat.lt_of_le_of_lt (h.nameLength e he) (by decide)
  exact (reads_vec (fun e he => Export.reads_encode (h.faithful e he) (hname e he)) hlength).map _

theorem intact_frame (h : WithinLimits entries) : (Section.exports entries).frame.Intact :=
  Section.intact_frame (length_encodePayload_lt h)

theorem decode_frame (h : Portable entries) :
    (Section.exports entries).frame.decode = .ok (.exports entries, []) := by
  have hread := reads_encodePayload h []
  rw [List.append_nil] at hread
  exact hread

/-- The entries that are kept can be written and read back. -/
theorem Kept.portable (h : Kept entries) : Portable entries := by
  have hname : ∀ e ∈ entries, (Text.Utf8.encode e.name).length ≤ maxNameLength ∧
      Text.Utf8.Faithful e.name := by
    intro e he
    obtain ⟨r, hr, -⟩ := h.required e he
    rw [hr]
    cases r <;> exact ⟨by decide, by unfold Text.Utf8.Faithful; decide⟩
  exact {
    count := Nat.le_trans h.length_le (by decide)
    nameLength := fun e he => (hname e he).1
    faithful := fun e he => (hname e he).2 }

end Exports

end WasmContract
