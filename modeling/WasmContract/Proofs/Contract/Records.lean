import WasmContract.Proofs.Contract.Canonicalization
import WasmContract.Proofs.Module.Records

/-!
# The records of canonicalisation

What is reported on the way to canonical bytes mirrors what comes of it. Subsections of name
sections aside, the strict reader reports the name of each custom section that it drops, and the
bytes that a section leaves unread, at which it stops (`Contract.reports_absorb`). If the contract
is valid there is one more record, about its size, and none about a rule that is broken
(`canonicalization_is_reported`).
-/

namespace WasmContract

open Logged

/-- The name of a custom section; nothing for a section of another kind. -/
def Section.customName? : Section → Option String
  | custom content => some content.name
  | _ => none

/-- The name of the custom section in a frame, as it stands at the front of the payload; nothing for
a section of another kind. -/
def Frame.customName? (frame : Frame) : Option String :=
  if frame.id = SectionKind.custom.code then (Reader.name frame.payload).toOption.map Prod.fst
  else none

/-- The record about an error of the strict reader: bytes that a section leaves unread are reported,
other errors are not. -/
def DecodeError.unreadRecord? : DecodeError → Option Record
  | trailingBytes kind count => some (.unread kind count)
  | _ => none

variable {bytes unread : List UInt8} {frame : Frame} {content : Section} {cause : DecodeError}
  {p : PlacedFrame} {c : Contract}

/-! ### Single frames -/

/-- A custom section has the name that its payload starts with. -/
theorem Frame.customName?_of_decode (h : frame.decode = .ok (content, unread)) :
    frame.customName? = content.customName? := by
  have hid := id_of_decode h
  cases content with
  | custom content =>
    have hid : frame.id = SectionKind.custom.code := hid
    rw [decode_of_id_custom hid, Except.map_eq_ok_iff] at h
    obtain ⟨found, hfound, hcontent⟩ := h
    cases hcontent
    obtain ⟨name, rest, hname, hfound⟩ := CustomSection.outcome_ofPayload_eq_ok_iff.mp hfound
    rw [customName?, if_pos hid, hname]
    rcases hfound with ⟨rfl, names, -, rfl⟩ | ⟨-, rfl⟩ <;> rfl
  | _ =>
    have hne : frame.id ≠ SectionKind.custom.code := by
      rw [hid, Section.kind]
      decide
    rw [customName?, if_neg hne]
    rfl

theorem DecodeError.unreadRecord?_eq_some_iff {r : Record} : cause.unreadRecord? = some r ↔
    ∃ kind count, cause = .trailingBytes kind count ∧ r = .unread kind count := by
  cases cause <;> simp [unreadRecord?, eq_comm]

theorem DecodeError.unreadRecord?_eq_none_iff :
    cause.unreadRecord? = none ↔ ∀ kind count, cause ≠ .trailingBytes kind count := by
  cases cause <;> simp [unreadRecord?]

/-- Bytes that are at fault themselves are not reported as unread. -/
theorem DecodeError.unreadRecord?_of_ofBytes (h : cause.OfBytes) : cause.unreadRecord? = none := by
  cases cause with
  | trailingBytes kind count => exact h.elim
  | _ => rfl

namespace Contract

/-- A section that was read is reported if it is dropped for being custom. -/
theorem sectionRecords_absorbSection (c : Contract) (bytes : List UInt8) (content : Section) :
    (c.absorbSection bytes content).sectionRecords =
      (content.customName?.map Record.dropped).toList := by
  cases content <;> rfl

/-- Of a frame that is decoded strictly, the name of a custom section is reported. -/
theorem sectionRecords_absorb_of_ok (c : Contract) (h : frame.decodeStrictly = .ok content) :
    (c.absorb frame).sectionRecords = (frame.customName?.map Record.dropped).toList := by
  have hpayload := Section.sectionRecords_ofPayload frame.id frame.payload
  have hdecode := Frame.decodeStrictly_eq_ok_iff.mp h
  rw [absorb, sectionRecords_bind_of_ok hdecode, hpayload, Frame.customName?_of_decode hdecode]
  exact sectionRecords_absorbSection c frame.bytes content

/-- Of a frame that is not, the bytes left over are reported if it fails for these. -/
theorem sectionRecords_absorb_of_error (c : Contract) (h : frame.decodeStrictly = .error cause) :
    (c.absorb frame).sectionRecords = cause.unreadRecord?.toList := by
  have hpayload := Section.sectionRecords_ofPayload frame.id frame.payload
  rw [Frame.decodeStrictly, Except.bind_eq_error_iff] at h
  rw [absorb]
  rcases h with hdecode | ⟨⟨content, unread⟩, hdecode, h⟩
  · have hquiet := DecodeError.unreadRecord?_of_ofBytes (Section.ofBytes_of_ofPayload hdecode)
    rw [sectionRecords_bind_of_error hdecode, hpayload, hquiet]
    rfl
  · rw [sectionRecords_bind_of_ok hdecode, hpayload]
    dsimp only at h
    split at h
    · cases h
    · rename_i hunread
      cases h
      rw [← List.isEmpty_iff] at hunread
      dsimp only
      rw [if_neg hunread]
      rfl

/-! ### The strict reader -/

/-- The steps of the strict reader report the custom sections that they drop and the bytes that are
left unread. -/
theorem reports_absorb : Reports Frame.decodeStrictly (fun _ => absorb)
    (fun c => Exports.Kept c.exports) add (fun p => (p.frame.customName?.map Record.dropped).toList)
    DecodeError.unreadRecord? where
  outcome _ _ frame hkept := outcome_absorb hkept frame
  inv _ part hkept := kept_add hkept part
  decoded _ c _ _ _ h := sectionRecords_absorb_of_ok c h
  failed _ c _ _ _ h := sectionRecords_absorb_of_error c h
  quiet _ h := DecodeError.unreadRecord?_of_ofBytes h

/-- The strict reader reaches the frames that are decoded strictly one after the other. -/
theorem reached_read (bytes : List UInt8) : reached (read bytes) (places bytes) =
    reached (decodeStream Frame.decodeStrictly bytes) (places bytes) := by
  rw [read_eq, reached_map]

/-- **The records of the strict reader** about sections: the custom sections that it reaches, and
last the bytes that it finds unread. -/
theorem sectionRecords_readLogged (bytes : List UInt8) :
    (readLogged bytes).sectionRecords =
      (reached (read bytes) (places bytes)).filterMap
          (fun p => p.frame.customName?.map Record.dropped) ++
        (failureRecord? DecodeError.unreadRecord? (read bytes)).toList := by
  rw [readLogged, reports_absorb.sectionRecords_traverse fun _ => Exports.Kept.nil, reached_read,
    read_eq, failureRecord?_map, List.filterMap_eq_flatMap_toList]

/-- Every frame that the strict reader reaches is read at its place, and its section is decoded
without anything left over. -/
theorem exists_decode_of_mem_reached (h : p ∈ reached (read bytes) (places bytes)) :
    Frame.reader (bytes.drop p.offset) = .ok (p.frame, bytes.drop p.stop) ∧
      ∃ s, p.frame.decode = .ok (s, []) := by
  refine ⟨reader_drop_of_mem_places (mem_of_mem_reached h), ?_⟩
  rw [reached_read] at h
  obtain ⟨s, hs⟩ := WasmContract.exists_decode_of_mem_reached h
  exact ⟨s, Frame.decodeStrictly_eq_ok_iff.mp hs⟩

/-- Validation reports nothing but its success. -/
theorem sectionRecords_validateLogged (c : Contract) (options : Options) :
    (c.validateLogged options).sectionRecords =
      match c.check options with
      | .ok () => [.valid c.imports.length c.functions.length]
      | .error _ => [] := by
  rw [validateLogged]
  cases h : c.check options with
  | ok => rfl
  | error e => rfl

end Contract

/-! ### Canonicalisation -/

/-- The records of canonicalisation about sections are those of the strict reader, and behind them
the record about a contract that is valid. -/
theorem sectionRecords_canonicalizeLogged (options : Options) (bytes : List UInt8) :
    (canonicalizeLogged options bytes).sectionRecords =
      (Contract.readLogged bytes).sectionRecords ++
        match Contract.read bytes with
        | .error _ => []
        | .ok c => (c.validateLogged options).sectionRecords := by
  rw [canonicalizeLogged]
  cases hread : Contract.read bytes with
  | error e =>
    have houtcome : ((Contract.readLogged bytes).mapError CanonicalError.decode).outcome =
        .error (.decode e) := congrArg (Except.mapError _) hread
    rw [sectionRecords_bind_of_error houtcome, sectionRecords_mapError, List.append_nil]
  | ok c =>
    have houtcome : ((Contract.readLogged bytes).mapError CanonicalError.decode).outcome =
        .ok c := congrArg (Except.mapError _) hread
    rw [sectionRecords_bind_of_ok houtcome, sectionRecords_mapError,
      sectionRecords_bind_of_eq_nil fun _ => rfl, sectionRecords_mapError]

/-- **Canonicalisation is reported** as it comes out. Subsections of name sections aside, its
records are the names of the custom sections that the strict reader reaches, in the order of the
stream, and at most one more. That is a warning about unread bytes if reading fails for these, the
numbers of imports and functions of the whole module if there are canonical bytes, and nothing if
there is any other error. -/
theorem canonicalization_is_reported (options : Options) (bytes : List UInt8) :
    let outcome := canonicalize options bytes
    let read := reached (Contract.read bytes) (places bytes)
    (∀ p ∈ read, Frame.reader (bytes.drop p.offset) = .ok (p.frame, bytes.drop p.stop) ∧
      ∃ s, p.frame.decode = .ok (s, []) ∧ p.frame.customName? = s.customName?) ∧
    ∃ last : Option Record,
      (canonicalizeLogged options bytes).sectionRecords =
        read.filterMap (fun p => p.frame.customName?.map Record.dropped) ++ last.toList ∧
      (∀ kind count, last = some (.unread kind count) ↔
        ∃ e, outcome = .error (.decode e) ∧ e.rootCause = .trailingBytes kind count) ∧
      (∀ imports functions, last = some (.valid imports functions) ↔
        ∃ canonical m, outcome = .ok canonical ∧ Module.decode bytes = .ok m ∧
          imports = (m.entries Section.imports?).length ∧
          functions = (m.entries Section.functions?).length) ∧
      (last = none ↔ ∃ e, outcome = .error e ∧
        ∀ cause kind count, e = .decode cause → cause.rootCause ≠ .trailingBytes kind count) := by
  dsimp only
  refine ⟨fun p hp => ?_, ?_⟩
  · obtain ⟨hreader, s, hs⟩ := Contract.exists_decode_of_mem_reached hp
    exact ⟨hreader, s, hs, Frame.customName?_of_decode hs⟩
  rw [sectionRecords_canonicalizeLogged, Contract.sectionRecords_readLogged, canonicalize_eq]
  cases hread : Contract.read bytes with
  | error e =>
    refine ⟨e.rootCause.unreadRecord?, List.append_nil _, fun kind count => ?_,
      fun imports functions => ?_, ?_⟩
    · simp [DecodeError.unreadRecord?_eq_some_iff]
    · simp [DecodeError.unreadRecord?_eq_some_iff]
    · simpa [DecodeError.unreadRecord?_eq_none_iff] using
        ⟨fun h cause kind count hcause => hcause ▸ h kind count,
          fun h kind count => h e kind count rfl⟩
  | ok c =>
    obtain ⟨m, hdecode, hc⟩ := Contract.eq_ofModule_of_read hread
    have himports : c.imports = m.entries Section.imports? := congrArg Contract.imports hc
    have hfunctions : c.functions = m.entries Section.functions? := congrArg Contract.functions hc
    dsimp only
    rw [Contract.sectionRecords_validateLogged, failureRecord?, Option.toList_none,
      List.append_nil]
    cases hcheck : c.check options with
    | error fault =>
      refine ⟨none, rfl, fun kind count => ?_, fun imports functions => ?_, ?_⟩ <;> simp [hcheck]
    | ok =>
      refine ⟨some (.valid c.imports.length c.functions.length), rfl, fun kind count => ?_,
        fun imports functions => ?_, ?_⟩
      · simp [hcheck]
      · simp [hcheck, hdecode, himports, hfunctions, eq_comm]
      · simp [hcheck]

/-- Two custom sections, the second with names, and a start section that leaves a byte unread. The
first two are dropped and the last one is reported, which is also why there are no canonical
bytes; a byte that is left over within the names is not reported of any section. -/
theorem canonicalization_is_reported_unread_start :
    let bytes : List UInt8 := Header.magic ++ [0x01, 0x00, 0x00, 0x00,
      0x00, 0x02, 0x01, 0x78,
      0x00, 0x0a, 0x04, 0x6e, 0x61, 0x6d, 0x65, 0x00, 0x03, 0x01, 0x6d, 0x07,
      0x08, 0x02, 0x00, 0x07]
    let first : PlacedFrame := ⟨8, 0x00, [0x01, 0x78], [0x00, 0x02, 0x01, 0x78]⟩
    let e : ModuleError := .inSection 0x08 24 (.trailingBytes .start 1)
    canonicalize {} bytes = .error (.decode e) ∧
      (canonicalizeLogged {} bytes).records = [.dropped "x", .subsectionSkipped 0 1 3,
        .dropped "name", .unread .start 1] ∧
      (canonicalizeLogged {} bytes).sectionRecords =
        [.dropped "x", .dropped "name"] ++ [.unread .start 1] ∧
      first ∈ reached (Contract.read bytes) (places bytes) ∧
      Frame.reader (bytes.drop 8) = .ok (first.frame, bytes.drop 12) := by
  intro bytes first e
  have hresult : canonicalize {} bytes = .error (.decode e) := by decide +kernel
  have hfirst : first ∈ reached (Contract.read bytes) (places bytes) := by decide +kernel
  have hnames : (reached (Contract.read bytes) (places bytes)).filterMap
      (fun p => p.frame.customName?.map Record.dropped) = [.dropped "x", .dropped "name"] := by
    decide +kernel
  obtain ⟨hframes, last, hrecords, hunread, -, -⟩ := canonicalization_is_reported {} bytes
  have hlast : last = some (.unread .start 1) := (hunread .start 1).mpr ⟨e, hresult, rfl⟩
  rw [hnames, hlast] at hrecords
  exact ⟨hresult, by decide +kernel, hrecords, hfirst, (hframes first hfirst).1⟩

end WasmContract
