import WasmContract.Proofs.Layout
import WasmContract.Proofs.Module.Reports
import WasmContract.Proofs.Section.Spelled

/-!
# The records of the decoder

What the lenient decoder reports. Subsections of name sections aside, there is one record for each
section that is decoded before the decoder stops, at the offset of the section, and before it a
warning if the section leaves bytes unread (`PlacedFrame.records`). A section that cannot be decoded
is not reported.

This is what its steps report (`Module.reports_absorb`), one after the other. Since the strict
reader fails where the decoder gives its first warning, its errors can be told from the records
(`sections_are_reported`).
-/

namespace WasmContract

open Reader Logged

/-- What the decoder reports of the section in a frame: the bytes that the section leaves unread, if
there are any, and then the section; nothing if the frame cannot be decoded. -/
def PlacedFrame.records (p : PlacedFrame) : List Record :=
  match p.frame.decode with
  | .error _ => []
  | .ok (content, unread) =>
    (if unread = [] then [] else [.skipped content.kind unread.length p.offset]) ++
      [.decoded content.kind p.offset content.size]

/-- The error about the bytes that a section leaves unread, as a record tells of them; nothing for
other records. -/
def Record.unreadError? : Record → Option ModuleError
  | skipped kind count offset => some (.inSection kind.code offset (.trailingBytes kind count))
  | _ => none

variable {offset : Nat} {bytes front rest : List UInt8} {frame : Frame} {frames : List Frame}
  {content : Section} {unread : List UInt8} {cause : DecodeError} {p : PlacedFrame} {m : Module}
  {e : ModuleError}

/-! ### Single frames -/

theorem PlacedFrame.records_of_ok (h : p.frame.decode = .ok (content, unread)) : p.records =
    (if unread = [] then [] else [.skipped content.kind unread.length p.offset]) ++
      [.decoded content.kind p.offset content.size] := by
  rw [records, h]

theorem PlacedFrame.records_of_error (h : p.frame.decode = .error cause) : p.records = [] := by
  rw [records, h]

/-- One step of the decoder reports the section in its frame. -/
theorem Module.sectionRecords_absorb (offset : Nat) (m : Module) (frame : Frame) :
    (m.absorb offset frame).sectionRecords = PlacedFrame.records ⟨offset, frame⟩ := by
  have hpayload := Section.sectionRecords_ofPayload frame.id frame.payload
  rw [absorb]
  cases hdecode : frame.decode with
  | error cause =>
    rw [sectionRecords_bind_of_error hdecode, hpayload, PlacedFrame.records_of_error hdecode]
  | ok found =>
    obtain ⟨content, unread⟩ := found
    rw [sectionRecords_bind_of_ok hdecode, hpayload, PlacedFrame.records_of_ok hdecode]
    cases unread <;> rfl

/-- The records of a section tell of the error about its unread bytes. -/
theorem PlacedFrame.findSome?_records (p : PlacedFrame) :
    p.records.findSome? Record.unreadError? = p.unreadError? := by
  cases hdecode : p.frame.decode with
  | error cause =>
    rw [records_of_error hdecode, unreadError?, hdecode]
    rfl
  | ok found =>
    rw [records_of_ok hdecode, unreadError?, hdecode, Frame.id_of_decode hdecode]
    dsimp only
    split <;> rfl

/-- Among the records of a section, the warnings are those about unread bytes. -/
theorem PlacedFrame.unreadError?_eq_none_iff {r : Record} (h : r ∈ p.records) :
    r.unreadError? = none ↔ r.level ≠ .warn := by
  cases hdecode : p.frame.decode with
  | error cause =>
    rw [records_of_error hdecode] at h
    cases h
  | ok found =>
    rw [records_of_ok hdecode] at h
    rcases List.mem_append.mp h with h | h
    · split at h
      · cases h
      · obtain rfl := List.mem_singleton.mp h
        simp [Record.unreadError?, Record.level]
    · obtain rfl := List.mem_singleton.mp h
      simp [Record.unreadError?, Record.level]

theorem Record.unreadError?_eq_some_iff {r : Record} : r.unreadError? = some e ↔
    ∃ kind count offset, r = .skipped kind count offset ∧
      e = .inSection kind.code offset (.trailingBytes kind count) := by
  cases r <;> simp [unreadError?, eq_comm, and_assoc]

/-! ### Frames in order -/

/-- Frames that were decoded hold the sections in the same order, wherever the first one starts. -/
theorem forall₂_placeFrames {parts : List FramedSection}
    (h : ∀ p ∈ parts, p.frame.decodeLeniently = .ok p.content) (offset : Nat) :
    List.Forall₂ (fun p s => p.frame.decodeLeniently = .ok s)
      (placeFrames offset (parts.map (·.frame))) (parts.map (·.content)) := by
  induction parts generalizing offset with
  | nil => exact .nil
  | cons p later ih =>
    obtain ⟨hp, hlater⟩ := List.forall_mem_cons.mp h
    exact .cons hp (ih hlater _)

/-- A frame is read at its place. -/
theorem reader_drop_of_mem_placeFrames (hframes : ∀ f ∈ frames, f.Intact)
    (h : p ∈ placeFrames front.length frames) (rest : List UInt8) :
    let bytes := front ++ (frames.flatMap Frame.bytes ++ rest)
    Frame.reader (bytes.drop p.offset) = .ok (p.frame, bytes.drop p.stop) := by
  induction frames generalizing front with
  | nil => cases h
  | cons frame later ih =>
    obtain ⟨hframe, hlater⟩ := List.forall_mem_cons.mp hframes
    rw [List.flatMap_cons, List.append_assoc]
    rcases List.mem_cons.mp h with rfl | h
    · dsimp only
      rw [PlacedFrame.stop_mk, List.drop_left, hframe, ← List.append_assoc,
        List.drop_left' List.length_append]
    · rw [← List.length_append] at h
      rw [← List.append_assoc]
      exact ih hlater h

/-! ### Streams -/

/-- The frames of a stream are read at their places. -/
theorem reader_drop_of_mem_places (h : p ∈ places bytes) :
    Frame.reader (bytes.drop p.offset) = .ok (p.frame, bytes.drop p.stop) := by
  obtain ⟨rest, hrest, -⟩ := Framing.exists_rest (bytes.drop Header.size)
  -- there are no places in a stream that is too short for a header
  have hlength : (bytes.take Header.size).length = Header.size := by
    rw [List.length_take]
    by_contra hshort
    rw [places, List.drop_eq_nil_of_le (by omega)] at h
    cases h
  rw [places, ← hlength] at h
  have hread := reader_drop_of_mem_placeFrames (Framing.intact_of_mem _) h rest
  rwa [hlength, ← hrest, List.take_append_drop] at hread

/-- The decoder reaches the frames that are decoded one after the other. -/
theorem Module.reached_decode (bytes : List UInt8) : reached (decode bytes) (places bytes) =
    reached (decodeStream Frame.decodeLeniently bytes) (places bytes) := by
  rw [decode_eq, reached_map]

/-- Every frame that the decoder reaches is decoded. -/
theorem Module.exists_decode_of_mem_reached (h : p ∈ reached (decode bytes) (places bytes)) :
    ∃ s unread, p.frame.decode = .ok (s, unread) := by
  rw [reached_decode] at h
  obtain ⟨s, hs⟩ := WasmContract.exists_decode_of_mem_reached h
  exact ⟨s, Frame.decodeLeniently_eq_ok_iff.mp hs⟩

/-- The sections of a module are in the frames of its stream. -/
theorem Module.forall₂_places (h : decode bytes = .ok m) :
    List.Forall₂ (fun p s => p.frame.decodeLeniently = .ok s) (places bytes) m.sections := by
  rw [decode_eq, Except.map_eq_ok_iff] at h
  obtain ⟨⟨header, parts⟩, hstream, rfl⟩ := h
  obtain ⟨-, hframing, hparts⟩ := framing_of_decodeStream hstream
  rw [places, hframing]
  exact forall₂_placeFrames hparts Header.size

/-- The steps of the decoder report the sections that are decoded, and no failures. -/
theorem Module.reports_absorb : Reports Frame.decodeLeniently absorb (fun _ => True) add
    PlacedFrame.records fun _ => none where
  outcome offset m frame _ := outcome_absorb offset m frame
  inv _ _ _ := trivial
  decoded offset m frame _ _ _ := sectionRecords_absorb offset m frame
  failed offset m frame cause _ h := by
    have hdecode : frame.decode = .error cause := Except.map_eq_error_iff.mp h
    rw [sectionRecords_absorb, PlacedFrame.records_of_error hdecode]
    rfl
  quiet _ _ := rfl

/-- **The records of the decoder** about sections are those of the frames that it reaches. -/
theorem Module.sectionRecords_decodeLogged (bytes : List UInt8) :
    (decodeLogged bytes).sectionRecords =
      (reached (decode bytes) (places bytes)).flatMap PlacedFrame.records := by
  rw [decodeLogged, reports_absorb.sectionRecords_traverse (fun _ => trivial), reached_decode]
  cases decodeStream Frame.decodeLeniently bytes <;> exact List.append_nil _

/-- All warnings of the decoder about sections are about bytes left unread. -/
theorem Module.unreadError?_eq_none_iff {r : Record} (h : r ∈ (decodeLogged bytes).sectionRecords) :
    r.unreadError? = none ↔ r.level ≠ .warn := by
  rw [sectionRecords_decodeLogged] at h
  obtain ⟨p, -, hr⟩ := List.mem_flatMap.mp h
  exact PlacedFrame.unreadError?_eq_none_iff hr

/-! ### The errors of the strict reader -/

namespace Contract

/-- The error of the strict reader is the first of which a record tells. -/
theorem read_eq_error_iff_findSome? (h : Module.decode bytes = .ok m) : read bytes = .error e ↔
    (Module.decodeLogged bytes).sectionRecords.findSome? Record.unreadError? = some e := by
  rw [read_eq_error_iff_of_decode h, Module.sectionRecords_decodeLogged, h,
    ← List.head?_filterMap, List.filterMap_flatMap, List.head?_flatMap]
  simp only [List.head?_filterMap, PlacedFrame.findSome?_records]
  rfl

/-- The strict reader fails with the error that the first warning tells of. -/
theorem read_eq_error_iff_first_warning (h : Module.decode bytes = .ok m) :
    read bytes = .error e ↔ ∃ before kind count offset after,
      (Module.decodeLogged bytes).sectionRecords =
        before ++ .skipped kind count offset :: after ∧
      (∀ r ∈ before, r.level ≠ .warn) ∧
      e = .inSection kind.code offset (.trailingBytes kind count) := by
  have hlevel {before after : List Record} {r : Record}
      (hsplit : (Module.decodeLogged bytes).sectionRecords = before ++ after) (hr : r ∈ before) :
      r.unreadError? = none ↔ r.level ≠ .warn :=
    Module.unreadError?_eq_none_iff (hsplit ▸ List.mem_append_left after hr)
  rw [read_eq_error_iff_findSome? h, List.findSome?_eq_some_iff]
  constructor
  · rintro ⟨before, r, after, hsplit, hr, hbefore⟩
    obtain ⟨kind, count, offset, rfl, rfl⟩ := Record.unreadError?_eq_some_iff.mp hr
    exact ⟨before, kind, count, offset, after, hsplit,
      fun r hr => (hlevel hsplit hr).mp (hbefore r hr), rfl⟩
  · rintro ⟨before, kind, count, offset, after, hsplit, hbefore, rfl⟩
    exact ⟨before, _, after, hsplit, rfl, fun r hr => (hlevel hsplit hr).mpr (hbefore r hr)⟩

/-- The strict reader fails if there is a warning, and only then. -/
theorem exists_read_eq_error_iff (h : Module.decode bytes = .ok m) :
    (∃ e, read bytes = .error e) ↔
      ∃ r ∈ (Module.decodeLogged bytes).sectionRecords, r.level = .warn := by
  constructor
  · rintro ⟨e, hread⟩
    obtain ⟨before, kind, count, offset, after, hsplit, -, -⟩ :=
      (read_eq_error_iff_first_warning h).mp hread
    refine ⟨.skipped kind count offset, ?_, rfl⟩
    rw [hsplit]
    exact List.mem_append_right before List.mem_cons_self
  · rintro ⟨r, hr, hwarn⟩
    have hfound : (Module.decodeLogged bytes).sectionRecords.findSome? Record.unreadError? ≠ none :=
      fun hnone => (Module.unreadError?_eq_none_iff hr).mp
        (List.findSome?_eq_none_iff.mp hnone r hr) hwarn
    obtain ⟨e, he⟩ := Option.ne_none_iff_exists'.mp hfound
    exact ⟨e, (read_eq_error_iff_findSome? h).mpr he⟩

end Contract

/-- **Sections are reported** one by one, as far as the decoder comes. Subsections of name sections
aside, its records are those of the frames that it reaches, each of which is read at its place and
decoded: a warning about the bytes that the section leaves unread, if there are any, and then its
kind, its offset and the number of its entries. If all sections are decoded, the strict reader fails
if and only if there is a warning among the records, and with the error that the first one tells
of. -/
theorem sections_are_reported (bytes : List UInt8) :
    let records := (Module.decodeLogged bytes).sectionRecords
    let decoded := reached (Module.decode bytes) (places bytes)
    records = decoded.flatMap PlacedFrame.records ∧
    (∀ p ∈ decoded, Frame.reader (bytes.drop p.offset) = .ok (p.frame, bytes.drop p.stop) ∧
      ∃ s unread, p.frame.decode = .ok (s, unread)) ∧
    ∀ m, Module.decode bytes = .ok m →
      List.Forall₂ (fun p s => p.frame.decodeLeniently = .ok s) decoded m.sections ∧
      ((∃ e, Contract.read bytes = .error e) ↔ ∃ r ∈ records, r.level = .warn) ∧
      ∀ e, Contract.read bytes = .error e ↔
        ∃ before kind count offset after, records = before ++ .skipped kind count offset :: after ∧
          (∀ r ∈ before, r.level ≠ .warn) ∧
          e = .inSection kind.code offset (.trailingBytes kind count) := by
  dsimp only
  refine ⟨Module.sectionRecords_decodeLogged bytes, fun p hp =>
    ⟨reader_drop_of_mem_places (mem_of_mem_reached hp), Module.exists_decode_of_mem_reached hp⟩,
    fun m h => ⟨?_, Contract.exists_read_eq_error_iff h,
      fun e => Contract.read_eq_error_iff_first_warning h⟩⟩
  rw [h]
  exact Module.forall₂_places h

/-- A section of functions whose size is padded leaves a byte unread, a subsection of a name section
leaves another, and the third section is unknown. What is reported of whole sections is reported of
the first two, with or without the third, and it tells why the first two are no contract. -/
theorem sections_are_reported_unknown_section :
    let front : List UInt8 := Header.magic ++ [0x01, 0x00, 0x00, 0x00,
      0x03, 0x84, 0x00, 0x02, 0x00, 0x01, 0x07,
      0x00, 0x0a, 0x04, 0x6e, 0x61, 0x6d, 0x65, 0x00, 0x03, 0x01, 0x6d, 0x07]
    let records : List Record := [.skipped .functions 1 8, .decoded .functions 8 2,
      .decoded .custom 15 1]
    (Module.decodeLogged front).records = [.skipped .functions 1 8, .decoded .functions 8 2,
        .subsectionSkipped 0 1 3, .decoded .custom 15 1] ∧
      Contract.read front = .error (.inSection 0x03 8 (.trailingBytes .functions 1)) ∧
      Module.decode (front ++ [0x0d, 0x00]) = .error (.inSection 0x0d 27 (.invalidSectionId 0x0d)) ∧
      (wholeBefore 27 (places (front ++ [0x0d, 0x00]))).flatMap PlacedFrame.records = records := by
  intro front records
  have hlogged : (Module.decodeLogged front).records = [.skipped .functions 1 8,
      .decoded .functions 8 2, .subsectionSkipped 0 1 3, .decoded .custom 15 1] := by
    decide +kernel
  have hdecode : Module.decode front = .ok { sections := [
      .functions [0, 1], .custom (.names { moduleName := some "m" })] } := by
    decide +kernel
  have hfail : Module.decode (front ++ [0x0d, 0x00]) =
      .error (.inSection 0x0d 27 (.invalidSectionId 0x0d)) := by
    decide +kernel
  have hrecords : (Module.decodeLogged (front ++ [0x0d, 0x00])).sectionRecords = records := by
    decide +kernel
  have hfirst : (Module.decodeLogged front).sectionRecords =
      [] ++ .skipped .functions 1 8 :: [.decoded .functions 8 2, .decoded .custom 15 1] := by
    rw [sectionRecords, hlogged]
    decide
  obtain ⟨-, -, herror⟩ := (sections_are_reported front).2.2 _ hdecode
  obtain ⟨htold, -, -⟩ := sections_are_reported (front ++ [0x0d, 0x00])
  rw [hrecords, hfail] at htold
  exact ⟨hlogged, (herror _).mpr ⟨[], .functions, 1, 8, _, hfirst, List.forall_mem_nil _, rfl⟩,
    hfail, htold.symm⟩

end WasmContract
