import WasmContract.Proofs.Module.Exact
import WasmContract.Proofs.Section.Decoded
import WasmContract.Proofs.Section.Written

/-!
# Modules through their encoding and back

The standard encoding of a well-formed module is decoded to this module, and nothing of it is passed
over. Decoded modules are well formed, so decoding is a left inverse of encoding on all of them, as
far as sizes of 32 bits reach (`Module.decode_standard_encoding`).
-/

namespace WasmContract

/-! ### Frames that are written -/

namespace Section

variable {s : Section}

/-- A section in the frame that is written of it. -/
def framed (s : Section) : FramedSection where
  frame := s.frame
  content := s

/-- The frame that is written of a section holds the section and nothing else. -/
theorem exact_framed (hs : s.WellFormed) (hfits : s.Fits) : s.framed.Exact where
  intact := intact_frame hfits
  decode := (yields_ofPayload hs hfits).outcome

theorem join_map_framed (sections : List Section) :
    FramedSection.join (sections.map framed) = sections.flatMap encode := by
  rw [FramedSection.join, List.flatMap_map]
  rfl

end Section

namespace Module

variable {m : Module}

/-! ### The stream that is written -/

/-- **The standard encoding of a module** is a stream that is used up. -/
theorem exactStream_encode (hm : m.WellFormed) (hfits : m.Fits) :
    ExactStream m.encode (m.header, m.sections.map Section.framed) := by
  have htake : m.encode.take Header.size = m.header.encode := List.take_left' rfl
  refine ⟨?_, ?_, ?_⟩
  · rw [htake]
    exact m.header.reads_encode
  · rw [htake, Section.join_map_framed, encode]
  · intro p hp
    obtain ⟨s, hs, rfl⟩ := List.mem_map.mp hp
    exact Section.exact_framed (hm s hs) (hfits s hs)

/-! ### Nothing to warn of -/

/-- A section is decoded from the frame that is written of it, with nothing to warn of. -/
theorem yields_absorb {s : Section} (hs : s.WellFormed) (hfits : s.Fits) (offset : Nat)
    (m : Module) :
    (m.absorb offset s.frame).Yields { m with sections := m.sections ++ [s] } := by
  have hlevel : (Record.decoded s.kind offset s.size).level ≠ .warn := by simp [Record.level]
  exact (Section.yields_ofPayload hs hfits).bind <| .bind (.report hlevel) (.pure _)

/-- Sections in a row are decoded from the frames that are written of them, and there is nothing to
warn of. -/
theorem yields_visitFrames {sections : List Section} (hm : ∀ s ∈ sections, s.WellFormed)
    (hfits : ∀ s ∈ sections, s.Fits) (offset : Nat) (m : Module) :
    ∃ stop, (visitFrames absorb offset m (sections.map Section.frame)).Yields
      (stop, { m with sections := m.sections ++ sections }) := by
  -- the sections visited so far stand in `m`, so the induction is for all modules and offsets
  induction sections generalizing offset m with
  | nil =>
    rw [List.append_nil]
    exact ⟨offset, .pure _⟩
  | cons s later ih =>
    obtain ⟨hs, hlater⟩ := List.forall_mem_cons.mp hm
    obtain ⟨hsize, hsizes⟩ := List.forall_mem_cons.mp hfits
    obtain ⟨stop, hstop⟩ := ih hlater hsizes (offset + s.encode.length)
      { m with sections := m.sections ++ [s] }
    rw [List.append_assoc, List.singleton_append] at hstop
    exact ⟨stop, ((yields_absorb hs hsize offset m).mapError _).bind hstop⟩

/-- Decoding the standard encoding of a well-formed module gives no warning. -/
theorem yields_decodeLogged (hm : m.WellFormed) (hfits : m.Fits) :
    (decodeLogged m.encode).Yields m := by
  have hread : Header.reader m.encode = .ok (m.header, m.sections.flatMap Section.encode) :=
    m.header.reads_encode _
  have hcut := (exactStream_encode hm hfits).ofBytes_drop
  rw [show m.encode.drop Header.size = m.sections.flatMap Section.encode from List.drop_left' rfl,
    List.map_map] at hcut
  obtain ⟨stop, hvisit⟩ := yields_visitFrames hm hfits Header.size { header := m.header }
  have hsections : (visitSections absorb Header.size { header := m.header }
      (m.sections.flatMap Section.encode)).Yields m := by
    rw [visitSections, hcut]
    exact hvisit.bind (.pure m)
  exact ((Logged.Yields.ofExcept hread).mapError _).bind hsections

/-- A module that was decoded is well formed, and what it counts can be announced. -/
theorem wellFormed_of_decode {bytes : List UInt8} (h : decode bytes = .ok m) :
    m.WellFormed ∧ ∀ s ∈ m.sections, s.Countable := by
  rw [decode_eq, Except.map_eq_ok_iff] at h
  obtain ⟨⟨header, parts⟩, hstream, rfl⟩ := h
  obtain ⟨-, -, hparts⟩ := decodeStream_eq_ok_iff.mp hstream
  have hsections : ∀ s ∈ (ofStream (header, parts)).sections, s.WellFormed ∧ s.Countable := by
    intro s hs
    obtain ⟨p, hp, rfl⟩ := List.mem_map.mp hs
    obtain ⟨hintact, hdecode⟩ := hparts p hp
    obtain ⟨unread, hdecode⟩ := Frame.decodeLeniently_eq_ok_iff.mp hdecode
    exact Frame.wellFormed_of_decode hintact hdecode
  exact ⟨fun s hs => (hsections s hs).1, fun s hs => (hsections s hs).2⟩

/-- **The standard encoding of a module.** A well-formed module whose payloads are not too large for
their sizes is decoded from it, each section from a frame of its own with nothing left unread, and
with nothing to warn of, in subsections neither. Conversely, every module that is decoded from any
bytes is well formed, and what it counts can be announced. So it is decoded again from its standard
encoding, unless names that have become longer make a payload too large for its size. -/
theorem decode_standard_encoding :
    (∀ m : Module, m.WellFormed → m.Fits →
      decode m.encode = .ok m ∧ ExactStream m.encode (m.header, m.sections.map Section.framed) ∧
        ∀ r ∈ (decodeLogged m.encode).records, r.level ≠ .warn) ∧
    ∀ bytes (m : Module), decode bytes = .ok m →
      (m.WellFormed ∧ ∀ s ∈ m.sections, s.Countable) ∧ (m.Fits → decode m.encode = .ok m) := by
  have hencode : ∀ m : Module, m.WellFormed → m.Fits → (decodeLogged m.encode).Yields m :=
    fun m => yields_decodeLogged
  refine ⟨fun m hm hfits => ?_, fun bytes m h => ?_⟩
  · have hyields := hencode m hm hfits
    exact ⟨hyields.outcome, exactStream_encode hm hfits, hyields.level⟩
  · have hm := wellFormed_of_decode h
    exact ⟨hm, fun hfits => (hencode m hm.1 hfits).outcome⟩

/-- A memory with a maximum, a global variable whose initialiser spells -128 in three bytes, and a
name for the module. -/
theorem decode_standard_encoding_padded_initialiser :
    let m : Module := { sections := [
      .memories [⟨1, 1, some 2⟩],
      .globals [⟨⟨.i64, true⟩, ⟨.i64Const, -128, [0x42, 0x80, 0xff, 0x7f, 0x0b]⟩⟩],
      .custom (.names { moduleName := some "m" })] }
    m.WellFormed ∧ m.Fits ∧ m.encode = [0x00, 0x61, 0x73, 0x6d, 0x01, 0x00, 0x00, 0x00,
      0x05, 0x04, 0x01, 0x01, 0x01, 0x02,
      0x06, 0x08, 0x01, 0x7e, 0x01, 0x42, 0x80, 0xff, 0x7f, 0x0b,
      0x00, 0x09, 0x04, 0x6e, 0x61, 0x6d, 0x65, 0x00, 0x02, 0x01, 0x6d] ∧
      decode m.encode = .ok m := by
  intro m
  have hm : m.WellFormed := by
    have hlimits : (Limits.mk 1 1 (some 2)).WellFormed := by
      simp [Limits.WellFormed, Limits.HasMaximum]
    have hinit : (InitExpr.mk .i64Const (-128) [0x42, 0x80, 0xff, 0x7f, 0x0b]).WellFormed :=
      ⟨[0x80, 0xff, 0x7f], rfl, .next (by decide) (.next (by decide) (.last (by decide))),
        by decide, by decide⟩
    simp [m, WellFormed, Section.WellFormed, CustomSection.WellFormed, hlimits, hinit]
  have hfits : m.Fits := by
    unfold Fits Section.Fits
    decide
  exact ⟨hm, hfits, by decide, (decode_standard_encoding.1 m hm hfits).1⟩

end Module

end WasmContract
