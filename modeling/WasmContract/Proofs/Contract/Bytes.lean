import Mathlib.Data.List.Forall2
import WasmContract.Proofs.Contract.Reading

/-!
# Canonical bytes

The canonical bytes of a module consist of its header and one piece for each of its sections
(`IsPiece`). They are a stream that is used up (`Contract.exactStream_canonical`), so they decode to
the canonical form of the module, and they are read strictly to the same contract
(`Contract.read_bytes`).
-/

namespace WasmContract

/-- The bytes that stand for a section in canonical form, by what remains of the section: nothing,
or an export section written anew, or the frame as it was found. -/
def IsPiece (frame : Frame) (remainder : Option Section) (piece : List UInt8) : Prop :=
  match remainder with
  | none => piece = []
  | some (.exports entries) => Exports.encode entries = .ok piece
  | some _ => piece = frame.bytes

namespace FramedSection

variable {kept : List Export}

/-- The bytes of what remains of a section. -/
def piece (remainder : Option FramedSection) : List UInt8 := join remainder.toList

theorem flatten_map_piece (remainders : List (Option FramedSection)) :
    (remainders.map piece).flatten = join remainders.reduceOption := by
  induction remainders with
  | nil => rfl
  | cons o later ih =>
    rw [List.map_cons, List.flatten_cons, ih, reduceOption_cons, join_append, piece]

/-- The piece of a framed section stands for the section; exports that are kept can always be
written. -/
theorem isPiece_piece (hkept : Exports.Kept kept) (p : FramedSection) :
    IsPiece p.frame (p.content.remainder kept) (piece (p.remainder kept)) := by
  rcases Section.remainder_cases kept p.content with ⟨hs, -⟩ | ⟨hs, hview⟩ | ⟨entries, -, -, hs⟩
  · rw [remainder, hs]
    rfl
  · rw [remainder, hs]
    cases hcontent : p.content <;>
      simp_all [IsPiece, piece, join, Section.kind, Section.exports?]
  · have hencode := Exports.encode_eq_ok (hkept.select entries).portable.toWithinLimits
    rw [remainder, hs]
    simpa [IsPiece, piece, join, Section.kind, Section.frame] using hencode

theorem forall₂_isPiece (hkept : Exports.Kept kept) (parts : List FramedSection) :
    List.Forall₂ (fun p piece => IsPiece p.1 p.2 piece)
      ((parts.map (·.frame)).zip (Section.remainders kept (parts.map (·.content))))
      ((remainders kept parts).map piece) := by
  induction parts generalizing kept with
  | nil => exact .nil
  | cons p later ih => exact .cons (isPiece_piece hkept p) (ih (hkept.append_select _))

end FramedSection

namespace Contract

variable {bytes : List UInt8} {c : Contract} {stream : Header × List FramedSection}

/-- The canonical bytes are a stream that is used up. -/
theorem exactStream_canonical (h : ExactStream bytes stream) :
    ExactStream (bytes.take Header.size ++ FramedSection.join (FramedSection.canonical stream.2))
      (stream.1, FramedSection.canonical stream.2) :=
  h.replace (FramedSection.exact_canonical h.exact)

/-- The canonical form of a module makes the same contract, without start and custom sections. -/
theorem ofModule_canonical (m : Module) (bytes : List UInt8) :
    ofModule m.canonical bytes =
      { ofModule m bytes with hasStart := false, hasCustom := false } := by
  simp only [ofModule, Module.entries_canonical Section.stable_types?,
    Module.entries_canonical Section.stable_imports?,
    Module.entries_canonical Section.stable_functions?, Module.exports_canonical,
    Exports.select_select, Module.not_has_canonical m (.inl rfl),
    Module.not_has_canonical m (.inr rfl), decide_false]

/-- **The canonical bytes are read to the same contract**, without start and custom sections. -/
theorem read_bytes (h : read bytes = .ok c) :
    read c.bytes = .ok { c with hasStart := false, hasCustom := false } := by
  obtain ⟨stream, hstream, rfl⟩ := read_eq_ok_iff.mp h
  refine read_eq_ok_iff.mpr ⟨_, exactStream_canonical hstream, ?_⟩
  -- the sections that remain are reduced once more, which changes nothing
  rw [Module.ofStream_canonical, FramedSection.canonical_canonical, ofModule_canonical]
  simp only [ofModule, List.take_left' hstream.length_take]

/-- **The canonical bytes.** A module that is read strictly is cut behind its header into frames,
each of which holds a section and nothing else. The canonical bytes are its header followed by one
piece for each section, and they are the canonical form of the module, again with nothing left
unread. -/
theorem bytes_of_read (h : read bytes = .ok c) :
    ∃ m pieces, Module.decode bytes = .ok m ∧
      let framing := Framing.ofBytes (bytes.drop Header.size)
      Header.size ≤ bytes.length ∧ framing.failure = none ∧
      List.Forall₂ (fun frame s => frame.decode = .ok (s, [])) framing.frames m.sections ∧
      List.Forall₂ (fun p piece => IsPiece p.1 p.2 piece)
        (framing.frames.zip (Section.remainders [] m.sections)) pieces ∧
      c.bytes = bytes.take Header.size ++ pieces.flatten ∧
      Module.decode c.bytes = .ok m.canonical ∧
      ∀ frame ∈ (Framing.ofBytes (c.bytes.drop Header.size)).frames,
        ∃ s, frame.decode = .ok (s, []) := by
  obtain ⟨stream, hstream, rfl⟩ := read_eq_ok_iff.mp h
  have hcanonical := exactStream_canonical hstream
  refine ⟨.ofStream stream, (FramedSection.remainders [] stream.2).map FramedSection.piece,
    hstream.decode_eq_ok, ?_⟩
  simp only [hstream.ofBytes_drop, ofModule, hcanonical.ofBytes_drop]
  refine ⟨hstream.size_le_length, trivial, ?_, FramedSection.forall₂_isPiece .nil stream.2, ?_, ?_,
    ?_⟩
  · refine List.forall₂_map_left_iff.mpr (List.forall₂_map_right_iff.mpr ?_)
    exact List.forall₂_same.mpr fun p hp => (hstream.exact p hp).decode
  · rw [FramedSection.flatten_map_piece, FramedSection.canonical]
  · rw [hcanonical.decode_eq_ok, Module.ofStream_canonical]
  · intro frame hframe
    obtain ⟨p, hp, rfl⟩ := List.mem_map.mp hframe
    exact ⟨p.content, (hcanonical.exact p hp).decode⟩

/-- A custom section, a start section and a foreign export are dropped; the size of the export
section, written in three bytes, is written anew. -/
theorem bytes_of_read_foreign_export :
    let bytes : List UInt8 := [0x00, 0x61, 0x73, 0x6d, 0x01, 0x00, 0x00, 0x00,
      0x00, 0x02, 0x01, 0x78, 0x08, 0x01, 0x00, 0x07, 0x8c, 0x80, 0x00,
      0x02, 0x04, 0x6d, 0x61, 0x69, 0x6e, 0x00, 0x00, 0x01, 0x78, 0x00, 0x00]
    let c : Contract := {
      exports := [⟨"main", .func, 0⟩]
      hasStart := true
      hasCustom := true
      bytes := [0x00, 0x61, 0x73, 0x6d, 0x01, 0x00, 0x00, 0x00,
        0x07, 0x08, 0x01, 0x04, 0x6d, 0x61, 0x69, 0x6e, 0x00, 0x00] }
    read bytes = .ok c ∧
      ∃ m, Module.decode bytes = .ok m ∧ Module.decode c.bytes = .ok m.canonical := by
  intro bytes c
  have hread : read bytes = .ok c := by decide +kernel
  obtain ⟨m, -, hdecode, -, -, -, -, -, hcanonical, -⟩ := bytes_of_read hread
  exact ⟨hread, m, hdecode, hcanonical⟩

end Contract

end WasmContract
