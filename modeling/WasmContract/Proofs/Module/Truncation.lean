import Mathlib.Data.Nat.Find
import Mathlib.Order.Bounds.Defs
import WasmContract.Proofs.Contract.Reading
import WasmContract.Proofs.Module.Sections

/-!
# Streams cut short

A stream that is decoded can be cut at three kinds of places: within its header, between two
sections, or within a section. What is left of it then has no header, or is a module of fewer
sections, or ends unexpectedly in the section that is cut; `CutsCleanly` says so of any way to read
streams. The lenient decoder and the strict reader both have this property, at the same places
(`streams_cut_short`).
-/

namespace WasmContract

/-- The number of sections of a stream. -/
def sectionCount (bytes : List UInt8) : Nat :=
  (Framing.ofBytes (bytes.drop Header.size)).frames.length

/-- The offset at which the first `j` sections of a stream end, and the next one starts. -/
def boundary (bytes : List UInt8) (j : Nat) : Nat :=
  Header.size +
    (((Framing.ofBytes (bytes.drop Header.size)).frames.take j).flatMap Frame.bytes).length

/-- What a way to read streams makes of the beginnings of a stream, where `front j` is what it makes
of the first `j` sections. -/
structure CutsCleanly {α : Type} (read : List UInt8 → Except ModuleError α) (bytes : List UInt8)
    (front : Nat → α) : Prop where
  /-- The header ends unexpectedly if it is cut. -/
  inHeader : ∀ n < Header.size, read (bytes.take n) = .error (.inHeader .unexpectedEnd)
  /-- The sections before a boundary are read. -/
  atBoundary : ∀ j ≤ sectionCount bytes, read (bytes.take (boundary bytes j)) = .ok (front j)
  /-- A section ends unexpectedly if it is cut; it is the last one that starts before the cut. -/
  inSection : ∀ n, Header.size ≤ n → n ≤ bytes.length →
    (∀ j ≤ sectionCount bytes, n ≠ boundary bytes j) →
    ∃ offset id,
      IsGreatest {o | (∃ j < sectionCount bytes, boundary bytes j = o) ∧ o < n} offset ∧
      bytes[offset]? = some id ∧
      read (bytes.take n) = .error (.inSection id offset .unexpectedEnd)

/-- What is made of the sections, and of the bytes of the header, does not matter to the cuts. -/
theorem CutsCleanly.map {α β : Type} {read : List UInt8 → Except ModuleError α}
    {bytes : List UInt8} {front : Nat → α} (h : CutsCleanly read bytes front)
    (f : List UInt8 → α → β) :
    CutsCleanly (fun bytes => (read bytes).map (f (bytes.take Header.size))) bytes
      fun j => f (bytes.take Header.size) (front j) where
  inHeader n hn := by
    rw [h.inHeader n hn, Except.error_map]
  atBoundary j hj := by
    have hle : Header.size ≤ boundary bytes j := Nat.le_add_right ..
    rw [h.atBoundary j hj, Except.ok_map, List.take_take, Nat.min_eq_left hle]
  inSection n hn hlength hne := by
    obtain ⟨offset, id, hgreatest, hid, herror⟩ := h.inSection n hn hlength hne
    refine ⟨offset, id, hgreatest, hid, ?_⟩
    rw [herror, Except.error_map]

variable {decode : Frame → Except DecodeError Section} {bytes : List UInt8} {header : Header}
  {parts : List FramedSection} {n j : Nat}

theorem boundary_mono (bytes : List UInt8) : Monotone (boundary bytes) := by
  intro i j hij
  obtain ⟨more, hmore⟩ := List.take_prefix_take_left
    (l := (Framing.ofBytes (bytes.drop Header.size)).frames) hij
  rw [boundary, boundary, ← hmore, List.flatMap_append, List.length_append]
  omega

/-! ### The boundaries of a stream that is decoded -/

section Decoded

variable (h : decodeStream decode bytes = .ok (header, parts))
include h

theorem sectionCount_of_decodeStream : sectionCount bytes = parts.length := by
  obtain ⟨-, hframing, -⟩ := framing_of_decodeStream h
  rw [sectionCount, hframing, List.length_map]

theorem boundary_of_decodeStream (j : Nat) :
    boundary bytes j = Header.size + (FramedSection.join (parts.take j)).length := by
  obtain ⟨-, hframing, -⟩ := framing_of_decodeStream h
  rw [boundary, hframing, ← List.map_take, FramedSection.flatMap_map_frame]

theorem length_opening_of_decodeStream : (bytes.take Header.size).length = Header.size :=
  Header.length_of_reads (framing_of_decodeStream h).1

/-- A stream falls at each of its boundaries into the sections before and behind it. -/
theorem split_at_boundary (j : Nat) :
    bytes.take (boundary bytes j) =
        bytes.take Header.size ++ FramedSection.join (parts.take j) ∧
      bytes.drop (boundary bytes j) = FramedSection.join (parts.drop j) := by
  obtain ⟨-, hbytes, -⟩ := decodeStream_eq_ok_iff.mp h
  have hlength := length_opening_of_decodeStream h
  have hfront : (bytes.take Header.size ++ FramedSection.join (parts.take j)).length =
      boundary bytes j := by
    rw [boundary_of_decodeStream h, List.length_append, hlength]
  have hsplit : bytes = (bytes.take Header.size ++ FramedSection.join (parts.take j)) ++
      FramedSection.join (parts.drop j) := by
    rw [List.append_assoc, ← FramedSection.join_append, List.take_append_drop]
    exact hbytes
  exact ⟨(congrArg _ hsplit).trans (List.take_left' hfront),
    (congrArg _ hsplit).trans (List.drop_left' hfront)⟩

/-- The last section ends with the stream. -/
theorem boundary_sectionCount : boundary bytes parts.length = bytes.length := by
  obtain ⟨hfront, -⟩ := split_at_boundary h parts.length
  obtain ⟨-, hbytes, -⟩ := decodeStream_eq_ok_iff.mp h
  rw [boundary_of_decodeStream h, List.take_length]
  conv_rhs => rw [hbytes, List.length_append, length_opening_of_decodeStream h]

theorem length_take_boundary (j : Nat) :
    (bytes.take (boundary bytes j)).length = boundary bytes j := by
  obtain ⟨hfront, -⟩ := split_at_boundary h j
  rw [hfront, List.length_append, length_opening_of_decodeStream h, boundary_of_decodeStream h]

/-- What stands before a boundary is decoded by itself. -/
theorem decodeStream_take_boundary (j : Nat) :
    decodeStream decode (bytes.take (boundary bytes j)) = .ok (header, parts.take j) := by
  obtain ⟨hfront, -⟩ := split_at_boundary h j
  obtain ⟨hreads, -, hall⟩ := decodeStream_eq_ok_iff.mp h
  rw [hfront, decodeStream_eq_ok_iff, List.take_left' (length_opening_of_decodeStream h)]
  exact ⟨hreads, rfl, fun p hp => hall p (List.mem_of_mem_take hp)⟩

/-! ### Cuts at other places -/

/-- A header that is cut ends unexpectedly. -/
theorem decodeStream_take_of_lt_size (hn : n < Header.size) :
    decodeStream decode (bytes.take n) = .error (.inHeader .unexpectedEnd) := by
  obtain ⟨hreads, -, -⟩ := framing_of_decodeStream h
  have hopening : n < (bytes.take Header.size).length := by
    rwa [length_opening_of_decodeStream h]
  have hread := Header.lawful_reader.eq_error_of_take hreads hopening
  rw [List.take_take, Nat.min_eq_left (Nat.le_of_lt hn)] at hread
  exact decodeStream_of_error hread

/-- Each section starts with its identifier. -/
theorem getElem?_boundary (hj : j < parts.length) :
    bytes[boundary bytes j]? = some parts[j].frame.id := by
  obtain ⟨-, hback⟩ := split_at_boundary h j
  obtain ⟨-, -, hall⟩ := decodeStream_eq_ok_iff.mp h
  obtain ⟨used, hused, -⟩ := (hall parts[j] (List.getElem_mem hj)).1.exists_sized
  rw [← List.head?_drop, hback, List.drop_eq_getElem_cons hj, FramedSection.join_cons, hused]
  rfl

/-- A section that is cut ends unexpectedly. -/
theorem decodeStream_take_of_lt_boundary (hj : j < parts.length) (hn : boundary bytes j < n)
    (hn' : n < boundary bytes (j + 1)) :
    decodeStream decode (bytes.take n) =
      .error (.inSection parts[j].frame.id (boundary bytes j) .unexpectedEnd) := by
  obtain ⟨-, -, hall⟩ := decodeStream_eq_ok_iff.mp h
  obtain ⟨hintact, -⟩ := hall parts[j] (List.getElem_mem hj)
  obtain ⟨used, hused, -⟩ := hintact.exists_sized
  obtain ⟨-, hback⟩ := split_at_boundary h j
  rw [List.drop_eq_getElem_cons hj, FramedSection.join_cons] at hback
  -- what is left of the section is a front of its bytes, neither empty nor all of them
  obtain ⟨k, rfl⟩ := Nat.exists_eq_add_of_lt hn
  have hlt : k + 1 < parts[j].frame.bytes.length := by
    rw [boundary_of_decodeStream h, boundary_of_decodeStream h (j + 1),
      List.take_succ_eq_append_getElem hj, FramedSection.join_append, List.length_append,
      FramedSection.join_cons, List.length_append] at hn'
    simp only [FramedSection.join, List.flatMap_nil, List.length_nil] at hn'
    omega
  have hcut : bytes.take (boundary bytes j + (k + 1)) =
      bytes.take (boundary bytes j) ++ parts[j].frame.bytes.take (k + 1) := by
    rw [List.take_add, hback, List.take_append_of_le_length (Nat.le_of_lt hlt)]
  have hread := Frame.lawful_reader.eq_error_of_take hintact hlt
  rw [hused, List.take_succ_cons] at hread hcut
  rw [Nat.add_assoc, hcut, decodeStream_append (decodeStream_take_boundary h j),
    decodeSections_of_error hread, Except.error_map, length_take_boundary h]

/-- **A stream that is decoded cuts cleanly.** -/
theorem cutsCleanly_decodeStream :
    CutsCleanly (decodeStream decode) bytes fun j => (header, parts.take j) where
  inHeader n hn := decodeStream_take_of_lt_size h hn
  atBoundary j _ := decodeStream_take_boundary h j
  inSection n hn hlength hne := by
    rw [sectionCount_of_decodeStream h] at hne ⊢
    -- the section that is cut is the last one that starts at or before the cut
    let last := Nat.findGreatest (fun j => boundary bytes j ≤ n) parts.length
    have hfirst : boundary bytes 0 ≤ n := by
      rwa [boundary_of_decodeStream h, List.take_zero]
    have hle : boundary bytes last ≤ n :=
      Nat.findGreatest_spec (P := fun j => boundary bytes j ≤ n) (Nat.zero_le _) hfirst
    have hcount : last ≤ parts.length := Nat.findGreatest_le _
    have hlt : boundary bytes last < n := Nat.lt_of_le_of_ne hle (hne last hcount).symm
    have hlast : last < parts.length := by
      refine Nat.lt_of_le_of_ne hcount fun heq => ?_
      rw [heq, boundary_sectionCount h] at hlt
      omega
    have hnext : n < boundary bytes (last + 1) :=
      Nat.lt_of_not_le (Nat.findGreatest_is_greatest (P := fun j => boundary bytes j ≤ n)
        (Nat.lt_succ_self last) hlast)
    refine ⟨boundary bytes last, parts[last].frame.id, ⟨⟨⟨last, hlast, rfl⟩, hlt⟩, ?_⟩,
      getElem?_boundary h hlast, decodeStream_take_of_lt_boundary h hlast hlt hnext⟩
    rintro o ⟨⟨j, hj, rfl⟩, hjn⟩
    exact boundary_mono bytes (Nat.le_findGreatest (Nat.le_of_lt hj) (Nat.le_of_lt hjn))

end Decoded

/-! ### Modules and contracts -/

/-- The module of the first `j` sections. -/
def Module.front (m : Module) (j : Nat) : Module := { m with sections := m.sections.take j }

theorem Module.ofStream_take (header : Header) (parts : List FramedSection) (j : Nat) :
    ofStream (header, parts.take j) = (ofStream (header, parts)).front j := by
  simp only [ofStream, front, List.map_take]

/-- **Modules cut cleanly**, into their fronts. -/
theorem Module.cutsCleanly_decode {m : Module} (h : Module.decode bytes = .ok m) :
    m.sections.length = sectionCount bytes ∧ CutsCleanly Module.decode bytes m.front := by
  rw [decode_eq, Except.map_eq_ok_iff] at h
  obtain ⟨⟨header, parts⟩, hstream, rfl⟩ := h
  have hcuts := (cutsCleanly_decodeStream hstream).map fun _ => ofStream
  simp only [ofStream_take, ← decode_eq] at hcuts
  rw [sectionCount_of_decodeStream hstream]
  exact ⟨List.length_map .., hcuts⟩

/-- **Contracts cut cleanly**, into those of the fronts of their module. What remains of the first
sections is a beginning of what remains of all. -/
theorem Contract.cutsCleanly_read {c : Contract} (h : read bytes = .ok c) :
    ∃ (m : Module) (canonical : Nat → List UInt8), Module.decode bytes = .ok m ∧
      CutsCleanly read bytes (fun j => ofModule (m.front j) (canonical j)) ∧
      ∀ j, canonical j <+: c.bytes := by
  obtain ⟨⟨header, parts⟩, hstream, rfl⟩ := read_eq_ok_iff.mp h
  have hcuts := (cutsCleanly_decodeStream (decodeStream_decodeStrictly_eq_ok_iff.mpr hstream)).map
    fun opening p => ofModule (.ofStream p)
      (opening ++ FramedSection.join (FramedSection.canonical p.2))
  simp only [Module.ofStream_take, ← read_eq] at hcuts
  refine ⟨_, _, hstream.decode_eq_ok, hcuts, fun j => ?_⟩
  obtain ⟨more, hmore⟩ := FramedSection.canonical_prefix_append (parts.take j) (parts.drop j)
  rw [List.take_append_drop] at hmore
  refine (List.prefix_append_right_inj _).mpr ⟨FramedSection.join more, ?_⟩
  rw [← FramedSection.join_append, hmore]

/-- **Streams that are cut short.** Where a module is cut within its header, the header ends
unexpectedly; where it is cut between two sections, it is the module of the sections before the cut;
and where it is cut within a section, that section ends unexpectedly. The same cuts have the same
effect on strict reading: at a boundary, it gives the contract of the sections before the cut, and
its canonical bytes are a beginning of those of the whole. -/
theorem streams_cut_short (bytes : List UInt8) :
    (∀ m, Module.decode bytes = .ok m →
      m.sections.length = sectionCount bytes ∧ CutsCleanly Module.decode bytes m.front) ∧
    ∀ c, Contract.read bytes = .ok c → ∃ (m : Module) (canonical : Nat → List UInt8),
      Module.decode bytes = .ok m ∧
      CutsCleanly Contract.read bytes (fun j => Contract.ofModule (m.front j) (canonical j)) ∧
      ∀ j, canonical j <+: c.bytes :=
  ⟨fun _ h => Module.cutsCleanly_decode h, fun _ h => Contract.cutsCleanly_read h⟩

/-- A custom section whose size is written in two bytes, and an export section, cut in the header,
between the two, and in each of them. -/
theorem streams_cut_short_padded_size :
    let custom : List UInt8 := [0x00, 0x82, 0x00, 0x01, 0x78]
    let exports : List UInt8 := [0x07, 0x08, 0x01, 0x04, 0x6d, 0x61, 0x69, 0x6e, 0x00, 0x00]
    let bytes := Header.magic ++ [0x01, 0x00, 0x00, 0x00] ++ custom ++ exports
    let m : Module := { sections := [.custom (.raw "x" []), .exports [⟨"main", .func, 0⟩]] }
    let inside n := Header.size ≤ n ∧ n ≤ bytes.length ∧
      ∀ j ≤ sectionCount bytes, n ≠ boundary bytes j
    let starts n := {o | (∃ j < sectionCount bytes, boundary bytes j = o) ∧ o < n}
    Module.decode bytes = .ok m ∧
      Module.decode (bytes.take 3) = .error (.inHeader .unexpectedEnd) ∧
      boundary bytes 1 = 13 ∧
      Module.decode (bytes.take 13) = .ok { sections := [.custom (.raw "x" [])] } ∧
      inside 10 ∧ (∃ offset id, IsGreatest (starts 10) offset ∧ bytes[offset]? = some id ∧
        Module.decode (bytes.take 10) = .error (.inSection id offset .unexpectedEnd)) ∧
      (∃ c, Contract.read bytes = .ok c) ∧
      inside 20 ∧ ∃ offset id, IsGreatest (starts 20) offset ∧ bytes[offset]? = some id ∧
        Contract.read (bytes.take 20) = .error (.inSection id offset .unexpectedEnd) := by
  intro custom exports bytes m inside starts
  have hm : Module.decode bytes = .ok m := by decide +kernel
  have hcount : sectionCount bytes = 2 := by decide +kernel
  have hone : boundary bytes 1 = 13 := by decide +kernel
  have hinside : inside 10 := by decide +kernel
  have hinside' : inside 20 := by decide +kernel
  obtain ⟨hdecode, hread⟩ := streams_cut_short bytes
  obtain ⟨hheader, hboundary, hsection⟩ := (hdecode m hm).2
  have hfront := hboundary 1 (by omega)
  rw [hone] at hfront
  have hc : ∃ c, Contract.read bytes = .ok c := by
    refine ⟨⟨[], [], [], [⟨"main", .func, 0⟩], false, true, bytes.take 8 ++ exports⟩, ?_⟩
    decide +kernel
  obtain ⟨c, hc⟩ := hc
  obtain ⟨_, _, -, hcuts, -⟩ := hread c hc
  exact ⟨hm, hheader 3 (by decide), hone, hfront, hinside, hsection 10 hinside.1 hinside.2.1
    hinside.2.2, ⟨c, hc⟩, hinside', hcuts.inSection 20 hinside'.1 hinside'.2.1 hinside'.2.2⟩

end WasmContract
