import WasmContract.Proofs.Section.Spelled

/-!
# Scanning the sections of a module

A scan goes over a stream without decoding any entry: from the identifier and the size of a section
it knows where the next one starts, and the integer at the front of a payload tells how many entries
a section lists (`scan`). It takes no part in decoding.

For every module that is decoded the scan succeeds and gives one item for each section, with the
number of its entries, and the items lie end to end behind the header (`scan_of_decode`). The scan
and the decoder go over the same frames, in `exists_scanFrom`; that they count the same entries is
`Frame.leadingCount?_of_decode`.
-/

namespace WasmContract

open Reader

/-- What a scan finds out about a section. -/
structure ScannedSection where
  /-- The byte at the front. -/
  id : UInt8
  /-- The integer at the front of the payload, for sections that list entries. -/
  count : Option Nat
  /-- The offset of the first byte. -/
  start : Nat
  /-- The offset of the first byte behind the section. -/
  stop : Nat
deriving DecidableEq, Repr, Inhabited

/-- The integer at the front of a payload; nothing for custom and start sections, which do not list
entries. -/
def leadingCount? (id : UInt8) (payload : List UInt8) : Except DecodeError (Option Nat) :=
  if id = 0 ∨ id = 8 then .ok none
  else (Leb128.u32 payload).map fun p => some p.1.toNat

/-- Scans a stream from `offset` on, of which the first `skip` bytes belong to a section that has
been scanned already. At the start of a section its identifier, its size and the front of its
payload are read, and the bytes it spans are then passed over one by one. -/
def scanFrom : (offset skip : Nat) → List UInt8 → Except DecodeError (List ScannedSection)
  | _, _, [] => .ok []
  | offset, skip + 1, _ :: rest => scanFrom (offset + 1) skip rest
  | offset, 0, id :: rest =>
    (sized rest).bind fun (payload, left) =>
      (leadingCount? id payload).bind fun count =>
        let length := rest.length - left.length
        (scanFrom (offset + 1) length rest).map (⟨id, count, offset, offset + 1 + length⟩ :: ·)

/-- Scans the sections behind the header of a module. -/
def scan (bytes : List UInt8) : Except DecodeError (List ScannedSection) :=
  scanFrom Header.size 0 (bytes.drop Header.size)

/-- The items lie end to end from one offset to another, and none is empty. -/
def Tiles : (start stop : Nat) → List ScannedSection → Prop
  | start, stop, [] => start = stop
  | start, stop, item :: later =>
    item.start = start ∧ item.start < item.stop ∧ Tiles item.stop stop later

/-- An item tells the kind of a section and the number of its entries, and the bytes of the section
stand where the item says. -/
structure ScannedSection.Describes (bytes : List UInt8) (item : ScannedSection) (s : Section) :
    Prop where
  /-- The identifier is the code of the kind. -/
  id : item.id = s.kind.code
  /-- The count is the number of entries, for sections that list them. -/
  count : item.count = if item.id = 0 ∨ item.id = 8 then none else some s.size
  /-- The bytes hold the section and nothing else. -/
  range : ∃ frame unread, Frame.reader (bytes.extract item.start item.stop) = .ok (frame, []) ∧
    frame.decode = .ok (s, unread)

variable {offset skip : Nat} {bytes rest : List UInt8} {frame : Frame} {s : Section}
  {unread : List UInt8} {count : Option Nat} {m : Module}

/-! ### Scanning one section -/

/-- Bytes that are passed over have no influence. -/
theorem scanFrom_eq (offset skip : Nat) (bytes : List UInt8) :
    scanFrom offset skip bytes = scanFrom (offset + skip) 0 (bytes.drop skip) := by
  induction bytes generalizing offset skip with
  | nil => simp [scanFrom]
  | cons b rest ih =>
    cases skip with
    | zero => rfl
    | succ skip => rw [scanFrom, ih, List.drop_succ_cons, Nat.add_right_comm, Nat.add_assoc]

/-- The scan takes the first frame of a stream, and goes on behind it. -/
theorem scanFrom_append (h : frame.Intact)
    (hcount : leadingCount? frame.id frame.payload = .ok count) (rest : List UInt8) :
    scanFrom offset 0 (frame.bytes ++ rest) =
      (scanFrom (offset + frame.bytes.length) 0 rest).map
        (⟨frame.id, count, offset, offset + frame.bytes.length⟩ :: ·) := by
  obtain ⟨used, hbytes, hsized⟩ := h.exists_sized
  have hlength : (used ++ rest).length - rest.length = used.length := by
    rw [List.length_append, Nat.add_sub_cancel]
  have hstop : offset + 1 + used.length = offset + frame.bytes.length := by
    rw [hbytes, List.length_cons]
    omega
  rw [← hstop, hbytes, List.cons_append, scanFrom, hsized rest, Except.ok_bind]
  dsimp only
  rw [hcount, Except.ok_bind, hlength, scanFrom_eq, List.drop_left]

/-! ### Counting -/

/-- A vector starts with the number of its entries. -/
theorem leading_of_vec {α : Type} {item : Reader α} {make : List α → Section} {payload : List UInt8}
    (hmake : ∀ entries, (make entries).size = entries.length)
    (h : (make <$> vec item) payload = .ok (s, unread)) :
    (Leb128.u32 payload).map (fun p => p.1.toNat) = .ok s.size := by
  rw [map_eq_bind] at h
  obtain ⟨entries, left, hentries, hpure⟩ := bind_eq_ok_iff.mp h
  obtain ⟨n, later, hn, hmany⟩ := bind_eq_ok_iff.mp hentries
  obtain ⟨hlength, -⟩ := Ensures.many (.trivial item) n.toNat hmany
  cases hpure
  rw [hn, Except.ok_map, hmake, hlength]

/-- Every section that has a reader, other than a start section, starts with the number of its
entries. -/
theorem Section.leading_of_reader? {kind : SectionKind} {reader : Reader Section}
    {payload : List UInt8} (hreader : reader? kind = some reader) (hkind : kind ≠ .start)
    (h : reader payload = .ok (s, unread)) :
    (Leb128.u32 payload).map (fun p => p.1.toNat) = .ok s.size := by
  cases kind <;> simp only [reader?, reduceCtorEq, Option.some.injEq] at hreader <;> subst hreader
  case start => exact absurd rfl hkind
  all_goals exact leading_of_vec (fun _ => rfl) h

theorem SectionKind.code_eq_iff {kind : SectionKind} :
    kind.code = 0 ∨ kind.code = 8 ↔ kind = .custom ∨ kind = .start := by
  cases kind <;> decide

/-- **The count at the front of a payload** is the number of entries of the section in it. -/
theorem Frame.leadingCount?_of_decode (h : frame.decode = .ok (s, unread)) :
    leadingCount? frame.id frame.payload =
      .ok (if frame.id = 0 ∨ frame.id = 8 then none else some s.size) := by
  have hid := id_of_decode h
  unfold leadingCount?
  split
  · rfl
  · rename_i hcounted
    rw [hid, SectionKind.code_eq_iff, not_or] at hcounted
    obtain ⟨hcustom, hstart⟩ := hcounted
    obtain ⟨reader, hreader⟩ :=
      Option.ne_none_iff_exists'.mp (mt Section.reader?_eq_none_iff.mp hcustom)
    rw [decode_of_reader? hid hreader] at h
    obtain ⟨p, hp, hsize⟩ :=
      Except.map_eq_ok_iff.mp (Section.leading_of_reader? hreader hstart h)
    rw [hp, Except.ok_map, hsize]

/-! ### Scanning a module -/

/-- A frame is read from its place in a stream. -/
theorem Frame.Intact.reader_extract (h : frame.Intact) (front rest : List UInt8) :
    Frame.reader ((front ++ frame.bytes ++ rest).extract front.length
      (front.length + frame.bytes.length)) = .ok (frame, []) := by
  rw [List.extract_eq_take_drop, List.append_assoc, List.drop_left, Nat.add_sub_cancel_left,
    List.take_left]
  have hread := h []
  rwa [List.append_nil] at hread

/-- The scan of the frames of sections gives an item for each section, at the place of its frame. -/
theorem exists_scanFrom (front : List UInt8) (parts : List FramedSection)
    (h : ∀ p ∈ parts, p.frame.Intact ∧ p.frame.decodeLeniently = .ok p.content) :
    ∃ items, scanFrom front.length 0 (FramedSection.join parts) = .ok items ∧
      Tiles front.length (front ++ FramedSection.join parts).length items ∧
      List.Forall₂ (ScannedSection.Describes (front ++ FramedSection.join parts)) items
        (parts.map (·.content)) := by
  -- the offsets count the bytes of the whole stream, so what has been passed stays in front
  induction parts generalizing front with
  | nil =>
    refine ⟨[], rfl, ?_, .nil⟩
    rw [FramedSection.join, List.flatMap_nil, List.append_nil]
    rfl
  | cons p later ih =>
    obtain ⟨⟨hintact, hp⟩, hlater⟩ := List.forall_mem_cons.mp h
    obtain ⟨unread, hdecode⟩ := Frame.decodeLeniently_eq_ok_iff.mp hp
    have hcount := Frame.leadingCount?_of_decode hdecode
    obtain ⟨items, hitems, htiles, hall⟩ := ih (front ++ p.frame.bytes) hlater
    rw [List.length_append] at hitems
    rw [FramedSection.join_cons, scanFrom_append hintact hcount, hitems, Except.ok_map,
      ← List.append_assoc]
    have hpos := List.length_pos_iff.mpr hintact.bytes_ne_nil
    refine ⟨_, rfl, ⟨rfl, Nat.lt_add_of_pos_right hpos, ?_⟩, .cons ⟨?_, rfl, ?_⟩ hall⟩
    · rwa [← List.length_append]
    · exact Frame.id_of_decode hdecode
    · exact ⟨p.frame, unread, hintact.reader_extract front _, hdecode⟩

/-- **Scanning a module** counts the entries that the decoder reads. For every stream that is
decoded, a scan of the sections succeeds and gives one item for each section, in order. The items
lie end to end behind the header up to the end of the stream, without gap or overlap. -/
theorem scan_of_decode (h : Module.decode bytes = .ok m) :
    ∃ items, scan bytes = .ok items ∧ Tiles Header.size bytes.length items ∧
      List.Forall₂ (ScannedSection.Describes bytes) items m.sections := by
  rw [Module.decode_eq, Except.map_eq_ok_iff] at h
  obtain ⟨⟨header, parts⟩, hstream, rfl⟩ := h
  obtain ⟨hheader, hbytes, hparts⟩ := decodeStream_eq_ok_iff.mp hstream
  have hsize : (bytes.take Header.size).length = Header.size := Header.length_of_reads hheader
  have hscan := exists_scanFrom (bytes.take Header.size) parts hparts
  have hdrop : FramedSection.join parts = bytes.drop Header.size :=
    List.append_cancel_left (hbytes.symm.trans (List.take_append_drop Header.size bytes).symm)
  rwa [← hbytes, hsize, hdrop] at hscan

/-- The size of a section of functions is padded, as is the number of its entries, and it leaves a
byte unread. A custom section and a start section follow, which are not counted. -/
theorem scan_of_decode_padded_count :
    let bytes : List UInt8 := Header.magic ++ [0x01, 0x00, 0x00, 0x00,
      0x03, 0x85, 0x00, 0x82, 0x00, 0x00, 0x01, 0x07,
      0x00, 0x03, 0x01, 0x61, 0xff,
      0x08, 0x01, 0x05]
    let m : Module := { sections := [.functions [0, 1], .custom (.raw "a" [0xff]), .start 5] }
    let items := [⟨3, some 2, 8, 16⟩, ⟨0, none, 16, 21⟩, ⟨8, none, 21, 24⟩]
    Module.decode bytes = .ok m ∧ scan bytes = .ok items ∧ Tiles Header.size bytes.length items ∧
      List.Forall₂ (ScannedSection.Describes bytes) items m.sections := by
  intro bytes m items
  have hdecode : Module.decode bytes = .ok m := by decide +kernel
  have hscan : scan bytes = .ok items := by decide +kernel
  obtain ⟨items', hitems', htiles, hall⟩ := scan_of_decode hdecode
  cases hscan.symm.trans hitems'
  exact ⟨hdecode, hscan, htiles, hall⟩

end WasmContract
