import Mathlib.Data.List.TFAE
import WasmContract.Proofs.Condensed
import WasmContract.Proofs.Contract.Bytes
import WasmContract.Proofs.Exports.Spelled

/-!
# The size of canonical bytes

Canonical bytes are never longer than the bytes that were read: whatever is written anew is written
as short as can be, and each piece of the canonical bytes condenses the frame that it stands for
(`FramedSection.condenses_remainders`). They are as long only if they are the same bytes, and that
is so exactly when nothing can be dropped or shortened (`Contract.length_bytes_of_read`).
-/

namespace WasmContract

open Reader

/-! ### Single exports -/

/-- A kind is read from its code and from no other byte. -/
theorem ExternalKind.eq_of_reads {used : List UInt8} {kind : ExternalKind}
    (h : ExternalKind.reader.Reads used kind) : used = [kind.code] := by
  have hread := h []
  rw [List.append_nil] at hread
  obtain ⟨code, middle, hbyte, hmatch⟩ := bind_eq_ok_iff.mp hread
  obtain rfl := byte_eq_ok_iff.mp hbyte
  cases hkind : ofCode? code.toNat with
  | none =>
    rw [hkind] at hmatch
    cases hmatch
  | some found =>
    rw [hkind] at hmatch
    cases hmatch
    rw [ofCode?_eq_some_iff, Int.natCast_inj, UInt8.toNat_inj] at hkind
    rw [hkind]

/-- A spelled export is written with the shortest size and index, and with its own bytes. -/
theorem SpelledExport.condensing : SpelledExport.reader.Condensing SpelledExport.encode := by
  intro used e h
  obtain ⟨name, first, later, rfl, hname, hlater⟩ := h.exists_of_bind lawful_sized fun _ =>
    ExternalKind.lawful_reader.bind fun _ => Leb128.lawful_u32.bind fun _ => .pure _
  obtain ⟨kind, code, later, rfl, hkind, hlater⟩ := hlater.exists_of_bind ExternalKind.lawful_reader
    fun _ => Leb128.lawful_u32.bind fun _ => .pure _
  obtain ⟨index, rfl, hindex⟩ := hlater.exists_of_last Leb128.lawful_u32
  obtain rfl := ExternalKind.eq_of_reads hkind
  exact (condensing_sized hname).append <|
    (Condenses.refl [kind.code]).append (condensing_u32 hindex)

theorem SpelledExport.lawful_reader : Lawful SpelledExport.reader :=
  lawful_sized.bind fun _ => ExternalKind.lawful_reader.bind fun _ =>
    Leb128.lawful_u32.bind fun _ => .pure _

/-! ### Single sections -/

namespace FramedSection

variable {kept entries : List Export} {p : FramedSection} {parts : List FramedSection}

/-- The exports of a section are all that its frame holds. -/
theorem reads_spelledExports (hp : p.Exact) (hcontent : p.content = .exports entries) :
    (vec SpelledExport.reader).Reads p.frame.payload p.spelledExports ∧
      p.spelledExports.map SpelledExport.text = entries := by
  have hid := Frame.id_of_decode hp.decode
  rw [hcontent] at hid
  obtain ⟨hread, hmake⟩ := Frame.vec_of_decode SpelledExport.reader?_exports hid hp.decode
  obtain ⟨used, happend, hreads⟩ := (lawful_vec SpelledExport.lawful_reader).ok hread
  rw [List.append_nil] at happend
  rw [hcontent] at hmake
  exact ⟨happend ▸ hreads, (Section.exports.inj hmake).symm⟩

/-- An export section that is written anew condenses the frame in which it was found. -/
theorem condenses_exports (hp : p.Exact) (hcontent : p.content = .exports entries) :
    Condenses (Section.exports (Exports.select kept entries)).encode p.frame.bytes := by
  have hid := Frame.id_of_decode hp.decode
  rw [hcontent] at hid
  obtain ⟨hread, rfl⟩ := reads_spelledExports hp hcontent
  obtain ⟨used, hbytes, hsized⟩ := hp.intact.exists_sized
  have hpayload := SpelledExport.condensing.vec_sublist SpelledExport.lawful_reader ⟨_, rfl⟩ hread
    (Exports.select_spelled_sublist kept p.spelledExports)
  rw [Exports.vec_spelled] at hpayload
  rw [hbytes, hid]
  exact (Condenses.refl [_]).append (condenses_sized hsized hpayload)

/-- A piece of the canonical bytes condenses the frame that it stands for: it is empty, the frame
itself, or an export section written anew. -/
theorem condenses_remainder (hp : p.Exact) :
    Condenses (join (p.remainder kept).toList) p.frame.bytes := by
  rcases remainder_cases kept p with ⟨hs, -⟩ | ⟨hs, -⟩ | ⟨entries, hcontent, -, hs⟩
  · rw [hs]
    exact .nil _
  · rw [hs, Option.toList_some, join, List.flatMap_singleton]
    exact .refl _
  · rw [hs, Option.toList_some, join, List.flatMap_singleton]
    exact condenses_exports hp hcontent

/-- **Each piece of the canonical bytes condenses the frame that it stands for.** -/
theorem condenses_remainders (h : ∀ p ∈ parts, p.Exact) :
    Condenses (join (remainders kept parts).reduceOption) (join parts) := by
  induction parts generalizing kept with
  | nil => exact .refl _
  | cons p later ih =>
    obtain ⟨hp, hlater⟩ := List.forall_mem_cons.mp h
    rw [remainders, reduceOption_cons, join_append, join_cons]
    exact (condenses_remainder hp).append (ih hlater)

/-! ### Nothing to shorten -/

/-- Nothing can be dropped from the section or shortened in it, and it is not dropped as a whole. -/
structure Minimal (p : FramedSection) : Prop where
  /-- It is no start section. -/
  start : p.content.kind ≠ .start
  /-- It is no custom section. -/
  custom : p.content.kind ≠ .custom
  /-- If it is an export section, it is one as it would be written. -/
  exports : ∀ entries, p.content = .exports entries →
    Exports.encode entries = .ok p.frame.bytes ∧ entries ≠ []

theorem minimal_of_remainder_eq_self (hs : p.remainder kept = some p)
    (hview : p.content.exports? = none) : p.Minimal where
  start := by
    obtain ⟨s, hs, hp⟩ := Option.map_eq_some_iff.mp hs
    exact hp ▸ (Section.kind_of_remainder hs).1
  custom := by
    obtain ⟨s, hs, hp⟩ := Option.map_eq_some_iff.mp hs
    exact hp ▸ (Section.kind_of_remainder hs).2
  exports := by
    intro entries hcontent
    rw [hcontent] at hview
    cases hview

/-- For an export section, only the last condition says something. -/
theorem minimal_iff_of_exports (hcontent : p.content = .exports entries) :
    p.Minimal ↔ Exports.encode entries = .ok p.frame.bytes ∧ entries ≠ [] := by
  have hkind : p.content.kind = .exports := by
    rw [hcontent]
    rfl
  constructor
  · intro h
    exact h.exports entries hcontent
  · intro h
    refine ⟨by rw [hkind]; decide, by rw [hkind]; decide, fun entries' hcontent' => ?_⟩
    cases hcontent.symm.trans hcontent'
    exact h

/-- An export section is written anew as it was found if it lists the exports that are kept, in the
bytes that are written of them. -/
theorem encode_select_eq_iff (hp : p.Exact) (hkept : Exports.Kept kept)
    (hcontent : p.content = .exports entries) :
    (Section.exports (Exports.select kept entries)).encode = p.frame.bytes ↔
      Exports.select kept entries = entries ∧ Exports.encode entries = .ok p.frame.bytes := by
  have hexact := (hkept.select entries).exact
  have hencode := Exports.encode_eq_ok (hkept.select entries).portable.toWithinLimits
  constructor
  · intro hbytes
    -- the same bytes are the same frame, so they hold the same exports
    have hdecode := hp.decode
    rw [hp.intact.eq_of_bytes_eq hexact.intact hbytes.symm, hexact.decode, hcontent] at hdecode
    simp only [Except.ok.injEq, Prod.mk.injEq, Section.exports.injEq, and_true] at hdecode
    rw [hdecode] at hencode hbytes
    exact ⟨hdecode, hbytes ▸ hencode⟩
  · rintro ⟨hall, hwritten⟩
    rw [hall] at hencode ⊢
    exact Except.ok.inj (hencode.symm.trans hwritten)

/-- The bytes of a section stay as they are if nothing can be dropped or shortened in them and all
its exports are kept. -/
theorem join_remainder_eq_iff (hp : p.Exact) (hkept : Exports.Kept kept) :
    join (p.remainder kept).toList = p.frame.bytes ↔
      p.Minimal ∧ p.content.newExports kept = p.content.entries Section.exports? := by
  rcases remainder_cases kept p with ⟨hs, hnew⟩ | ⟨hs, hview⟩ | ⟨entries, hcontent, hnew, hs⟩
  · -- a section that is dropped had some bytes, and each reason to drop it is excluded
    rw [hs]
    refine iff_of_false hp.intact.bytes_ne_nil.symm ?_
    rintro ⟨hminimal, hall⟩
    rw [hnew] at hall
    cases hcontent : p.content with
    | custom content => exact hminimal.custom (hcontent ▸ rfl)
    | start function => exact hminimal.start (hcontent ▸ rfl)
    | exports entries =>
      rw [hcontent] at hall
      exact (hminimal.exports entries hcontent).2 hall.symm
    | _ =>
      rw [remainder, hcontent] at hs
      cases hs
  · rw [hs, Option.toList_some, join_cons, Section.newExports_of_exports?_eq_none hview,
      Section.entries, hview]
    exact iff_of_true (List.append_nil _) ⟨minimal_of_remainder_eq_self hs hview, rfl⟩
  · -- an export section is written anew
    have hall : p.content.newExports kept = p.content.entries Section.exports? ↔
        Exports.select kept entries = entries := by
      rw [hcontent]
      rfl
    have hjoin : join (p.remainder kept).toList =
        (Section.exports (Exports.select kept entries)).encode := by
      rw [hs]
      exact List.append_nil _
    rw [hjoin, encode_select_eq_iff hp hkept hcontent, minimal_iff_of_exports hcontent, hall]
    constructor
    · rintro ⟨heq, hencode⟩
      exact ⟨⟨hencode, heq ▸ hnew⟩, heq⟩
    · rintro ⟨⟨hencode, -⟩, heq⟩
      exact ⟨heq, hencode⟩

/-- A whole list of sections keeps its bytes if each section does, and all exports are kept. -/
theorem join_remainders_eq_iff (h : ∀ p ∈ parts, p.Exact) (hkept : Exports.Kept kept) :
    join (remainders kept parts).reduceOption = join parts ↔ (∀ p ∈ parts, p.Minimal) ∧
      Exports.select kept (parts.flatMap fun p => p.content.entries Section.exports?) =
        parts.flatMap fun p => p.content.entries Section.exports? := by
  induction parts generalizing kept with
  | nil => simp [remainders, Exports.select]
  | cons p later ih =>
    obtain ⟨hp, hlater⟩ := List.forall_mem_cons.mp h
    have hkept' : Exports.Kept (kept ++ p.content.newExports kept) := hkept.append_select _
    -- each piece condenses its frame, so the pieces are the stream only if each is its frame
    rw [remainders, reduceOption_cons, join_append, join_cons,
      (condenses_remainder hp).append_eq_append_iff (condenses_remainders hlater),
      join_remainder_eq_iff hp hkept, ih hlater hkept', List.forall_mem_cons, List.flatMap_cons,
      Exports.select_append_eq_self_iff]
    exact and_and_and_comm

end FramedSection

/-! ### Contracts -/

/-- Nothing can be dropped or shortened if this is so of each section. -/
theorem ExactStream.forall_minimal_iff {bytes : List UInt8} {stream : Header × List FramedSection}
    (h : ExactStream bytes stream) : (∀ p ∈ stream.2, p.Minimal) ↔
      ¬(Module.ofStream stream).Has .start ∧ ¬(Module.ofStream stream).Has .custom ∧
        ∀ frame ∈ (Framing.ofBytes (bytes.drop Header.size)).frames, ∀ entries,
          frame.decode = .ok (.exports entries, []) →
            Exports.encode entries = .ok frame.bytes ∧ entries ≠ [] := by
  have hdecode : ∀ p ∈ stream.2, ∀ entries,
      p.frame.decode = .ok (.exports entries, []) ↔ p.content = .exports entries := by
    intro p hp entries
    simp [(h.exact p hp).decode]
  simp only [Module.Has, Module.ofStream, h.ofBytes_drop, List.mem_map, exists_exists_and_eq_and,
    forall_exists_index, and_imp, forall_apply_eq_imp_iff₂, not_exists, not_and]
  constructor
  · intro hall
    exact ⟨fun p hp => (hall p hp).start, fun p hp => (hall p hp).custom, fun p hp entries he =>
      (hall p hp).exports entries ((hdecode p hp entries).mp he)⟩
  · rintro ⟨hstart, hcustom, hexports⟩ p hp
    exact ⟨hstart p hp, hcustom p hp, fun entries hcontent =>
      hexports p hp entries ((hdecode p hp entries).mpr hcontent)⟩

namespace Contract

variable {bytes : List UInt8} {stream : Header × List FramedSection} {c : Contract}

/-- The canonical bytes of a stream condense it. -/
theorem condenses_canonical (h : ExactStream bytes stream) :
    Condenses (bytes.take Header.size ++ FramedSection.join (FramedSection.canonical stream.2))
      bytes := by
  have hsections : Condenses (FramedSection.join (FramedSection.canonical stream.2))
      (FramedSection.join stream.2) :=
    FramedSection.condenses_remainders h.exact
  have hcondenses := (Condenses.refl (bytes.take Header.size)).append hsections
  rwa [← h.body] at hcondenses

/-- The canonical bytes of a stream are the stream itself if nothing can be dropped or shortened. -/
theorem canonical_eq_iff (h : ExactStream bytes stream) :
    bytes.take Header.size ++ FramedSection.join (FramedSection.canonical stream.2) = bytes ↔
      (∀ p ∈ stream.2, p.Minimal) ∧
        Exports.select [] ((Module.ofStream stream).entries Section.exports?) =
          (Module.ofStream stream).entries Section.exports? := by
  have hjoin := FramedSection.join_remainders_eq_iff h.exact .nil
  rw [Module.entries, Module.ofStream, List.flatMap_map, ← hjoin]
  conv_lhs => rhs; rw [h.body]
  exact List.append_right_inj _

/-- **The canonical bytes are never longer than the bytes that were read**, and as long only if they
are the same bytes: there is no start and no custom section, each export section is as it would be
written, with at least one entry, and all entries are kept. -/
theorem length_bytes_of_read (h : read bytes = .ok c) :
    c.bytes.length ≤ bytes.length ∧
      [c.bytes.length = bytes.length,
       c.bytes = bytes,
       ∃ m, Module.decode bytes = .ok m ∧ ¬m.Has .start ∧ ¬m.Has .custom ∧
         (∀ frame ∈ (Framing.ofBytes (bytes.drop Header.size)).frames, ∀ entries,
           frame.decode = .ok (.exports entries, []) →
             Exports.encode entries = .ok frame.bytes ∧ entries ≠ []) ∧
         c.exports = m.entries Section.exports?].TFAE := by
  obtain ⟨stream, hstream, rfl⟩ := read_eq_ok_iff.mp h
  have hcondenses := condenses_canonical hstream
  refine ⟨hcondenses.length_le, ?_⟩
  tfae_have 1 → 2 := hcondenses.eq_of_length_eq
  tfae_have 2 → 1 := congrArg List.length
  tfae_have 2 → 3 := by
    intro heq
    obtain ⟨hminimal, hall⟩ := (canonical_eq_iff hstream).mp heq
    obtain ⟨hstart, hcustom, hexports⟩ := hstream.forall_minimal_iff.mp hminimal
    exact ⟨.ofStream stream, hstream.decode_eq_ok, hstart, hcustom, hexports, hall⟩
  tfae_have 3 → 2 := by
    rintro ⟨m, hm, hstart, hcustom, hexports, hall⟩
    cases hstream.decode_eq_ok.symm.trans hm
    have hminimal := hstream.forall_minimal_iff.mpr ⟨hstart, hcustom, hexports⟩
    exact (canonical_eq_iff hstream).mpr ⟨hminimal, hall⟩
  tfae_finish

/-- A contract whose two exports stand in sections of their own is its own canonical form. -/
theorem length_bytes_of_read_two_sections :
    let bytes : List UInt8 := [0x00, 0x61, 0x73, 0x6d, 0x01, 0x00, 0x00, 0x00,
      0x07, 0x0a, 0x01, 0x06, 0x6d, 0x65, 0x6d, 0x6f, 0x72, 0x79, 0x02, 0x00,
      0x07, 0x08, 0x01, 0x04, 0x6d, 0x61, 0x69, 0x6e, 0x00, 0x00]
    let c : Contract := { exports := [⟨"memory", .memory, 0⟩, ⟨"main", .func, 0⟩], bytes }
    read bytes = .ok c ∧ c.bytes.length = bytes.length ∧
      ∃ m, Module.decode bytes = .ok m ∧ ¬m.Has .start ∧ ¬m.Has .custom ∧
        c.exports = m.entries Section.exports? := by
  intro bytes c
  have hread : read bytes = .ok c := by decide +kernel
  obtain ⟨m, hm, hstart, hcustom, -, hexports⟩ :=
    ((length_bytes_of_read hread).2.out 0 2).mp rfl
  exact ⟨hread, rfl, m, hm, hstart, hcustom, hexports⟩

end Contract

end WasmContract
