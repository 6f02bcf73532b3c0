import WasmContract.Proofs.Contract.Canonicalization
import WasmContract.Proofs.Module.Sections

/-!
# Custom sections make no difference

A custom section may be put between any two sections of a stream. If custom sections are allowed,
the canonical bytes stay the same, or else the fault that is found, and an error of reading only
moves on by the size of the section (`custom_section_makes_no_difference`). All of this follows from
one equation on strict reading, `Contract.read_insert_custom`: of the section nothing is left but
the fact that there is one.
-/

namespace WasmContract

/-- The bytes are those of a single custom section, and it can be decoded. -/
def IsCustomSection (bytes : List UInt8) : Prop :=
  ∃ frame content, Frame.reader bytes = .ok (frame, []) ∧ frame.id = SectionKind.custom.code ∧
    frame.decode = .ok content

variable {decode : Frame → Except DecodeError Section} {front bytes : List UInt8} {header : Header}
  {parts later : List FramedSection} {p : FramedSection} {c : Contract} {content : CustomSection}

/-- A custom section uses up the payload of its frame. -/
theorem IsCustomSection.exists_exact (h : IsCustomSection bytes) :
    ∃ p : FramedSection, p.Exact ∧ p.frame.bytes = bytes ∧
      ∃ content, p.content = .custom content := by
  obtain ⟨frame, result, hread, hid, hdecode⟩ := h
  obtain ⟨hintact, hbytes⟩ := Frame.intact_of_reader_eq_ok hread
  rw [List.append_nil] at hbytes
  have hpayload := Frame.decode_of_id_custom hid
  rw [hpayload, Except.map_eq_ok_iff] at hdecode
  obtain ⟨content, hcontent, -⟩ := hdecode
  rw [hcontent, Except.ok_map] at hpayload
  exact ⟨⟨frame, .custom content⟩, ⟨hintact, hpayload⟩, hbytes.symm, content, rfl⟩

/-! ### Sections put in between -/

/-- A section that is put between two others joins them, and errors behind it move on. -/
theorem decodeStream_insert (hfront : decodeStream decode front = .ok (header, parts))
    (hintact : p.frame.Intact) (hp : decode p.frame = .ok p.content) (back : List UInt8) :
    decodeStream decode (front ++ p.frame.bytes ++ back) =
      ((decodeSections decode front.length back).mapError (.shift p.frame.bytes.length)).map
        fun later => (header, parts ++ p :: later) := by
  have hframe : decodeSections decode front.length p.frame.bytes = .ok [p] := by
    rw [← List.append_nil p.frame.bytes, decodeSections_frame hintact, hp]
    rfl
  have hwith : decodeStream decode (front ++ p.frame.bytes) = .ok (header, parts ++ [p]) := by
    rw [decodeStream_append hfront, hframe, Except.ok_map]
  rw [decodeStream_append hwith, List.length_append, Nat.add_comm, decodeSections_add]
  cases decodeSections decode front.length back with
  | error e => rfl
  | ok later => simp

namespace FramedSection

/-- Nothing remains of a custom section. -/
theorem canonical_insert_custom (hp : p.content = .custom content)
    (parts later : List FramedSection) :
    canonical (parts ++ p :: later) = canonical (parts ++ later) := by
  have hnone : ∀ kept, p.remainder kept = none := by
    intro kept
    rw [remainder, hp]
    rfl
  rw [canonical, canonical, remainders_append, remainders_append, remainders, hnone,
    Section.newExports_of_exports?_eq_none (congrArg Section.exports? hp), List.append_nil,
    List.reduceOption_append, List.reduceOption_append, List.reduceOption_cons_of_none]

end FramedSection

namespace Module

/-- A view sees nothing of a section of another kind. -/
theorem entries_insert {α : Type} {view : Section → Option (List α)} (h : view p.content = none)
    (header : Header) (parts later : List FramedSection) :
    (ofStream (header, parts ++ p :: later)).entries view =
      (ofStream (header, parts ++ later)).entries view := by
  have hnone : p.content.entries view = [] := congrArg (Option.getD · []) h
  simp only [entries, ofStream, List.map_append, List.map_cons, List.flatMap_append,
    List.flatMap_cons, hnone, List.nil_append]

/-- A section in between adds its kind to those that a module has, and takes none away. -/
theorem has_insert (kind : SectionKind) (header : Header) (parts later : List FramedSection) :
    (ofStream (header, parts ++ p :: later)).Has kind ↔
      p.content.kind = kind ∨ (ofStream (header, parts ++ later)).Has kind := by
  simp only [Has, ofStream, List.map_append, List.map_cons, List.mem_append, List.mem_cons,
    or_and_right, exists_or, exists_eq_left]
  exact or_left_comm

end Module

namespace Contract

/-- A custom section leaves nothing in a contract but the fact that there is one. -/
theorem ofModule_insert_custom (hp : p.content = .custom content) (header : Header)
    (parts later : List FramedSection) (bytes : List UInt8) :
    ofModule (.ofStream (header, parts ++ p :: later)) bytes =
      { ofModule (.ofStream (header, parts ++ later)) bytes with hasCustom := true } := by
  have hkind : p.content.kind = .custom := congrArg Section.kind hp
  have htypes := Module.entries_insert (congrArg Section.types? hp) header parts later
  have himports := Module.entries_insert (congrArg Section.imports? hp) header parts later
  have hfunctions := Module.entries_insert (congrArg Section.functions? hp) header parts later
  have hexports := Module.entries_insert (congrArg Section.exports? hp) header parts later
  simp only [ofModule, htypes, himports, hfunctions, hexports, Module.has_insert, hkind, true_or,
    decide_true, reduceCtorEq, false_or]

/-- **A custom section between two others.** Strict reading of the bytes before it shows that there
is a place for it. -/
theorem read_insert_custom (hfront : read front = .ok c) (hp : p.Exact)
    (hcontent : p.content = .custom content) (back : List UInt8) :
    read (front ++ p.frame.bytes ++ back) =
      ((read (front ++ back)).mapError (.shift p.frame.bytes.length)).map fun c =>
        { c with hasCustom := true } := by
  obtain ⟨⟨header, parts⟩, hexact, -⟩ := read_eq_ok_iff.mp hfront
  have hstream := decodeStream_decodeStrictly_eq_ok_iff.mpr hexact
  have hsize := hexact.size_le_length
  have hp' := Frame.decodeStrictly_eq_ok_iff.mpr hp.decode
  rw [read_eq, read_eq, decodeStream_insert hstream hp.intact hp', decodeStream_append hstream,
    List.append_assoc, List.take_append_of_le_length hsize, List.take_append_of_le_length hsize]
  cases decodeSections Frame.decodeStrictly front.length back with
  | error e => rfl
  | ok later =>
    simp only [Except.ok_mapError, Except.ok_map, ofModule_insert_custom hcontent,
      FramedSection.canonical_insert_custom hcontent]

/-- If the beginning of a stream is read, the header is no error. -/
theorem read_append_ne_inHeader (hfront : read front = .ok c) (back : List UInt8)
    (cause : DecodeError) : read (front ++ back) ≠ .error (.inHeader cause) := by
  obtain ⟨⟨header, parts⟩, hexact, -⟩ := read_eq_ok_iff.mp hfront
  rw [read_eq, decodeStream_append (decodeStream_decodeStrictly_eq_ok_iff.mpr hexact)]
  intro herror
  rw [Except.map_eq_error_iff, Except.map_eq_error_iff] at herror
  obtain ⟨_, _, _, hplace⟩ := exists_of_decodeSections_eq_error herror
  cases hplace

/-- Where custom sections are allowed, it does not matter whether there are any. -/
theorem check_of_allowCustom (c : Contract) (hasCustom : Bool) :
    { c with hasCustom }.check { allowCustom := true } = c.check { allowCustom := true } := by
  rw [check_eq, check_eq]
  simp only [not_true_eq_false, and_false, if_false]
  rfl

/-- Where custom sections are not allowed, only a start section is a greater fault than one. -/
theorem check_of_hasCustom (h : c.hasCustom = true) :
    c.check { allowCustom := false } =
      .error (if c.hasStart then .hasStart else .hasCustom) := by
  rw [check_eq, h]
  cases c.hasStart <;> rfl

end Contract

/-- **Custom sections make no difference** where they are allowed. If a stream is read strictly up
to some place, a custom section may be put there: the canonical bytes of the stream stay the same,
or else the fault that is found in its module, and an error behind the place moves on by the size of
the section. Where custom sections are not allowed, the section is a fault, and only a start section
is a greater one. -/
theorem custom_section_makes_no_difference {bytes custom : List UInt8} {place : Nat}
    {c₀ : Contract} (hfront : Contract.read (bytes.take place) = .ok c₀)
    (hcustom : IsCustomSection custom) :
    let longer := bytes.take place ++ custom ++ bytes.drop place
    (∀ c, Contract.read bytes = .ok c →
      canonicalize { allowCustom := true } longer = canonicalize { allowCustom := true } bytes ∧
      ∃ m, Module.decode bytes = .ok m ∧ canonicalize { allowCustom := false } longer =
        .error (.validation (if m.Has .start then .hasStart else .hasCustom))) ∧
    (∀ id offset cause, Contract.read bytes = .error (.inSection id offset cause) →
      Contract.read longer = .error (.inSection id (offset + custom.length) cause)) ∧
    ∀ cause, Contract.read bytes ≠ .error (.inHeader cause) := by
  intro longer
  obtain ⟨p, hp, rfl, content, hcontent⟩ := hcustom.exists_exact
  have hlonger := Contract.read_insert_custom hfront hp hcontent (bytes.drop place)
  rw [List.take_append_drop] at hlonger
  refine ⟨fun c hread => ?_, fun id offset cause herror => ?_, fun cause => ?_⟩
  · rw [hread, Except.ok_mapError, Except.ok_map] at hlonger
    obtain ⟨m, hdecode, hc⟩ := Contract.eq_ofModule_of_read hread
    have hstart : c.hasStart = decide (m.Has .start) := congrArg Contract.hasStart hc
    refine ⟨?_, m, hdecode, ?_⟩
    · rw [canonicalize_eq, canonicalize_eq, hlonger, hread]
      simp only [Except.ok_mapError, Except.ok_bind, Contract.check_of_allowCustom]
    · rw [canonicalize_eq, hlonger, Except.ok_mapError, Except.ok_bind,
        Contract.check_of_hasCustom rfl, hstart]
      simp only [decide_eq_true_eq]
      rfl
  · rw [herror] at hlonger
    rw [hlonger, Nat.add_comm]
    rfl
  · rw [← List.take_append_drop place bytes]
    exact Contract.read_append_ne_inHeader hfront _ cause

/-- A name section whose size is written in two bytes, put in between the type and the code of the
function `main`; and the same with a section of no kind at the end. -/
theorem custom_section_makes_no_difference_names :
    let front : List UInt8 := Header.magic ++ [0x01, 0x00, 0x00, 0x00,
      0x01, 0x04, 0x01, 0x60, 0x00, 0x00, 0x03, 0x02, 0x01, 0x00]
    let back : List UInt8 := [0x05, 0x03, 0x01, 0x00, 0x01,
      0x07, 0x11, 0x02, 0x06, 0x6d, 0x65, 0x6d, 0x6f, 0x72, 0x79, 0x02, 0x00,
      0x04, 0x6d, 0x61, 0x69, 0x6e, 0x00, 0x00, 0x0a, 0x04, 0x01, 0x02, 0x00, 0x0b]
    let names : List UInt8 :=
      [0x00, 0x89, 0x00, 0x04, 0x6e, 0x61, 0x6d, 0x65, 0x00, 0x02, 0x01, 0x61]
    (∃ c₀, Contract.read front = .ok c₀) ∧ IsCustomSection names ∧
      (∃ c, Contract.read (front ++ back) = .ok c) ∧
      canonicalize { allowCustom := true } (front ++ back) = .ok (front ++ back) ∧
      canonicalize { allowCustom := true } (front ++ names ++ back) = .ok (front ++ back) ∧
      canonicalize { allowCustom := false } (front ++ names ++ back) =
        .error (.validation .hasCustom) ∧
      Contract.read (front ++ (back ++ [0x0c, 0x00])) =
        .error (.inSection 0x0c 48 (.invalidSectionId 0x0c)) ∧
      Contract.read (front ++ names ++ (back ++ [0x0c, 0x00])) =
        .error (.inSection 0x0c 60 (.invalidSectionId 0x0c)) := by
  intro front back names
  let c : Contract := {
    types := [⟨.func, [], []⟩]
    functions := [0]
    exports := [⟨"memory", .memory, 0⟩, ⟨"main", .func, 0⟩]
    bytes := front ++ back }
  let c₀ : Contract := { types := [⟨.func, [], []⟩], functions := [0], bytes := front }
  have hfront : Contract.read front = .ok c₀ := by decide +kernel
  have hnames : IsCustomSection names := by
    refine ⟨⟨0, names.drop 3, names⟩, (.custom (.names ⟨some "a", []⟩), []), ?_⟩
    decide +kernel
  have hread : Contract.read (front ++ back) = .ok c := by decide +kernel
  have herror : Contract.read (front ++ (back ++ [0x0c, 0x00])) =
      .error (.inSection 0x0c 48 (.invalidSectionId 0x0c)) := by
    decide +kernel
  have hcanonical : canonicalize { allowCustom := true } (front ++ back) = .ok (front ++ back) := by
    decide +kernel
  have hplace : ∀ rest, Contract.read ((front ++ rest).take 18) = .ok c₀ := by
    intro rest
    have htake : (front ++ rest).take 18 = front := List.take_left' rfl
    rw [htake, hfront]
  obtain ⟨hinsert, -⟩ := custom_section_makes_no_difference (hplace back) hnames
  obtain ⟨-, hshift, -⟩ := custom_section_makes_no_difference (hplace (back ++ [0x0c, 0x00])) hnames
  obtain ⟨hallowed, m, hdecode, hforbidden⟩ := hinsert c hread
  have hstart : ¬m.Has .start := by
    have hm : Module.decode (front ++ back) = .ok ⟨{}, [.types c.types, .functions [0],
        .memories [⟨0, 1, none⟩], .exports c.exports, .bodies [⟨[], [0x0b]⟩]]⟩ := by
      decide +kernel
    cases hm.symm.trans hdecode
    decide
  rw [if_neg hstart] at hforbidden
  exact ⟨⟨c₀, hfront⟩, hnames, ⟨c, hread⟩, hcanonical, hallowed.trans hcanonical, hforbidden,
    herror, hshift _ _ _ herror⟩

end WasmContract
