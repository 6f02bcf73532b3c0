import WasmContract.Proofs.Contract.Strictness
import WasmContract.Proofs.Module.Sections

/-!
# The places of errors

An error says where it arose. A stream without a header fails in the header; any other failure is
placed at the first byte of a section, all sections before it are read, and this section cannot be
(`Located`). The lenient decoder and the strict reader both place their errors so
(`errors_are_located`). What cannot be read of a module is at fault itself: no error is about the
parsing machinery, and only the strict reader complains about bytes that are left unread.
-/

namespace WasmContract

open Reader

/-! ### Headers that cannot be read -/

namespace Header

/-- Why a stream has no header: it is too short for one, as far as it goes like a header, or it
opens with other bytes. -/
inductive Fault (bytes : List UInt8) : DecodeError → Prop where
  /-- There are fewer than eight bytes, and the first four, if there are as many, are right. -/
  | short : bytes.length < size → (bytes.length < 4 ∨ bytes.take 4 = magic) →
      Fault bytes .unexpectedEnd
  /-- There are four bytes, and they are not those that open a module. -/
  | magic : 4 ≤ bytes.length → bytes.take 4 ≠ magic → Fault bytes (.invalidMagic (bytes.take 4))

theorem word32_eq_error {input : List UInt8} {cause : DecodeError}
    (h : word32 input = .error cause) : input.length < 4 ∧ cause = .unexpectedEnd := by
  match input, h with
  | [], h | [_], h | [_, _], h | [_, _, _], h =>
    cases h
    exact ⟨by simp, rfl⟩
  | _ :: _ :: _ :: _ :: _, h => cases h

/-- A stream whose header cannot be read has none. -/
theorem fault_of_reader_eq_error {bytes : List UInt8} {cause : DecodeError}
    (h : reader bytes = .error cause) : Fault bytes cause := by
  rcases bind_eq_error_iff.mp h with h | ⟨found, rest, hfound, h⟩
  · obtain ⟨hlength, rfl⟩ := bytes_eq_error_iff.mp h
    exact .short (Nat.lt_trans hlength (by decide)) (.inl hlength)
  · obtain ⟨used, rfl, hused⟩ := (Lawful.bytes 4).ok hfound
    obtain ⟨rfl, hlength⟩ := hused.eq_of_bytes
    have htake : (used ++ rest).take 4 = used := List.take_left' hlength
    split at h
    · rename_i hmagic
      cases h
      have hfault : Fault (used ++ rest) (.invalidMagic ((used ++ rest).take 4)) :=
        .magic (by simp [hlength]) (htake.symm ▸ hmagic)
      rwa [htake] at hfault
    · rename_i hmagic
      rcases bind_eq_error_iff.mp h with h | ⟨version, left, -, h⟩
      · obtain ⟨hrest, rfl⟩ := word32_eq_error h
        refine .short ?_ (.inr (htake.trans (not_not.mp hmagic)))
        rw [List.length_append, hlength]
        exact Nat.add_lt_add_left hrest 4
      · cases h

end Header

/-! ### Sections that cannot be read -/

/-- Reads the section at the front of some bytes. -/
def firstSection (decode : Frame → Except DecodeError Section) (bytes : List UInt8) :
    Except DecodeError Section :=
  (Frame.reader bytes).bind fun p => decode p.1

/-- The section that starts at an offset is the first one that a way to read streams fails at. -/
structure FailsAt {α : Type} (read : List UInt8 → Except ModuleError α)
    (decode : Frame → Except DecodeError Section) (bytes : List UInt8) (id : UInt8) (offset : Nat)
    (cause : DecodeError) : Prop where
  /-- The section stands behind the header. -/
  size_le : Header.size ≤ offset
  /-- There is something of the section. -/
  lt_length : offset < bytes.length
  /-- The section is named by its first byte, whatever this byte is. -/
  id : bytes[offset]? = some id
  /-- All that stands before the section is read. -/
  front : ∃ a, read (bytes.take offset) = .ok a
  /-- The section itself cannot be read, for the cause that is given. -/
  first : firstSection decode (bytes.drop offset) = .error cause

/-- The error is placed where it arose: in the header, or in the first section that fails. -/
def Located {α : Type} (read : List UInt8 → Except ModuleError α)
    (decode : Frame → Except DecodeError Section) (bytes : List UInt8) : ModuleError → Prop
  | .inHeader cause => Header.Fault bytes cause
  | .inSection id offset cause => FailsAt read decode bytes id offset cause

variable {decode : Frame → Except DecodeError Section} {offset : Nat} {bytes : List UInt8}
  {e : ModuleError}

/-- **Sections fail at the first one that cannot be read**, and are read up to there. -/
theorem exists_split_of_decodeSections (h : decodeSections decode offset bytes = .error e) :
    ∃ front id left cause parts, bytes = front ++ id :: left ∧
      decodeSections decode offset front = .ok parts ∧
      firstSection decode (id :: left) = .error cause ∧
      e = .inSection id (offset + front.length) cause := by
  induction bytes using Framing.induction generalizing offset with
  | nil => cases h
  | error b rest cause herror =>
    rw [decodeSections_of_error herror] at h
    cases h
    exact ⟨[], b, rest, cause, [], rfl, rfl, by rw [firstSection, herror]; rfl, rfl⟩
  | frame f rest hf ih =>
    rw [decodeSections_frame hf] at h
    cases hdecode : decode f with
    | error cause =>
      rw [hdecode] at h
      cases h
      obtain ⟨used, hused, -⟩ := hf.exists_sized
      have hread := hf rest
      rw [hused, List.cons_append] at hread ⊢
      refine ⟨[], f.id, used ++ rest, cause, [], rfl, rfl, ?_, rfl⟩
      rw [firstSection, hread]
      exact hdecode
    | ok content =>
      rw [hdecode, Except.ok_mapError, Except.ok_bind, Except.map_eq_error_iff] at h
      obtain ⟨front, id, left, cause, parts, rfl, hparts, hfirst, rfl⟩ := ih h
      refine ⟨f.bytes ++ front, id, left, cause, ⟨f, content⟩ :: parts,
        (List.append_assoc ..).symm, ?_, hfirst, ?_⟩
      · rw [decodeSections_frame hf, hdecode, Except.ok_mapError, Except.ok_bind, hparts,
          Except.ok_map]
      · rw [List.length_append, Nat.add_assoc]

/-- **An error of a stream is located**, by any way to read streams that succeeds where the stream
is decoded. -/
theorem located_of_decodeStream {α : Type} {read : List UInt8 → Except ModuleError α}
    (hread : ∀ bytes p, decodeStream decode bytes = .ok p → ∃ a, read bytes = .ok a)
    (h : decodeStream decode bytes = .error e) : Located read decode bytes e := by
  rcases Header.cases_reader bytes with
    ⟨cause, herror⟩ | ⟨header, opening, body, rfl, hlength, hreads⟩
  · rw [decodeStream_of_error herror] at h
    cases h
    exact Header.fault_of_reader_eq_error herror
  · rw [decodeStream_of_reads hreads, Except.map_eq_error_iff] at h
    obtain ⟨front, id, left, cause, parts, rfl, hparts, hfirst, rfl⟩ :=
      exists_split_of_decodeSections h
    have hsplit : opening ++ (front ++ id :: left) = (opening ++ front) ++ id :: left :=
      (List.append_assoc ..).symm
    have hoffset : (opening ++ front).length = Header.size + front.length := by
      rw [List.length_append, hlength]
    have hfront : decodeStream decode (opening ++ front) = .ok (header, parts) := by
      rw [decodeStream_of_reads hreads, hparts, Except.ok_map]
    rw [hsplit]
    exact {
      size_le := Nat.le_add_right _ _
      lt_length := by rw [List.length_append, hoffset, List.length_cons]; omega
      id := by rw [← hoffset, List.getElem?_append_right (Nat.le_refl _), Nat.sub_self]; rfl
      front := by rw [List.take_left' hoffset]; exact hread _ _ hfront
      first := by rw [List.drop_left' hoffset]; exact hfirst }

/-! ### Modules and contracts -/

/-- The errors of the lenient decoder are located. -/
theorem Module.located_of_decode (h : Module.decode bytes = .error e) :
    Located Module.decode Frame.decodeLeniently bytes e := by
  rw [decode_eq, Except.map_eq_error_iff] at h
  refine located_of_decodeStream (fun bytes p hp => ?_) h
  exact ⟨_, by rw [decode_eq, hp, Except.ok_map]⟩

/-- The errors of the strict reader are located, by strict decoding. -/
theorem Contract.located_of_read (h : Contract.read bytes = .error e) :
    Located Contract.read Frame.decodeStrictly bytes e := by
  rw [read_eq, Except.map_eq_error_iff] at h
  refine located_of_decodeStream (fun bytes p hp => ?_) h
  exact ⟨_, by rw [read_eq, hp, Except.ok_map]⟩

/-- The lenient decoder fails because the bytes are at fault, and for no other reason. -/
theorem Module.cause_of_decode (h : Module.decode bytes = .error e) : e.rootCause.OfBytes := by
  rw [decode_eq, Except.map_eq_error_iff] at h
  rcases cause_of_decodeStream h with h | ⟨frame, hframe⟩
  · exact h
  · rw [Frame.decodeLeniently, Except.map_eq_error_iff] at hframe
    exact Section.ofBytes_of_ofPayload hframe

/-- **Errors are located.** A stream that cannot be decoded has no header, and the error says why,
or it fails in a section: the offset is that of the first section that cannot be decoded, all before
it is decoded, and the section is named by its first byte. Strict reading places its errors in the
same way. The cause is one of malformed bytes: it is never about the parsing machinery, about
entries to be written, or, for the lenient decoder, about bytes left unread. -/
theorem errors_are_located (bytes : List UInt8) :
    (∀ e, Module.decode bytes = .error e →
      Located Module.decode Frame.decodeLeniently bytes e ∧
      (∀ name, e.rootCause ≠ .parser name) ∧
      (∀ kind remaining, e.rootCause ≠ .trailingBytes kind remaining) ∧
      ∀ quantity found limit, e.rootCause ≠ .exportBound quantity found limit) ∧
    ∀ e, Contract.read bytes = .error e →
      Located Contract.read Frame.decodeStrictly bytes e ∧ ∀ name, e.rootCause ≠ .parser name := by
  constructor
  · intro e h
    have hcause := Module.cause_of_decode h
    refine ⟨Module.located_of_decode h, fun name heq => ?_, fun kind remaining heq => ?_,
      fun quantity found limit heq => ?_⟩ <;> rw [heq] at hcause <;> exact hcause
  · intro e h
    refine ⟨Contract.located_of_read h, fun name heq => ?_⟩
    rcases Contract.cause_of_read h with hcause | ⟨kind, count, hcause⟩
    · rw [heq] at hcause
      exact hcause
    · cases heq.symm.trans hcause

/-- A start section that leaves a byte unread, and behind it a section that starts with a byte above
127: the strict reader fails at the first, and the lenient decoder at the second. A stream of other
bytes has no header. -/
theorem errors_are_located_foreign_first_byte :
    let bytes := Header.magic ++ [0x01, 0x00, 0x00, 0x00, 0x08, 0x02, 0x05, 0x00, 0xff, 0x01]
    let malformed : DecodeError := .malformedEncoding .varuint7 2
    let trailing : DecodeError := .trailingBytes .start 1
    Module.decode bytes = .error (.inSection 0xff 12 malformed) ∧
      FailsAt Module.decode Frame.decodeLeniently bytes 0xff 12 malformed ∧
      Contract.read bytes = .error (.inSection 0x08 8 trailing) ∧
      FailsAt Contract.read Frame.decodeStrictly bytes 0x08 8 trailing ∧
      Header.Fault (bytes.drop 1) (.invalidMagic [0x61, 0x73, 0x6d, 0x01]) := by
  intro bytes malformed trailing
  have hdecode : Module.decode bytes = .error (.inSection 0xff 12 malformed) := by decide +kernel
  have hread : Contract.read bytes = .error (.inSection 0x08 8 trailing) := by decide +kernel
  have hheader : Module.decode (bytes.drop 1) =
      .error (.inHeader (.invalidMagic [0x61, 0x73, 0x6d, 0x01])) := by
    decide +kernel
  exact ⟨hdecode, ((errors_are_located bytes).1 _ hdecode).1, hread,
    ((errors_are_located bytes).2 _ hread).1, ((errors_are_located _).1 _ hheader).1⟩

end WasmContract
